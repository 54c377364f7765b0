import Rdq.Postgres.Migrations

/-!
# The schema gates

`storage/postgres/schema.go`, `CheckSchemaVersion` and `CheckTaskContract`, and
`SchemaGate.java`: before an engine binds to a database it reads the versions that the
migrations have left in `rdq_schema_version`. The scripts under `migrations/` each lead
from one stage of the schema to the next, and back. So after any calls of the runner,
whatever failed in them, the schema is at the stage of the ledger, and the gates say so.

## Implementation notes

Of a script the model keeps which tables, indexes and columns of `rdq_schema_version` it
creates and drops, and what it writes there; the runner reads the text of a script only to
see that it is not blank, so the name of the file stands for it. The database holds nothing
else when the first call is made.
-/

namespace Rdq.Postgres

open Foundation

/-! ## Scripts that lead from stage to stage -/

section Stages
variable {σ : Type} (exec : String → σ → Option σ) (list : MigrationList) (stage : Int → σ)

/-- Each script leads from the stage before its version to the stage of its version, and
back. -/
structure Staged : Prop where
  up : ∀ m ∈ list.migs, exec m.up (stage (m.version - 1)) = some (stage m.version)
  down : ∀ m ∈ list.migs, exec m.down (stage m.version) = some (stage (m.version - 1))

/-- The schema is at the stage of the ledger. -/
def AtStage (db : SchemaState σ) : Prop :=
  ∃ k : Int, 0 ≤ k ∧ k ≤ list.migs.length ∧ LedgerIs db k ∧ db.schema = stage k

variable {exec list stage} {db db' : SchemaState σ} {f : TxFaults} {m : Migration}

/-- A body that succeeds has run its script. -/
theorem schema_of_txBody {script : String}
    {record : KeyedTable LedgerRow.version → Option (KeyedTable LedgerRow.version)}
    (h : txBody exec f script record db = some db') : exec script db.schema = some db'.schema := by
  rw [txBody] at h
  split at h
  · cases h
  · split at h
    · cases h
    · rename_i schema hexec
      split at h
      · cases h
      · obtain ⟨t, -, rfl⟩ := Option.map_eq_some_iff.mp h
        exact hexec

/-- The loop of `Migrate` stands at stage `j`, with the versions after it left to run. -/
structure UpAt (list : MigrationList) (stage : Int → σ) (left : List Migration)
    (db : SchemaState σ) (j : Int) : Prop where
  nonneg : 0 ≤ j
  ledger : LedgerIs db j
  schema : db.schema = stage j
  order : CountUp (j + 1) left
  length : j + left.length = list.migs.length
  subset : ∀ m ∈ left, m ∈ list.migs

theorem UpAt.step (hstaged : Staged exec list stage) {rest : List Migration} {j : Int}
    (h : UpAt list stage (m :: rest) db j) (hbody : migrationBody exec .up f m db = some db') :
    UpAt list stage rest db' (j + 1) := by
  obtain ⟨hv, hrest⟩ := h.order
  have hlen := h.length
  have hnonneg := h.nonneg
  rw [List.length_cons] at hlen
  push_cast at hlen
  refine ⟨by omega, ledgerIs_up hbody h.ledger h.nonneg hv, ?_, hrest, by omega,
    fun m' hm' => h.subset m' (List.mem_cons_of_mem m hm')⟩
  have hexec := hstaged.up m (h.subset m List.mem_cons_self)
  have hpred : m.version - 1 = j := by omega
  rw [hpred, hv, ← h.schema] at hexec
  exact Option.some.inj ((schema_of_txBody hbody).symm.trans hexec)

theorem AtStage.upAt (h : AtStage list stage db) :
    ∃ k, UpAt list stage (list.migs.filter fun m => !appliedVersions (ensureLedger db) m.version)
      (ensureLedger db) k := by
  obtain ⟨k, hk, hkn, hledger, hschema⟩ := h
  have hensure := ledgerIs_ensureLedger hledger
  refine ⟨k, hk, hensure, hschema, ?_, ?_, fun m hm => List.mem_of_mem_filter hm⟩
  · rw [pick_up list.gapFree hensure]
    have hcount := countUp_filter list.gapFree k
    rw [max_eq_right (by omega)] at hcount
    exact hcount
  · rw [pick_up list.gapFree hensure]
    have hlen := @length_filter_countUp list.migs 1 list.gapFree k (by omega) (by omega)
    omega

theorem UpAt.atStage {left : List Migration} {j : Int} (h : UpAt list stage left db j) :
    AtStage list stage db :=
  ⟨j, h.nonneg, by have := h.length; omega, h.ledger, h.schema⟩

theorem atStage_ensureLedger (h : AtStage list stage db) :
    AtStage list stage (ensureLedger db) := by
  obtain ⟨k, hk, hkn, hledger, hschema⟩ := h
  exact ⟨k, hk, hkn, ledgerIs_ensureLedger hledger, hschema⟩

theorem AtStage.migrate (hstaged : Staged exec list stage) (h : AtStage list stage db)
    (f : CallFaults) : AtStage list stage (migrate exec list f db).1 := by
  unfold Postgres.migrate runCall
  split
  · exact h
  split
  · exact atStage_ensureLedger h
  obtain ⟨-, rest, ⟨j, hlast⟩, -⟩ := runAll_rule f.tx
    (P := fun left db => ∃ j, UpAt list stage left db j)
    (fun _ _ _ _ _ ⟨j, hj⟩ hbody => ⟨j + 1, hj.step hstaged hbody⟩) h.upAt
  exact hlast.atStage

theorem AtStage.migrateDown (hstaged : Staged exec list stage) (h : AtStage list stage db)
    (target : Int) (f : CallFaults) : AtStage list stage (migrateDown exec list target f db).1 := by
  unfold Postgres.migrateDown runCall
  split
  · exact h
  split
  · exact atStage_ensureLedger h
  -- the versions that are left count down from the end of the ledger
  let P (left : List Migration) (db : SchemaState σ) : Prop :=
    ∃ j : Int, 0 ≤ j ∧ j ≤ list.migs.length ∧ LedgerIs db j ∧ db.schema = stage j ∧
      CountDown j left ∧ ∀ m ∈ left, m ∈ list.migs
  have hstep : ∀ m rest f db db', P (m :: rest) db →
      migrationBody exec .down f m db = some db' → P rest db' := by
    rintro m rest f db db' ⟨j, hj, hjn, hledger, hschema, ⟨hv, hrest⟩, hsub⟩ hbody
    have hpos := le_of_mem_countUp list.gapFree (hsub m List.mem_cons_self)
    refine ⟨j - 1, by omega, by omega, ledgerIs_down hbody hledger hv, ?_, hrest,
      fun m' hm' => hsub m' (List.mem_cons_of_mem m hm')⟩
    have hexec := hstaged.down m (hsub m List.mem_cons_self)
    rw [hv, ← hschema] at hexec
    exact Option.some.inj ((schema_of_txBody hbody).symm.trans hexec)
  obtain ⟨k, hk, hkn, hledger, hschema⟩ := h
  have hensure := ledgerIs_ensureLedger hledger
  have hstart : P (list.migs.reverse.filter fun m =>
      !(!appliedVersions (ensureLedger db) m.version || decide (m.version ≤ target)))
      (ensureLedger db) := by
    refine ⟨k, hk, hkn, hensure, hschema, ?_, fun m hm => ?_⟩
    · rw [pick_down list.migs.reverse hensure target]
      have hcount := countDown_filter (countDown_reverse list.gapFree) (max target 0) k
      rw [min_eq_right (by omega)] at hcount
      exact hcount
    · exact List.mem_reverse.mp (List.mem_of_mem_filter hm)
  obtain ⟨-, rest, ⟨j, hj, hjn, hlast, hlast', -⟩, -⟩ := runAll_rule f.tx hstep hstart
  exact ⟨j, hj, hjn, hlast, hlast'⟩

/-- Without faults every version that is left is applied. -/
theorem runAll_succeeds (hstaged : Staged exec list stage) {left : List Migration} {j : Int}
    (h : UpAt list stage left db j) (hledger : db.ledger.isSome = true) :
    (runAll exec .up (fun _ => {}) left db).2.error = none ∧
      UpAt list stage [] (runAll exec .up (fun _ => {}) left db).1 list.migs.length := by
  induction left generalizing db j with
  | nil =>
    have hj : j = list.migs.length := by simpa using h.length
    exact ⟨rfl, hj ▸ h⟩
  | cons m rest ih =>
    obtain ⟨hv, -⟩ := h.order
    obtain ⟨t, ht⟩ := Option.isSome_iff_exists.mp hledger
    have hexec := hstaged.up m (h.subset m List.mem_cons_self)
    have hpred : m.version - 1 = j := by omega
    rw [hpred, ← h.schema] at hexec
    have hnew : t.find? m.version = none := by
      rw [← Option.not_isSome_iff_eq_none, ← recorded_of_ledger ht, h.ledger]
      omega
    have hbody : migrationBody exec .up {} m db =
        some ⟨stage m.version, some (t.insertNew ⟨m.version, m.name⟩)⟩ := by
      simp only [migrationBody, txBody, hexec, ht, Option.bind_some, insertVersion, hnew, if_true,
        Option.map_some, Bool.true_eq_false, if_false]
    have hrun : runInTx exec .up {} m db =
        (⟨stage m.version, some (t.insertNew ⟨m.version, m.name⟩)⟩, some ⟨.up, m.version, db,
          ⟨stage m.version, some (t.insertNew ⟨m.version, m.name⟩)⟩, true⟩, true) := by
      simp only [runInTx, hbody, Bool.true_eq_false, if_false]
    have hrest := ih (h.step hstaged hbody) rfl
    rw [runAll, hrun]
    exact hrest

/-- A `Migrate` in which nothing fails brings the schema to its last stage. -/
theorem AtStage.migrate_succeeds (hstaged : Staged exec list stage) (h : AtStage list stage db) :
    (Postgres.migrate exec list {} db).2.error = none ∧
      (Postgres.migrate exec list {} db).1.schema = stage list.migs.length := by
  obtain ⟨k, hk⟩ := h.upAt
  obtain ⟨herr, hlast⟩ := runAll_succeeds hstaged hk rfl
  exact ⟨herr, hlast.schema⟩

end Stages

/-! ## The scripts -/

/-- The row of `rdq_schema_version`; a column that is missing or NULL has no contract. -/
structure VersionRow where
  version : Int
  taskContractVersion : Option Int := none
deriving DecidableEq, Repr

/-- What the scripts make of a database. -/
structure Catalog where
  tables : List String := []
  /-- The indexes with their tables. -/
  indexes : List (String × String) := []
  versionRow : Option VersionRow := none
  /-- `rdq_schema_version` has the column `task_contract_version`. -/
  contractColumn : Bool := false
deriving DecidableEq, Repr

inductive Statement
  | createTable (name : String)
  | createIndex (name table : String)
  | dropTableIfExists (name : String)
  /-- `INSERT INTO rdq_schema_version (singleton, version) VALUES (true, v)`. -/
  | insertVersion (version : Int)
  /-- `UPDATE rdq_schema_version SET .. WHERE singleton`. -/
  | updateVersion (version : Int) (contract : Option Int)
  | addContractColumn
  | dropContractColumn
  | setContractNotNull
deriving DecidableEq, Repr

def schemaVersionTable : String := "rdq_schema_version"

/-- Run a statement; none when Postgres refuses it. -/
def Statement.exec (c : Catalog) : Statement → Option Catalog
  | .createTable name =>
    if name ∈ c.tables ∨ name ∈ c.indexes.map Prod.fst then none
    else some { c with tables := c.tables ++ [name] }
  | .createIndex name table =>
    if name ∈ c.tables ∨ name ∈ c.indexes.map Prod.fst ∨ table ∉ c.tables then none
    else some { c with indexes := c.indexes ++ [(name, table)] }
  | .dropTableIfExists name =>
    some
      { tables := c.tables.filter (· ≠ name)
        indexes := c.indexes.filter (·.2 ≠ name)
        versionRow := if name = schemaVersionTable then none else c.versionRow
        contractColumn := if name = schemaVersionTable then false else c.contractColumn }
  | .insertVersion version =>
    if schemaVersionTable ∉ c.tables ∨ c.versionRow.isSome then none
    else some { c with versionRow := some { version := version } }
  | .updateVersion version contract =>
    if schemaVersionTable ∉ c.tables ∨ contract.isSome ∧ c.contractColumn = false then none
    else
      some { c with
        versionRow := c.versionRow.map fun r =>
          { version := version, taskContractVersion := contract <|> r.taskContractVersion } }
  | .addContractColumn =>
    if schemaVersionTable ∉ c.tables ∨ c.contractColumn then none
    else some { c with contractColumn := true }
  | .dropContractColumn =>
    if schemaVersionTable ∉ c.tables ∨ c.contractColumn = false then none
    else
      some { c with
        contractColumn := false
        versionRow := c.versionRow.map fun r => { r with taskContractVersion := none } }
  | .setContractNotNull =>
    if schemaVersionTable ∉ c.tables ∨ c.contractColumn = false ∨
        c.versionRow.any (·.taskContractVersion.isNone) then none
    else some c

/-- The files under `migrations/`. -/
def scripts : List (String × List Statement) :=
  [("0001_init.up.sql",
      [.createTable "rdq_task", .createIndex "rdq_task_due_idx" "rdq_task",
        .createTable "rdq_dlq_task", .createIndex "rdq_dlq_task_page_idx" "rdq_dlq_task",
        .createIndex "rdq_dlq_task_error_type_idx" "rdq_dlq_task",
        .createIndex "rdq_dlq_task_handler_ref_idx" "rdq_dlq_task",
        .createTable "rdq_attempt", .createIndex "rdq_attempt_task_idx" "rdq_attempt",
        .createTable "rdq_schema_version", .insertVersion 1]),
    ("0001_init.down.sql",
      [.dropTableIfExists "rdq_schema_version", .dropTableIfExists "rdq_attempt",
        .dropTableIfExists "rdq_dlq_task", .dropTableIfExists "rdq_task"]),
    ("0002_config.up.sql", [.createTable "rdq_queue_config", .updateVersion 2 none]),
    ("0002_config.down.sql", [.dropTableIfExists "rdq_queue_config", .updateVersion 1 none]),
    ("0003_audit.up.sql",
      [.createTable "rdq_audit", .createIndex "rdq_audit_queue_ts_idx" "rdq_audit",
        .createIndex "rdq_audit_principal_ts_idx" "rdq_audit", .updateVersion 3 none]),
    ("0003_audit.down.sql", [.dropTableIfExists "rdq_audit", .updateVersion 2 none]),
    ("0004_schema_contract.up.sql",
      [.addContractColumn, .updateVersion 4 (some 1), .setContractNotNull]),
    ("0004_schema_contract.down.sql", [.dropContractColumn, .updateVersion 3 none])]

/-- Run a script in its transaction. -/
def execScript (script : String) (c : Catalog) : Option Catalog :=
  (scripts.lookup script).bind fun statements => statements.foldlM Statement.exec c

/-- The migrations as `loadMigrations` finds them. -/
def embedded : MigrationList where
  migs :=
    [⟨1, "init", "0001_init.up.sql", "0001_init.down.sql"⟩,
      ⟨2, "config", "0002_config.up.sql", "0002_config.down.sql"⟩,
      ⟨3, "audit", "0003_audit.up.sql", "0003_audit.down.sql"⟩,
      ⟨4, "schema_contract", "0004_schema_contract.up.sql", "0004_schema_contract.down.sql"⟩]
  gapFree := by decide

example : ((loadMigrations (scripts.map fun s => (s.1, s.1))).toOption.map MigrationList.migs) =
    some embedded.migs := by
  decide +kernel

/-- The schema after the first `n` up scripts. -/
def catalogAfter : List Migration → Catalog → Catalog
  | [], c => c
  | m :: rest, c => catalogAfter rest ((execScript m.up c).getD c)

/-- The stages of the schema. -/
def catalogStage (k : Int) : Catalog := catalogAfter (embedded.migs.take k.toNat) {}

theorem staged_embedded : Staged execScript embedded catalogStage where
  up := by decide +kernel
  down := by decide +kernel

/-! ## The gates -/

def schemaVersion : Int := 4

def taskContractVersion : Int := 1

/-- How a query of a single column may fail. -/
inductive QueryError
  | noRows
  | undefinedTable
  | undefinedColumn
deriving DecidableEq, Repr

/-- What a query finds; NULL is none. -/
def queryVersion (c : Catalog) : Except QueryError (Option Int) :=
  if schemaVersionTable ∉ c.tables then .error .undefinedTable
  else
    match c.versionRow with
    | none => .error .noRows
    | some r => .ok (some r.version)

def queryContract (c : Catalog) : Except QueryError (Option Int) :=
  if schemaVersionTable ∉ c.tables then .error .undefinedTable
  else if c.contractColumn = false then .error .undefinedColumn
  else
    match c.versionRow with
    | none => .error .noRows
    | some r => .ok r.taskContractVersion

inductive GateError
  /-- The text `rdq/postgres: schema not initialized (run migrations)`. -/
  | notInitialized
  | mismatch (text : String)
  /-- Any other error, with the text it is wrapped in. -/
  | reading (context : String)
deriving DecidableEq, Repr

/-- The texts of a mismatch: what is compared, and who compares it. -/
def mismatchText (what who : String) (dbVersion expected : Int) : String :=
  "rdq/postgres: schema version mismatch: database " ++ what ++ " version " ++
    toString dbVersion ++
    (if expected < dbVersion then " is newer than this " else " is older than this ") ++ who ++
    "'s " ++ toString expected ++
    if expected < dbVersion then "; upgrade the " ++ who else "; run migrations"

/-- `checkSchemaVersion`. -/
def checkVersion (dbVersion : Int) : Except GateError Unit :=
  if dbVersion = schemaVersion then .ok ()
  else .error (.mismatch (mismatchText "schema" "engine" dbVersion schemaVersion))

/-- `CheckSchemaVersion`; scanning NULL into an `int` fails. -/
def checkSchemaVersion (c : Catalog) : Except GateError Unit :=
  match queryVersion c with
  | .error .noRows | .error .undefinedTable => .error .notInitialized
  | .error .undefinedColumn | .ok none => .error (.reading "rdq/postgres: reading schema version")
  | .ok (some version) => checkVersion version

/-- `checkTaskContract`. -/
def checkContract (dbVersion : Int) : Except GateError Unit :=
  if dbVersion = taskContractVersion then .ok ()
  else .error (.mismatch (mismatchText "task-contract" "worker" dbVersion taskContractVersion))

/-- `CheckTaskContract`. -/
def checkTaskContract (c : Catalog) : Except GateError Unit :=
  match queryContract c with
  | .error _ => .error .notInitialized
  | .ok none => .error (.reading "rdq/postgres: reading task-contract version")
  | .ok (some version) => checkContract version

namespace SchemaGate

/-- `SchemaGate.check`. -/
def check (databaseContract : Int) : Except GateError Unit :=
  if databaseContract ≠ taskContractVersion then
    .error (.mismatch (mismatchText "schema" "engine" databaseContract taskContractVersion))
  else .ok ()

/-- `SchemaGate.verify`; `getInt` reads NULL as zero. -/
def verify (c : Catalog) : Except GateError Unit :=
  match queryContract c with
  | .error _ => .error .notInitialized
  | .ok contract => check (contract.getD 0)

end SchemaGate

/-- What the gates say at each stage. -/
theorem gates_at_stage (k : Int) (hk : 0 ≤ k) (hk' : k ≤ 4) :
    checkSchemaVersion (catalogStage k) =
        (if k = 0 then .error .notInitialized
        else if k = 4 then .ok ()
        else .error (.mismatch ("rdq/postgres: schema version mismatch: database schema version " ++
          toString k ++ " is older than this engine's 4; run migrations"))) ∧
      checkTaskContract (catalogStage k) =
        (if k = 4 then .ok () else .error .notInitialized) ∧
      SchemaGate.verify (catalogStage k) = checkTaskContract (catalogStage k) := by
  obtain rfl | rfl | rfl | rfl | rfl : k = 0 ∨ k = 1 ∨ k = 2 ∨ k = 3 ∨ k = 4 := by omega
  all_goals exact ⟨by decide +kernel, by decide +kernel, by decide +kernel⟩

/-- The gates follow the ledger. After any calls of the runner on an empty database, whatever
failed in them, the first `k` versions are recorded and the gate of the server tells `k`
from the version it expects; the gates of the Go and the Java worker agree, and pass exactly
when the gate of the server passes. A `Migrate` in which nothing fails then succeeds, and
opens all three. -/
theorem gates_follow_the_ledger (calls : List MigrationCall) :
    let db := run (migrationStep execScript embedded) ⟨{}, none⟩ calls
    (∃ k : Int, 0 ≤ k ∧ k ≤ 4 ∧ LedgerIs db k ∧
      checkSchemaVersion db.schema =
        (if k = 0 then .error .notInitialized
        else if k = 4 then .ok ()
        else .error (.mismatch ("rdq/postgres: schema version mismatch: database schema version " ++
          toString k ++ " is older than this engine's 4; run migrations"))) ∧
      checkTaskContract db.schema = (if k = 4 then .ok () else .error .notInitialized) ∧
      SchemaGate.verify db.schema = checkTaskContract db.schema) ∧
    (migrate execScript embedded {} db).2.error = none ∧
      checkSchemaVersion (migrate execScript embedded {} db).1.schema = .ok () ∧
      checkTaskContract (migrate execScript embedded {} db).1.schema = .ok () ∧
      SchemaGate.verify (migrate execScript embedded {} db).1.schema = .ok () := by
  intro db
  have hnew : AtStage embedded catalogStage (⟨{}, none⟩ : SchemaState Catalog) := by
    refine ⟨0, le_rfl, by decide, ?_, rfl⟩
    intro v
    refine iff_of_false ?_ (by omega)
    rintro ⟨t, ht, -⟩
    cases ht
  have hstage : AtStage embedded catalogStage db := by
    refine run_invariant (c := fun _ _ => True) hnew ?_ (allSteps_of_forall (fun _ _ => trivial) _)
    rintro db call h -
    cases call with
    | migrate f => exact h.migrate staged_embedded f
    | migrateDown target f => exact h.migrateDown staged_embedded target f
  refine ⟨?_, ?_⟩
  · obtain ⟨k, hk, hk', hledger, hschema⟩ := hstage
    rw [hschema]
    exact ⟨k, hk, hk', hledger, gates_at_stage k hk hk'⟩
  · obtain ⟨herr, hlast⟩ := hstage.migrate_succeeds staged_embedded
    obtain ⟨hserver, hworker, hjava⟩ := gates_at_stage 4 (by decide) (by decide)
    have hlast' : (migrate execScript embedded {} db).1.schema = catalogStage 4 := hlast
    rw [hlast']
    exact ⟨herr, hserver, hworker, hjava.trans hworker⟩

end Rdq.Postgres
