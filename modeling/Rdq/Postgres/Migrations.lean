import Mathlib.Algebra.Group.Int.Defs
import Mathlib.Data.List.Sort
import Rdq.Foundation.ByteText
import Rdq.Foundation.Fallible
import Rdq.Foundation.KeyedTable
import Rdq.Foundation.Trace

/-!
# Schema migrations

The migration runner of `storage/postgres/schema.go`. Each script runs in a transaction of
its own together with its entry in the ledger, and the runner reads the ledger before it
starts. So the ledger stays a prefix of the versions, whatever statement of a call fails.

## Implementation notes

What a script does to the schema is a function on an arbitrary type, which may fail.
Every statement of a call may fail, and the answer to a commit may be lost after the
commit. A call that is cut off ends at the statement that fails.
-/

namespace Rdq.Postgres

open Foundation

/-! ## Loading -/

structure Migration where
  version : Int
  name : String
  up : String
  down : String
deriving DecidableEq, Repr

/-- The versions of a list go up by one from `v`. -/
def CountUp : Int → List Migration → Prop
  | _, [] => True
  | v, m :: rest => m.version = v ∧ CountUp (v + 1) rest

instance decidableCountUp : (v : Int) → (migs : List Migration) → Decidable (CountUp v migs)
  | _, [] => instDecidableTrue
  | v, _ :: rest =>
    have := decidableCountUp (v + 1) rest
    inferInstanceAs (Decidable (_ ∧ _))

/-- A list of migrations without a gap from 1. -/
structure MigrationList where
  migs : List Migration
  gapFree : CountUp 1 migs

inductive LoadError
  /-- The text `migration "f" missing .up/.down suffix`. -/
  | missingSuffix (filename : String)
  /-- The text `migration "f" has unknown direction "d"`. -/
  | unknownDirection (filename direction : String)
  /-- The text `migration "f" missing NNNN_name prefix`. -/
  | missingNumber (filename : String)
  /-- The text `migration "f" has non-numeric version`, followed by the error of `Atoi`. -/
  | nonNumeric (filename : String)
  /-- The text `migration NNNN has conflicting names "a" and "b"`. -/
  | conflictingNames (version : Int) (old new : String)
  /-- The text `migration NNNN (name) is missing its up script`. -/
  | missingUp (version : Int) (name : String)
  /-- The text `migration NNNN (name) is missing its down script`. -/
  | missingDown (version : Int) (name : String)
  /-- The text `migration versions must be gap-free from 1; got v at position p`. -/
  | gap (version position : Int)
deriving DecidableEq, Repr

inductive Direction
  | up
  | down
deriving DecidableEq, Repr

def hasSqlSuffix (filename : String) : Bool :=
  ".sql".toList.reverse.isPrefixOf filename.toList.reverse

/-- `strconv.Atoi`. -/
def atoi (text : List Char) : Option Int := (parseInt64 text).map Int64.toInt

/-- The file `0001_init.up.sql` is the up script of version 1 with the name `init`. -/
def parseMigrationName (filename : String) : Except LoadError (Int × String × Direction) :=
  let base := if hasSqlSuffix filename then filename.toList.dropLast.dropLast.dropLast.dropLast
    else filename.toList
  if '.' ∉ base then .error (.missingSuffix filename)
  else
    let direction := String.ofList (base.reverse.takeWhile (· != '.')).reverse
    let rest := ((base.reverse.dropWhile (· != '.')).drop 1).reverse
    if direction ≠ "up" ∧ direction ≠ "down" then .error (.unknownDirection filename direction)
    else if '_' ∉ rest then .error (.missingNumber filename)
    else
      match atoi (rest.takeWhile (· != '_')) with
      | none => .error (.nonNumeric filename)
      | some version =>
        .ok (version, String.ofList ((rest.dropWhile (· != '_')).drop 1),
          if direction = "up" then .up else .down)

/-- Put one file into the migrations found so far. -/
def addFile (migs : List Migration) (file : String × String) :
    Except LoadError (List Migration) := do
  let (version, name, direction) ← parseMigrationName file.1
  let old := (migs.find? (·.version = version)).getD ⟨version, name, "", ""⟩
  if old.name ≠ name then .error (.conflictingNames version old.name name)
  else
    let new := match direction with
      | .up => { old with up := file.2 }
      | .down => { old with down := file.2 }
    .ok (new :: migs.filter (·.version ≠ version))

def isBlank (text : String) : Bool := ByteText.trimSpace (bytesOf text) = []

def checkScripts (m : Migration) : Except LoadError Unit :=
  if isBlank m.up then .error (.missingUp m.version m.name)
  else if isBlank m.down then .error (.missingDown m.version m.name)
  else .ok ()

/-- The first version that is not at its position. -/
def firstGap : Int → List Migration → Int × Int
  | position, [] => (0, position)
  | position, m :: rest =>
    if m.version = position then firstGap (position + 1) rest else (m.version, position)

/-- `loadMigrations` on the files of the directory, each with its content. -/
def loadMigrations (files : List (String × String)) : Except LoadError MigrationList := do
  let found ← (files.filter fun file => hasSqlSuffix file.1).foldlM addFile []
  found.forM checkScripts
  let migs := found.insertionSort fun a b => a.version ≤ b.version
  if h : CountUp 1 migs then .ok ⟨migs, h⟩
  else .error (.gap (firstGap 1 migs).1 (firstGap 1 migs).2)

/-! ## Running -/

/-- A row of `rdq_migration`. -/
structure LedgerRow where
  version : Int
  name : String
deriving DecidableEq, Repr

/-- The schema and the ledger, which is missing before the first call. -/
structure SchemaState (σ : Type) where
  schema : σ
  ledger : Option (KeyedTable LedgerRow.version) := none

variable {σ : Type}

/-- Whether a version is in the ledger. -/
def SchemaState.Recorded (db : SchemaState σ) (v : Int) : Prop :=
  ∃ t ∈ db.ledger, (t.find? v).isSome = true

/-- How a commit ends; a lost answer follows a commit that took effect. -/
inductive CommitResult
  | committed
  | refused
  | lost
deriving DecidableEq, Repr

/-- Which statements of a transaction go through. -/
structure TxFaults where
  begins : Bool := true
  script : Bool := true
  record : Bool := true
  commit : CommitResult := .committed

/-- Which statements of a call go through. -/
structure CallFaults where
  ensureLedger : Bool := true
  appliedVersions : Bool := true
  tx : Int → TxFaults := fun _ => {}

inductive MigrateError
  /-- The text `rdq/postgres: creating migration ledger`. -/
  | creatingLedger
  /-- The text `rdq/postgres: reading migration ledger`. -/
  | readingLedger
  /-- The text `rdq/postgres: applying migration NNNN (name)`. -/
  | applying (version : Int) (name : String)
  /-- The text `rdq/postgres: rolling back migration NNNN (name)`. -/
  | rollingBack (version : Int) (name : String)
deriving DecidableEq, Repr

/-- A script that was run, and whether its transaction committed. -/
structure ScriptRun (σ : Type) where
  direction : Direction
  version : Int
  before : SchemaState σ
  after : SchemaState σ
  committed : Bool

/-- What a call did and returned. -/
structure CallReport (σ : Type) where
  scripts : List (ScriptRun σ) := []
  error : Option MigrateError := none

variable (exec : String → σ → Option σ)

/-- The two statements of a transaction: the script, and the entry in the ledger. -/
def txBody (f : TxFaults) (script : String)
    (record : KeyedTable LedgerRow.version → Option (KeyedTable LedgerRow.version))
    (db : SchemaState σ) : Option (SchemaState σ) :=
  if f.script = false then none
  else
    match exec script db.schema with
    | none => none
    | some schema =>
      if f.record = false then none
      else (db.ledger.bind record).map fun t => ⟨schema, some t⟩

/-- `INSERT INTO rdq_migration`, which a version that is there refuses. -/
def insertVersion (m : Migration) (t : KeyedTable LedgerRow.version) :
    Option (KeyedTable LedgerRow.version) :=
  if t.find? m.version = none then some (t.insertNew ⟨m.version, m.name⟩) else none

/-- `DELETE FROM rdq_migration`. -/
def deleteVersion (m : Migration) (t : KeyedTable LedgerRow.version) :
    Option (KeyedTable LedgerRow.version) :=
  some (t.erase m.version)

/-- The transaction body of a migration in either direction. -/
def migrationBody (dir : Direction) (f : TxFaults) (m : Migration) :
    SchemaState σ → Option (SchemaState σ) :=
  match dir with
  | .up => txBody exec f m.up (insertVersion m)
  | .down => txBody exec f m.down (deleteVersion m)

/-- `runInTx` on the body of a migration: the state after it, the script if it was run,
and whether the caller is told of success. -/
def runInTx (dir : Direction) (f : TxFaults) (m : Migration) (db : SchemaState σ) :
    SchemaState σ × Option (ScriptRun σ) × Bool :=
  let ran (after : SchemaState σ) (committed : Bool) : Option (ScriptRun σ) :=
    some ⟨dir, m.version, db, after, committed⟩
  if f.begins = false then (db, none, false)
  else
    match migrationBody exec dir f m db with
    | none => (db, ran db false, false)
    | some db' =>
      match f.commit with
      | .committed => (db', ran db' true, true)
      | .refused => (db, ran db false, false)
      | .lost => (db', ran db' true, false)

def txError (dir : Direction) (m : Migration) : MigrateError :=
  match dir with
  | .up => .applying m.version m.name
  | .down => .rollingBack m.version m.name

/-- The loop over the migrations that are left, which ends at the first error. -/
def runAll (dir : Direction) (tx : Int → TxFaults) :
    List Migration → SchemaState σ → SchemaState σ × CallReport σ
  | [], db => (db, {})
  | m :: rest, db =>
    match runInTx exec dir (tx m.version) m db with
    | (db', script, false) => (db', ⟨script.toList, some (txError dir m)⟩)
    | (db', script, true) =>
      let (last, report) := runAll dir tx rest db'
      (last, { report with scripts := script.toList ++ report.scripts })

/-- `ensureLedger`. -/
def ensureLedger (db : SchemaState σ) : SchemaState σ :=
  { db with ledger := some (db.ledger.getD KeyedTable.empty) }

/-- `appliedVersions`: the ledger as a test of versions. -/
def appliedVersions (db : SchemaState σ) (v : Int) : Bool :=
  db.ledger.any fun t => (t.find? v).isSome

/-- The part the two calls share: they pick the migrations to run by the ledger they read. -/
def runCall (dir : Direction) (f : CallFaults) (pick : (Int → Bool) → List Migration)
    (db : SchemaState σ) : SchemaState σ × CallReport σ :=
  if f.ensureLedger = false then (db, ⟨[], some .creatingLedger⟩)
  else if f.appliedVersions = false then (ensureLedger db, ⟨[], some .readingLedger⟩)
  else runAll exec dir f.tx (pick (appliedVersions (ensureLedger db))) (ensureLedger db)

variable (list : MigrationList)

/-- `Migrate`: skip what is applied. -/
def migrate (f : CallFaults) : SchemaState σ → SchemaState σ × CallReport σ :=
  runCall exec .up f fun applied => list.migs.filter fun m => !applied m.version

/-- `MigrateDown`: from the last migration down, skip what is not applied and what is at
or below the target. -/
def migrateDown (target : Int) (f : CallFaults) : SchemaState σ → SchemaState σ × CallReport σ :=
  runCall exec .down f fun applied =>
    list.migs.reverse.filter fun m => !(!applied m.version || decide (m.version ≤ target))

inductive MigrationCall
  | migrate (f : CallFaults)
  | migrateDown (target : Int) (f : CallFaults)

def migrationStep (db : SchemaState σ) : MigrationCall → SchemaState σ × CallReport σ
  | .migrate f => migrate exec list f db
  | .migrateDown target f => migrateDown exec list target f db

/-! ## The ledger -/

/-- The ledger is the set of versions from 1 to `k`. -/
def LedgerIs (db : SchemaState σ) (k : Int) : Prop := ∀ v, db.Recorded v ↔ 1 ≤ v ∧ v ≤ k

variable {exec list} {db db' : SchemaState σ} {dir : Direction} {f : TxFaults} {m : Migration}
  {k : Int}

theorem appliedVersions_iff {v : Int} : appliedVersions db v = true ↔ db.Recorded v := by
  cases h : db.ledger <;> simp [appliedVersions, SchemaState.Recorded, h]

theorem recorded_ensureLedger {v : Int} : (ensureLedger db).Recorded v ↔ db.Recorded v := by
  cases h : db.ledger <;> simp [SchemaState.Recorded, ensureLedger, h]

theorem ledgerIs_ensureLedger (h : LedgerIs db k) : LedgerIs (ensureLedger db) k :=
  fun v => recorded_ensureLedger.trans (h v)

theorem recorded_of_ledger {t : KeyedTable LedgerRow.version} (h : db.ledger = some t) {v : Int} :
    db.Recorded v ↔ (t.find? v).isSome = true := by
  simp [SchemaState.Recorded, h]

/-- A body that succeeds has rewritten the ledger. -/
theorem txBody_eq_some {script : String}
    {record : KeyedTable LedgerRow.version → Option (KeyedTable LedgerRow.version)}
    (h : txBody exec f script record db = some db') :
    ∃ t t', db.ledger = some t ∧ record t = some t' ∧ db'.ledger = some t' := by
  rw [txBody] at h
  split at h
  · cases h
  · split at h
    · cases h
    · split at h
      · cases h
      · obtain ⟨t', ht', rfl⟩ := Option.map_eq_some_iff.mp h
        obtain ⟨t, ht, hrecord⟩ := Option.bind_eq_some_iff.mp ht'
        exact ⟨t, t', ht, hrecord, rfl⟩

theorem ledgerIs_up (h : migrationBody exec .up f m db = some db') (hdb : LedgerIs db k)
    (hk : 0 ≤ k) (hv : m.version = k + 1) : LedgerIs db' (k + 1) := by
  obtain ⟨t, t', ht, hrecord, ht'⟩ := txBody_eq_some h
  rw [insertVersion] at hrecord
  split at hrecord
  · rename_i hnone
    cases hrecord
    intro v
    have hold := (recorded_of_ledger ht).symm.trans (hdb v)
    rw [recorded_of_ledger ht']
    let row : LedgerRow := ⟨m.version, m.name⟩
    by_cases hself : m.version = v
    · have hnew : (t.insertNew row).find? v = some row :=
        hself ▸ KeyedTable.find?_insertNew_self hnone
      rw [hnew]
      exact iff_of_true rfl (by omega)
    · have hother : (t.insertNew row).find? v = t.find? v :=
        KeyedTable.find?_insertNew_of_ne t hself
      rw [hother, hold]
      omega
  · cases hrecord

theorem ledgerIs_down (h : migrationBody exec .down f m db = some db') (hdb : LedgerIs db k)
    (hv : m.version = k) : LedgerIs db' (k - 1) := by
  obtain ⟨t, t', ht, hrecord, ht'⟩ := txBody_eq_some h
  cases hrecord
  intro v
  have hold := (recorded_of_ledger ht).symm.trans (hdb v)
  rw [recorded_of_ledger ht']
  by_cases hself : v = m.version
  · subst hself
    rw [KeyedTable.find?_erase_self]
    exact iff_of_false Bool.false_ne_true (by omega)
  · rw [KeyedTable.find?_erase_of_ne t hself, hold]
    omega

/-- A transaction takes effect as a whole or not at all; one whose caller is told of
success took effect, and a script that was run says what came of it. -/
theorem runInTx_cases (exec : String → σ → Option σ) (dir : Direction) (f : TxFaults)
    (m : Migration) (db : SchemaState σ) :
    (∃ script, runInTx exec dir f m db = (db, script, false) ∧
        ∀ s ∈ script, s = ⟨dir, m.version, db, db, false⟩) ∨
      ∃ db' told, migrationBody exec dir f m db = some db' ∧
        runInTx exec dir f m db = (db', some ⟨dir, m.version, db, db', true⟩, told) := by
  rw [runInTx]
  split
  · refine Or.inl ⟨none, rfl, ?_⟩
    intro s hs
    cases hs
  · cases hbody : migrationBody exec dir f m db with
    | none =>
      refine Or.inl ⟨_, rfl, ?_⟩
      intro s hs
      exact (Option.mem_some.mp hs).symm
    | some db' =>
      cases hcommit : f.commit with
      | committed => exact Or.inr ⟨db', true, rfl, rfl⟩
      | lost => exact Or.inr ⟨db', false, rfl, rfl⟩
      | refused =>
        refine Or.inl ⟨_, rfl, ?_⟩
        intro s hs
        exact (Option.mem_some.mp hs).symm

/-! ## The loops -/

variable {migs : List Migration}

/-- What the rule below gives for one script: the invariant for what was left before it, and
for what is left after it. -/
structure ScriptRun.Within (P : List Migration → SchemaState σ → Prop) (dir : Direction)
    (migs : List Migration) (s : ScriptRun σ) : Prop where
  direction : s.direction = dir
  position : ∃ m rest, m :: rest <:+ migs ∧ s.version = m.version ∧ P (m :: rest) s.before ∧
    P (if s.committed then rest else m :: rest) s.after

theorem ScriptRun.Within.cons {P : List Migration → SchemaState σ → Prop} {s : ScriptRun σ}
    (h : s.Within P dir migs) (m : Migration) : s.Within P dir (m :: migs) := by
  obtain ⟨m', rest, hsuffix, hs⟩ := h.position
  exact ⟨h.direction, m', rest, hsuffix.trans (List.suffix_cons m migs), hs⟩

/-- The invariant rule of the loop. The invariant speaks of the migrations that are left,
and each body that succeeds takes it to the rest of them. -/
theorem runAll_rule (tx : Int → TxFaults) {P : List Migration → SchemaState σ → Prop}
    (hstep : ∀ m rest f db db', P (m :: rest) db → migrationBody exec dir f m db = some db' →
      P rest db') (h : P migs db) :
    (∀ s ∈ (runAll exec dir tx migs db).2.scripts, s.Within P dir migs) ∧
      ∃ rest, P rest (runAll exec dir tx migs db).1 ∧
        ((runAll exec dir tx migs db).2.error = none → rest = []) := by
  induction migs generalizing db with
  | nil =>
    refine ⟨?_, [], h, fun _ => rfl⟩
    intro s hs
    cases hs
  | cons m rest ih =>
    rw [runAll]
    rcases runInTx_cases exec dir (tx m.version) m db with
      ⟨script, hrun, hscript⟩ | ⟨db', told, hbody, hrun⟩
    · rw [hrun]
      refine ⟨?_, m :: rest, h, ?_⟩
      · intro s hs
        rw [hscript s (Option.mem_toList.mp hs)]
        exact ⟨rfl, m, rest, List.suffix_refl _, rfl, h, h⟩
      · intro herr
        cases herr
    · have hdb' : P rest db' := hstep m rest _ db db' h hbody
      have hhere : (⟨dir, m.version, db, db', true⟩ : ScriptRun σ).Within P dir (m :: rest) :=
        ⟨rfl, m, rest, List.suffix_refl _, rfl, h, hdb'⟩
      rw [hrun]
      cases told with
      | false =>
        refine ⟨?_, rest, hdb', ?_⟩
        · intro s hs
          rw [List.mem_singleton.mp hs]
          exact hhere
        · intro herr
          cases herr
      | true =>
        obtain ⟨hscripts, hlast⟩ := ih hdb'
        refine ⟨?_, hlast⟩
        intro s hs
        rcases List.mem_append.mp hs with hs | hs
        · rw [List.mem_singleton.mp hs]
          exact hhere
        · exact (hscripts s hs).cons m

/-! ## Which migrations are left -/

/-- The versions of a list go down by one from `v`. -/
def CountDown : Int → List Migration → Prop
  | _, [] => True
  | v, m :: rest => m.version = v ∧ CountDown (v - 1) rest

theorem le_of_mem_countUp {v : Int} (h : CountUp v migs) (hm : m ∈ migs) : v ≤ m.version := by
  induction migs generalizing v with
  | nil => cases hm
  | cons m' rest ih =>
    obtain ⟨rfl, hrest⟩ := h
    rcases List.mem_cons.mp hm with rfl | hm
    · exact le_refl _
    · have hnext := ih hrest hm
      omega

theorem le_of_mem_countDown {v : Int} (h : CountDown v migs) (hm : m ∈ migs) : m.version ≤ v := by
  induction migs generalizing v with
  | nil => cases hm
  | cons m' rest ih =>
    obtain ⟨rfl, hrest⟩ := h
    rcases List.mem_cons.mp hm with rfl | hm
    · exact le_refl _
    · have hnext := ih hrest hm
      omega

theorem countDown_append {v : Int} {rest : List Migration} :
    CountDown v (migs ++ rest) ↔ CountDown v migs ∧ CountDown (v - migs.length) rest := by
  induction migs generalizing v with
  | nil => simp [CountDown]
  | cons m migs ih =>
    have hpos : v - 1 - (migs.length : Int) = v - (migs.length + 1 : Nat) := by
      push_cast
      omega
    rw [List.cons_append, CountDown, CountDown, ih, List.length_cons, hpos, and_assoc]

/-- Backwards, what counts up counts down. -/
theorem countDown_reverse {v : Int} (h : CountUp v migs) :
    CountDown (v + migs.length - 1) migs.reverse := by
  induction migs generalizing v with
  | nil => trivial
  | cons m rest ih =>
    obtain ⟨rfl, hrest⟩ := h
    have hnext := ih hrest
    rw [List.reverse_cons, countDown_append, List.length_cons, List.length_reverse]
    push_cast
    have hfirst : m.version + 1 + (rest.length : Int) - 1 =
        m.version + ((rest.length : Int) + 1) - 1 := by omega
    rw [hfirst] at hnext
    exact ⟨hnext, by omega, trivial⟩

/-- Above a version, what counts up goes on counting up. -/
theorem countUp_filter {v : Int} (h : CountUp v migs) (k : Int) :
    CountUp (max v (k + 1)) (migs.filter fun m => decide (k < m.version)) := by
  induction migs generalizing v with
  | nil => trivial
  | cons m rest ih =>
    obtain ⟨rfl, hrest⟩ := h
    by_cases hk : k < m.version
    · rw [List.filter_cons_of_pos (by simpa using hk), max_eq_left (by omega)]
      refine ⟨rfl, ?_⟩
      have hnext := ih hrest
      rwa [max_eq_left (by omega)] at hnext
    · rw [List.filter_cons_of_neg (by simpa using hk), max_eq_right (by omega)]
      have hnext := ih hrest
      rwa [max_eq_right (by omega)] at hnext

theorem length_filter_countUp {v : Int} (h : CountUp v migs) {k : Int} (hv : v ≤ k + 1)
    (hk : k + 1 ≤ v + migs.length) :
    k + (migs.filter fun m => decide (k < m.version)).length + 1 = v + migs.length := by
  induction migs generalizing v with
  | nil =>
    simp only [List.length_nil, List.filter_nil] at hk ⊢
    omega
  | cons m rest ih =>
    obtain ⟨rfl, hrest⟩ := h
    rw [List.length_cons] at hk ⊢
    push_cast at hk ⊢
    by_cases hm : k < m.version
    · have hself : rest.filter (fun m => decide (k < m.version)) = rest := by
        rw [List.filter_eq_self]
        intro m' hm'
        have hle := le_of_mem_countUp hrest hm'
        exact decide_eq_true (by omega)
      rw [List.filter_cons_of_pos (by simpa using hm), hself, List.length_cons]
      push_cast
      omega
    · rw [List.filter_cons_of_neg (by simpa using hm)]
      have := ih hrest (by omega) (by omega)
      omega

/-- Between two bounds, what counts down goes on counting down. -/
theorem countDown_filter {v : Int} (h : CountDown v migs) (low k : Int) :
    CountDown (min v k) (migs.filter fun m => decide (low < m.version ∧ m.version ≤ k)) := by
  induction migs generalizing v with
  | nil => trivial
  | cons m rest ih =>
    obtain ⟨rfl, hrest⟩ := h
    have hnext := ih hrest
    by_cases hk : k < m.version
    · rw [List.filter_cons_of_neg (by simp; omega), min_eq_right (by omega)]
      rwa [min_eq_right (by omega)] at hnext
    · by_cases hlow : low < m.version
      · rw [List.filter_cons_of_pos (by simp; omega), min_eq_left (by omega)]
        refine ⟨rfl, ?_⟩
        rwa [min_eq_left (by omega)] at hnext
      · have hnil :
            (m :: rest).filter (fun m => decide (low < m.version ∧ m.version ≤ k)) = [] := by
          rw [List.filter_eq_nil_iff]
          intro m' hm'
          have hle : m'.version ≤ m.version := by
            rcases List.mem_cons.mp hm' with rfl | hm'
            · exact le_refl _
            · have := le_of_mem_countDown hrest hm'
              omega
          simp only [decide_eq_true_eq]
          omega
        rw [hnil]
        trivial

/-! ## The calls -/

/-- The ledger is a prefix of the versions up to `n`. -/
def LedgerPrefix (n : Int) (db : SchemaState σ) : Prop := ∃ k, 0 ≤ k ∧ k ≤ n ∧ LedgerIs db k

/-- Where a script may run, and that it leaves a prefix. -/
structure ScriptRun.InOrder (n : Int) (s : ScriptRun σ) : Prop where
  up : s.direction = .up → LedgerIs s.before (s.version - 1)
  down : s.direction = .down → LedgerIs s.before s.version
  after : LedgerPrefix n s.after

theorem ledgerPrefix_of_le {n : Int} (hn : 0 ≤ n) (h : LedgerIs db k) (hk : k ≤ n) :
    LedgerPrefix n db := by
  refine ⟨max k 0, le_max_right k 0, max_le hk hn, ?_⟩
  intro v
  rw [h v]
  omega

/-- The migrations `Migrate` goes through. -/
theorem pick_up (hgap : CountUp 1 migs) (hdb : LedgerIs db k) :
    (migs.filter fun m => !appliedVersions db m.version) =
      migs.filter fun m => decide (k < m.version) := by
  apply List.filter_congr
  intro m hm
  have hle := le_of_mem_countUp hgap hm
  have happlied : appliedVersions db m.version = decide (m.version ≤ k) := by
    rw [Bool.eq_iff_iff, appliedVersions_iff, hdb m.version, decide_eq_true_eq]
    omega
  rw [happlied, ← decide_not]
  exact decide_eq_decide.mpr not_le

/-- The migrations `MigrateDown` goes through. -/
theorem pick_down (migs : List Migration) (hdb : LedgerIs db k) (target : Int) :
    (migs.filter fun m => !(!appliedVersions db m.version || decide (m.version ≤ target))) =
      migs.filter fun m => decide (max target 0 < m.version ∧ m.version ≤ k) := by
  apply List.filter_congr
  intro m _
  have happlied := appliedVersions_iff.trans (hdb m.version)
  rw [Bool.eq_iff_iff]
  simp only [Bool.not_or, Bool.not_not, Bool.and_eq_true, happlied, Bool.not_eq_true',
    decide_eq_false_iff_not, decide_eq_true_eq]
  omega

/-- `Migrate` on a prefix of the versions. -/
theorem migrate_spec (exec : String → σ → Option σ) (list : MigrationList) (f : CallFaults)
    (hdb : LedgerPrefix list.migs.length db) :
    (∀ s ∈ (migrate exec list f db).2.scripts, s.InOrder list.migs.length) ∧
      LedgerPrefix list.migs.length (migrate exec list f db).1 ∧
      ((migrate exec list f db).2.error = none →
        LedgerIs (migrate exec list f db).1 list.migs.length) := by
  obtain ⟨k, hk, hkn, hk'⟩ := hdb
  have hensure := ledgerIs_ensureLedger hk'
  unfold migrate runCall
  split
  · exact ⟨by simp, ⟨k, hk, hkn, hk'⟩, by simp⟩
  split
  · exact ⟨by simp, ⟨k, hk, hkn, hensure⟩, by simp⟩
  -- the versions that are left follow the ledger, and as many are missing from it
  let P (left : List Migration) (db : SchemaState σ) : Prop :=
    ∃ j, 0 ≤ j ∧ LedgerIs db j ∧ CountUp (j + 1) left ∧ j + left.length = list.migs.length
  have hstep : ∀ m rest f db db', P (m :: rest) db →
      migrationBody exec .up f m db = some db' → P rest db' := by
    rintro m rest f db db' ⟨j, hj, hdb, ⟨hv, hrest⟩, hlen⟩ hbody
    refine ⟨j + 1, by omega, ledgerIs_up hbody hdb hj hv, hrest, ?_⟩
    rw [List.length_cons] at hlen
    push_cast at hlen
    omega
  have hstart : P (list.migs.filter fun m => !appliedVersions (ensureLedger db) m.version)
      (ensureLedger db) := by
    rw [pick_up list.gapFree hensure]
    have hcount := countUp_filter list.gapFree k
    have hlen := length_filter_countUp list.gapFree (k := k) (by omega) (by omega)
    rw [max_eq_right (by omega)] at hcount
    exact ⟨k, hk, hensure, hcount, by omega⟩
  obtain ⟨hscripts, rest, ⟨j, hj, hlast, -, hlen⟩, hnone⟩ := runAll_rule f.tx hstep hstart
  refine ⟨?_, ⟨j, hj, by omega, hlast⟩, ?_⟩
  · intro s hs
    obtain ⟨hdir, m, rest', -, hv, ⟨i, -, hbefore, ⟨hm, -⟩, -⟩, i', hi', hafter, -, hlen'⟩ :=
      hscripts s hs
    refine ⟨?_, ?_, ⟨i', hi', by omega, hafter⟩⟩
    · intro _
      have hpred : s.version - 1 = i := by omega
      rw [hpred]
      exact hbefore
    · intro hdown
      rw [hdir] at hdown
      cases hdown
  · intro herr
    rw [hnone herr, List.length_nil] at hlen
    have hjn : j = list.migs.length := by
      push_cast at hlen
      omega
    rw [← hjn]
    exact hlast

/-- `MigrateDown` on a prefix of the versions. -/
theorem migrateDown_spec (exec : String → σ → Option σ) (list : MigrationList) (target : Int)
    (f : CallFaults) (hdb : LedgerPrefix list.migs.length db) :
    (∀ s ∈ (migrateDown exec list target f db).2.scripts,
        s.InOrder list.migs.length ∧ s.direction = .down ∧ target < s.version) ∧
      LedgerPrefix list.migs.length (migrateDown exec list target f db).1 := by
  obtain ⟨k, hk, hkn, hk'⟩ := hdb
  have hensure := ledgerIs_ensureLedger hk'
  unfold migrateDown runCall
  split
  · exact ⟨by simp, ⟨k, hk, hkn, hk'⟩⟩
  split
  · exact ⟨by simp, ⟨k, hk, hkn, hensure⟩⟩
  -- the versions that are left count down from the end of the ledger
  let P (left : List Migration) (db : SchemaState σ) : Prop :=
    ∃ j : Int, j ≤ list.migs.length ∧ LedgerIs db j ∧ CountDown j left
  have hstep : ∀ m rest f db db', P (m :: rest) db →
      migrationBody exec .down f m db = some db' → P rest db' := by
    rintro m rest f db db' ⟨j, hj, hdb, hv, hrest⟩ hbody
    exact ⟨j - 1, by omega, ledgerIs_down hbody hdb hv, hrest⟩
  have hpick := pick_down list.migs.reverse hensure target
  have hstart : P (list.migs.reverse.filter fun m =>
      !(!appliedVersions (ensureLedger db) m.version || decide (m.version ≤ target)))
      (ensureLedger db) := by
    rw [hpick]
    have hcount := countDown_filter (countDown_reverse list.gapFree) (max target 0) k
    rw [min_eq_right (by omega)] at hcount
    exact ⟨k, hkn, hensure, hcount⟩
  obtain ⟨hscripts, rest, ⟨j, hj, hlast, -⟩, -⟩ := runAll_rule f.tx hstep hstart
  refine ⟨?_, ledgerPrefix_of_le (by omega) hlast hj⟩
  intro s hs
  obtain ⟨hdir, m, rest', hsuffix, hv, ⟨i, -, hbefore, hm, -⟩, i', hi', hafter, -⟩ := hscripts s hs
  have hmem := hsuffix.subset List.mem_cons_self
  rw [hpick, List.mem_filter, decide_eq_true_eq] at hmem
  refine ⟨⟨?_, ?_, ledgerPrefix_of_le (by omega) hafter hi'⟩, hdir, by omega⟩
  · intro hup
    rw [hdir] at hup
    cases hup
  · intro _
    rw [hv, hm]
    exact hbefore

/-- On the full ledger `Migrate` has nothing to run. -/
theorem scripts_migrate_full (f : CallFaults) (hdb : LedgerIs db list.migs.length) :
    (migrate exec list f db).2.scripts = [] := by
  have hnil : (list.migs.filter fun m => decide ((list.migs.length : Int) < m.version)) = [] := by
    have hlen := length_filter_countUp list.gapFree (k := list.migs.length) (by omega) (by omega)
    exact List.eq_nil_of_length_eq_zero (by omega)
  unfold migrate runCall
  split
  · rfl
  split
  · rfl
  simp only [pick_up list.gapFree (ledgerIs_ensureLedger hdb), hnil]
  rfl

/-- What is asked of one call. -/
structure CallInOrder (exec : String → σ → Option σ) (list : MigrationList)
    (e : Entry (SchemaState σ) MigrationCall (CallReport σ)) : Prop where
  ledger : LedgerPrefix list.migs.length e.post
  scripts : ∀ s ∈ e.output.scripts, s.InOrder list.migs.length
  /-- A `Migrate` without an error leaves all versions, and one after it runs no script. -/
  complete : ∀ f, e.input = .migrate f → e.output.error = none →
    LedgerIs e.post list.migs.length ∧
      ∀ f', (migrationStep exec list e.post (.migrate f')).2.scripts = []
  /-- `MigrateDown` runs no script at or below its target. -/
  target : ∀ t f, e.input = .migrateDown t f → ∀ s ∈ e.output.scripts,
    s.direction = .down ∧ t < s.version

theorem migrationStep_inOrder (call : MigrationCall) (hdb : LedgerPrefix list.migs.length db) :
    CallInOrder exec list (entry (migrationStep exec list) db call) := by
  cases call with
  | migrate f =>
    obtain ⟨hscripts, hledger, hcomplete⟩ := migrate_spec exec list f hdb
    refine ⟨hledger, hscripts, ?_, ?_⟩
    · intro _ _ herr
      exact ⟨hcomplete herr, fun f' => scripts_migrate_full f' (hcomplete herr)⟩
    · intro t f' h
      cases h
  | migrateDown target f =>
    obtain ⟨hscripts, hledger⟩ := migrateDown_spec exec list target f hdb
    refine ⟨hledger, fun s hs => (hscripts s hs).1, ?_, ?_⟩
    · intro f' h
      cases h
    · intro t f' h s hs
      cases h
      exact (hscripts s hs).2

/-- In every sequence of calls, whatever fails in them, the ledger is a prefix of the
versions, and each call is in order. -/
theorem migrations_stay_a_prefix (exec : String → σ → Option σ) (list : MigrationList)
    (schema : σ) (calls : List MigrationCall) :
    LedgerPrefix list.migs.length (run (migrationStep exec list) ⟨schema, none⟩ calls) ∧
      ∀ e ∈ trace (migrationStep exec list) ⟨schema, none⟩ calls, CallInOrder exec list e := by
  have hnew : LedgerPrefix list.migs.length (⟨schema, none⟩ : SchemaState σ) := by
    refine ⟨0, le_refl 0, by omega, ?_⟩
    intro v
    refine iff_of_false ?_ (by omega)
    rintro ⟨t, ht, -⟩
    cases ht
  have hstep : ∀ db call, LedgerPrefix list.migs.length db → True →
      LedgerPrefix list.migs.length (migrationStep exec list db call).1 :=
    fun db call hdb _ => (migrationStep_inOrder call hdb).ledger
  have hall : AllSteps (migrationStep exec list) (fun _ _ => True) ⟨schema, none⟩ calls :=
    allSteps_of_forall (fun _ _ => trivial) _
  refine ⟨run_invariant (P := LedgerPrefix list.migs.length) hnew hstep hall, ?_⟩
  intro e he
  have hpre := (allSteps_iff_trace.mp (hall.with_invariant hnew hstep) e he).1
  rw [entry_of_mem_trace he]
  exact migrationStep_inOrder e.input hpre

end Rdq.Postgres
