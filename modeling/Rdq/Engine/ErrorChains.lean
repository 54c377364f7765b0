import Rdq.Engine.Classify

/-!
# Classification over error chains

The layers of `Classify` that look into an error: `errors.As` for the outermost
`Classified` error, the `IsRule` and `AsRule` rules over `errors.Is` and `errors.As`, and
`ErrorType`, all of which follow the single `Unwrap` of each error.

## Implementation notes

A chain holds each of its errors as one value, and `==` of comparable errors is equality
of these values. An `AsRule` is a test of the dynamic type. An `Unwrap` that returns nil
ends the chain.
-/

namespace Rdq.Engine

/-- An error that unwraps to at most one other. -/
inductive GoError (ν : Type)
  | leaf (v : ν)
  | wrap (v : ν) (inner : GoError ν)
deriving DecidableEq, Repr

/-- What the classifier sees of one error: the name of its dynamic type, and the decision
it reports if it is `Classified`. -/
class ErrorValue (ν : Type) where
  typeName : ν → String
  classification : ν → Option Decision

open ErrorValue

namespace GoError
variable {ν : Type}

/-- The errors of the chain, outermost first. -/
def values : GoError ν → List ν
  | .leaf v => [v]
  | .wrap v inner => v :: inner.values

/-- The innermost error. -/
def innermost : GoError ν → ν
  | .leaf v => v
  | .wrap _ inner => inner.innermost

end GoError

variable {ν : Type} [DecidableEq ν] [ErrorValue ν]

/-- `errors.Is` for errors without an `Is` method; nil is none. -/
def errorsIs (err : Option (GoError ν)) (target : Option ν) : Bool :=
  match err, target with
  | none, target => target.isNone
  | some _, none => false
  | some err, some target => go err target
where
  go : GoError ν → ν → Bool
    | .leaf v, target => v = target
    | .wrap v inner, target => if v = target then true else go inner target

/-- `errors.As` for errors without an `As` method: the first value assignable to the target. -/
def errorsAs {α : Type} (assign : ν → Option α) : GoError ν → Option α
  | .leaf v => assign v
  | .wrap v inner =>
    match assign v with
    | some a => some a
    | none => errorsAs assign inner

instance : Classified (GoError ν) where
  classification := errorsAs classification

/-- What `IsRule` and `AsRule` look for. -/
inductive RuleTarget (ν : Type)
  | is (target : Option ν)
  | as (assignable : ν → Bool)

structure ErrorRule (ν : Type) where
  target : RuleTarget ν
  decision : Decision

/-- The rule as the classifier applies it. -/
def ErrorRule.codeRule (r : ErrorRule ν) : CodeRule (GoError ν) where
  applies err :=
    match r.target with
    | .is target => errorsIs err target
    | .as assignable =>
      match err with
      | none => false
      | some err => (errorsAs (fun v => if assignable v then some v else none) err).isSome
  decision := r.decision

/-- `ErrorType`: the type name of the innermost error. -/
def errorType : Option (GoError ν) → String
  | none => ""
  | some err => go err
where
  go : GoError ν → String
    | .leaf v => typeName v
    | .wrap _ inner => go inner

/-- The classifier without a mapper. -/
def chainClassifier (rules : List (ErrorRule ν)) (config : Option ClassificationConfig) :
    Classifier (GoError ν) :=
  ⟨none, rules.map ErrorRule.codeRule, config⟩

/-- `Classify` on an error and its own type. -/
def classifyError (rules : List (ErrorRule ν)) (config : Option ClassificationConfig)
    (err : GoError ν) : Verdict :=
  (chainClassifier rules config).classify (some err) (errorType (some err))

/-! ## The chain as a list -/

/-- Whether a rule matches one error. -/
def ErrorRule.matchesValue (r : ErrorRule ν) (v : ν) : Bool :=
  match r.target with
  | .is target => target = some v
  | .as assignable => assignable v

/-- The ladder over the errors of a chain: the outermost `Classified` error, the first
rule that matches any error, the globs on a type, the default. -/
def ladder (rules : List (ErrorRule ν)) (config : Option ClassificationConfig) (chain : List ν)
    (errType : String) : Verdict :=
  match chain.findSome? classification with
  | some d => ⟨d, .wrapper⟩
  | none =>
    match rules.find? fun r => chain.any r.matchesValue with
    | some r => ⟨r.decision, .codeClassifier⟩
    | none => globVerdict (config.bind (matchGlobs glob · errType))

omit [DecidableEq ν] [ErrorValue ν] in
theorem errorsAs_eq {α : Type} (assign : ν → Option α) (err : GoError ν) :
    errorsAs assign err = err.values.findSome? assign := by
  induction err with
  | leaf v =>
    simp only [errorsAs, GoError.values, List.findSome?_cons, List.findSome?_nil]
    cases assign v <;> rfl
  | wrap v inner ih =>
    simp only [errorsAs, GoError.values, List.findSome?_cons, ih]
    cases assign v <;> rfl

omit [ErrorValue ν] in
theorem errorsIs_go_eq (err : GoError ν) (target : ν) :
    errorsIs.go err target = err.values.any fun v => v = target := by
  induction err with
  | leaf v => simp [errorsIs.go, GoError.values]
  | wrap v inner ih =>
    rw [errorsIs.go, GoError.values, List.any_cons, ih]
    by_cases hv : v = target <;> simp [hv]

omit [ErrorValue ν] in
theorem codeRule_applies (r : ErrorRule ν) (err : GoError ν) :
    r.codeRule.applies (some err) = err.values.any r.matchesValue := by
  unfold ErrorRule.codeRule ErrorRule.matchesValue
  cases r.target with
  | is target =>
    cases target with
    | none => simp [errorsIs]
    | some target =>
      simp only [errorsIs, errorsIs_go_eq, Option.some.injEq]
      exact congrArg _ (funext fun v => by simp [eq_comm])
  | as assignable =>
    simp only [errorsAs_eq]
    induction err.values with
    | nil => rfl
    | cons v vs ih =>
      rw [List.findSome?_cons, List.any_cons, ← ih]
      cases assignable v <;> rfl

omit [DecidableEq ν] in
theorem errorType_eq (err : GoError ν) : errorType (some err) = typeName err.innermost := by
  rw [errorType]
  induction err with
  | leaf v => rfl
  | wrap v inner ih => exact ih

theorem classifyError_eq (rules : List (ErrorRule ν)) (config : Option ClassificationConfig)
    (err : GoError ν) :
    classifyError rules config err = ladder rules config err.values (typeName err.innermost) := by
  have hfind : (rules.map ErrorRule.codeRule).find? (·.applies (some err)) =
      (rules.find? fun r => err.values.any r.matchesValue).map ErrorRule.codeRule := by
    rw [List.find?_map]
    exact congrArg (Option.map _) (congrArg (List.find? · rules) (funext (codeRule_applies · err)))
  have hwrapper : Classified.classification err = err.values.findSome? classification :=
    errorsAs_eq classification err
  simp only [classifyError, chainClassifier, Classifier.classify, Option.bind_none,
    Option.bind_some, hwrapper, hfind, errorType_eq, ladder]
  cases err.values.findSome? classification with
  | some d => rfl
  | none =>
    cases rules.find? fun r => err.values.any r.matchesValue with
    | some r => rfl
    | none => rfl

/-! ## Context wrappers -/

variable (rules : List (ErrorRule ν))

/-- An error that says nothing to the classifier. -/
structure ContextWrapper (w : ν) : Prop where
  unclassified : classification w = none
  unmatched : ∀ r ∈ rules, r.matchesValue w = false

/-- Two values the classifier does not tell apart; one value is always the same as itself. -/
structure Same (v v' : ν) : Prop where
  typeName : typeName v = typeName v'
  classification : classification v = classification v'
  rules : ∀ r ∈ rules, r.matchesValue v = r.matchesValue v'

/-- The second chain is the first with context wrappers put around and between its errors. -/
inductive Rewrapped : GoError ν → GoError ν → Prop
  | leaf {v v' : ν} (h : Same rules v v') : Rewrapped (.leaf v) (.leaf v')
  | keep {v v' : ν} {e e' : GoError ν} (h : Same rules v v') (inner : Rewrapped e e') :
      Rewrapped (.wrap v e) (.wrap v' e')
  | around {w : ν} {e e' : GoError ν} (h : ContextWrapper rules w) (inner : Rewrapped e e') :
      Rewrapped e (.wrap w e')

variable {rules} {e e' : GoError ν}

theorem Rewrapped.findSome (h : Rewrapped rules e e') :
    e'.values.findSome? classification = e.values.findSome? classification := by
  induction h with
  | leaf h => simp only [GoError.values, List.findSome?_cons, h.classification]
  | keep h _ ih => simp only [GoError.values, List.findSome?_cons, h.classification, ih]
  | around h _ ih => rw [GoError.values, List.findSome?_cons, h.unclassified, ih]

theorem Rewrapped.any {r : ErrorRule ν} (hr : r ∈ rules) (h : Rewrapped rules e e') :
    e'.values.any r.matchesValue = e.values.any r.matchesValue := by
  induction h with
  | leaf h => simp only [GoError.values, List.any_cons, h.rules r hr]
  | keep h _ ih => simp only [GoError.values, List.any_cons, h.rules r hr, ih]
  | around h _ ih => rw [GoError.values, List.any_cons, h.unmatched r hr, ih, Bool.false_or]

theorem Rewrapped.innermost (h : Rewrapped rules e e') :
    ErrorValue.typeName e'.innermost = ErrorValue.typeName e.innermost := by
  induction h with
  | leaf h => exact h.typeName.symm
  | keep _ _ ih => exact ih
  | around _ _ ih => exact ih

theorem Rewrapped.find (h : Rewrapped rules e e') :
    (rules.find? fun r => e'.values.any r.matchesValue) =
      rules.find? fun r => e.values.any r.matchesValue := by
  have hany : ∀ r ∈ rules, e'.values.any r.matchesValue = e.values.any r.matchesValue :=
    fun r hr => h.any hr
  clear h
  induction rules with
  | nil => rfl
  | cons r rules ih =>
    rw [List.find?_cons, List.find?_cons, hany r List.mem_cons_self,
      ih fun r' hr' => hany r' (List.mem_cons_of_mem r hr')]

variable (rules) in
/-- `Classify` decides by the ladder over the errors of the chain, with the globs on the type
of the innermost one, which is what `ErrorType` reports; context wrappers around or between
the errors change neither the verdict nor the type. -/
theorem classification_sees_through_wrapping (config : Option ClassificationConfig)
    (err : GoError ν) :
    errorType (some err) = typeName err.innermost ∧
      classifyError rules config err = ladder rules config err.values (typeName err.innermost) ∧
      ∀ err', Rewrapped rules err err' →
        classifyError rules config err' = classifyError rules config err ∧
          errorType (some err') = errorType (some err) := by
  refine ⟨errorType_eq err, classifyError_eq rules config err, ?_⟩
  intro err' h
  refine ⟨?_, ?_⟩
  · rw [classifyError_eq, classifyError_eq, ladder, ladder, h.findSome, h.find, h.innermost]
  · rw [errorType_eq, errorType_eq, h.innermost]

end Rdq.Engine
