import Rdq.Core.Glob
import Rdq.Engine.Process

/-!
# Classifying a failed attempt

The precedence ladder of `core/policy/classify.go` and of the Java engine's
`Classifier`: outcome mapper, wrapper, code rules, config globs, default. Only
the globs read the reported `error.type`, and they are the only layer that is
configured in a file shared by both languages.

## Implementation notes

An error is an arbitrary type. Walking its chain for the outermost wrapper
(`errors.As`, `findClassified`) is one function of it, and so are a mapper and
the test of a code rule. In callback mode there is no error, only its type.
-/

namespace Rdq.Engine

open Foundation

/-- The rung of the ladder that decided. -/
inductive Layer
  | default
  | configGlob
  | codeClassifier
  | wrapper
  | outcomeMapper
deriving DecidableEq, Repr

structure Verdict where
  decision : Decision
  layer : Layer
deriving DecidableEq, Repr

/-- The decision of the outermost wrapper in an error's chain, if there is one. -/
class Classified (ε : Type) where
  classification : ε → Option Decision

instance : Classified ErrorString where
  classification := fun _ => none

/-- The `classification` block of a queue's config. -/
structure ClassificationConfig where
  retryable : List String
  permanent : List String
deriving DecidableEq, Repr

/-- One rule of the third layer; a rule of the Go engine is also put to a nil error. -/
structure CodeRule (ε : Type) where
  applies : Option ε → Bool
  decision : Decision

/-- Ladder layer 4 over one matcher: the permanent patterns are tested first. -/
def matchGlobs (matcher : String → String → Bool) (cfg : ClassificationConfig)
    (errType : String) : Option Decision :=
  if cfg.permanent.any (matcher · errType) then some .permanent
  else if cfg.retryable.any (matcher · errType) then some .retryable
  else none

/-- The verdict of the two lowest layers. -/
def globVerdict (matched : Option Decision) : Verdict :=
  match matched with
  | some d => ⟨d, .configGlob⟩
  | none => ⟨.retryable, .default⟩

theorem globVerdict_injective : Function.Injective globVerdict := by
  intro a b h
  cases a with
  | none =>
    cases b with
    | none => rfl
    | some e => cases h
  | some d =>
    cases b with
    | none => cases h
    | some e =>
      cases h
      rfl

/-- `policy.Classifier`. -/
structure Classifier (ε : Type) where
  mapper : Option (Option ε → Option Decision)
  codeRules : List (CodeRule ε)
  config : Option ClassificationConfig

/-- `Classifier` of the Java engine; its layers 1 to 3 skip a null exception. -/
structure JavaClassifier (δ : Type) where
  outcomeMapper : Option (δ → Option Decision)
  classRules : List ((δ → Bool) × Decision)
  permanentPatterns : List String
  retryablePatterns : List String

namespace Classifier
variable {ε : Type} [Classified ε] (c : Classifier ε)

/-- `Classifier.Classify`. -/
def classify (err : Option ε) (errType : String) : Verdict :=
  match c.mapper.bind (· err) with
  | some d => ⟨d, .outcomeMapper⟩
  | none =>
    match err.bind Classified.classification with
    | some d => ⟨d, .wrapper⟩
    | none =>
      match c.codeRules.find? (·.applies err) with
      | some r => ⟨r.decision, .codeClassifier⟩
      | none => globVerdict (c.config.bind (matchGlobs glob · errType))

/-- No mapper, wrapper or code rule applies to the error. -/
structure Declines (err : Option ε) : Prop where
  mapper : c.mapper.bind (· err) = none
  wrapper : err.bind Classified.classification = none
  codeRules : ∀ r ∈ c.codeRules, r.applies err = false

/-- The classifier with the given config patterns. -/
def withPatterns (permanent retryable : List String) : Classifier ε :=
  { c with config := some { retryable := retryable, permanent := permanent } }

theorem Declines.withPatterns {c : Classifier ε} {err : Option ε} (h : c.Declines err)
    (permanent retryable : List String) : (c.withPatterns permanent retryable).Declines err :=
  ⟨h.mapper, h.wrapper, h.codeRules⟩

theorem classify_of_declines {c : Classifier ε} {err : Option ε} (h : c.Declines err)
    (errType : String) :
    c.classify err errType = globVerdict (c.config.bind (matchGlobs glob · errType)) := by
  have hrules : c.codeRules.find? (·.applies err) = none := by
    simpa using h.codeRules
  simp only [classify, h.mapper, h.wrapper, hrules]

end Classifier

namespace JavaClassifier
variable {δ : Type} [Classified δ] (c : JavaClassifier δ)

/-- `Classifier.classify`. -/
def classify (ex : Option δ) (errType : String) : Verdict :=
  match ex.bind fun e => c.outcomeMapper.bind (· e) with
  | some d => ⟨d, .outcomeMapper⟩
  | none =>
    match ex.bind Classified.classification with
    | some d => ⟨d, .wrapper⟩
    | none =>
      match ex.bind fun e => c.classRules.find? (·.1 e) with
      | some r => ⟨r.2, .codeClassifier⟩
      | none =>
        -- an empty type skips the patterns altogether
        globVerdict
          (if errType ≠ "" then
            matchGlobs javaGlob
              { retryable := c.retryablePatterns, permanent := c.permanentPatterns } errType
          else none)

/-- No mapper, wrapper or class rule applies to the exception. -/
structure Declines (ex : Option δ) : Prop where
  outcomeMapper : (ex.bind fun e => c.outcomeMapper.bind (· e)) = none
  wrapper : ex.bind Classified.classification = none
  classRules : ∀ e, ex = some e → ∀ r ∈ c.classRules, r.1 e = false

/-- The classifier with the given config patterns. -/
def withPatterns (permanent retryable : List String) : JavaClassifier δ :=
  { c with permanentPatterns := permanent, retryablePatterns := retryable }

theorem Declines.withPatterns {c : JavaClassifier δ} {ex : Option δ} (h : c.Declines ex)
    (permanent retryable : List String) : (c.withPatterns permanent retryable).Declines ex :=
  ⟨h.outcomeMapper, h.wrapper, h.classRules⟩

theorem classify_of_declines {c : JavaClassifier δ} {ex : Option δ} (h : c.Declines ex)
    (errType : String) :
    c.classify ex errType = globVerdict
      (if errType ≠ "" then
        matchGlobs javaGlob
          { retryable := c.retryablePatterns, permanent := c.permanentPatterns } errType
      else none) := by
  have hrules : (ex.bind fun e => c.classRules.find? (·.1 e)) = none := by
    cases ex with
    | none => rfl
    | some e => simpa using h.classRules e rfl
  simp only [classify, h.outcomeMapper, h.wrapper, hrules]

end JavaClassifier

/-- Only the answers of the matcher on the two lists count. -/
theorem matchGlobs_congr {matcher matcher' : String → String → Bool}
    {cfg : ClassificationConfig} {errType : String}
    (h : ∀ p ∈ cfg.permanent ++ cfg.retryable, matcher p errType = matcher' p errType) :
    matchGlobs matcher cfg errType = matchGlobs matcher' cfg errType := by
  have hany {l : List String} (hl : ∀ p ∈ l, matcher p errType = matcher' p errType) :
      l.any (matcher · errType) = l.any (matcher' · errType) := by
    induction l with
    | nil => rfl
    | cons p l ih => simp [hl p (by simp), ih fun q hq => hl q (by simp [hq])]
  rw [matchGlobs, matchGlobs, hany fun p hp => h p (List.mem_append_left _ hp),
    hany fun p hp => h p (List.mem_append_right _ hp)]

/-- No pattern of either list matches. -/
theorem matchGlobs_eq_none_iff {matcher : String → String → Bool} {cfg : ClassificationConfig}
    {errType : String} : matchGlobs matcher cfg errType = none ↔
      ∀ p ∈ cfg.permanent ++ cfg.retryable, matcher p errType = false := by
  unfold matchGlobs
  constructor
  · intro h
    split at h
    · cases h
    · split at h
      · cases h
      · rename_i hperm hretry
        simp only [List.any_eq_true, not_exists, not_and, Bool.not_eq_true] at hperm hretry
        intro p hp
        exact (List.mem_append.mp hp).elim (hperm p) (hretry p)
  · intro h
    rw [if_neg, if_neg]
    · simpa using fun p hp => h p (List.mem_append_right _ hp)
    · simpa using fun p hp => h p (List.mem_append_left _ hp)

section Agreement
variable {ε δ : Type} [Classified ε] [Classified δ] (c : Classifier ε) (j : JavaClassifier δ)
  (err : Option ε) (ex : Option δ)

/-- Both engines classify the error type alike under the same patterns. -/
def Agree (permanent retryable : List String) (errType : String) : Prop :=
  (c.withPatterns permanent retryable).classify err errType =
    (j.withPatterns permanent retryable).classify ex errType

variable {c j err ex} (hc : c.Declines err) (hj : j.Declines ex)
include hc hj

theorem agree_iff {permanent retryable : List String} {errType : String} :
    Agree c j err ex permanent retryable errType ↔
      matchGlobs glob { retryable := retryable, permanent := permanent } errType =
        if errType ≠ "" then
          matchGlobs javaGlob { retryable := retryable, permanent := permanent } errType
        else none := by
  unfold Agree
  rw [Classifier.classify_of_declines (hc.withPatterns permanent retryable),
    JavaClassifier.classify_of_declines (hj.withPatterns permanent retryable),
    globVerdict_injective.eq_iff]
  rfl

/-- Two lists of patterns that both matchers answer alike on a non-empty type. -/
theorem agree_of_glob_eq {permanent retryable : List String} {errType : String}
    (hne : errType ≠ "")
    (h : ∀ p ∈ permanent ++ retryable, glob p errType = javaGlob p errType) :
    Agree c j err ex permanent retryable errType := by
  rw [agree_iff hc hj, if_pos hne]
  exact matchGlobs_congr h

/-- For the empty type the engines agree when no pattern matches it. -/
theorem agree_empty_iff {permanent retryable : List String} :
    Agree c j err ex permanent retryable "" ↔
      ∀ p ∈ permanent ++ retryable, ∃ ch ∈ p.toList, ch ≠ '*' := by
  rw [agree_iff hc hj, if_neg (by simp), matchGlobs_eq_none_iff]
  refine forall₂_congr fun p _ => ?_
  rw [Bool.eq_false_iff, ne_eq, glob, globOver_empty_iff selfSync_utf8]
  push Not
  rfl

/-- A type beyond ASCII tells the engines apart: they count its characters differently. -/
theorem not_agree_of_wide {errType : String} (hwide : ∃ ch ∈ errType.toList, 0x80 ≤ ch.toNat) :
    ¬ Agree c j err ex
      [String.ofList (List.replicate (encode utf16 errType.toList).length '?')] [] errType := by
  have hne : errType ≠ "" := by
    rintro rfl
    obtain ⟨ch, hch, _⟩ := hwide
    cases hch
  have hjava := (globOver_replicate_iff selfSync_utf16 (s := errType)).mpr rfl
  have hgo : ¬ glob (String.ofList (List.replicate (encode utf16 errType.toList).length '?'))
      errType = true := by
    rw [glob, globOver_replicate_iff selfSync_utf8]
    exact (length_utf16_lt hwide).ne'
  rw [agree_iff hc hj, if_pos hne, matchGlobs, matchGlobs]
  simp [javaGlob, hjava, hgo]

/-- The engines classify an error type alike under all patterns exactly when it is
a non-empty ASCII text. The empty type goes apart on a pattern of `*` alone, and
beyond ASCII only patterns with `?` can tell the engines apart. -/
theorem classify_agrees_iff (errType : String) :
    ((∀ permanent retryable, Agree c j err ex permanent retryable errType) ↔
        errType ≠ "" ∧ ∀ ch ∈ errType.toList, ch.toNat < 0x80) ∧
      ∀ permanent retryable : List String,
        (errType = "" → (Agree c j err ex permanent retryable errType ↔
          ∀ p ∈ permanent ++ retryable, ∃ ch ∈ p.toList, ch ≠ '*')) ∧
        (errType ≠ "" → (∀ p ∈ permanent ++ retryable, '?' ∉ p.toList) →
          Agree c j err ex permanent retryable errType) := by
  refine ⟨⟨?_, ?_⟩, ?_⟩
  · intro h
    refine ⟨?_, ?_⟩
    · rintro rfl
      obtain ⟨ch, hch, hne⟩ := (agree_empty_iff hc hj).mp (h ["*"] []) "*" (by simp)
      simp only [String.reduceToList, List.mem_singleton] at hch
      exact hne hch
    · by_contra hwide
      push Not at hwide
      exact not_agree_of_wide hc hj hwide (h _ _)
  · rintro ⟨hne, hascii⟩ permanent retryable
    exact agree_of_glob_eq hc hj hne fun p _ => glob_eq_javaGlob (Or.inl hascii)
  · intro permanent retryable
    refine ⟨?_, ?_⟩
    · rintro rfl
      exact agree_empty_iff hc hj
    · intro hne hp
      exact agree_of_glob_eq hc hj hne fun p hmem => glob_eq_javaGlob (Or.inr (hp p hmem))

end Agreement

/-- The zero `Classifier` of the Go engine. -/
def zeroClassifier : Classifier ErrorString := ⟨none, [], none⟩

/-- `Classifier.empty()` of the Java engine. -/
def emptyClassifier : JavaClassifier ErrorString := ⟨none, [], [], []⟩

theorem zeroClassifier_declines : zeroClassifier.Declines none :=
  ⟨rfl, rfl, by simp [zeroClassifier]⟩

theorem emptyClassifier_declines : emptyClassifier.Declines none :=
  ⟨rfl, rfl, by simp [emptyClassifier]⟩

theorem classify_agrees_timeout :
    Agree zeroClassifier emptyClassifier none none ["TIME*"] ["*OUT"] "TIMEOUT" :=
  (classify_agrees_iff zeroClassifier_declines emptyClassifier_declines "TIMEOUT").1.mpr
    ⟨by simp, by simp⟩ ["TIME*"] ["*OUT"]

/-- An empty error type under `permanent: ["*"]`, and `é` under `permanent: ["?"]`. -/
theorem classify_disagrees :
    ((zeroClassifier.withPatterns ["*"] []).classify none "" = ⟨.permanent, .configGlob⟩ ∧
      (emptyClassifier.withPatterns ["*"] []).classify none "" = ⟨.retryable, .default⟩) ∧
    (zeroClassifier.withPatterns ["?"] []).classify none "é" = ⟨.retryable, .default⟩ ∧
      (emptyClassifier.withPatterns ["?"] []).classify none "é" = ⟨.permanent, .configGlob⟩ := by
  have hstar : glob "*" "" = true := (globOver_empty_iff selfSync_utf8).mpr (by simp)
  have hgo : glob "?" "é" = false := by
    rw [Bool.eq_false_iff]
    exact fun h => absurd ((globOver_replicate_iff selfSync_utf8 (n := 1)).mp h) (by decide)
  have hjava : javaGlob "?" "é" = true :=
    (globOver_replicate_iff selfSync_utf16 (n := 1)).mpr (by decide)
  have hc := fun p => zeroClassifier_declines.withPatterns p []
  have hj := fun p => emptyClassifier_declines.withPatterns p []
  rw [Classifier.classify_of_declines (hc _), Classifier.classify_of_declines (hc _),
    JavaClassifier.classify_of_declines (hj _), JavaClassifier.classify_of_declines (hj _)]
  refine ⟨⟨?_, ?_⟩, ?_, ?_⟩
  · simp [Classifier.withPatterns, matchGlobs, hstar, globVerdict]
  · rfl
  · simp [Classifier.withPatterns, matchGlobs, hgo, globVerdict]
  · simp [JavaClassifier.withPatterns, matchGlobs, hjava, globVerdict]

end Rdq.Engine
