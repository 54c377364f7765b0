import Rdq.Foundation.ByteText
import Rdq.Foundation.Fallible

/-!
# Callback signatures

`server/callback/sign.go`: the signature header binds the body of a callback request to
the time of its signing, and a receiver verifies it from the header and the body.

## Implementation notes

HMAC-SHA256 is a function of the secret and the message. Header values are bytes.
-/

namespace Rdq.Server.Callback

open Foundation ByteText

abbrev Bytes := List UInt8

def signatureHeader : String := "X-RDQ-Signature"

variable (mac : Bytes → Bytes → Bytes)

/-- The signed message: the time, a dot and the body. -/
def message (body : Bytes) (ts : Int64) : Bytes := asciiBytes (formatInt ts.toInt) ++ 46 :: body

def tag (secret body : Bytes) (ts : Int64) : Bytes := hexEncode (mac secret (message body ts))

/-- The fields `t=<ts>` and `v1=<tag>`. -/
def timeField (ts : Int64) : Bytes := 116 :: 61 :: asciiBytes (formatInt ts.toInt)

def tagField (v1 : Bytes) : Bytes := 118 :: 49 :: 61 :: v1

def sign (secret body : Bytes) (ts : Int64) : Bytes :=
  timeField ts ++ 44 :: tagField (tag mac secret body ts)

inductive SignatureError
  /-- The text `callback: bad signature timestamp "v"`, followed by the error of `ParseInt`. -/
  | badTimestamp (v : Bytes)
  /-- The text `callback: signature missing t= or v1= field`. -/
  | missing
  /-- The text `callback: signature v1 is not hex`, followed by the error of the decoder. -/
  | notHex (e : HexError)
  /-- The text `callback: signature mismatch`. -/
  | mismatch
deriving DecidableEq, Repr

/-- The time and the tag found so far. -/
abbrev Fields := Option Int64 × Option Bytes

/-- One field of the header; later fields win, and others are passed over. -/
def parseField (found : Fields) (part : Bytes) : Except SignatureError Fields :=
  match cut 61 (trimSpace part) with
  | none => .ok found
  | some (k, v) =>
    if k = [116] then
      match parseInt64 (byteChars v) with
      | none => .error (.badTimestamp v)
      | some ts => .ok (some ts, found.2)
    else if k = [118, 49] then .ok (found.1, some v)
    else .ok found

def parseSignature (header : Bytes) : Except SignatureError (Int64 × Bytes) := do
  let found ← (split 44 header).foldlM parseField (none, none)
  match found with
  | (some ts, some v1) => .ok (ts, v1)
  | _ => .error .missing

def verify (secret body header : Bytes) : Except SignatureError Int64 := do
  let (ts, v1) ← parseSignature header
  let want ← (hexDecode v1).mapError .notHex
  let got := (hexDecode (tag mac secret body ts)).toOption.getD []
  if got ≠ want then .error .mismatch else .ok ts

/-! ## The fields of a signature -/

theorem isGraph_timeField {ts : Int64} {c : UInt8} (h : c ∈ timeField ts) :
    isGraph c = true ∧ c ≠ 44 := by
  rcases List.mem_cons.mp h with rfl | h
  · decide
  · rcases List.mem_cons.mp h with rfl | h
    · decide
    · obtain ⟨hgraph, -, hcomma, -⟩ := mem_asciiBytes_formatInt h
      exact ⟨hgraph, hcomma⟩

theorem isGraph_tagField {bytes : Bytes} {c : UInt8} (h : c ∈ tagField (hexEncode bytes)) :
    isGraph c = true ∧ c ≠ 44 := by
  rcases List.mem_cons.mp h with rfl | h
  · decide
  · rcases List.mem_cons.mp h with rfl | h
    · decide
    · rcases List.mem_cons.mp h with rfl | h
      · decide
      · exact mem_hexEncode h

theorem parseField_timeField (found : Fields) (ts : Int64) :
    parseField found (timeField ts) = .ok (some ts, found.2) := by
  have htrim : trimSpace (timeField ts) = timeField ts :=
    trimSpace_of_forall fun c hc => (isGraph_timeField hc).1
  have hcut : cut 61 (timeField ts) = some ([116], asciiBytes (formatInt ts.toInt)) :=
    cut_append_cons [116] _ (by decide)
  simp only [parseField, htrim, hcut, if_true, byteChars_asciiBytes_formatInt, parseInt64_formatInt]

theorem parseField_tagField (found : Fields) (bytes : Bytes) :
    parseField found (tagField (hexEncode bytes)) = .ok (found.1, some (hexEncode bytes)) := by
  have htrim : trimSpace (tagField (hexEncode bytes)) = tagField (hexEncode bytes) :=
    trimSpace_of_forall fun c hc => (isGraph_tagField hc).1
  have hcut : cut 61 (tagField (hexEncode bytes)) = some ([118, 49], hexEncode bytes) :=
    cut_append_cons [118, 49] _ (by decide)
  have hne : ([118, 49] : Bytes) ≠ [116] := by decide
  simp only [parseField, htrim, hcut, if_neg hne, if_true]

theorem parseSignature_sign (secret body : Bytes) (ts : Int64) :
    parseSignature (sign mac secret body ts) = .ok (ts, tag mac secret body ts) := by
  have hsplit : split 44 (sign mac secret body ts) =
      [timeField ts, tagField (tag mac secret body ts)] := by
    rw [sign, split_append_cons _ _ fun h => (isGraph_timeField h).2 rfl, tag,
      split_of_notMem fun h => (isGraph_tagField h).2 rfl]
  have htag := parseField_tagField (some ts, none) (mac secret (message body ts))
  rw [parseSignature, hsplit, List.foldlM_cons, parseField_timeField]
  exact congrArg (fun found => (found >>= pure) >>= _) htag

/-! ## Verification -/

variable {mac} {secret body header : Bytes} {ts : Int64}

theorem verify_eq_ok :
    verify mac secret body header = .ok ts ↔
      ∃ v1, parseSignature header = .ok (ts, v1) ∧
        hexDecode v1 = .ok (mac secret (message body ts)) := by
  have hgot (ts : Int64) : (hexDecode (tag mac secret body ts)).toOption.getD [] =
      mac secret (message body ts) := by
    rw [tag, hexDecode_hexEncode]
    rfl
  constructor
  · intro h
    obtain ⟨⟨ts', v1⟩, hparse, h⟩ := bind_eq_ok.mp h
    obtain ⟨want, hwant, h⟩ := bind_eq_ok.mp h
    obtain ⟨heq, h⟩ := check_eq_ok.mp h
    cases h
    rw [hgot] at heq
    exact ⟨v1, hparse, not_not.mp heq ▸ mapError_eq_ok.mp hwant⟩
  · rintro ⟨v1, hparse, hwant⟩
    refine bind_eq_ok.mpr ⟨(ts, v1), hparse, bind_eq_ok.mpr ⟨_, mapError_eq_ok.mpr hwant, ?_⟩⟩
    exact check_eq_ok.mpr ⟨not_not.mpr (hgot ts), rfl⟩

/-- The first dot ends the time, so the message determines the body and the time. -/
theorem message_inj {body body' : Bytes} {ts ts' : Int64}
    (h : message body ts = message body' ts') : body = body' ∧ ts = ts' := by
  have hdot (i : Int) : (46 : UInt8) ∉ asciiBytes (formatInt i) := fun hmem =>
    (mem_asciiBytes_formatInt hmem).2.2.2.1 rfl
  obtain ⟨htime, hbody⟩ := append_cons_inj (hdot _) (hdot _) h
  have hparse := congrArg (fun bytes => parseInt64 (byteChars bytes)) htime
  simp only [byteChars_asciiBytes_formatInt, parseInt64_formatInt] at hparse
  exact ⟨hbody, Option.some.inj hparse⟩

/-- A signature verifies at the time it was made, and a header that carries the tag of a
body and a time verifies for these alone. -/
theorem signature_binds_body_and_time (mac : Bytes → Bytes → Bytes) (secret : Bytes)
    (hmac : Function.Injective (mac secret)) (b b' : Bytes) (t : Int64) (h : Bytes) :
    verify mac secret b (sign mac secret b t) = .ok t ∧
      ∀ t' ts v1, verify mac secret b' h = .ok t' → parseSignature h = .ok (ts, v1) →
        v1 = tag mac secret b t → b' = b ∧ t' = t := by
  constructor
  · rw [verify_eq_ok]
    exact ⟨_, parseSignature_sign mac secret b t, hexDecode_hexEncode _⟩
  · intro t' ts v1 hverify hparse htag
    obtain ⟨v1', hparse', hdecode⟩ := verify_eq_ok.mp hverify
    obtain ⟨rfl, rfl⟩ : ts = t' ∧ v1 = v1' :=
      Prod.mk.inj (Except.ok.inj (hparse.symm.trans hparse'))
    rw [htag, tag, hexDecode_hexEncode] at hdecode
    obtain ⟨rfl, rfl⟩ := message_inj (hmac (Except.ok.inj hdecode))
    exact ⟨rfl, rfl⟩

theorem signature_binds_plain_mac :
    Function.Injective ((fun _ m => m : Bytes → Bytes → Bytes) [1]) ∧
      verify (fun _ m => m) [1] [98] (sign (fun _ m => m) [1] [98] 7) = .ok 7 ∧
      ∀ b' t', verify (fun _ m => m) [1] b' (sign (fun _ m => m) [1] [98] 7) = .ok t' →
        b' = [98] ∧ t' = 7 := by
  have hinj : Function.Injective ((fun _ m => m : Bytes → Bytes → Bytes) [1]) := fun _ _ h => h
  refine ⟨hinj, (signature_binds_body_and_time _ [1] hinj [98] [98] 7 []).1, ?_⟩
  intro b' t' hverify
  exact (signature_binds_body_and_time _ [1] hinj [98] b' 7 _).2 t' 7 _ hverify
    (parseSignature_sign _ [1] [98] 7) rfl

end Rdq.Server.Callback
