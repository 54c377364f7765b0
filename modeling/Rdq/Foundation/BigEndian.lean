import Mathlib.Data.Nat.Digits.Lemmas
import Mathlib.Data.UInt
import Mathlib.Tactic.Common

/-!
# Big-endian numerals

The value of a list of digits with the most significant digit first. For lists of one
length the order of the values is the lexicographic order of the digits
(`bigEndian_lt_iff`), so a value has one numeral of each length (`bigEndian_inj`).

The second part reads the mask-and-shift expressions on bytes, of which hand-unrolled
codecs are made, as arithmetic.
-/

namespace Rdq.Foundation

/-! ## Numerals -/

section Numerals
variable {b : Nat}

/-- The value of the digits `ds` in base `b`. -/
def bigEndian (b : Nat) (ds : List Nat) : Nat := Nat.ofDigits b ds.reverse

@[simp] theorem bigEndian_nil : bigEndian b [] = 0 := rfl

@[simp] theorem bigEndian_cons (d : Nat) (ds : List Nat) :
    bigEndian b (d :: ds) = d * b ^ ds.length + bigEndian b ds := by
  simp only [bigEndian, List.reverse_cons, Nat.ofDigits_append, List.length_reverse,
    Nat.ofDigits_singleton]
  rw [Nat.add_comm, Nat.mul_comm]

theorem bigEndian_append (xs ys : List Nat) :
    bigEndian b (xs ++ ys) = bigEndian b xs * b ^ ys.length + bigEndian b ys := by
  simp only [bigEndian, List.reverse_append, Nat.ofDigits_append, List.length_reverse]
  rw [Nat.add_comm, Nat.mul_comm]

theorem bigEndian_lt (hb : 1 < b) {ds : List Nat} (hds : ∀ d ∈ ds, d < b) :
    bigEndian b ds < b ^ ds.length := by
  have h := Nat.ofDigits_lt_base_pow_length hb (l := ds.reverse) (by simpa using hds)
  rwa [List.length_reverse] at h

/-- Numerals of one length are ordered as their values are. -/
theorem bigEndian_lt_iff (hb : 1 < b) {xs ys : List Nat} (hlen : xs.length = ys.length)
    (hxs : ∀ x ∈ xs, x < b) (hys : ∀ y ∈ ys, y < b) :
    bigEndian b xs < bigEndian b ys ↔ xs < ys := by
  induction xs generalizing ys with
  | nil =>
    rw [List.eq_nil_of_length_eq_zero hlen.symm]
    simp
  | cons x xs ih =>
    obtain ⟨y, ys, rfl⟩ := List.exists_cons_of_length_eq_add_one hlen.symm
    have hlen' : xs.length = ys.length := by simpa using hlen
    have hxs' := bigEndian_lt hb fun z hz => hxs z (List.mem_cons_of_mem x hz)
    have hys' := bigEndian_lt hb fun z hz => hys z (List.mem_cons_of_mem y hz)
    have ih := ih hlen' (fun z hz => hxs z (List.mem_cons_of_mem x hz))
      (fun z hz => hys z (List.mem_cons_of_mem y hz))
    rw [List.cons_lt_cons_iff, bigEndian_cons, bigEndian_cons, hlen', ← ih]
    rw [hlen'] at hxs'
    -- A larger first digit outweighs whatever follows it.
    have hdigit {m n : Nat} (h : m < n) :
        m * b ^ ys.length + b ^ ys.length ≤ n * b ^ ys.length := by
      calc m * b ^ ys.length + b ^ ys.length = (m + 1) * b ^ ys.length :=
            (Nat.succ_mul m _).symm
        _ ≤ n * b ^ ys.length := Nat.mul_le_mul_right _ h
    rcases Nat.lt_trichotomy x y with h | rfl | h
    · have := hdigit h
      omega
    · omega
    · have := hdigit h
      omega

theorem bigEndian_inj (hb : 1 < b) {xs ys : List Nat} (hlen : xs.length = ys.length)
    (hxs : ∀ x ∈ xs, x < b) (hys : ∀ y ∈ ys, y < b) (h : bigEndian b xs = bigEndian b ys) :
    xs = ys := by
  apply List.reverse_injective
  exact Nat.ofDigits_inj_of_len_eq hb (by simpa using hlen) (by simpa using hxs)
    (by simpa using hys) h

/-- An order-preserving renaming of digits keeps the lexicographic order. -/
theorem lex_map_iff {α β : Type*} [LT α] [LT β] {f : α → β} {s : Set α}
    (hlt : ∀ x ∈ s, ∀ y ∈ s, f x < f y ↔ x < y) (hinj : Set.InjOn f s) {xs ys : List α}
    (hxs : ∀ x ∈ xs, x ∈ s) (hys : ∀ y ∈ ys, y ∈ s) : xs.map f < ys.map f ↔ xs < ys := by
  induction xs generalizing ys with
  | nil => cases ys <;> simp
  | cons x xs ih =>
    cases ys with
    | nil => simp
    | cons y ys =>
      have hx := hxs x List.mem_cons_self
      have hy := hys y List.mem_cons_self
      rw [List.map_cons, List.map_cons, List.cons_lt_cons_iff, List.cons_lt_cons_iff,
        hlt x hx y hy, hinj.eq_iff hx hy,
        ih (fun z hz => hxs z (List.mem_cons_of_mem x hz))
          (fun z hz => hys z (List.mem_cons_of_mem y hz))]

end Numerals

/-! ## Bit fields of a byte -/

/-- The lowest `k` bits of a byte, by a mask. -/
theorem toNat_low (x mask : UInt8) (k : Nat) (hmask : mask.toNat = 2 ^ k - 1) :
    (x &&& mask).toNat = x.toNat % 2 ^ k := by
  rw [UInt8.toNat_and, hmask, Nat.and_two_pow_sub_one_eq_mod]

/-- The bits from bit `n` on. -/
theorem toNat_high (x shift : UInt8) (n : Nat) (hn : shift.toNat % 8 = n) :
    (x >>> shift).toNat = x.toNat / 2 ^ n := by
  rw [UInt8.toNat_shiftRight, hn, Nat.shiftRight_eq_div_pow]

/-- The `k` bits from bit `n` on, by a mask and a shift. -/
theorem toNat_field (x mask shift : UInt8) (n k : Nat)
    (h : shift.toNat % 8 = n ∧ mask.toNat >>> n = 2 ^ k - 1) :
    ((x &&& mask) >>> shift).toNat = x.toNat / 2 ^ n % 2 ^ k := by
  rw [UInt8.toNat_shiftRight, h.1, UInt8.toNat_and, Nat.shiftRight_and_distrib, h.2,
    Nat.and_two_pow_sub_one_eq_mod, Nat.shiftRight_eq_div_pow]

/-- Two fields put side by side; what does not fit into the byte is lost. -/
theorem toNat_join (x y shift : UInt8) (n : Nat) (hn : shift.toNat % 8 = n)
    (hy : y.toNat < 2 ^ n) :
    (x <<< shift ||| y).toNat = x.toNat % 2 ^ (8 - n) * 2 ^ n + y.toNat := by
  have hsplit : 2 ^ 8 = 2 ^ (8 - n) * 2 ^ n := by
    rw [← Nat.pow_add]
    congr 1
    omega
  rw [UInt8.toNat_or, UInt8.toNat_shiftLeft, hn, Nat.shiftLeft_eq, hsplit,
    Nat.mul_mod_mul_right, ← Nat.shiftLeft_eq, ← Nat.shiftLeft_add_eq_or_of_lt hy]

/-- The bits of a byte from bit `n` on, masked as well. -/
theorem toNat_top (x mask shift : UInt8) (n : Nat)
    (h : shift.toNat % 8 = n ∧ mask.toNat >>> n = 2 ^ (8 - n) - 1) :
    ((x &&& mask) >>> shift).toNat = x.toNat / 2 ^ n := by
  have hn : n < 8 := by
    rw [← h.1]
    exact Nat.mod_lt _ (by decide)
  rw [toNat_field x mask shift n (8 - n) h]
  apply Nat.mod_eq_of_lt
  apply Nat.div_lt_of_lt_mul
  rw [← Nat.pow_add, show n + (8 - n) = 8 by omega]
  exact x.toNat_lt

/-- The lowest `k` bits of a byte in front of the top bits of another one. -/
theorem toNat_straddle (x y low top left right : UInt8) (k n m : Nat)
    (hx : low.toNat = 2 ^ k - 1 ∧ left.toNat % 8 = n ∧ k + n ≤ 8)
    (hy : right.toNat % 8 = m ∧ top.toNat >>> m = 2 ^ (8 - m) - 1 ∧ 8 - m ≤ n) :
    ((x &&& low) <<< left ||| (y &&& top) >>> right).toNat =
      x.toNat % 2 ^ k * 2 ^ n + y.toNat / 2 ^ m := by
  have htop := toNat_top y top right m ⟨hy.1, hy.2.1⟩
  have hm : m < 8 := by
    rw [← hy.1]
    exact Nat.mod_lt _ (by decide)
  have hlt : ((y &&& top) >>> right).toNat < 2 ^ n := by
    rw [htop]
    apply Nat.lt_of_lt_of_le _ (Nat.pow_le_pow_right (by decide) hy.2.2)
    apply Nat.div_lt_of_lt_mul
    rw [← Nat.pow_add, show m + (8 - m) = 8 by omega]
    exact y.toNat_lt
  have hle : 2 ^ k ≤ 2 ^ (8 - n) := Nat.pow_le_pow_right (by decide) (by omega)
  rw [toNat_join _ _ left n hx.2.1 hlt, htop, toNat_low x low k hx.1,
    Nat.mod_eq_of_lt (Nat.lt_of_lt_of_le (Nat.mod_lt _ (Nat.two_pow_pos k)) hle)]

end Rdq.Foundation
