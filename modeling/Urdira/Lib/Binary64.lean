import Mathlib

namespace Binary64

abbrev Double := BitVec 64

def negative (x : Double) : Bool := decide (2 ^ 63 ≤ x.toNat)

def biasedExponent (x : Double) : ℕ := x.toNat / 2 ^ 52 % 2 ^ 11

def fraction (x : Double) : ℕ := x.toNat % 2 ^ 52

def finite (x : Double) : Bool := decide (biasedExponent x ≠ 2047)

def significand (x : Double) : ℕ :=
  if biasedExponent x = 0 then fraction x else 2 ^ 52 + fraction x

def exponent (x : Double) : ℤ := max (biasedExponent x) 1 - 1075

def magnitude (x : Double) : ℚ := significand x * (2 : ℚ) ^ exponent x

def value (x : Double) : ℚ := if negative x then -magnitude x else magnitude x

def trunc (x : Double) : ℤ := if negative x then -⌊magnitude x⌋ else ⌊magnitude x⌋

def fract (x : Double) : ℚ := value x - trunc x

def positiveZero : Double := 0

def negativeZero : Double := BitVec.ofNat 64 (2 ^ 63)

theorem magnitude_nonneg (x : Double) : 0 ≤ magnitude x := by
  unfold magnitude
  positivity

theorem magnitude_eq_zero {x : Double} : magnitude x = 0 ↔ significand x = 0 := by
  have hpow : (2 : ℚ) ^ exponent x ≠ 0 := by positivity
  rw [magnitude, mul_eq_zero, or_iff_left hpow, Nat.cast_eq_zero]

theorem value_eq_zero {x : Double} : value x = 0 ↔ x = positiveZero ∨ x = negativeZero := by
  have hlt := x.isLt
  have hzero : value x = 0 ↔ significand x = 0 := by
    rw [← magnitude_eq_zero, value]
    split <;> simp
  have hbits : significand x = 0 ↔ x.toNat = 0 ∨ x.toNat = 2 ^ 63 := by
    unfold significand fraction biasedExponent
    split <;> omega
  rw [hzero, hbits]
  constructor
  · rintro (h | h)
    · exact .inl (BitVec.eq_of_toNat_eq h)
    · exact .inr (BitVec.eq_of_toNat_eq h)
  · rintro (rfl | rfl)
    · exact .inl rfl
    · exact .inr rfl

theorem trunc_eq_floor {x : Double} (h : value x = ⌊value x⌋) : (trunc x : ℚ) = value x := by
  unfold trunc value at *
  split at h
  · rename_i hneg
    have hmag : magnitude x = ((-⌊-magnitude x⌋ : ℤ) : ℚ) := by
      rw [Int.cast_neg, ← h, neg_neg]
    rw [if_pos hneg, if_pos hneg, hmag, Int.floor_intCast]
    push_cast
    ring
  · rename_i hneg
    rw [if_neg hneg, if_neg hneg, ← h]

theorem fract_eq_zero {x : Double} : fract x = 0 ↔ value x = ⌊value x⌋ := by
  constructor
  · intro h
    have hint : value x = (trunc x : ℚ) := sub_eq_zero.mp h
    rw [hint, Int.floor_intCast]
  · intro h
    rw [fract, trunc_eq_floor h, sub_self]

theorem abs_value (x : Double) : |value x| = magnitude x := by
  unfold value
  split
  · rw [abs_neg, abs_of_nonneg (magnitude_nonneg x)]
  · exact abs_of_nonneg (magnitude_nonneg x)

theorem natAbs_trunc (x : Double) : (trunc x).natAbs = ⌊|value x|⌋.toNat := by
  have hfloor : 0 ≤ ⌊magnitude x⌋ := Int.floor_nonneg.mpr (magnitude_nonneg x)
  rw [abs_value]
  unfold trunc
  split <;> omega

theorem value_neg_iff {x : Double} (h : value x ≠ 0) : value x < 0 ↔ negative x := by
  have hmag := magnitude_nonneg x
  unfold value at *
  split at h
  · rename_i hneg
    have hpos : 0 < magnitude x := lt_of_le_of_ne hmag (fun h0 => h (by rw [← h0, neg_zero]))
    simp [hneg, hpos]
  · rename_i hneg
    simp [hneg, hmag]

def roundEven (n shift : ℕ) : ℕ :=
  let quotient := n / 2 ^ shift
  let rest := n % 2 ^ shift
  if 2 * rest < 2 ^ shift then quotient
  else if 2 ^ shift < 2 * rest then quotient + 1
  else quotient + quotient % 2

def leading (n : ℕ) : ℕ :=
  if n.log2 ≤ 52 then n * 2 ^ (52 - n.log2) else roundEven n (n.log2 - 52)

def ofNat (n : ℕ) : Double :=
  if n = 0 then positiveZero else BitVec.ofNat 64 ((n.log2 + 1022) * 2 ^ 52 + leading n)

def neg (x : Double) : Double := BitVec.ofNat 64 (x.toNat + 2 ^ 63)

def ofInt (n : ℤ) : Double := if n < 0 then neg (ofNat n.natAbs) else ofNat n.natAbs

section SmallIntegers

end SmallIntegers

section Injectivity

end Injectivity

end Binary64
