import Mathlib

namespace ByteOrder

abbrev Byte := Fin 256

instance byteValues : NeZero 256 := ⟨by decide⟩

instance nibbleValues : NeZero 16 := ⟨by decide⟩

instance wordValues : NeZero 4294967296 := ⟨by decide⟩

instance doubleWordValues : NeZero 18446744073709551616 := ⟨by decide⟩

abbrev Bytes := List Byte

instance lawfulByte : LawfulBEq Byte := inferInstance

instance lawfulBytes : LawfulBEq Bytes := inferInstance

def utf8 (s : String) : Bytes := s.toUTF8.data.toList.map (fun b => Fin.ofNat 256 b.toNat)

def beValue : Bytes → ℕ
  | [] => 0
  | b :: bs => b.val * 256 ^ bs.length + beValue bs

theorem beValue_lt (bs : Bytes) : beValue bs < 256 ^ bs.length := by
  induction bs with
  | nil => simp [beValue]
  | cons b bs ih =>
    simp only [beValue, List.length_cons, pow_succ]
    have hb : b.val ≤ 255 := by omega
    have hmul : b.val * 256 ^ bs.length ≤ 255 * 256 ^ bs.length := Nat.mul_le_mul_right _ hb
    omega

theorem lt_iff_beValue_lt {as bs : Bytes} (h : as.length = bs.length) :
    as < bs ↔ beValue as < beValue bs := by
  induction as generalizing bs with
  | nil =>
    obtain rfl : bs = [] := List.length_eq_zero_iff.mp h.symm
    simp [beValue]
  | cons a as ih =>
    cases bs with
    | nil => simp at h
    | cons b bs =>
      have hlen : as.length = bs.length := by simpa using h
      have ha := beValue_lt as
      have hb := beValue_lt bs
      rw [List.cons_lt_cons_iff, ih hlen]
      simp only [beValue, hlen] at ha ⊢
      constructor
      · rintro (hlt | ⟨rfl, hlt⟩)
        · have hstep : (a.val + 1) * 256 ^ bs.length ≤ b.val * 256 ^ bs.length :=
            Nat.mul_le_mul_right _ hlt
          rw [Nat.add_mul, Nat.one_mul] at hstep
          omega
        · omega
      · intro hlt
        rcases lt_trichotomy a b with hab | rfl | hab
        · exact Or.inl hab
        · exact Or.inr ⟨rfl, by omega⟩
        · exfalso
          have hstep : (b.val + 1) * 256 ^ bs.length ≤ a.val * 256 ^ bs.length :=
            Nat.mul_le_mul_right _ hab
          rw [Nat.add_mul, Nat.one_mul] at hstep
          omega

structure Block (n : ℕ) where
  bytes : Bytes
  size : bytes.length = n
  deriving DecidableEq

namespace Block

variable {n : ℕ}

theorem bytes_injective : Function.Injective (bytes : Block n → Bytes) := by
  intro a b h
  cases a
  cases b
  simpa using h

instance : LinearOrder (Block n) := LinearOrder.lift' bytes bytes_injective

instance lawfulBlock : LawfulBEq (Block n) := inferInstance

def get (b : Block n) (i : Fin n) : Byte := b.bytes.get (i.cast b.size.symm)

def value (b : Block n) : ℕ := beValue b.bytes

theorem lt_iff_value_lt (a b : Block n) : a < b ↔ a.value < b.value :=
  lt_iff_beValue_lt (a.size.trans b.size.symm)

theorem le_iff_value_le (a b : Block n) : a ≤ b ↔ a.value ≤ b.value := by
  rw [← not_lt, lt_iff_value_lt, not_lt]

def fill (n : ℕ) (b : Byte) : Block n := ⟨List.replicate n b, by simp⟩

end Block

end ByteOrder
