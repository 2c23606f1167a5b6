import Urdira.Canonical.MerkleBucketSet

open ByteOrder KeyedSet MerkleBucket

namespace Canonical

theorem hexBytes_nibbles (bytes : Bytes) : hexBytes (nibbles bytes) = bytes := by
  induction bytes with
  | nil => rfl
  | cons b bytes ih =>
    have hb : nibbles (b :: bytes) = Fin.ofNat 16 (b.val / 16) :: Fin.ofNat 16 b.val :: nibbles
        bytes := rfl
    rw [hb, hexBytes, ih]
    congr 1
    ext
    simp only [Fin.val_ofNat]
    omega

theorem nibbles_injective : Function.Injective nibbles := by
  intro as bs h
  rw [← hexBytes_nibbles as, h, hexBytes_nibbles]

theorem nibbles_lt_iff {as bs : Bytes} (h : as.length = bs.length) :
    nibbles as < nibbles bs ↔ as < bs := by
  induction as generalizing bs with
  | nil =>
    obtain rfl : bs = [] := List.length_eq_zero_iff.mp h.symm
    simp [nibbles]
  | cons a as ih =>
    cases bs with
    | nil => simp at h
    | cons b bs =>
      have hlen : as.length = bs.length := by simpa using h
      have hcons : ∀ (x : Byte) (xs : Bytes),
          nibbles (x :: xs) = Fin.ofNat 16 (x.val / 16) :: Fin.ofNat 16 x.val :: nibbles xs :=
        fun _ _ => rfl
      rw [hcons, hcons, List.cons_lt_cons_iff, List.cons_lt_cons_iff,
        List.cons_lt_cons_iff, ih hlen]
      simp only [Fin.lt_def, Fin.ext_iff, Fin.val_ofNat]
      have ha := a.isLt
      have hb := b.isLt
      constructor
      · rintro (hhigh | ⟨hhigh, hlow | ⟨hlow, hrest⟩⟩)
        · left
          omega
        · left
          omega
        · right
          exact ⟨by omega, hrest⟩
      · rintro (hlt | ⟨heq, hrest⟩)
        · by_cases hhigh : a.val / 16 % 16 < b.val / 16 % 16
          · exact Or.inl hhigh
          · exact Or.inr ⟨by omega, Or.inl (by omega)⟩
        · exact Or.inr ⟨by omega, Or.inr ⟨by omega, hrest⟩⟩

def pathOf : ℕ → ℕ → Hex
  | 0, _ => []
  | depth + 1, idx => pathOf depth (idx / 16) ++ [Fin.ofNat 16 idx]

@[simp] theorem length_pathOf (depth idx : ℕ) : (pathOf depth idx).length = depth := by
  induction depth generalizing idx with
  | zero => rfl
  | succ depth ih => simp [pathOf, ih]

theorem pathOf_injective {depth : ℕ} {i j : ℕ} (hi : i < 16 ^ depth) (hj : j < 16 ^ depth)
    (h : pathOf depth i = pathOf depth j) : i = j := by
  induction depth generalizing i j with
  | zero =>
    simp only [pow_zero, Nat.lt_one_iff] at hi hj
    rw [hi, hj]
  | succ depth ih =>
    rw [pow_succ] at hi hj
    obtain ⟨hhigh, hlow⟩ := List.append_inj h (by simp)
    have hdiv := ih (by omega) (by omega) hhigh
    have hmod : i % 16 = j % 16 := by simpa [Fin.ext_iff] using hlow
    omega

theorem pathOf_child (depth idx : ℕ) (digit : Fin 16) :
    pathOf depth idx ++ [digit] = pathOf (depth + 1) (idx * 16 + digit.val) := by
  rw [pathOf]
  congr 2
  · omega
  · ext
    simp only [Fin.val_ofNat]
    omega

theorem take_pathOf (depth extra idx : ℕ) :
    (pathOf (depth + extra) idx).take depth = pathOf depth (idx / 16 ^ extra) := by
  induction extra generalizing idx with
  | zero =>
    simp only [Nat.add_zero, pow_zero, Nat.div_one]
    exact List.take_of_length_le (by simp)
  | succ extra ih =>
    rw [← Nat.add_assoc, pathOf, List.take_append_of_le_length (by simp), ih,
      Nat.div_div_eq_div_mul,
      pow_succ, Nat.mul_comm]

theorem take_pathOf_bucket {depth : ℕ} (h : depth ≤ 5) (idx : ℕ) :
    (pathOf 5 idx).take depth = pathOf depth (BucketedMerkleSet.parentIndex idx depth) := by
  have hsplit : 5 = depth + (5 - depth) := by omega
  have htake := take_pathOf depth (5 - depth) idx
  rw [← hsplit] at htake
  rw [htake, BucketedMerkleSet.parentIndex, Nat.shiftRight_eq_div_pow, pow_mul]
  norm_num

theorem take_nibbles (key : Digest32) :
    (nibbles key.bytes).take bucketNibbles = pathOf 5 (bucketIndex key) := by
  obtain ⟨bytes, hsize⟩ := key
  match bytes, hsize with
  | b₀ :: b₁ :: b₂ :: rest, hsize =>
    rw [bucketIndex_eq_arith]
    have h₀ := b₀.isLt
    have h₁ := b₁.isLt
    have h₂ := b₂.isLt
    change [Fin.ofNat 16 (b₀.val / 16), Fin.ofNat 16 b₀.val, Fin.ofNat 16 (b₁.val / 16),
      Fin.ofNat 16 b₁.val, Fin.ofNat 16 (b₂.val / 16)] =
      pathOf 5 (b₀.val * 4096 + b₁.val * 16 + b₂.val / 16)
    simp only [pathOf, List.nil_append, List.cons_append, List.cons.injEq, Fin.ext_iff,
      Fin.val_ofNat,
      and_true]
    omega

end Canonical
