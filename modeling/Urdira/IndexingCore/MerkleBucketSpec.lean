import Urdira.IndexingCore.MerkleBucket

open ByteOrder KeyedSet

namespace MerkleBucket

theorem value_eq (key : Digest32) :
    ∃ rest < 2 ^ 232, key.value =
      (key.get 0).val * 2 ^ 248 + (key.get 1).val * 2 ^ 240 + (key.get 2).val * 2 ^ 232 + rest := by
  obtain ⟨bytes, size⟩ := key
  match bytes, size with
  | b₀ :: b₁ :: b₂ :: bs, size =>
    have hlen : bs.length = 29 := by simpa using size
    refine ⟨beValue bs, ?_, ?_⟩
    · have := beValue_lt bs
      rw [hlen] at this
      norm_num at this ⊢
      exact this
    · simp only [Block.value, beValue, List.length_cons, hlen]
      change b₀.val * _ + (b₁.val * _ + (b₂.val * _ + _)) = b₀.val * _ + b₁.val * _ + b₂.val * _ + _
      norm_num
      ring

theorem bucketIndex_eq_arith (key : Digest32) :
    bucketIndex key = (key.get 0).val * 4096 + (key.get 1).val * 16 + (key.get 2).val / 16 := by
  have h₁ : (key.get 1).val <<< 4 < 2 ^ 12 := by
    rw [Nat.shiftLeft_eq]
    omega
  have h₂ : (key.get 2).val >>> 4 < 2 ^ 4 := by
    rw [Nat.shiftRight_eq_div_pow]
    omega
  have hlow : ((key.get 1).val <<< 4) ||| ((key.get 2).val >>> 4) =
      (key.get 1).val <<< 4 + (key.get 2).val >>> 4 := (Nat.shiftLeft_add_eq_or_of_lt h₂ _).symm
  have hlt : (key.get 1).val <<< 4 + (key.get 2).val >>> 4 < 2 ^ 12 := by
    rw [Nat.shiftLeft_eq] at h₁ ⊢
    omega
  unfold bucketIndex
  rw [Nat.or_assoc, hlow, ← Nat.shiftLeft_add_eq_or_of_lt hlt, Nat.shiftLeft_eq, Nat.shiftLeft_eq,
    Nat.shiftRight_eq_div_pow]
  omega

theorem bucketIndex_eq (key : Digest32) : bucketIndex key = key.value / 2 ^ 236 := by
  obtain ⟨rest, hrest, hv⟩ := value_eq key
  rw [bucketIndex_eq_arith, hv]
  omega

theorem bucketIndex_lt (key : Digest32) : bucketIndex key < 1048576 := by
  have h₀ := (key.get 0).isLt
  have h₁ := (key.get 1).isLt
  have h₂ := (key.get 2).isLt
  rw [bucketIndex_eq_arith]
  omega

theorem bucketIndex_mono {a b : Digest32} (h : a ≤ b) : bucketIndex a ≤ bucketIndex b := by
  rw [bucketIndex_eq, bucketIndex_eq]
  exact Nat.div_le_div_right ((Block.le_iff_value_le a b).mp h)

theorem localBucketIndex_eq (key : Digest32) : localBucketIndex key = bucketIndex key % 65536 :=
  Nat.and_two_pow_sub_one_eq_mod (bucketIndex key) 16

theorem topNibble_eq (key : Digest32) : topNibble key = bucketIndex key / 65536 := by
  have h₁ := (key.get 1).isLt
  have h₂ := (key.get 2).isLt
  rw [bucketIndex_eq_arith, topNibble, Nat.shiftRight_eq_div_pow]
  omega

def bucketOf (S : List (Digest32 × Digest32)) (idx : ℕ) : List (Digest32 × Digest32) :=
  S.filter (fun e => decide (bucketIndex e.1 = idx))

@[simp] theorem mem_bucketOf {S : List (Digest32 × Digest32)} {idx : ℕ} {e : Digest32 × Digest32} :
    e ∈ bucketOf S idx ↔ e ∈ S ∧ bucketIndex e.1 = idx := by
  simp [bucketOf]

theorem bucketOf_congr {S S' : List (Digest32 × Digest32)} (h : ∀ e, e ∈ S ↔ e ∈ S') (idx : ℕ)
    (e : Digest32 × Digest32) : e ∈ bucketOf S idx ↔ e ∈ bucketOf S' idx := by
  simp [h]

theorem functional_bucketOf {S : List (Digest32 × Digest32)} (hf : Functional Prod.fst S)
    (idx : ℕ) :
    Functional Prod.fst (bucketOf S idx) :=
  hf.mono (fun _ ha => (mem_bucketOf.mp ha).1)

variable [Sha256]

def specLevel (S : List (Digest32 × Digest32)) : ℕ → ℕ → Digest32
  | 0, idx => bucketDigest (canonOn Prod.fst (bucketOf S idx))
  | k + 1, idx => nodeDigest (4 - k) (fun digit => specLevel S k (idx * 16 + digit))

def specRoot (S : List (Digest32 × Digest32)) : Digest32 :=
  if S.isEmpty then zero else specLevel S 5 0

theorem specLevel_congr {S S' : List (Digest32 × Digest32)} (hf : Functional Prod.fst S)
    (h : ∀ e, e ∈ S ↔ e ∈ S') (k idx : ℕ) : specLevel S k idx = specLevel S' k idx := by
  induction k generalizing idx with
  | zero =>
    simp only [specLevel]
    rw [canonOn_congr (functional_bucketOf hf idx) (bucketOf_congr h idx)]
  | succ k ih => simp only [specLevel, ih]

theorem specRoot_congr {S S' : List (Digest32 × Digest32)} (hf : Functional Prod.fst S)
    (h : ∀ e, e ∈ S ↔ e ∈ S') : specRoot S = specRoot S' := by
  have hnil : S.isEmpty = S'.isEmpty := by
    rw [Bool.eq_iff_iff, List.isEmpty_iff, List.isEmpty_iff, List.eq_nil_iff_forall_not_mem,
      List.eq_nil_iff_forall_not_mem]
    simp only [h]
  unfold specRoot
  rw [hnil, specLevel_congr hf h]

namespace BucketedMerkleSet

def NodeOk (set : BucketedMerkleSet) (depth idx : ℕ) : Prop :=
  set.nodeLevels depth idx =
    nodeDigest depth (fun digit => set.childLevel depth (idx * 16 + digit))

structure Represents (set : BucketedMerkleSet) (S : List (Digest32 × Digest32)) : Prop where
  functional : Functional Prod.fst S
  buckets : ∀ idx < 1048576, set.bucketLevel idx = bucketDigest (canonOn Prod.fst (bucketOf S idx))
  nodes : ∀ depth ≤ 4, ∀ idx < 16 ^ depth, set.NodeOk depth idx
  count : set.count = (canonOn Prod.fst S).length

namespace Represents

variable {set : BucketedMerkleSet} {S S' : List (Digest32 × Digest32)}

theorem congr (h : set.Represents S) (hS : ∀ e, e ∈ S ↔ e ∈ S') : set.Represents S' where
  functional := h.functional.mono (fun e he => (hS e).mpr he)
  buckets := by
    intro idx hidx
    rw [h.buckets idx hidx,
      canonOn_congr (functional_bucketOf h.functional idx) (bucketOf_congr hS idx)]
  nodes := h.nodes
  count := by rw [h.count, canonOn_congr h.functional hS]

theorem nodeLevels_eq (h : set.Represents S) (k : ℕ) (hk : k ≤ 4) (idx : ℕ)
    (hidx : idx < 16 ^ (4 - k)) : set.nodeLevels (4 - k) idx = specLevel S (k + 1) idx := by
  induction k generalizing idx with
  | zero =>
    rw [h.nodes 4 le_rfl idx hidx]
    simp only [specLevel, childLevel, if_true]
    congr 1
    funext digit
    refine h.buckets _ ?_
    norm_num at hidx
    omega
  | succ k ih =>
    rw [h.nodes (4 - (k + 1)) (by omega) idx hidx, specLevel]
    congr 1
    funext digit
    have hdepth : 4 - (k + 1) + 1 = 4 - k := by omega
    rw [childLevel, if_neg (by omega), hdepth]
    refine ih (by omega) _ ?_
    rw [← hdepth, pow_succ]
    omega

theorem root_eq (h : set.Represents S) : set.root = specRoot S := by
  have hcount : set.count = 0 ↔ S = [] := by
    rw [h.count, List.length_eq_zero_iff, canonOn_eq_nil h.functional]
  unfold root specRoot
  by_cases hS : S = []
  · simp [hcount.mpr hS, hS]
  · rw [if_neg (fun hc => hS (hcount.mp hc)), if_neg (by simpa using hS)]
    exact h.nodeLevels_eq 4 le_rfl 0 (by norm_num)

end Represents

omit [Sha256] in
theorem nibbleSlice_eq {sorted : List (Digest32 × Digest32)}
    (hs : sorted.Pairwise (fun a b => a.1 < b.1)) (nibble : ℕ) :
    nibbleSlice sorted nibble = sorted.filter (fun e => decide (topNibble e.1 = nibble)) := by
  refine takeWhile_dropWhile_eq_filter (fun e : Digest32 × Digest32 => topNibble e.1) nibble ?_
  refine hs.imp (fun {a b} hab => ?_)
  rw [topNibble_eq, topNibble_eq]
  exact Nat.div_le_div_right (bucketIndex_mono hab.le)

theorem bucketChunk_eq {sorted : List (Digest32 × Digest32)}
    (hs : sorted.Pairwise (fun a b => a.1 < b.1)) (idx : ℕ) :
    (buildTopNibbleSubtree (nibbleSlice sorted (idx / 65536))).bucketChunk (idx % 65536) =
      bucketDigest (bucketOf sorted idx) := by
  have hlocal : (nibbleSlice sorted (idx / 65536)).Pairwise
      (fun a b => localBucketIndex a.1 ≤ localBucketIndex b.1) := by
    rw [nibbleSlice_eq hs]
    refine (hs.filter _).imp_of_mem (fun {a b} ha hb hab => ?_)
    have hta := of_decide_eq_true (List.mem_filter.mp ha).2
    have htb := of_decide_eq_true (List.mem_filter.mp hb).2
    have hmono := bucketIndex_mono hab.le
    rw [topNibble_eq] at hta htb
    rw [localBucketIndex_eq, localBucketIndex_eq]
    omega
  have hfill := fillRuns_runs (fun e : Digest32 × Digest32 => localBucketIndex e.1) bucketDigest
    (nibbleSlice sorted (idx / 65536)) hlocal (idx % 65536)
  refine hfill.trans ?_
  rw [nibbleSlice_eq hs, List.filter_filter]
  congr 1
  refine List.filter_congr (fun e _ => ?_)
  rw [localBucketIndex_eq, topNibble_eq, ← Bool.decide_and, decide_eq_decide]
  omega

theorem fromSorted_ok {S : List (Digest32 × Digest32)} (hf : Functional Prod.fst S) :
    ∃ set, fromSorted S = .ok set ∧ set.Represents S := by
  have hconf : hasConflict (sortOn Prod.fst S) = false := (hasConflict_sortOn S).mpr hf
  unfold fromSorted
  simp only [hconf, Bool.false_eq_true, if_false]
  refine ⟨_, rfl, hf, ?_, ?_, rfl⟩
  · intro idx _
    refine (bucketChunk_eq (canonOn_pairwise Prod.fst S) idx).trans ?_
    rw [bucketOf, canonOn_filter hf]
    rfl
  · intro depth hdepth idx hidx
    interval_cases depth
    · obtain rfl : idx = 0 := by simpa using hidx
      simp [NodeOk, childLevel]
    · refine congrArg (nodeDigest 1) (funext fun digit => ?_)
      have hdiv : (idx * 16 + digit) / 16 = idx := by omega
      have hmod : (idx * 16 + digit) % 16 = digit := by omega
      simp only [childLevel, hdiv, hmod]
      rfl
    · refine congrArg (nodeDigest 2) (funext fun digit => ?_)
      have hdiv : (idx * 16 + digit) / 256 = idx / 16 := by omega
      have hmod : (idx * 16 + digit) % 256 = idx % 16 * 16 + digit := by omega
      simp only [childLevel, hdiv, hmod]
      rfl
    · refine congrArg (nodeDigest 3) (funext fun digit => ?_)
      have hdiv : (idx * 16 + digit) / 4096 = idx / 256 := by omega
      have hmod : (idx * 16 + digit) % 4096 = idx % 256 * 16 + digit := by omega
      simp only [childLevel, hdiv, hmod]
      rfl
    · refine congrArg (nodeDigest 4) (funext fun digit => ?_)
      have hdiv : (idx * 16 + digit) / 65536 = idx / 4096 := by omega
      have hmod : (idx * 16 + digit) % 65536 = idx % 4096 * 16 + digit := by omega
      simp only [childLevel, hdiv, hmod]
      rfl

end BucketedMerkleSet

end MerkleBucket
