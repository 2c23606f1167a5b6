import Urdira.StructuralStore.ReaderSpec

open ByteOrder KeyedSet MerkleBucket BinarySearch

namespace StructuralStore

section BucketRanges

variable {α : Type} {key : α → Digest32} {items : List α} {idx : ℕ}

def bucketSlice (key : α → Digest32) (items : List α) (idx : ℕ) : List α :=
  let bounds := bucketKeyBounds idx
  slice items (lowerBound key items bounds.1) (lowerBound key items bounds.2)

theorem not_lt_bucketKeyBounds_maxKey : ¬ maxKey < (bucketKeyBounds idx).2 := by
  rw [Block.lt_iff_value_lt, value_maxKey, not_lt]
  have hbound := beValue_lt (bucketKeyBounds idx).2.bytes
  rw [(bucketKeyBounds idx).2.size] at hbound
  have hpow : (256 : ℕ) ^ 32 = 2 ^ 256 := by norm_num
  rw [hpow] at hbound
  exact Nat.le_sub_one_of_lt hbound

theorem mem_bucketRange (h : idx < 1048576) (digest : Digest32) :
    ((bucketKeyBounds idx).1 ≤ digest ∧ digest < (bucketKeyBounds idx).2) ↔
      bucketIndex digest = idx ∧ digest ≠ maxKey := by
  by_cases hmax : digest = maxKey
  · subst hmax
    exact iff_of_false (fun hrange => not_lt_bucketKeyBounds_maxKey hrange.2)
      (fun hbucket => hbucket.2 rfl)
  · rw [mem_bucketKeyBounds h hmax]
    exact (and_iff_left hmax).symm

theorem bucketSlice_eq_filter (hs : items.Pairwise (fun a b => key a ≤ key b)) (h : idx < 1048576) :
    bucketSlice key items idx = items.filter
      (fun a => decide (bucketIndex (key a) = idx ∧ key a ≠ maxKey)) := by
  have hslice := slice_lowerBound hs (bucketKeyBounds_le h)
  refine hslice.trans (List.filter_congr (fun a _ => ?_))
  rw [decide_eq_decide]
  exact mem_bucketRange h (key a)

end BucketRanges

theorem bucketKeyBounds_partition {idx : ℕ} (h : idx < 2 ^ 20) :
    (∀ key : Digest32, key ≠ maxKey →
      (((bucketKeyBounds idx).1 ≤ key ∧ key < (bucketKeyBounds idx).2) ↔ bucketIndex key = idx)) ∧
    ∀ keys : List Digest32, keys.Pairwise (· < ·) →
      slice keys (lowerBound id keys (bucketKeyBounds idx).1)
        (lowerBound id keys (bucketKeyBounds idx).2) =
        keys.filter (fun key => decide (bucketIndex key = idx ∧ key ≠ maxKey)) := by
  have hidx : idx < 1048576 := h
  refine ⟨fun key hkey => mem_bucketKeyBounds hidx hkey, fun keys hkeys => ?_⟩
  have hsorted : keys.Pairwise (fun a b => id a ≤ id b) := hkeys.imp (fun hab => hab.le)
  exact bucketSlice_eq_filter hsorted hidx

theorem bucketKeyBounds_partition_last :
    slice [bucketKeyBound 1048575, maxKey]
      (lowerBound id [bucketKeyBound 1048575, maxKey] (bucketKeyBounds 1048575).1)
      (lowerBound id [bucketKeyBound 1048575, maxKey] (bucketKeyBounds 1048575).2) =
      [bucketKeyBound 1048575, maxKey].filter
        (fun key => decide (bucketIndex key = 1048575 ∧ key ≠ maxKey)) := by
  have hlt : bucketKeyBound 1048575 < maxKey := by decide +kernel
  exact (bucketKeyBounds_partition (by norm_num)).2 _ (List.pairwise_pair.mpr hlt)

theorem last_bucket_misses_maxKey :
    ¬ ∀ idx < 2 ^ 20, ∀ keys : List Digest32, keys.Pairwise (· < ·) →
      slice keys (lowerBound id keys (bucketKeyBounds idx).1)
        (lowerBound id keys (bucketKeyBounds idx).2) =
        keys.filter (fun key => decide (bucketIndex key = idx)) := by
  intro h
  have hlast := h 1048575 (by norm_num) [maxKey] (List.pairwise_singleton _ _)
  exact absurd hlast (by decide +kernel)

end StructuralStore
