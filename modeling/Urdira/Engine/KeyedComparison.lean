import Urdira.Engine.QueryComparison
import Urdira.Lib.GreedyMatching
import Urdira.Lib.KeyedDiff

open Canonical GreedyMatching KeyedDiff LogicalEncoding MerkleBucket

namespace Engine

namespace QueryComparison

theorem compareCanonicalIdentity_lt {left right : Text} :
    compareCanonicalIdentity left right = .lt ↔ left < right := by
  unfold compareCanonicalIdentity
  split_ifs <;> simp_all

theorem compareCanonicalIdentity_gt {left right : Text} :
    compareCanonicalIdentity left right = .gt ↔ right < left := by
  unfold compareCanonicalIdentity
  split_ifs with hlt hgt
  · simpa using hlt.le
  · simpa using hgt
  · simpa using hgt

theorem compareCanonicalIdentity_eq {left right : Text} :
    compareCanonicalIdentity left right = .eq ↔ left = right := by
  unfold compareCanonicalIdentity
  split_ifs with hlt hgt
  · simpa using hlt.ne
  · simpa using hgt.ne'
  · simpa using le_antisymm (not_lt.mp hgt) (not_lt.mp hlt)

section Sources

def ComparisonRecordSource.all (source : ComparisonRecordSource) : List CanonicalQueryRecord :=
  match source.records with
  | .list records => records
  | .batches batches => batches.flatten

structure ComparisonRecordSource.Ordered (source : ComparisonRecordSource) : Prop where
  declared : source.orderedByIdentity = true
  keys : (source.all.filterMap CanonicalQueryRecord.identityKey).Pairwise (· ≤ ·)

def ComparisonIterator.Ordered (iterator : ComparisonIterator) : Prop :=
  KeyedDiff.Ordered CanonicalQueryRecord.identityKey iterator.previousKey iterator.batches.flatten

def ComparisonIterator.pending (iterator : ComparisonIterator) : List CanonicalQueryRecord :=
  firsts CanonicalQueryRecord.identityKey iterator.previousKey iterator.batches.flatten

def ComparisonRecordSource.firsts (source : ComparisonRecordSource) : List CanonicalQueryRecord :=
  KeyedDiff.firsts CanonicalQueryRecord.identityKey none source.all

theorem comparisonRecords_flatten (source : ComparisonRecordSource) :
    (comparisonRecords source).batches.flatten = source.all := by
  unfold comparisonRecords ComparisonRecordSource.all
  cases source.records with
  | list records => exact List.append_nil _
  | batches batches => rfl

theorem comparisonRecords_previousKey (source : ComparisonRecordSource) :
    (comparisonRecords source).previousKey = none := by
  unfold comparisonRecords
  cases source.records <;> rfl

theorem comparisonRecords_pending (source : ComparisonRecordSource) :
    (comparisonRecords source).pending = source.firsts := by
  rw [ComparisonIterator.pending, comparisonRecords_flatten, comparisonRecords_previousKey]
  rfl

theorem ComparisonRecordSource.Ordered.iterator {source : ComparisonRecordSource}
    (h : source.Ordered) :
    (comparisonRecords source).Ordered := by
  rw [ComparisonIterator.Ordered, comparisonRecords_flatten, comparisonRecords_previousKey]
  exact h.keys

structure Pulled (pending : List CanonicalQueryRecord) (record : Option CanonicalQueryRecord)
    (iterator : ComparisonIterator) : Prop where
  pending : record.toList ++ iterator.pending = pending
  done : record = none → iterator.pending = []
  ordered : iterator.Ordered

variable {previousKey : Option Text} {later : List CanonicalQueryRecord}

theorem consumeBatch_spec {batch : List CanonicalQueryRecord}
    (h : KeyedDiff.Ordered CanonicalQueryRecord.identityKey previousKey (batch ++ later)) :
    (consumeBatch previousKey batch = .ok none ∧
      KeyedDiff.firsts CanonicalQueryRecord.identityKey previousKey (batch ++ later) =
        KeyedDiff.firsts CanonicalQueryRecord.identityKey previousKey later ∧
      KeyedDiff.Ordered CanonicalQueryRecord.identityKey previousKey later) ∨
    ∃ record rest, consumeBatch previousKey batch = .ok (some (record, rest)) ∧
      KeyedDiff.firsts CanonicalQueryRecord.identityKey previousKey (batch ++ later) =
        record :: KeyedDiff.firsts CanonicalQueryRecord.identityKey record.identityKey
          (rest ++ later) ∧
      KeyedDiff.Ordered CanonicalQueryRecord.identityKey record.identityKey (rest ++ later) := by
  induction batch with
  | nil => exact .inl ⟨rfl, rfl, h⟩
  | cons record batch ih =>
    rw [List.cons_append] at h ⊢
    cases hkey : record.identityKey with
    | none =>
      rw [consumeBatch, firsts, hkey]
      exact ih (h.tail_none hkey)
    | some key =>
      have hle : ¬ previousKey.any (fun previous => compareCanonicalIdentity key previous == .lt) =
          true := by
        cases previousKey with
        | none => simp
        | some previous =>
          have hprevious : previous ≤ key := h.previous_le hkey previous rfl
          simpa [compareCanonicalIdentity_lt] using hprevious
      simp only [consumeBatch, firsts, hkey, if_neg hle]
      split_ifs with hsame
      · subst hsame
        exact ih (h.tail_some hkey)
      · exact .inr ⟨record, batch, rfl, by rw [hkey], by rw [hkey]; exact h.tail_some hkey⟩

theorem consume_spec {batches : List (List CanonicalQueryRecord)}
    (h : (⟨previousKey, batches⟩ : ComparisonIterator).Ordered) :
    ∃ record iterator, consume previousKey batches = .ok (record, iterator) ∧
      Pulled (⟨previousKey, batches⟩ : ComparisonIterator).pending record iterator := by
  induction batches with
  | nil => exact ⟨none, ⟨previousKey, []⟩, rfl, rfl, fun _ => rfl, h⟩
  | cons batch batches ih =>
    rcases consumeBatch_spec h with ⟨hbatch, hfirsts, hordered⟩ | hyield
    · obtain ⟨record, iterator, hconsume, hpulled⟩ := ih hordered
      refine ⟨record, iterator, ?_, ?_⟩
      · rw [consume, hbatch]
        exact hconsume
      · have hpending : (⟨previousKey, batch :: batches⟩ : ComparisonIterator).pending =
            (⟨previousKey, batches⟩ : ComparisonIterator).pending := hfirsts
        rw [hpending]
        exact hpulled
    · obtain ⟨record, rest, hbatch, hfirsts, hordered⟩ := hyield
      refine ⟨some record, ⟨record.identityKey, rest :: batches⟩, ?_, ?_, ?_, hordered⟩
      · rw [consume, hbatch]
        rfl
      · exact hfirsts.symm
      · rintro ⟨⟩

theorem ComparisonIterator.next_spec {iterator : ComparisonIterator} (h : iterator.Ordered) :
    ∃ record iterator', iterator.next = .ok (record, iterator') ∧
      Pulled iterator.pending record iterator' :=
  consume_spec h

structure Keyed (records : List CanonicalQueryRecord) : Prop where
  keys : ∀ record ∈ records, record.identityKey ≠ none
  increasing : Increasing sortKey records

theorem sortKey_eq {a : CanonicalQueryRecord} {key : Text} (h : a.identityKey = some key) :
    sortKey a = key := by
  rw [sortKey, h]
  rfl

theorem sortKey_inj {a b : CanonicalQueryRecord} (ha : a.identityKey ≠ none)
    (hb : b.identityKey ≠ none) :
    sortKey a = sortKey b ↔ a.identityKey = b.identityKey := by
  obtain ⟨k, hk⟩ := Option.ne_none_iff_exists'.mp ha
  obtain ⟨l, hl⟩ := Option.ne_none_iff_exists'.mp hb
  rw [sortKey_eq hk, sortKey_eq hl, hk, hl, Option.some.injEq]

theorem mem_source_firsts {source : ComparisonRecordSource} (h : source.Ordered)
    {a : CanonicalQueryRecord} :
    a ∈ source.firsts ↔ IsFirst CanonicalQueryRecord.identityKey source.all a := by
  rw [ComparisonRecordSource.firsts, @mem_firsts _ _ _ _ none _ _ h.keys]
  exact and_iff_left_of_imp IsFirst.key_ne_none

theorem keyed_firsts {source : ComparisonRecordSource} (h : source.Ordered) :
    Keyed source.firsts where
  keys a ha := ((mem_source_firsts h).mp ha).key_ne_none
  increasing := by
    refine (@pairwise_firsts _ _ _ _ none _ h.keys).imp ?_
    rintro a b ⟨k, hk, l, hl, hlt⟩
    rw [sortKey_eq hk, sortKey_eq hl]
    exact hlt

theorem Keyed.tail {record : CanonicalQueryRecord} {records : List CanonicalQueryRecord}
    (h : Keyed (record :: records)) : Keyed records :=
  ⟨(List.forall_mem_cons.mp h.keys).2, (List.pairwise_cons.mp h.increasing).2⟩

end Sources

section Settles

variable [Sha256] {α β : Type} {records records' : List CanonicalQueryRecord} {P : α → Prop}
  {Q : β → Prop}

def Settles (records : List CanonicalQueryRecord) (P : α → Prop) : Except ComparisonError α → Prop
  | .ok a => P a
  | .error e => ∃ record ∈ records, ∃ error, comparisonContentDigest record = .error error ∧
      e = .encoding error

theorem Settles.bind {x : Except ComparisonError α} {f : α → Except ComparisonError β}
    (hx : Settles records P x) (hf : ∀ a, P a → Settles records Q (f a)) :
    Settles records Q (x >>= f) := by
  cases x with
  | ok a => exact hf a hx
  | error e => exact hx

theorem Settles.imp {x : Except ComparisonError α} {P' : α → Prop} (hx : Settles records P x)
    (h : ∀ a, P a → P' a) : Settles records P' x := by
  cases x with
  | ok a => exact h a hx
  | error e => exact hx

theorem Settles.mono {x : Except ComparisonError α} (hx : Settles records P x)
    (h : records ⊆ records') :
    Settles records' P x := by
  cases x with
  | ok a => exact hx
  | error e =>
    obtain ⟨record, hmem, hrest⟩ := hx
    exact ⟨record, h hmem, hrest⟩

theorem settles_contentDigest {record : CanonicalQueryRecord} (h : record ∈ records) :
    Settles records (fun digest => comparisonContentDigest record = .ok digest)
      (contentDigest record) := by
  rw [contentDigest]
  cases hdigest : comparisonContentDigest record with
  | ok digest => rfl
  | error error => exact ⟨record, h, error, hdigest, rfl⟩

end Settles

end QueryComparison

end Engine
