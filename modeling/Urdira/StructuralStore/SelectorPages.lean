import Urdira.StructuralStore.FilteredScan
import Urdira.Lib.KeysetPages

open ByteOrder KeyedSet MerkleBucket BinarySearch KeysetPages

namespace StructuralStore

namespace StoreInner

def countByKindSelector (inner : StoreInner) (universalKindIds : List ℕ)
    (categories : List Category)
    (kindIds : List ℕ) (generation : ℕ) : ℕ :=
  if universalKindIds.isEmpty ∨ categories.isEmpty then 0
  else
    (universalKindIds.map (fun universalKindId => (categories.map (fun category =>
      ((if kindIds.isEmpty then [noneU16] else kindIds).map (fun kindId =>
        (inner.segments.map (fun seg => (seg.selectorRange universalKindId category kindId).countP
          (fun ordinal => (seg.rows[ordinal]?).any
            (fun row => seg.isVisible row generation)))).sum)).sum)).sum)).sum

def selectorMatches (universalKindIds : List ℕ) (categories : List Category) (kindIds : List ℕ)
    (row : StoredRow) : Bool :=
  decide (row.universalKindId ∈ universalKindIds) && (decide (row.category ∈ categories) &&
    (kindIds.isEmpty || decide (row.kindId ∈ kindIds)))

end StoreInner

section Pushes

def sameRecord (entry other : PageEntry) : Bool := decide (other.1 = entry.1)

theorem foldl_pagePush (limit : ℕ) (afterKey : Option Digest32) (entries : List PageEntry) :
    entries.foldl (pagePush limit afterKey) [] =
      (entries.filter (fun entry => isAfter afterKey entry.1)).foldl
        (keepSmallest limit sameRecord Prod.fst PageEntry.rank) [] := by
  rw [List.foldl_filter]
  refine congrArg (fun push => List.foldl push [] entries) ?_
  funext heap entry
  unfold pagePush isAfter
  cases afterKey.any (fun after => decide (entry.1 ≤ after)) with
  | true => rfl
  | false =>
    rw [if_neg Bool.false_ne_true, Bool.not_false, if_pos rfl]
    unfold keepSmallest sameRecord
    cases heap.argmax PageEntry.rank with
    | none => rfl
    | some greatest => rfl

end Pushes

namespace StoreInner

variable {inner : StoreInner} {reader : StoreReader}

def foundIn (generation : ℕ) (ranges : List (OpenSegment × List ℕ)) :
    List (PageEntry × StoredRow) :=
  ranges.zipIdx.flatMap (fun p => p.1.2.filterMap (fun ordinal =>
    ((p.1.1.rows[ordinal]?).filter (fun row => p.1.1.isVisible row generation)).map
      (fun row => ((row.recordId, p.2, ordinal), row))))

theorem foundIn_rows (generation : ℕ) (ranges : List (OpenSegment × List ℕ)) :
    (foundIn generation ranges).map Prod.snd =
      ranges.flatMap (fun range => range.1.ordinalRows range.2 generation) := by
  unfold foundIn
  rw [List.map_flatMap]
  refine Reads.flatMap_zipIdx (fun range i _ => ?_)
  rw [List.map_filterMap]
  refine List.filterMap_congr (fun ordinal _ => ?_)
  rw [Option.map_map]
  exact Option.map_id'

theorem foundIn_entries (generation : ℕ) (ranges : List (OpenSegment × List ℕ)) :
    (foundIn generation ranges).map Prod.fst = ranges.zipIdx.flatMap (fun p =>
      p.1.2.filterMap (fun ordinal =>
        ((p.1.1.rows[ordinal]?).filter (fun row => p.1.1.isVisible row generation)).map
          (fun row => (row.recordId, p.2, ordinal)))) := by
  unfold foundIn
  rw [List.map_flatMap]
  refine List.flatMap_congr (fun p _ => ?_)
  rw [List.map_filterMap]
  refine List.filterMap_congr (fun ordinal _ => ?_)
  rw [Option.map_map]
  rfl

theorem foundIn_lookup {generation : ℕ} {ranges : List (OpenSegment × List ℕ)}
    {p : PageEntry × StoredRow}
    (hp : p ∈ foundIn generation ranges) : p.2.recordId = p.1.1 ∧
      (ranges[p.1.2.1]?).bind (fun range => range.1.rows[p.1.2.2]?) = some p.2 := by
  obtain ⟨⟨range, i⟩, hrange, hp⟩ := List.mem_flatMap.mp hp
  obtain ⟨ordinal, -, hp⟩ := List.mem_filterMap.mp hp
  obtain ⟨row, hrow, rfl⟩ := Option.map_eq_some_iff.mp hp
  have hget := List.mem_zipIdx_iff_getElem?.mp hrange
  refine ⟨rfl, ?_⟩
  dsimp only at hget hrow ⊢
  rw [hget, Option.bind_some]
  exact (Option.filter_eq_some_iff.mp hrow).1

theorem foundIn_finds (generation : ℕ) (ranges : List (OpenSegment × List ℕ)) :
    Finds (foundIn generation ranges) sameRecord Prod.fst PageEntry.rank (fun row => row.recordId)
      (fun entry => (ranges[entry.2.1]?).bind (fun range => range.1.rows[entry.2.2]?)) where
  rank_le := by
    intro a b hab
    have hfirst : (ofLex a.rank).1 ≤ (ofLex b.rank).1 := mono_fst hab
    exact hfirst
  key_eq := fun p hp => (foundIn_lookup hp).1
  lookup_eq := fun p hp => (foundIn_lookup hp).2
  same_iff := by
    intro p _ q _
    rw [sameRecord, decide_eq_true_eq]
    exact eq_comm

def selectorRows (inner : StoreInner) (universalKindIds : List ℕ) (categories : List Category)
    (kindIds : List ℕ) (generation : ℕ) : List StoredRow :=
  universalKindIds.flatMap (fun universalKindId => categories.flatMap (fun category =>
    (if kindIds.isEmpty then [noneU16] else kindIds).flatMap (fun kindId =>
      inner.segments.flatMap (fun seg =>
        seg.ordinalRows (seg.selectorRange universalKindId category kindId) generation))))

variable {universalKindIds : List ℕ} {categories : List Category} {kindIds : List ℕ}
  {generation : ℕ}

theorem flatMap_selectorRanges (inner : StoreInner) (universalKindIds : List ℕ)
    (categories : List Category) (kindIds : List ℕ) (generation : ℕ) :
    (inner.selectorRanges universalKindIds categories kindIds).flatMap
      (fun range => range.1.ordinalRows range.2 generation) =
      inner.selectorRows universalKindIds categories kindIds generation := by
  have hdrop : ∀ ranges : List (OpenSegment × List ℕ),
      (ranges.filter (fun range => !range.2.isEmpty)).flatMap
        (fun range => range.1.ordinalRows range.2 generation) =
      ranges.flatMap (fun range => range.1.ordinalRows range.2 generation) := by
    intro ranges
    induction ranges with
    | nil => rfl
    | cons range ranges ih =>
      rw [List.filter_cons, List.flatMap_cons, ← ih]
      obtain ⟨seg, ordinals⟩ := range
      cases ordinals with
      | nil => rfl
      | cons ordinal ordinals => rfl
  unfold selectorRanges selectorRows
  rw [hdrop]
  simp only [List.flatMap_assoc, List.flatMap_map]

theorem countByKindSelector_eq (inner : StoreInner) (universalKindIds : List ℕ)
    (categories : List Category) (kindIds : List ℕ) (generation : ℕ) :
    inner.countByKindSelector universalKindIds categories kindIds generation =
      (inner.selectorRows universalKindIds categories kindIds generation).length := by
  have hcount : ∀ (seg : OpenSegment) (ordinals : List ℕ), ordinals.countP
      (fun ordinal => (seg.rows[ordinal]?).any (fun row => seg.isVisible row generation)) =
      (seg.ordinalRows ordinals generation).length := by
    intro seg ordinals
    rw [OpenSegment.ordinalRows, List.length_filterMap_eq_countP]
    refine List.countP_congr (fun ordinal _ => ?_)
    cases hrow : seg.rows[ordinal]? with
    | none => simp
    | some row => simp [Option.filter]
  unfold countByKindSelector selectorRows
  split
  · rename_i hempty
    rcases hempty with hempty | hempty
    · rw [List.isEmpty_iff.mp hempty]
      rfl
    · rw [List.isEmpty_iff.mp hempty]
      simp
  · simp only [hcount, List.length_flatMap]

theorem universalKey_mono : Monotone (fun e : KindKey ×ₗ ℕ =>
    (toLex ((ofLex (ofLex e).1).1, (ofLex (ofLex (ofLex e).1).2).1) : ℕ ×ₗ ℕ)) := by
  intro a b hab
  have hkey : (ofLex a).1 ≤ (ofLex b).1 := mono_fst hab
  rcases Prod.Lex.le_iff.mp hkey with hlt | ⟨heq, hle⟩
  · exact Prod.Lex.le_iff.mpr (Or.inl hlt)
  · exact Prod.Lex.le_iff.mpr (Or.inr ⟨heq, mono_fst hle⟩)

theorem toNat_inj {a b : Category} : a.toNat = b.toNat ↔ a = b := by
  cases a <;> cases b <;> decide

theorem Reads.kindRows_perm (h : inner.Reads reader) (universalKindId : ℕ) (category : Category)
    {kindId : ℕ} (hkind : kindId ≠ noneU16) (generation : ℕ) :
    (inner.segments.flatMap (fun seg =>
      seg.ordinalRows (seg.selectorRange universalKindId category kindId) generation)).Perm
      (reader.rows.filter (fun row => decide (row.kindId = kindId) &&
        (decide (row.category = category) && (decide (row.universalKindId = universalKindId) &&
          reader.isVisible row generation)))) := by
  have hcandidates : inner.segments.flatMap (fun seg =>
      seg.ordinalRows (seg.selectorRange universalKindId category kindId) generation) =
      reader.segments.flatMap (fun seg => reader.ordinalRows seg
        ((keyRange (fun e => (ofLex e).1) seg.byKind (kindKey universalKindId category kindId)).map
          (fun e => (ofLex e).2)) generation) := by
    refine h.flatMap_congr (fun seg hseg => ?_)
    rw [h.ordinalRows hseg, OpenSegment.selectorRange, if_neg hkind]
    rfl
  rw [hcandidates]
  refine (reader.byKindCandidates_perm universalKindId category kindId generation).trans
    (List.Perm.of_eq (List.filter_congr (fun row _ => ?_)))
  rw [Bool.eq_iff_iff]
  simp only [kindKey, EmbeddingLike.apply_eq_iff_eq, Prod.mk.injEq, toNat_inj, Bool.and_eq_true,
    decide_eq_true_eq]
  tauto

theorem Reads.universalRows_perm (h : inner.Reads reader) (universalKindId : ℕ)
    (category : Category)
    (generation : ℕ) :
    (inner.segments.flatMap (fun seg =>
      seg.ordinalRows (seg.selectorRange universalKindId category noneU16) generation)).Perm
      (reader.rows.filter (fun row => decide (row.category = category) &&
        (decide (row.universalKindId = universalKindId) && reader.isVisible row generation))) := by
  have hcandidates : inner.segments.flatMap (fun seg =>
      seg.ordinalRows (seg.selectorRange universalKindId category noneU16) generation) =
      reader.segments.flatMap (fun seg => reader.ordinalRows seg
        ((keyRange
          (fun e => (toLex ((ofLex (ofLex e).1).1, (ofLex (ofLex (ofLex e).1).2).1) : ℕ ×ₗ ℕ))
          seg.byKind (toLex (universalKindId, category.toNat))).map (fun e => (ofLex e).2))
            generation) := by
    refine h.flatMap_congr (fun seg hseg => ?_)
    rw [h.ordinalRows hseg, OpenSegment.selectorRange, if_pos rfl]
    rfl
  rw [hcandidates]
  refine (StoreReader.flatMap_filter_perm (fun seg => ?_)).trans
    (List.Perm.of_eq (List.filter_congr (fun row _ => (Bool.and_assoc _ _ _))))
  rw [seg.byKind_eq]
  refine reader.ordinalRows_perm seg universalKey_mono _ generation (fun row i => ?_)
  by_cases hu : row.universalKindId = universalKindId
  · by_cases hc : row.category = category
    · simp [hu, hc, kindKey, Option.filter]
    · simp [hu, hc, kindKey, Option.filter, toNat_inj]
  · simp [hu, kindKey, Option.filter]

theorem count_filter_ite (rows : List StoredRow) (p : StoredRow → Bool) (row : StoredRow) :
    (rows.filter p).count row = if p row then rows.count row else 0 := by
  by_cases hp : p row = true
  · rw [if_pos hp, List.count_filter hp]
  · rw [if_neg hp, List.count_eq_zero]
    intro hmem
    exact hp (List.mem_filter.mp hmem).2

theorem Reads.count_kindRows (h : inner.Reads reader) (row : StoredRow) (universalKindId : ℕ)
    (category : Category) (generation : ℕ) (hnone : noneU16 ∉ kindIds) :
    ((if kindIds.isEmpty then [noneU16] else kindIds).flatMap (fun kindId =>
      inner.segments.flatMap (fun seg =>
        seg.ordinalRows (seg.selectorRange universalKindId category kindId) generation))).count
          row =
      if row.universalKindId = universalKindId then
        if row.category = category then
          (if kindIds.isEmpty then 1 else kindIds.count row.kindId) *
            (inner.iterVisible generation).count row
        else 0
      else 0 := by
  have hvisible : (inner.iterVisible generation).count row =
      (reader.rows.filter (fun row => reader.isVisible row generation)).count row :=
    (h.iterVisible_perm generation).count_eq row
  rw [hvisible, count_filter_ite]
  cases hempty : kindIds.isEmpty with
  | true =>
    rw [if_pos rfl, if_pos rfl, List.flatMap_singleton,
      (h.universalRows_perm universalKindId category generation).count_eq, count_filter_ite,
        Nat.one_mul]
    by_cases hu : row.universalKindId = universalKindId
    · by_cases hc : row.category = category
      · simp [hu, hc]
      · simp [hu, hc]
    · simp [hu]
  | false =>
    rw [if_neg Bool.false_ne_true, if_neg Bool.false_ne_true, List.count_flatMap]
    have hparts : kindIds.map (fun kindId => (inner.segments.flatMap (fun seg =>
        seg.ordinalRows (seg.selectorRange universalKindId category kindId) generation)).count
          row) =
        kindIds.map (fun kindId => if row.kindId = kindId then
          (if row.universalKindId = universalKindId then if row.category = category then
            (if reader.isVisible row generation then reader.rows.count row else 0) else 0 else 0)
              else 0) := by
      refine List.map_congr_left (fun kindId hmem => ?_)
      rw [(h.kindRows_perm universalKindId category (fun heq => hnone (heq ▸ hmem))
        generation).count_eq,
        count_filter_ite]
      by_cases hk : row.kindId = kindId
      · by_cases hu : row.universalKindId = universalKindId
        · by_cases hc : row.category = category
          · simp [hk, hu, hc]
          · simp [hu, hc]
        · simp [hu]
      · simp [hk]
    refine (congrArg List.sum hparts).trans ?_
    rw [sum_map_ite_eq, mul_ite, mul_ite, Nat.mul_zero]

theorem Reads.count_selectorRows (h : inner.Reads reader) (row : StoredRow) (generation : ℕ)
    (hnone : noneU16 ∉ kindIds) :
    (inner.selectorRows universalKindIds categories kindIds generation).count row =
      universalKindIds.count row.universalKindId * (categories.count row.category *
        ((if kindIds.isEmpty then 1 else kindIds.count row.kindId) *
          (inner.iterVisible generation).count row)) := by
  unfold selectorRows
  rw [List.count_flatMap]
  refine (congrArg List.sum (List.map_congr_left (fun universalKindId _ => ?_))).trans
    (sum_map_ite_eq universalKindIds row.universalKindId _)
  rw [Function.comp, List.count_flatMap]
  have hparts : categories.map (List.count row ∘ fun category =>
      (if kindIds.isEmpty then [noneU16] else kindIds).flatMap (fun kindId =>
        inner.segments.flatMap (fun seg =>
          seg.ordinalRows (seg.selectorRange universalKindId category kindId) generation))) =
      categories.map (fun category => if row.category = category then
        (if row.universalKindId = universalKindId then
          (if kindIds.isEmpty then 1 else kindIds.count row.kindId) *
            (inner.iterVisible generation).count row
        else 0) else 0) := by
    refine List.map_congr_left (fun category _ => ?_)
    rw [Function.comp, h.count_kindRows row universalKindId category generation hnone]
    by_cases hu : row.universalKindId = universalKindId
    · rw [if_pos hu, if_pos hu]
    · rw [if_neg hu, if_neg hu, ite_self]
  rw [hparts, sum_map_ite_eq, mul_ite, Nat.mul_zero]

theorem Reads.mem_selectorRows (h : inner.Reads reader) (row : StoredRow) (generation : ℕ)
    (hnone : noneU16 ∉ kindIds) :
    row ∈ inner.selectorRows universalKindIds categories kindIds generation ↔
      row ∈ (inner.iterVisible generation).filter
        (selectorMatches universalKindIds categories kindIds) := by
  have hkinds : (if kindIds.isEmpty then 1 else kindIds.count row.kindId) ≠ 0 ↔
      (kindIds.isEmpty || decide (row.kindId ∈ kindIds)) = true := by
    cases kindIds.isEmpty with
    | true => simp
    | false => simp [List.count_eq_zero]
  rw [← List.count_pos_iff, h.count_selectorRows row generation hnone, List.mem_filter,
    selectorMatches,
    Bool.and_eq_true, Bool.and_eq_true, ← hkinds, decide_eq_true_eq, decide_eq_true_eq,
      Nat.pos_iff_ne_zero]
  simp only [mul_ne_zero_iff, ← Nat.pos_iff_ne_zero, List.count_pos_iff]
  tauto

theorem Reads.selectorRows_perm (h : inner.Reads reader) (hu : universalKindIds.Nodup)
    (hc : categories.Nodup) (hk : kindIds.Nodup) (hnone : noneU16 ∉ kindIds) :
    (inner.selectorRows universalKindIds categories kindIds generation).Perm
      ((inner.iterVisible generation).filter
        (selectorMatches universalKindIds categories kindIds)) := by
  refine List.perm_iff_count.mpr (fun row => ?_)
  rw [h.count_selectorRows row generation hnone, count_filter_ite, selectorMatches,
    hu.count, hc.count]
  by_cases hu' : row.universalKindId ∈ universalKindIds
  · by_cases hc' : row.category ∈ categories
    · cases hempty : kindIds.isEmpty with
      | true => simp [hu', hc']
      | false =>
        rw [hk.count]
        by_cases hk' : row.kindId ∈ kindIds
        · simp [hu', hc', hk']
        · simp [hk']
    · simp [hc']
  · simp [hu']

theorem Reads.visible_ids (h : inner.Reads reader) (hids : reader.IdsUnique) (generation : ℕ) :
    ((inner.iterVisible generation).map (fun row => row.recordId)).Nodup :=
  ((h.iterVisible_perm generation).map _).nodup_iff.mpr (hids.sublist (List.filter_sublist.map _))

theorem Reads.selector_keyset (h : inner.Reads reader) (hids : reader.IdsUnique)
    (hnone : noneU16 ∉ kindIds) (generation : ℕ) :
    IsKeyset (fun limit afterKey =>
        inner.byKindSelector universalKindIds categories kindIds generation limit afterKey)
      (fun row => row.recordId)
      (sortOn (fun row => row.recordId) ((inner.iterVisible generation).filter
        (selectorMatches universalKindIds categories kindIds))) := by
  have hsorted :
      (sortOn (fun row : StoredRow => row.recordId) ((inner.iterVisible generation).filter
      (selectorMatches universalKindIds categories kindIds))).Pairwise
        (fun a b => a.recordId < b.recordId) :=
    sortOn_pairwise_lt ((h.visible_ids hids generation).sublist (List.filter_sublist.map _))
  refine ⟨hsorted, ?_, ?_⟩
  · intro limit after hlimit
    unfold byKindSelector
    split
    · rename_i hempty
      have hnil : (inner.iterVisible generation).filter
          (selectorMatches universalKindIds categories kindIds) = [] := by
        rw [List.filter_eq_nil_iff]
        intro row _
        rcases hempty with hzero | hempty | hempty
        · exact absurd hzero hlimit.ne'
        · simp [selectorMatches, List.isEmpty_iff.mp hempty]
        · simp [selectorMatches, List.isEmpty_iff.mp hempty]
      rw [hnil]
      exact List.take_nil.symm
    · have hpage := (foundIn_finds generation
        (inner.selectorRanges universalKindIds categories kindIds)).page hsorted (fun row => ?_)
          limit after
      · unfold laterEntries at hpage
        rw [foundIn_entries] at hpage
        dsimp only
        rw [foldl_pagePush]
        exact hpage
      · rw [mem_sortOn, foundIn_rows, flatMap_selectorRanges]
        exact (h.mem_selectorRows row generation hnone).symm
  · intro limit after hlimit
    unfold byKindSelector
    split
    · have hne : ¬ ([] : List StoredRow).length = limit := hlimit.ne
      rw [if_neg hne]
    · rfl

end StoreInner

end StructuralStore
