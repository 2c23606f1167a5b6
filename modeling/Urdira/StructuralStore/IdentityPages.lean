import Urdira.StructuralStore.SelectorPages
import Urdira.StructuralStore.IdentityRun

open ByteOrder KeyedSet MerkleBucket BinarySearch KeysetPages

namespace StructuralStore

abbrev IdentityEntry := Bytes × Digest32 × ℕ × ℕ

abbrev IdentityPosition := Bytes ×ₗ Digest32

def IdentityEntry.position (entry : IdentityEntry) : IdentityPosition := toLex (entry.1, entry.2.1)

def IdentityEntry.rank (entry : IdentityEntry) : IdentityPosition ×ₗ ℕ ×ₗ ℕ :=
  toLex (entry.position, toLex (entry.2.2.1, entry.2.2.2))

def identityPush (limit : ℕ) (after : Option IdentityPosition) (heap : List IdentityEntry)
    (entry : IdentityEntry) : List IdentityEntry :=
  if after.any (fun position => decide (entry.1 < (ofLex position).1) ||
      (decide (entry.1 = (ofLex position).1) && decide (entry.2.1 ≤ (ofLex position).2))) then heap
  else if heap.any (fun other => decide (other.2.1 = entry.2.1)) then heap
  else if heap.length < limit then entry :: heap
  else
    match heap.argmax IdentityEntry.rank with
    | some greatest =>
      if entry.position < greatest.position then entry :: heap.erase greatest else heap
    | none => heap

namespace StoreInner

def reconstructEntityIdentityKey (inner : StoreInner) (row : StoredRow) : Option Bytes := do
  let entityKindOrd ← row.entityKindOrdinal
  let kind ← inner.dicts.entityKinds[entityKindOrd]?
  let path ← inner.dicts.artifactPaths[row.ownerArtifact]?
  let nameId ← row.nameIdOpt
  let name ← inner.dicts.names[nameId]?
  some (IdentityCodec.reconstructEntity kind path row.spanStartByte name)

def identityKeyWithin (inner : StoreInner) : ℕ → StoredRow → Bytes
  | 0, row => row.ident
  | fuel + 1, row =>
    let resolve := fun id => (inner.get id).map (inner.identityKeyWithin fuel)
    let reconstructed := match row.identityLayout with
      | .raw => none
      | .entity => inner.reconstructEntityIdentityKey row
      | .relation => IdentityCodec.relationCandidate row.toRecordFields inner.dicts resolve
      | .relationNoSpan => IdentityCodec.relationNoSpanCandidate row.toRecordFields
          inner.dicts resolve
    reconstructed.getD row.ident

def identityKey (inner : StoreInner) (row : StoredRow) : Bytes :=
  inner.identityKeyWithin ((inner.segments.flatMap (fun seg => seg.rows)).length + 1) row

def byIdentityKeyset (inner : StoreInner) (generation limit : ℕ) (after : Option IdentityPosition) :
    List StoredRow × Option IdentityPosition :=
  if limit = 0 then ([], none)
  else
    let entries : List IdentityEntry := inner.segments.zipIdx.flatMap (fun p =>
      p.1.byIdentity.filterMap (fun e =>
        ((p.1.rows[(ofLex e).2]?).filter (fun row => p.1.isVisible row generation)).map
          (fun row => (inner.identityKey row, row.recordId, p.2, (ofLex e).2))))
    let selected := sortOn IdentityEntry.position (entries.foldl (identityPush limit after) [])
    let next := selected.getLast?.map IdentityEntry.position
    let out := selected.filterMap (fun entry =>
      (inner.segments[entry.2.2.1]?).bind (fun seg => seg.rows[entry.2.2.2]?))
    (out, if next.isSome ∧ selected.length = limit then next else none)

end StoreInner

section Pushes

def sameIdentityRecord (entry other : IdentityEntry) : Bool := decide (other.2.1 = entry.2.1)

theorem IdentityEntry.not_after (entry : IdentityEntry) (after : Option IdentityPosition) :
    after.any (fun position => decide (entry.1 < (ofLex position).1) ||
      (decide (entry.1 = (ofLex position).1) && decide (entry.2.1 ≤ (ofLex position).2))) =
      !isAfter after entry.position := by
  unfold isAfter
  rw [Bool.not_not]
  refine congrArg after.any ?_
  funext position
  rw [Bool.eq_iff_iff]
  simp only [Bool.or_eq_true, Bool.and_eq_true, decide_eq_true_eq, Prod.Lex.le_iff]
  rfl

theorem foldl_identityPush (limit : ℕ) (after : Option IdentityPosition)
    (entries : List IdentityEntry) :
    entries.foldl (identityPush limit after) [] =
      (entries.filter (fun entry => isAfter after entry.position)).foldl
        (keepSmallest limit sameIdentityRecord IdentityEntry.position IdentityEntry.rank) [] := by
  rw [List.foldl_filter]
  refine congrArg (fun push => List.foldl push [] entries) ?_
  funext heap entry
  unfold identityPush
  rw [entry.not_after]
  cases isAfter after entry.position with
  | false => rfl
  | true =>
    rw [Bool.not_true, if_neg Bool.false_ne_true, if_pos rfl]
    unfold keepSmallest sameIdentityRecord
    cases heap.argmax IdentityEntry.rank with
    | none => rfl
    | some greatest => rfl

end Pushes

namespace StoreInner

variable {inner : StoreInner} {reader : StoreReader} {generation : ℕ}

def identityFound (inner : StoreInner) (generation : ℕ) : List (IdentityEntry × StoredRow) :=
  inner.segments.zipIdx.flatMap (fun p => p.1.byIdentity.filterMap (fun e =>
    ((p.1.rows[(ofLex e).2]?).filter (fun row => p.1.isVisible row generation)).map
      (fun row => ((inner.identityKey row, row.recordId, p.2, (ofLex e).2), row))))

theorem identityFound_entries (inner : StoreInner) (generation : ℕ) :
    (inner.identityFound generation).map Prod.fst = inner.segments.zipIdx.flatMap (fun p =>
      p.1.byIdentity.filterMap (fun e =>
        ((p.1.rows[(ofLex e).2]?).filter (fun row => p.1.isVisible row generation)).map
          (fun row => (inner.identityKey row, row.recordId, p.2, (ofLex e).2)))) := by
  unfold identityFound
  rw [List.map_flatMap]
  refine List.flatMap_congr (fun p _ => ?_)
  rw [List.map_filterMap]
  refine List.filterMap_congr (fun e _ => ?_)
  rw [Option.map_map]
  rfl

theorem identityFound_lookup {p : IdentityEntry × StoredRow}
    (hp : p ∈ inner.identityFound generation) :
    p.1.1 = inner.identityKey p.2 ∧ p.1.2.1 = p.2.recordId ∧
      (inner.segments[p.1.2.2.1]?).bind (fun seg => seg.rows[p.1.2.2.2]?) = some p.2 := by
  obtain ⟨⟨seg, i⟩, hseg, hp⟩ := List.mem_flatMap.mp hp
  obtain ⟨e, -, hp⟩ := List.mem_filterMap.mp hp
  obtain ⟨row, hrow, rfl⟩ := Option.map_eq_some_iff.mp hp
  have hget := List.mem_zipIdx_iff_getElem?.mp hseg
  refine ⟨rfl, rfl, ?_⟩
  dsimp only at hget hrow ⊢
  rw [hget, Option.bind_some]
  exact (Option.filter_eq_some_iff.mp hrow).1

theorem Reads.identityFound_rows (h : inner.Reads reader) (generation : ℕ) :
    ((inner.identityFound generation).map Prod.snd).Perm (inner.iterVisible generation) := by
  have hrows : (inner.identityFound generation).map Prod.snd = inner.segments.flatMap (fun seg =>
      seg.byIdentity.filterMap (fun e =>
        (seg.rows[(ofLex e).2]?).filter (fun row => seg.isVisible row generation))) := by
    unfold identityFound
    rw [List.map_flatMap]
    refine Reads.flatMap_zipIdx (fun seg i _ => ?_)
    rw [List.map_filterMap]
    refine List.filterMap_congr (fun e _ => ?_)
    rw [Option.map_map]
    exact Option.map_id'
  rw [hrows]
  refine List.Perm.trans ?_ (h.iterVisible_perm generation).symm
  have hsegs : inner.segments.flatMap
      (fun seg => seg.rows.filter (fun row => seg.isVisible row generation)) =
      reader.rows.filter (fun row => reader.isVisible row generation) := by
    rw [StoreReader.rows, List.filter_flatMap]
    refine h.flatMap_congr (fun seg hseg => List.filter_congr (fun row _ => ?_))
    exact h.isVisible hseg row generation
  rw [← hsegs]
  refine List.Perm.flatMap_left _ (fun seg _ => ?_)
  rw [seg.byIdentity_eq]
  have hperm : (byIdentityIndex seg.rows).Perm (seg.rows.zipIdx.filterMap
      (fun p => some (toLex (p.1.identityKeyDigest, p.2)))) := sortOn_perm id _
  refine (hperm.filterMap _).trans (List.Perm.of_eq ?_)
  rw [List.filterMap_filterMap, ← List.filterMap_eq_filter]
  refine Reads.filterMap_zipIdx (fun row i hrow => ?_)
  simp only [Option.bind_some, ofLex_toLex, hrow]
  rfl

def identityPosition (inner : StoreInner) (row : StoredRow) : IdentityPosition :=
  toLex (inner.identityKey row, row.recordId)

theorem Reads.identityFound_ids (h : inner.Reads reader) (hids : reader.IdsUnique)
    (generation : ℕ) :
    (((inner.identityFound generation).map Prod.snd).map (fun row => row.recordId)).Nodup :=
  ((h.identityFound_rows generation).map _).nodup_iff.mpr (h.visible_ids hids generation)

theorem Reads.identity_finds (h : inner.Reads reader) (hids : reader.IdsUnique) (generation : ℕ) :
    Finds (inner.identityFound generation) sameIdentityRecord IdentityEntry.position
      IdentityEntry.rank
      inner.identityPosition
      (fun entry => (inner.segments[entry.2.2.1]?).bind (fun seg => seg.rows[entry.2.2.2]?)) where
  rank_le := by
    intro a b hab
    have hfirst : (ofLex a.rank).1 ≤ (ofLex b.rank).1 := mono_fst hab
    exact hfirst
  key_eq := by
    intro p hp
    obtain ⟨hkey, hid, -⟩ := identityFound_lookup hp
    rw [identityPosition, IdentityEntry.position, hkey, hid]
  lookup_eq := fun p hp => (identityFound_lookup hp).2.2
  same_iff := by
    intro p hp q hq
    obtain ⟨hkey, hid, -⟩ := identityFound_lookup hp
    obtain ⟨hkey', hid', -⟩ := identityFound_lookup hq
    rw [sameIdentityRecord, decide_eq_true_eq, IdentityEntry.position, IdentityEntry.position,
      hkey, hkey',
      hid, hid']
    constructor
    · intro heq
      have hrow : q.2 = p.2 := List.inj_on_of_nodup_map (h.identityFound_ids hids generation)
        (List.mem_map_of_mem hq) (List.mem_map_of_mem hp) heq
      rw [hrow]
    · intro heq
      exact (congrArg (fun position => (ofLex position).2) heq).symm

theorem Reads.identity_keyset (h : inner.Reads reader) (hids : reader.IdsUnique) (generation : ℕ) :
    IsKeyset (fun limit after => inner.byIdentityKeyset generation limit after)
      inner.identityPosition
      (sortOn inner.identityPosition (inner.iterVisible generation)) := by
  have hfinds := h.identity_finds hids generation
  have hperm := h.identityFound_rows generation
  have hpositions : ((inner.iterVisible generation).map inner.identityPosition).Nodup := by
    refine List.pairwise_map.mpr ((List.pairwise_map.mp (h.visible_ids hids generation)).imp ?_)
    intro a b hne heq
    exact hne (congrArg (fun position => (ofLex position).2) heq)
  refine ⟨sortOn_pairwise_lt hpositions, ?_, ?_⟩
  · intro limit after hlimit
    have hpage := hfinds.page (sortOn_pairwise_lt hpositions)
      (fun row => (mem_sortOn _ _ row).trans hperm.mem_iff.symm) limit after
    unfold laterEntries at hpage
    rw [identityFound_entries] at hpage
    unfold byIdentityKeyset
    rw [if_neg hlimit.ne']
    dsimp only
    rw [foldl_identityPush]
    exact hpage
  · intro limit after hlimit
    have hkeys := hfinds.page_keys limit after
    unfold laterEntries at hkeys
    rw [identityFound_entries, ← foldl_identityPush] at hkeys
    unfold byIdentityKeyset
    rw [if_neg hlimit.ne']
    dsimp only
    have hlength := congrArg List.length hkeys
    rw [List.length_map, List.length_map] at hlength
    rw [hlength, ← List.getLast?_map, ← List.getLast?_map, hkeys]
    by_cases hfull : (sortOn IdentityEntry.position (List.foldl (identityPush limit after) []
        (inner.segments.zipIdx.flatMap (fun p => p.1.byIdentity.filterMap (fun e =>
          ((p.1.rows[(ofLex e).2]?).filter (fun row => p.1.isVisible row generation)).map
            (fun row => (inner.identityKey row, row.recordId, p.2, (ofLex e).2))))))).length = limit
    · rw [if_pos hfull, if_pos]
      refine ⟨?_, hfull⟩
      rw [List.getLast?_isSome, ← List.length_pos_iff, List.length_map, hfull]
      exact hlimit
    · rw [if_neg hfull, if_neg (fun hboth => hfull hboth.2)]

theorem Reads.get (h : inner.Reads reader) (key : Digest32) : inner.get key = reader.get key := by
  unfold StoreInner.get view StoreReader.get
  rw [h.segments, List.findSome?_map, List.map_findSome?]
  refine congrArg (fun find => List.findSome? find reader.segments) ?_
  funext seg
  simp only [Function.comp, Option.map_map]
  exact Option.map_id'

theorem Reads.identityKeyWithin (h : inner.Reads reader) (fuel : ℕ) (row : StoredRow) :
    inner.identityKeyWithin fuel row = reader.identityKeyWithin fuel row := by
  induction fuel generalizing row with
  | zero => rfl
  | succ fuel ih =>
    have hresolve : (fun id => (inner.get id).map (inner.identityKeyWithin fuel)) =
        fun id => (reader.get id).map (reader.identityKeyWithin fuel) := by
      funext id
      rw [h.get, funext ih]
    have hentity : inner.reconstructEntityIdentityKey row =
        reader.reconstructEntityIdentityKey row := by
      unfold StoreInner.reconstructEntityIdentityKey StoreReader.reconstructEntityIdentityKey
      rw [h.dicts]
    unfold StoreInner.identityKeyWithin StoreReader.identityKeyWithin
    refine congrArg (fun key => Option.getD key row.ident) ?_
    cases row.identityLayout with
    | raw => rfl
    | entity => exact hentity
    | relation =>
      exact congrArg₂ (IdentityCodec.relationCandidate row.toRecordFields) h.dicts hresolve
    | relationNoSpan =>
      exact congrArg₂ (IdentityCodec.relationNoSpanCandidate row.toRecordFields) h.dicts hresolve

theorem Reads.identityKey (h : inner.Reads reader) (row : StoredRow) :
    inner.identityKey row = reader.identityKey row := by
  unfold StoreInner.identityKey StoreReader.identityKey StoreReader.rows
  rw [h.identityKeyWithin, h.flatMap_segments]

end StoreInner

section Run

variable [Sha256] {disk : Disk} {written : Digest32 → Option Bytes} {mtime : ℕ} {inner : StoreInner}
  {universalKindIds : List ℕ} {categories : List Category} {kindIds : List ℕ} {sizes : ℕ → ℕ}

theorem keyset_pages_exact (h : WrittenRun disk written)
    (hsnapshot : SnapshotOf ⟨disk, mtime⟩ inner)
    (hu : universalKindIds.Nodup) (hc : categories.Nodup) (hk : kindIds.Nodup)
    (hnone : noneU16 ∉ kindIds)
    (generation : ℕ) (hsizes : ∀ i, 0 < sizes i) :
    (∃ rows, (∀ fuel, (inner.iterVisible generation).length < fuel →
        follow (fun limit afterKey =>
          inner.byKindSelector universalKindIds categories kindIds generation limit afterKey)
          sizes fuel none = some rows) ∧
      rows.Perm ((inner.iterVisible generation).filter
        (StoreInner.selectorMatches universalKindIds categories kindIds)) ∧
      rows.Pairwise (fun a b => a.recordId < b.recordId) ∧
      inner.countByKindSelector universalKindIds categories kindIds generation = rows.length) ∧
    ∃ rows, (∀ fuel, (inner.iterVisible generation).length < fuel →
        follow (fun limit after => inner.byIdentityKeyset generation limit after) sizes fuel none =
          some rows) ∧
      rows.Perm (inner.iterVisible generation) ∧
      rows.Pairwise (fun a b => inner.identityPosition a < inner.identityPosition b) ∧
      ∀ row ∈ rows, written row.recordId = some (inner.identityKey row) := by
  obtain ⟨reader, hok⟩ := h.elided
  obtain ⟨reader', hopen, hreads⟩ := hsnapshot.reads
  obtain rfl := Except.ok.inj (hok.opens.symm.trans hopen)
  have hselector :
      IsKeyset _ _ (sortOn (fun row => row.recordId) ((inner.iterVisible generation).filter
      (StoreInner.selectorMatches universalKindIds categories kindIds))) :=
    hreads.selector_keyset hok.ids hnone generation
  have hidentity := hreads.identity_keyset hok.ids generation
  refine ⟨⟨_, fun fuel hfuel => hselector.follow_none hsizes ?_, sortOn_perm _ _,
    hselector.sorted, ?_⟩,
    _, fun fuel hfuel => hidentity.follow_none hsizes ?_, sortOn_perm _ _, hidentity.sorted, ?_⟩
  · rw [length_sortOn]
    exact (List.length_filter_le _ _).trans_lt hfuel
  · rw [inner.countByKindSelector_eq, length_sortOn]
    exact (hreads.selectorRows_perm hu hc hk hnone).length_eq
  · rw [length_sortOn]
    exact hfuel
  · intro row hrow
    have hmem := (hreads.iterVisible_perm generation).mem_iff.mp ((mem_sortOn _ _ row).mp hrow)
    have hstored := (List.mem_filter.mp hmem).1
    rw [hreads.identityKey, hok.elides.identityKey_eq hstored]
    exact hok.written row hstored

end Run

section Instances

theorem keyset_pages_exact_closed_row :
    ∃ (inner : StoreInner) (rows : List StoredRow),
      follow (fun limit afterKey => inner.byKindSelector [0] [.entity] [0, 1] 2 limit afterKey)
        (fun _ => 1) 3 none = some rows ∧
      rows.Pairwise (fun a b => a.recordId < b.recordId) ∧
      rows.length = 2 ∧ inner.countByKindSelector [0] [.entity] [0, 1] 2 = 2 := by
  let _ := fixedDigest
  let base := entityBase [plainEntity (Block.fill 32 1) (utf8 "jsts:function:a.ts:7:f") 7 1,
    plainEntity (Block.fill 32 3) (utf8 "jsts:function:a.ts:30:g") 30 1]
  let delta : DeltaInput :=
    { entityDelta
        [{ plainEntity (Block.fill 32 2) (utf8 "jsts:class:a.ts:9:c") 9 2 with kindId := 1 }] 2 with
      closures := [(Block.fill 32 1, 2)] }
  have hscript : (do
      let first ← writeBaseWithPending Disk.empty base
      let second ← replayDelta (fun reader input => input.Elidable reader) first delta
      let inner ← StoreInner.load ⟨second.1, 0⟩
      Except.ok ((inner.iterVisible 2).length,
        inner.countByKindSelector [0] [.entity] [0, 1] 2)) = .ok (2, 2) := by
    decide +kernel
  obtain ⟨⟨disk, roots⟩, hbase, hscript⟩ := ExceptOk.bind_eq_ok hscript
  obtain ⟨⟨disk', roots'⟩, hdelta, hscript⟩ := ExceptOk.bind_eq_ok hscript
  obtain ⟨inner, hload, hscript⟩ := ExceptOk.bind_eq_ok hscript
  obtain ⟨hvisible, hcount⟩ := Prod.mk.inj (Except.ok.inj hscript)
  obtain ⟨reader, hopen, hstep⟩ := ExceptOk.bind_eq_ok hdelta
  obtain ⟨helidable, hwrite⟩ := ExceptOk.ite_eq_ok hstep
  have hids : (base.rows.map (fun row => row.recordId)).Nodup := by decide +kernel
  have hrun := (WrittenRun.base hids hbase).delta hopen helidable hwrite
  have hu : ([0] : List ℕ).Nodup := by decide
  have hc : [Category.entity].Nodup := by decide
  have hk : ([0, 1] : List ℕ).Nodup := by decide
  have hnone : noneU16 ∉ ([0, 1] : List ℕ) := by decide
  have hsizes : ∀ i : ℕ, 0 < (fun _ => 1 : ℕ → ℕ) i := fun _ => Nat.one_pos
  obtain ⟨⟨rows, hfollow, -, hsorted, hlength⟩, -⟩ := keyset_pages_exact hrun (.loaded hload)
    hu hc hk hnone 2 hsizes
  refine ⟨inner, rows, hfollow 3 (by omega), hsorted, ?_, hcount⟩
  rw [← hlength]
  exact hcount

end Instances

end StructuralStore
