import Urdira.StructuralStore.SnapshotReader

open ByteOrder KeyedSet MerkleBucket

namespace StructuralStore

abbrev RecordView := OpenSegment × StoredRow

def RecordView.recordId (view : RecordView) : Digest32 := view.2.recordId

def StoreInner.sources (inner : StoreInner) : List (List RecordView) :=
  inner.segments.map (fun seg => seg.rows.map (fun row => (seg, row)))

structure VisibleIter where
  inner : StoreInner
  heap : List (KWayMerge.Entry Digest32)
  generation : ℕ

namespace VisibleIter

def nextWithin (inner : StoreInner) (generation : ℕ) :
    ℕ → List (KWayMerge.Entry Digest32) → Option StoredRow × List (KWayMerge.Entry Digest32)
  | _, [] => (none, [])
  | 0, heap => (none, heap)
  | fuel + 1, e :: heap =>
    let segIdx := (ofLex (ofLex e).2).1
    let localIdx := (ofLex (ofLex e).2).2
    let heap' := KWayMerge.push RecordView.recordId inner.sources segIdx (localIdx + 1) heap
    match (inner.sources.getD segIdx [])[localIdx]? with
    | some view =>
      if view.1.isVisible view.2 generation then (some view.2, heap')
      else nextWithin inner generation fuel heap'
    | none => nextWithin inner generation fuel heap'

def heapSize (inner : StoreInner) (heap : List (KWayMerge.Entry Digest32)) : ℕ :=
  (heap.flatMap (KWayMerge.rest inner.sources)).length

def next (it : VisibleIter) : Option StoredRow × VisibleIter :=
  let (row, heap) := nextWithin it.inner it.generation (heapSize it.inner it.heap) it.heap
  (row, { it with heap := heap })

end VisibleIter

def StoreInner.visibleIter (inner : StoreInner) (generation : ℕ) : VisibleIter where
  inner := inner
  heap := KWayMerge.initialHeap RecordView.recordId inner.sources
  generation := generation

namespace VisibleIter

variable {inner : StoreInner} {generation fuel : ℕ} {heap : List (KWayMerge.Entry Digest32)}

def rowsFrom (inner : StoreInner) (generation : ℕ) (heap : List (KWayMerge.Entry Digest32)) :
    List StoredRow :=
  (KWayMerge.merge RecordView.recordId inner.sources (heapSize inner heap) heap).filterMap
    (fun view => if view.1.isVisible view.2 generation then some view.2 else none)

def Ready (inner : StoreInner) (heap : List (KWayMerge.Entry Digest32)) : Prop :=
  ∀ e ∈ heap, KWayMerge.rest inner.sources e ≠ []

theorem popped {e : KWayMerge.Entry Digest32} (hready : Ready inner (e :: heap)) :
    ∃ view, (inner.sources.getD (ofLex (ofLex e).2).1 [])[(ofLex (ofLex e).2).2]? = some view ∧
      heapSize inner (e :: heap) = heapSize inner (KWayMerge.push RecordView.recordId inner.sources
        (ofLex (ofLex e).2).1 ((ofLex (ofLex e).2).2 + 1) heap) + 1 ∧
      Ready inner (KWayMerge.push RecordView.recordId inner.sources (ofLex (ofLex e).2).1
        ((ofLex (ofLex e).2).2 + 1) heap) := by
  have hne := hready e (List.mem_cons_self ..)
  unfold KWayMerge.rest at hne
  have hlt : (ofLex (ofLex e).2).2 < (inner.sources.getD (ofLex (ofLex e).2).1 []).length := by
    by_contra hge
    exact hne (List.drop_eq_nil_of_le (not_lt.mp hge))
  refine ⟨_, List.getElem?_eq_getElem hlt, ?_, ?_⟩
  · have hpush := KWayMerge.flatMap_push RecordView.recordId inner.sources (ofLex (ofLex e).2).1
      ((ofLex (ofLex e).2).2 + 1) heap
    unfold heapSize
    rw [hpush.length_eq, List.flatMap_cons, List.length_append, List.length_append, KWayMerge.rest,
      List.length_drop, List.length_drop]
    omega
  · exact KWayMerge.push_valid _ _ _ _ (fun e' he' => hready e' (List.mem_cons_of_mem _ he'))

theorem merge_length_le (fuel : ℕ) (heap : List (KWayMerge.Entry Digest32)) :
    (KWayMerge.merge RecordView.recordId inner.sources fuel heap).length ≤ fuel := by
  induction fuel generalizing heap with
  | zero => rfl
  | succ fuel ih =>
    cases heap with
    | nil => exact Nat.zero_le _
    | cons e heap =>
      unfold KWayMerge.merge
      dsimp only
      have hhead :
          ((inner.sources.getD (ofLex (ofLex e).2).1 [])[(ofLex (ofLex e).2).2]?).toList.length ≤
            1 := by
        cases (inner.sources.getD (ofLex (ofLex e).2).1 [])[(ofLex (ofLex e).2).2]? with
        | none => exact Nat.zero_le _
        | some view => exact le_rfl
      have hrest := ih (KWayMerge.push RecordView.recordId inner.sources (ofLex (ofLex e).2).1
        ((ofLex (ofLex e).2).2 + 1) heap)
      rw [List.length_append]
      omega

theorem rowsFrom_cons {e : KWayMerge.Entry Digest32} {view : RecordView}
    (hready : Ready inner (e :: heap))
    (hview : (inner.sources.getD (ofLex (ofLex e).2).1 [])[(ofLex (ofLex e).2).2]? = some view) :
    rowsFrom inner generation (e :: heap) =
      (if view.1.isVisible view.2 generation then [view.2] else []) ++
        rowsFrom inner generation (KWayMerge.push RecordView.recordId inner.sources
          (ofLex (ofLex e).2).1 ((ofLex (ofLex e).2).2 + 1) heap) := by
  obtain ⟨-, -, hsize, -⟩ := popped hready
  unfold rowsFrom
  rw [hsize]
  conv_lhs => unfold KWayMerge.merge
  dsimp only
  rw [hview, Option.toList_some, List.singleton_append, List.filterMap_cons]
  cases view.1.isVisible view.2 generation with
  | true => rfl
  | false => rfl

theorem nextWithin_spec (generation : ℕ) (hready : Ready inner heap)
    (hfuel : heapSize inner heap ≤ fuel) :
    ∃ heap', Ready inner heap' ∧
      nextWithin inner generation fuel heap = ((rowsFrom inner generation heap).head?, heap') ∧
      rowsFrom inner generation heap' = (rowsFrom inner generation heap).tail := by
  induction fuel generalizing heap with
  | zero =>
    cases heap with
    | nil => exact ⟨[], hready, by simp [nextWithin, rowsFrom, heapSize, KWayMerge.merge], rfl⟩
    | cons e heap =>
      obtain ⟨-, -, hsize, -⟩ := popped hready
      omega
  | succ fuel ih =>
    cases heap with
    | nil => exact ⟨[], hready, by simp [nextWithin, rowsFrom, heapSize, KWayMerge.merge], rfl⟩
    | cons e heap =>
      obtain ⟨view, hview, hsize, hready'⟩ := popped hready
      have hrows : rowsFrom inner generation (e :: heap) = _ := rowsFrom_cons hready hview
      unfold nextWithin
      dsimp only
      rw [hview, hrows]
      dsimp only
      cases view.1.isVisible view.2 generation with
      | true => exact ⟨_, hready', rfl, rfl⟩
      | false => exact ih hready' (by omega)

def rows (it : VisibleIter) : List StoredRow := rowsFrom it.inner it.generation it.heap

theorem length_rows_le (it : VisibleIter) : it.rows.length ≤ heapSize it.inner it.heap := by
  refine (List.length_filterMap_le _ _).trans ?_
  exact merge_length_le _ _

theorem next_spec (it : VisibleIter) (hready : Ready it.inner it.heap) :
    ∃ it', it.next = (it.rows.head?, it') ∧ it'.inner = it.inner ∧ it'.generation = it.generation ∧
      Ready it'.inner it'.heap ∧ it'.rows = it.rows.tail := by
  obtain ⟨heap', hready', hnext, hrows⟩ := nextWithin_spec it.generation hready le_rfl
  refine ⟨{ it with heap := heap' }, ?_, rfl, rfl, hready', hrows⟩
  unfold next
  rw [hnext]
  rfl

end VisibleIter

theorem StoreInner.visibleIter_ready (inner : StoreInner) (generation : ℕ) :
    VisibleIter.Ready (inner.visibleIter generation).inner (inner.visibleIter generation).heap :=
  KWayMerge.initialHeap_valid _ _

theorem StoreInner.visibleIter_rows (inner : StoreInner) (generation : ℕ) :
    (inner.visibleIter generation).rows = inner.iterVisible generation := by
  have hsize := (KWayMerge.initialHeap_perm RecordView.recordId inner.sources).length_eq
  unfold VisibleIter.rows VisibleIter.rowsFrom VisibleIter.heapSize
  change (KWayMerge.merge RecordView.recordId inner.sources
    ((KWayMerge.initialHeap RecordView.recordId inner.sources).flatMap
      (KWayMerge.rest inner.sources)).length
        (KWayMerge.initialHeap RecordView.recordId inner.sources)).filterMap
    _ = _
  rw [hsize]
  rfl

end StructuralStore
