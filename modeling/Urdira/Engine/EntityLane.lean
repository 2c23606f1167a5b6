import Urdira.Engine.ExactSearch
import Urdira.Lib.Leaders

open KeyedSort Leaders NativeCore TopK

namespace Engine

namespace Semantic

variable {I V R S D D' : Type} [LinearOrder I] [DecidableEq R] [LinearOrder D] [LinearOrder D']
  {d : V → D} {d' : V → D'} {idBytes : I → ℕ} {rows : List (SemanticVectorRow I V R S)}

def rowKey (d : V → D) (row : SemanticVectorRow I V R S) : D ×ₗ I :=
  toLex (d row.vectorPayload, row.projectionRecordId)

def entityCandidate (profileId executableBindingId : String) (row : SemanticVectorRow I V R S) :
    ExactVectorCandidate I V Unit :=
  ⟨row.projectionRecordId, profileId, executableBindingId, row.vectorPayload, ()⟩

def DistinctRows (rows : List (SemanticVectorRow I V R S)) : Prop :=
  (rows.map (·.projectionRecordId)).Nodup

def extend (found : EntityRanks R S) (chosen : List (R × SemanticVectorRow I V R S)) :
    EntityRanks R S where
  ranks := found.ranks ++ chosen.mapIdx (fun i pair => (pair.1, found.ranks.length + i + 1))
  matchedSegmentByDocumentRef := found.matchedSegmentByDocumentRef ++
    chosen.filterMap (fun pair => (matchedSegment pair.2).map (fun segment => (pair.1, segment)))

section Aggregation

omit [DecidableEq R] in
theorem vectorOf_of_mem {row : SemanticVectorRow I V R S} (h : DistinctRows rows)
    (hmem : row ∈ rows) :
    vectorOf rows row.projectionRecordId = some row := by
  have hfound : (vectorOf rows row.projectionRecordId).isSome := by
    rw [vectorOf, List.find?_isSome]
    exact ⟨row, List.mem_reverse.mpr hmem, decide_eq_true rfl⟩
  obtain ⟨other, hother⟩ := Option.isSome_iff_exists.mp hfound
  have hfind := hother
  rw [vectorOf] at hfind
  have hid : other.projectionRecordId = row.projectionRecordId := by
    simpa using List.find?_some hfind
  have hotherMem := List.mem_reverse.mp (List.mem_of_find?_eq_some hfind)
  rw [hother, List.inj_on_of_nodup_map h hotherMem hmem hid]

omit [LinearOrder I] [DecidableEq R] in
theorem extend_nil (found : EntityRanks R S) :
    extend found ([] : List (R × SemanticVectorRow I V R S)) = found := by
  rw [extend, List.mapIdx_nil, List.filterMap_nil, List.append_nil, List.append_nil]

omit [LinearOrder I] [DecidableEq R] in
theorem extend_cons (found : EntityRanks R S) (documentRef : R) (row : SemanticVectorRow I V R S)
    (chosen : List (R × SemanticVectorRow I V R S)) :
    extend found ((documentRef, row) :: chosen) = extend
      { ranks := found.ranks ++ [(documentRef, found.ranks.length + 1)]
        matchedSegmentByDocumentRef :=
          found.matchedSegmentByDocumentRef ++
            ((matchedSegment row).map (fun segment => (documentRef, segment))).toList }
      chosen := by
  have hshift :
      (fun i (pair : R × SemanticVectorRow I V R S) => (pair.1, found.ranks.length + (i + 1) + 1)) =
      fun i pair => (pair.1, found.ranks.length + 1 + i + 1) := by
    funext i pair
    rw [Nat.add_right_comm found.ranks.length 1 i, Nat.add_assoc found.ranks.length i 1]
  rw [extend, extend, List.mapIdx_cons, hshift]
  dsimp only
  rw [List.length_append, List.length_singleton, List.append_assoc, List.singleton_append,
    List.append_assoc]
  cases hsegment : matchedSegment row with
  | none =>
    rw [List.filterMap_cons_none (by rw [hsegment]; rfl)]
    rfl
  | some segment =>
    rw [List.filterMap_cons_some (b := (documentRef, segment)) (by rw [hsegment]; rfl)]
    rfl

theorem aggregateLoop_eq (h : DistinctRows rows) {order : List (SemanticVectorRow I V R S)}
    (hmem : ∀ row ∈ order, row ∈ rows) (found : EntityRanks R S) :
    aggregateLoop rows found (order.map (·.projectionRecordId)) =
      extend found ((leaders (·.documentRef) (found.ranks.map Prod.fst) order).take
        (semanticEntityCandidateCap - found.ranks.length)) := by
  induction order generalizing found with
  | nil => rw [leaders, List.take_nil, extend_nil]; rfl
  | cons row order ih =>
    obtain ⟨hrow, horder⟩ := List.forall_mem_cons.mp hmem
    rw [List.map_cons, aggregateLoop]
    rcases Nat.lt_or_ge found.ranks.length semanticEntityCandidateCap with hroom | hfull
    · rw [if_neg (Nat.not_le_of_gt hroom), ih horder, aggregateStep,
        vectorOf_of_mem h hrow, leaders]
      dsimp only
      cases row.documentRef with
      | none => rfl
      | some documentRef =>
        dsimp only
        split
        · rfl
        · obtain ⟨room, hcap⟩ : ∃ room, semanticEntityCandidateCap - found.ranks.length =
              room + 1 :=
            ⟨semanticEntityCandidateCap - found.ranks.length - 1, by omega⟩
          have hnext : semanticEntityCandidateCap - (found.ranks.length + 1) = room := by omega
          rw [hcap, List.take_succ_cons, extend_cons]
          dsimp only
          rw [List.length_append, List.length_singleton, hnext, List.map_append, List.map_singleton]
    · rw [if_pos hfull, Nat.sub_eq_zero_of_le hfull, List.take_zero, extend_nil]

theorem aggregateLoop_append (rows : List (SemanticVectorRow I V R S)) (found : EntityRanks R S)
    (ids more : List I) :
    aggregateLoop rows found (ids ++ more) =
      aggregateLoop rows (aggregateLoop rows found ids) more := by
  induction ids generalizing found with
  | nil => rfl
  | cons id ids ih =>
    rw [List.cons_append, aggregateLoop, aggregateLoop]
    split
    · rename_i hfull
      cases more with
      | nil => rfl
      | cons other more => rw [aggregateLoop, if_pos hfull]
    · exact ih _

theorem aggregateLoop_full {found : EntityRanks R S}
    (h : semanticEntityCandidateCap ≤ found.ranks.length) (ids : List I) :
    aggregateLoop rows found ids = found := by
  cases ids with
  | nil => rfl
  | cons id ids => rw [aggregateLoop, if_pos h]

end Aggregation

section Segments

def firstRows (d : V → D) (k : ℕ) (rows : List (SemanticVectorRow I V R S)) :
    List (ExactVectorMatch I) :=
  rankedMatches ((top (rowKey d) k rows).map (·.projectionRecordId))

def aggregated (d : V → D) (rows : List (SemanticVectorRow I V R S)) : EntityRanks R S :=
  extend ⟨[], []⟩
    ((leaders (·.documentRef) [] (sortBy (rowKey d) rows)).take semanticEntityCandidateCap)

structure BestSegments (d : V → D) (rows : List (SemanticVectorRow I V R S))
    (found : EntityRanks R S) : Prop where
  ranks : found.ranks = (top (best (·.documentRef) (rowKey d) rows) semanticEntityCandidateCap
    (groups (·.documentRef) rows)).mapIdx (fun i documentRef => (documentRef, i + 1))
  segments : ∀ documentRef segment, (documentRef, segment) ∈ found.matchedSegmentByDocumentRef ↔
    documentRef ∈ found.ranks.map Prod.fst ∧ ∃ row ∈ rows,
      best (·.documentRef) (rowKey d) rows documentRef = rowKey d row ∧
        matchedSegment row = some segment

def CappedSuffices (d : V → D) (rows : List (SemanticVectorRow I V R S)) : Prop :=
  rows.length ≤ semanticEntitySegmentScanLimit ∨ semanticEntityCandidateCap ≤
    (groups (·.documentRef) (top (rowKey d) semanticEntitySegmentScanLimit rows)).length

omit [LinearOrder I] [DecidableEq R] in
theorem extend_ranks (chosen : List (R × SemanticVectorRow I V R S)) :
    (extend ⟨[], []⟩ chosen).ranks =
      (chosen.map Prod.fst).mapIdx (fun i documentRef => (documentRef, i + 1)) := by
  rw [extend, List.mapIdx_eq_zipIdx_map, List.mapIdx_eq_zipIdx_map, List.zipIdx_map, List.map_map]
  simp only [List.nil_append, List.length_nil, Nat.zero_add]
  rfl

omit [LinearOrder I] [DecidableEq R] [LinearOrder D] in
theorem DistinctRows.keys (h : DistinctRows rows) : (rows.map (rowKey d)).Nodup := by
  refine List.Nodup.of_map (fun key => (ofLex key).2) ?_
  rw [List.map_map]
  exact h

theorem aggregated_best (hdistinct : DistinctRows rows) :
    BestSegments d rows (aggregated d rows) := by
  set chosen :=
    (leaders (·.documentRef) [] (sortBy (rowKey d) rows)).take semanticEntityCandidateCap
    with hchosen
  have hleader : ∀ pair ∈ chosen, pair.2 ∈ rows ∧
      best (·.documentRef) (rowKey d) rows pair.1 = rowKey d pair.2 := by
    intro pair hpair
    have hmem := List.mem_of_mem_take hpair
    exact ⟨(sortBy_perm _ rows).mem_iff.mp (of_mem_leaders hmem).1, best_leader hmem⟩
  constructor
  · rw [aggregated, extend_ranks, List.map_take, leaders_sortBy hdistinct.keys]
    rfl
  · intro documentRef segment
    have hdocuments : (aggregated d rows).ranks.map Prod.fst = chosen.map Prod.fst := by
      rw [aggregated, extend_ranks, List.mapIdx_eq_zipIdx_map, List.map_map]
      exact List.zipIdx_map_fst 0 _
    have hsegments : (documentRef, segment) ∈ (aggregated d rows).matchedSegmentByDocumentRef ↔
        ∃ pair ∈ chosen, pair.1 = documentRef ∧ matchedSegment pair.2 = some segment := by
      rw [aggregated, extend]
      dsimp only
      rw [List.nil_append, List.mem_filterMap]
      refine exists_congr (fun pair => and_congr_right (fun _ => ?_))
      rw [Option.map_eq_some_iff]
      constructor
      · rintro ⟨other, hother, hpair⟩
        obtain ⟨rfl, rfl⟩ := Prod.mk.inj hpair
        exact ⟨rfl, hother⟩
      · rintro ⟨rfl, hsegment⟩
        exact ⟨segment, hsegment, rfl⟩
    rw [hsegments, hdocuments]
    constructor
    · rintro ⟨pair, hpair, rfl, hsegment⟩
      obtain ⟨hrow, hbest⟩ := hleader pair hpair
      exact ⟨List.mem_map_of_mem hpair, pair.2, hrow, hbest, hsegment⟩
    · rintro ⟨hdocument, row, hrow, hbest, hsegment⟩
      obtain ⟨pair, hpair, rfl⟩ := List.mem_map.mp hdocument
      obtain ⟨hpairRow, hpairBest⟩ := hleader pair hpair
      have hsame : row = pair.2 := List.inj_on_of_nodup_map hdistinct.keys hrow hpairRow
        (WithTop.coe_injective (hbest.symm.trans hpairBest))
      exact ⟨pair, hpair, rfl, hsame ▸ hsegment⟩

theorem aggregate_firstRows (hdistinct : DistinctRows rows) (k : ℕ) :
    aggregateEntityRanks rows (firstRows d k rows) =
      extend ⟨[], []⟩
        ((leaders (·.documentRef) [] (top (rowKey d) k rows)).take semanticEntityCandidateCap) := by
  rw [aggregateEntityRanks, firstRows, rankedMatches_ids,
    aggregateLoop_eq hdistinct (fun row hrow => mem_of_top hrow)]
  rfl

theorem aggregate_all (hdistinct : DistinctRows rows) :
    aggregateEntityRanks rows (firstRows d rows.length rows) = aggregated d rows := by
  rw [aggregate_firstRows hdistinct, top,
    List.take_of_length_le (sortBy_perm (rowKey d) rows).length_eq.le]
  rfl

theorem aggregate_length (hdistinct : DistinctRows rows) (k : ℕ) :
    (aggregateEntityRanks rows (firstRows d k rows)).ranks.length =
      min semanticEntityCandidateCap (groups (·.documentRef) (top (rowKey d) k rows)).length := by
  rw [aggregate_firstRows hdistinct, extend_ranks, List.length_mapIdx, List.length_map,
    List.length_take, ← (leaders_perm (top (rowKey d) k rows)).length_eq, List.length_map]

theorem aggregate_full (hdistinct : DistinctRows rows) {k : ℕ} (hfull : semanticEntityCandidateCap ≤
      (groups (·.documentRef) (top (rowKey d) k rows)).length) :
    aggregateEntityRanks rows (firstRows d k rows) = aggregated d rows := by
  have hsplit : (sortBy (rowKey d) rows).map (·.projectionRecordId) =
      (top (rowKey d) k rows).map (·.projectionRecordId) ++
        ((sortBy (rowKey d) rows).drop k).map (·.projectionRecordId) := by
    rw [← List.map_append, top, List.take_append_drop]
  have hranks := aggregate_length (d := d) hdistinct k
  rw [min_eq_left hfull, aggregateEntityRanks, firstRows, rankedMatches_ids] at hranks
  rw [← aggregate_all hdistinct, aggregateEntityRanks, aggregateEntityRanks, firstRows, firstRows,
    rankedMatches_ids, rankedMatches_ids]
  conv_rhs => rw [top, List.take_of_length_le (sortBy_perm (rowKey d) rows).length_eq.le, hsplit]
  rw [aggregateLoop_append, aggregateLoop_full hranks.ge]

variable {ε : Type} {scan : Option ℕ → Except ε (List (ExactVectorMatch I))}

theorem entityScan_ok {fast full : List (ExactVectorMatch I)} (hnonempty : rows ≠ [])
    (hfast : scan (some (min semanticEntitySegmentScanLimit rows.length)) = .ok fast)
    (hfull : scan none = .ok full) :
    entityScan rows scan rows.length = .ok (aggregateEntityRanks rows
      (if (aggregateEntityRanks rows fast).ranks.length < semanticEntityCandidateCap ∧
        semanticEntitySegmentScanLimit < rows.length then full else fast)) := by
  have hlength := List.length_pos_of_ne_nil hnonempty
  have hpositive : min semanticEntitySegmentScanLimit rows.length ≠ 0 :=
    Nat.ne_of_gt (lt_min (by decide) hlength)
  have hcapped : min semanticEntitySegmentScanLimit rows.length < rows.length ↔
      semanticEntitySegmentScanLimit < rows.length := by omega
  rw [entityScan, if_neg hpositive, hfast]
  simp only [bind, Except.bind, hfull, hcapped]
  split <;> rfl

theorem entityScan_capped (hdistinct : DistinctRows rows) (hnonempty : rows ≠ [])
    {full : List (ExactVectorMatch I)}
    (hfast : scan (some (min semanticEntitySegmentScanLimit rows.length)) =
      .ok (firstRows d semanticEntitySegmentScanLimit rows))
    (hfull : scan none = .ok full) (hsuffices : CappedSuffices d rows) :
    entityScan rows scan rows.length = .ok (aggregated d rows) := by
  rw [entityScan_ok hnonempty hfast hfull, aggregate_length hdistinct]
  rcases hsuffices with hall | hmany
  · rw [if_neg (fun h => absurd h.2 (Nat.not_lt_of_le hall)), ← aggregate_all hdistinct, firstRows,
      firstRows, ← top_min, min_eq_right hall]
  · rw [if_neg (fun h => absurd h.1 (by omega)), aggregate_full hdistinct hmany]

theorem entityScan_repeated (hdistinct : DistinctRows rows) (hnonempty : rows ≠ [])
    (hfast : scan (some (min semanticEntitySegmentScanLimit rows.length)) =
      .ok (firstRows d' semanticEntitySegmentScanLimit rows))
    (hfull : scan none = .ok (firstRows d rows.length rows)) (hfew : ¬ CappedSuffices d' rows) :
    entityScan rows scan rows.length = .ok (aggregated d rows) := by
  obtain ⟨hmany, hdocuments⟩ := not_or.mp hfew
  rw [entityScan_ok hnonempty hfast hfull, aggregate_length hdistinct,
    if_pos ⟨by omega, Nat.lt_of_not_le hmany⟩, aggregate_all hdistinct]

theorem entityScan_nearest (hdistinct : DistinctRows rows) (hnonempty : rows ≠ [])
    (hfast : scan (some (min semanticEntitySegmentScanLimit rows.length)) =
      .ok (firstRows d semanticEntitySegmentScanLimit rows))
    (hfull : scan none = .ok (firstRows d rows.length rows)) :
    entityScan rows scan rows.length = .ok (aggregated d rows) := by
  by_cases hsuffices : CappedSuffices d rows
  · exact entityScan_capped hdistinct hnonempty hfast hfull hsuffices
  · exact entityScan_repeated hdistinct hnonempty hfast hfull hsuffices

end Segments

section Scan

variable {distance : V → Except ScanFault D} {kernel : ExactVectorKernel V D'}
  {profileId executableBindingId : String} {dimensions depth : ℕ}
  {elementType : PackedVectorElementType} {limit : Option ℕ}

def entityOptions (profileId executableBindingId : String) (dimensions : ℕ)
    (elementType : PackedVectorElementType) (limit : Option ℕ) : ExactVectorScanOptions Unit :=
  ⟨profileId, executableBindingId, dimensions, elementType, fun _ => true, limit⟩

def entityCandidates (profileId executableBindingId : String)
    (rows : List (SemanticVectorRow I V R S)) : List (ExactVectorCandidate I V Unit) :=
  rows.map (entityCandidate profileId executableBindingId)

omit [LinearOrder I] [DecidableEq R] in
theorem eligibleOf_entities (rows : List (SemanticVectorRow I V R S)) (limit : Option ℕ) :
    eligibleOf (entityCandidates profileId executableBindingId rows)
      (entityOptions profileId executableBindingId dimensions elementType limit) =
      entityCandidates profileId executableBindingId rows := by
  refine List.filter_eq_self.mpr (fun candidate hcandidate => ?_)
  obtain ⟨row, -, rfl⟩ := List.mem_map.mp hcandidate
  simp [entityCandidate, entityOptions]

omit [DecidableEq R] in
theorem nearestMatches_entities (d : V → D) (k : ℕ) :
    nearestMatches d (entityCandidates profileId executableBindingId rows) k =
      firstRows d k rows := by
  have htop : top (candidateKey d) k (entityCandidates profileId executableBindingId rows) =
      (top (rowKey d) k rows).map (entityCandidate profileId executableBindingId) :=
    top_map (fun _ => rfl) _ rows
  rw [nearestMatches, htop, List.map_map]
  rfl

omit [LinearOrder I] [DecidableEq R] in
theorem DistinctRows.ids (h : DistinctRows rows) :
    DistinctIds (entityCandidates profileId executableBindingId rows) := by
  rw [DistinctIds, entityCandidates, List.map_map]
  exact h

omit [LinearOrder I] [DecidableEq R] [LinearOrder D] in
theorem measures_entities {ε : Type} {distance : V → Except ε D}
    (h : ∀ row ∈ rows, distance row.vectorPayload = .ok (d row.vectorPayload)) :
    Measures distance d (entityCandidates profileId executableBindingId rows) := by
  intro candidate hcandidate
  obtain ⟨row, hrow, rfl⟩ := List.mem_map.mp hcandidate
  exact h row hrow

omit [DecidableEq R] in
theorem scan_plain (hdistinct : DistinctRows rows) (hdimensions : dimensions ≠ 0)
    (hplain : ∀ row ∈ rows, distance row.vectorPayload = .ok (d row.vectorPayload))
    (hlimit : limit ≠ some 0) :
    exactVectorScan distance idBytes none depth
      (entityCandidates profileId executableBindingId rows)
      (entityOptions profileId executableBindingId dimensions elementType limit) =
      .ok (firstRows d (limit.getD rows.length) rows) := by
  have heligible := @eligibleOf_entities I V R S profileId executableBindingId dimensions
    elementType rows limit
  rw [exactVectorScan_plain hlimit hdimensions (by rw [heligible]; exact hdistinct.ids)
    (by rw [heligible]; exact measures_entities hplain), heligible, nearestMatches_entities,
    entityCandidates, List.length_map]
  rfl

structure NativeRows (kernel : ExactVectorKernel V D') (d' : V → D') (idBytes : I → ℕ)
    (dimensions : ℕ) (rows : List (SemanticVectorRow I V R S)) : Prop where
  measured : ∀ row ∈ rows, kernelDistance kernel row.vectorPayload = .ok (d' row.vectorPayload)
  alone : ∀ row ∈ rows,
    16 * dimensions + idBytes row.projectionRecordId ≤ nativeBatchByteBudget

omit [LinearOrder I] [DecidableEq R] [LinearOrder D'] in
theorem NativeRows.fitsAlone (h : NativeRows kernel d' idBytes dimensions rows) :
    FitsAlone idBytes dimensions (entityCandidates profileId executableBindingId rows) := by
  intro candidate hcandidate
  obtain ⟨row, hrow, rfl⟩ := List.mem_map.mp hcandidate
  exact h.alone row hrow

omit [DecidableEq R] in
theorem scan_native (hdistinct : DistinctRows rows) (hdimensions : dimensions ≠ 0)
    (hplain : ∀ row ∈ rows, distance row.vectorPayload = .ok (d row.vectorPayload))
    (hnative : NativeRows kernel d' idBytes dimensions rows) (hdepth : rows.length < depth)
    (hlimit : limit ≠ some 0) :
    ∃ found, exactVectorScan distance idBytes (some (exactPackedVectorTopKBatch kernel idBytes))
        depth (entityCandidates profileId executableBindingId rows)
        (entityOptions profileId executableBindingId dimensions elementType limit) = .ok found ∧
      (fits idBytes dimensions (entityCandidates profileId executableBindingId rows) = true ∨
          Narrows idBytes dimensions (entityCandidates profileId executableBindingId rows)
            (limit.getD rows.length) → found = firstRows d' (limit.getD rows.length) rows) ∧
      (fits idBytes dimensions (entityCandidates profileId executableBindingId rows) = false →
          maxPerChunk idBytes dimensions (entityCandidates profileId executableBindingId rows) ≤
            limit.getD rows.length → found = firstRows d (limit.getD rows.length) rows) := by
  set candidates := entityCandidates profileId executableBindingId rows with hcandidates
  have heligible : eligibleOf candidates
      (entityOptions profileId executableBindingId dimensions elementType limit) = candidates :=
    eligibleOf_entities rows limit
  have hlength : candidates.length = rows.length := List.length_map _
  have hscan := (exactVectorScan_native distance kernel idBytes candidates
    (entityOptions profileId executableBindingId dimensions elementType limit)).1
  rw [heligible, hlength] at hscan
  obtain ⟨found, hfound, -, hexact, hsame⟩ := hscan hlimit hdimensions hdistinct.ids
    hnative.fitsAlone d d'
    (measures_entities hplain) (measures_entities hnative.measured) depth hdepth
  refine ⟨found, hfound, fun h => ?_, fun hfits hwide => ?_⟩
  · rw [hexact h]
    exact nearestMatches_entities d' _
  · have hanswer := hsame hfits hwide
    rw [scan_plain hdistinct hdimensions hplain hlimit] at hanswer
    exact (Except.ok.inj hanswer).symm

theorem entityScan_best (hdistinct : DistinctRows rows) (hdimensions : dimensions ≠ 0)
    (hplain : ∀ row ∈ rows, distance row.vectorPayload = .ok (d row.vectorPayload))
    (idBytes : I → ℕ) (profileId executableBindingId : String)
    (elementType : PackedVectorElementType) (depth : ℕ) :
    (∃ found, entityScan rows (fun limit => exactVectorScan distance idBytes none depth
        (entityCandidates profileId executableBindingId rows)
        (entityOptions profileId executableBindingId dimensions elementType limit)) rows.length =
        .ok found ∧ BestSegments d rows found) ∧
      ∀ (kernel : ExactVectorKernel V D') (d' : V → D'),
        NativeRows kernel d' idBytes dimensions rows → rows.length < depth →
        ∃ found, entityScan rows (fun limit => exactVectorScan distance idBytes
            (some (exactPackedVectorTopKBatch kernel idBytes)) depth
            (entityCandidates profileId executableBindingId rows)
            (entityOptions profileId executableBindingId dimensions elementType limit))
            rows.length = .ok found ∧
          (fits idBytes dimensions (entityCandidates profileId executableBindingId rows) = true →
            BestSegments d' rows found) ∧
          (fits idBytes dimensions (entityCandidates profileId executableBindingId rows) = false →
            (maxPerChunk idBytes dimensions (entityCandidates profileId executableBindingId rows) ≤
                min semanticEntitySegmentScanLimit rows.length → BestSegments d rows found) ∧
            (Narrows idBytes dimensions (entityCandidates profileId executableBindingId rows)
                (min semanticEntitySegmentScanLimit rows.length) →
              (CappedSuffices d' rows → BestSegments d' rows found) ∧
              (¬ CappedSuffices d' rows → BestSegments d rows found))) := by
  rcases eq_or_ne rows [] with rfl | hnonempty
  · have hbest : BestSegments d ([] : List (SemanticVectorRow I V R S)) ⟨[], []⟩ :=
      aggregated_best List.nodup_nil
    have hbest' : ∀ d' : V → D', BestSegments d' ([] : List (SemanticVectorRow I V R S)) ⟨[], []⟩ :=
      fun d' => aggregated_best List.nodup_nil
    refine ⟨⟨_, rfl, hbest⟩, fun kernel d' _ _ => ⟨_, rfl, fun _ => hbest' d', fun _ => ?_⟩⟩
    exact ⟨fun _ => hbest, fun _ => ⟨fun _ => hbest' d', fun _ => hbest⟩⟩
  · have hlength := List.length_pos_of_ne_nil hnonempty
    have hcap : (some (min semanticEntitySegmentScanLimit rows.length)) ≠ some 0 :=
      fun h => absurd (Option.some.inj h) (Nat.ne_of_gt (lt_min (by decide) hlength))
    have huncapped : (none : Option ℕ) ≠ some 0 := (Option.some_ne_none 0).symm
    have hcapped : ∀ {D : Type} [LinearOrder D] (d : V → D),
        firstRows d (min semanticEntitySegmentScanLimit rows.length) rows =
          firstRows d semanticEntitySegmentScanLimit rows := by
      intro D _ d
      rw [firstRows, firstRows, top_min]
    constructor
    · refine ⟨_, entityScan_nearest hdistinct hnonempty ?_ ?_, aggregated_best hdistinct⟩
      · rw [scan_plain hdistinct hdimensions hplain hcap, Option.getD_some, hcapped]
      · rw [scan_plain hdistinct hdimensions hplain huncapped, Option.getD_none]
    · intro kernel d' hnative hdepth
      obtain ⟨fast, hfast, hfastExact, hfastWide⟩ :=
        @scan_native _ _ _ _ _ _ _ _ _ d d' idBytes rows
        distance kernel profileId executableBindingId dimensions depth elementType _
        hdistinct hdimensions hplain hnative hdepth hcap
      obtain ⟨full, hfull, hfullExact, hfullWide⟩ :=
        @scan_native _ _ _ _ _ _ _ _ _ d d' idBytes rows
        distance kernel profileId executableBindingId dimensions depth elementType none
        hdistinct hdimensions hplain hnative hdepth huncapped
      rw [Option.getD_some, hcapped] at hfastExact hfastWide
      rw [Option.getD_none] at hfullExact hfullWide
      obtain ⟨found, hscan⟩ :
          ∃ found, entityScan rows (fun limit => exactVectorScan distance idBytes
          (some (exactPackedVectorTopKBatch kernel idBytes)) depth
          (entityCandidates profileId executableBindingId rows)
          (entityOptions profileId executableBindingId dimensions elementType limit)) rows.length =
          .ok found := ⟨_, entityScan_ok hnonempty hfast hfull⟩
      refine ⟨found, hscan, fun hfits => ?_, fun hfits => ⟨fun hwide => ?_,
        fun hnarrows => ⟨fun hsuffices => ?_, fun hfew => ?_⟩⟩⟩
      · rw [hfastExact (Or.inl hfits)] at hfast
        rw [hfullExact (Or.inl hfits)] at hfull
        obtain rfl := Except.ok.inj
          (hscan.symm.trans (entityScan_nearest hdistinct hnonempty hfast hfull))
        exact aggregated_best hdistinct
      · rw [hfastWide hfits hwide] at hfast
        rw [hfullWide hfits (hwide.trans (min_le_right _ _))] at hfull
        obtain rfl := Except.ok.inj
          (hscan.symm.trans (entityScan_nearest hdistinct hnonempty hfast hfull))
        exact aggregated_best hdistinct
      · rw [hfastExact (Or.inr hnarrows)] at hfast
        obtain rfl := Except.ok.inj
          (hscan.symm.trans (entityScan_capped hdistinct hnonempty hfast hfull hsuffices))
        exact aggregated_best hdistinct
      · have hcandidates : entityCandidates profileId executableBindingId rows ≠ [] :=
          fun h => hnonempty (List.map_eq_nil_iff.mp h)
        have hsize := maxPerChunk_lt hnative.fitsAlone
          (hnative.fitsAlone.budget (Nat.pos_of_ne_zero hdimensions) hcandidates) hfits
        rw [entityCandidates, List.length_map] at hsize
        rw [hfastExact (Or.inr hnarrows)] at hfast
        rw [hfullWide hfits hsize.le] at hfull
        obtain rfl := Except.ok.inj
          (hscan.symm.trans (entityScan_repeated hdistinct hnonempty hfast hfull hfew))
        exact aggregated_best hdistinct

def twoDocuments : List (SemanticVectorRow ℕ ℕ String ℕ) :=
  [⟨1, 7, some "invoice", 0, some 0, some 9⟩, ⟨2, 3, some "invoice", 1, some 10, some 20⟩,
    ⟨3, 5, some "order", 0, none, none⟩, ⟨4, 9, some "order", 1, some 30, some 40⟩]

theorem entityScan_best_two :
    ∃ found, entityScan twoDocuments (fun limit => exactVectorScan (fun v : ℕ => .ok v)
        (fun _ => 1) (some (exactPackedVectorTopKBatch reversedKernel (fun _ => 1))) 5
        (entityCandidates "profile" "binding" twoDocuments)
        (entityOptions "profile" "binding" 8 .float64Le limit)) 4 = .ok found ∧
      found.ranks = [("order", 1), ("invoice", 2)] := by
  have hbytes : 16 * 8 + 1 ≤ nativeBatchByteBudget := by decide
  have hnative : NativeRows reversedKernel (fun v => 10 - v) (fun _ => 1) 8 twoDocuments :=
    ⟨fun _ _ => rfl, fun _ _ => hbytes⟩
  have hdistinct : (twoDocuments.map (·.projectionRecordId)).Nodup := by decide
  have hplain : ∀ row ∈ twoDocuments,
      (.ok row.vectorPayload : Except ScanFault ℕ) = .ok (id row.vectorPayload) := fun _ _ => rfl
  obtain ⟨-, hscan⟩ := @entityScan_best ℕ ℕ String ℕ ℕ ℕ _ _ _ _ id twoDocuments (fun v => .ok v) 8
    hdistinct (by decide) hplain (fun _ => 1) "profile" "binding" .float64Le 5
  obtain ⟨found, hfound, hexact, -⟩ := hscan reversedKernel _ hnative (by decide)
  refine ⟨found, hfound, ?_⟩
  rw [(hexact (by decide)).ranks]
  decide

end Scan

end Semantic

end Engine
