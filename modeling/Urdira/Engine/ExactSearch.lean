import Urdira.Engine.VectorScan
import Urdira.Lib.ExceptOk
import Urdira.Lib.TopK

open Chunks DoubleRounding ExceptOk KeyedSort NativeCore TopK

namespace Engine

namespace Semantic

variable {I V M D D' : Type} [LinearOrder I] [LinearOrder D] [LinearOrder D']
  {distance : V → Except ScanFault D} {kernel : ExactVectorKernel V D'} {d : V → D} {d' : V → D'}
  {idBytes : I → ℕ} {dimensions : ℕ} {elementType : PackedVectorElementType}

def candidateKey (d : V → D) (candidate : Candidate I V M) : D ×ₗ I :=
  toLex (d candidate.vector, candidate.projectionRecordId)

def DistinctIds (candidates : List (Candidate I V M)) : Prop :=
  (candidates.map (·.projectionRecordId)).Nodup

def Measures {ε : Type} (distance : V → Except ε D) (d : V → D)
    (candidates : List (Candidate I V M)) : Prop :=
  ∀ candidate ∈ candidates, distance candidate.vector = .ok (d candidate.vector)

def kernelDistance (kernel : ExactVectorKernel V D) (vector : V) : Except ExactVectorError D :=
  if kernel.queryValid = false then .error .queryInvalid
  else if kernel.candidateValid vector = false then .error .candidateInvalid
  else kernel.vectorDistance vector

def nearestMatches (d : V → D) (candidates : List (Candidate I V M)) (limit : ℕ) :
    List (ExactVectorMatch I) :=
  rankedMatches ((top (candidateKey d) limit candidates).map (·.projectionRecordId))

def Ranks (candidates : List (Candidate I V M)) (limit : ℕ) (found : List (ExactVectorMatch I)) :
    Prop :=
  ∃ winners : List (Candidate I V M), winners.Subperm candidates ∧
    winners.length = min limit candidates.length ∧
    found = rankedMatches (winners.map (·.projectionRecordId))

section Sorting

variable {candidates : List (Candidate I V M)} {limit : ℕ}

omit [LinearOrder I] [LinearOrder D] in
theorem DistinctIds.keys (h : DistinctIds candidates) :
    (candidates.map (candidateKey d)).Nodup := by
  have hids : ((candidates.map (candidateKey d)).map (fun key => (ofLex key).2)).Nodup := by
    rw [List.map_map]
    exact h
  exact List.Nodup.of_map _ hids

omit [LinearOrder I] [LinearOrder D] in
theorem Measures.sub {ε : Type} {distance : V → Except ε D} (h : Measures distance d candidates)
    {part : List (Candidate I V M)} (hpart : ∀ candidate ∈ part, candidate ∈ candidates) :
    Measures distance d part :=
  fun candidate hcandidate => h candidate (hpart candidate hcandidate)

omit [LinearOrder I] [LinearOrder D] in
theorem measured_entries (h : Measures distance d candidates) :
    candidates.mapM (fun candidate => (distance candidate.vector).map
      (fun measured => toLex (measured, candidate.projectionRecordId))) =
      .ok (candidates.map (candidateKey d)) := by
  refine mapM_eq_ok (fun candidate hcandidate => ?_)
  rw [h candidate hcandidate]
  rfl

theorem exactDistanceSort_eq (h : Measures distance d candidates) (limit : ℕ) :
    exactDistanceSort distance candidates limit = .ok (nearestMatches d candidates limit) := by
  have hsorted : sortBy id (candidates.map (candidateKey d)) =
      (sortBy (candidateKey d) candidates).map (candidateKey d) :=
        sortBy_map (fun _ => rfl) candidates
  have htake : ∀ entries : List (D ×ₗ I),
      entries.take (min limit entries.length) = entries.take limit := by
    intro entries
    rcases Nat.le_total limit entries.length with hle | hge
    · rw [min_eq_left hle]
    · rw [min_eq_right hge, List.take_length, List.take_of_length_le hge]
  rw [exactDistanceSort, measured_entries h]
  simp only [bind, Except.bind]
  rw [htake, hsorted, ← List.map_take, List.map_map]
  rfl

theorem nearestMatches_min (d : V → D) (candidates : List (Candidate I V M)) (limit : ℕ) :
    nearestMatches d candidates (min limit candidates.length) =
      nearestMatches d candidates limit := by
  rw [nearestMatches, nearestMatches, top_min]

theorem nearestMatches_ranks (d : V → D) (candidates : List (Candidate I V M)) (limit : ℕ) :
    Ranks candidates limit (nearestMatches d candidates limit) :=
  ⟨top (candidateKey d) limit candidates,
    (top_sublist limit candidates).subperm.trans (sortBy_perm _ candidates).subperm,
    length_top _ _, rfl⟩

theorem candidateOf_of_mem {candidate : Candidate I V M} (h : DistinctIds candidates)
    (hmem : candidate ∈ candidates) :
    candidateOf candidates candidate.projectionRecordId = some candidate := by
  have hfound : (candidateOf candidates candidate.projectionRecordId).isSome := by
    rw [candidateOf, List.find?_isSome]
    exact ⟨candidate, List.mem_reverse.mpr hmem, decide_eq_true rfl⟩
  obtain ⟨other, hother⟩ := Option.isSome_iff_exists.mp hfound
  have hfind := hother
  rw [candidateOf] at hfind
  have hid : other.projectionRecordId = candidate.projectionRecordId := by
    simpa using List.find?_some hfind
  have hotherMem := List.mem_reverse.mp (List.mem_of_find?_eq_some hfind)
  rw [hother, List.inj_on_of_nodup_map h hotherMem hmem hid]

omit [LinearOrder I] in
theorem rankedMatches_ids (ids : List I) :
    (rankedMatches ids).map (·.projectionRecordId) = ids := by
  rw [rankedMatches, List.mapIdx_eq_zipIdx_map, List.map_map]
  exact List.zipIdx_map_fst 0 ids

theorem winnersOf_eq (h : DistinctIds candidates) {winners : List (Candidate I V M)}
    (hmem : ∀ winner ∈ winners, winner ∈ candidates) {found : List (ExactVectorMatch I)}
    (hids : found.map (·.projectionRecordId) = winners.map (·.projectionRecordId)) :
    winnersOf candidates found = .ok winners := by
  induction winners generalizing found with
  | nil =>
    obtain rfl := List.map_eq_nil_iff.mp hids
    rfl
  | cons winner winners ih =>
    cases found with
    | nil => cases hids
    | cons first found =>
      obtain ⟨hfirst, hrest⟩ := List.cons.inj hids
      obtain ⟨hwinner, hwinners⟩ := List.forall_mem_cons.mp hmem
      dsimp only at hfirst
      rw [winnersOf, hfirst, candidateOf_of_mem h hwinner]
      dsimp only
      rw [ih hwinners hrest]
      rfl

end Sorting

section ChunkSize

variable {eligible : List (Candidate I V M)}

def FitsAlone (idBytes : I → ℕ) (dimensions : ℕ) (eligible : List (Candidate I V M)) : Prop :=
  ∀ candidate ∈ eligible, 16 * dimensions + idBytes candidate.projectionRecordId ≤
    nativeBatchByteBudget

omit [LinearOrder I] in
theorem two_le_of_not_fits (halone : FitsAlone idBytes dimensions eligible)
    (hbudget : 8 * dimensions ≤ nativeBatchByteBudget)
    (h : fits idBytes dimensions eligible = false) : 2 ≤ eligible.length := by
  have hnot := of_decide_eq_false h
  match eligible with
  | [] =>
    refine absurd ⟨?_, Nat.zero_le _⟩ hnot
    simp only [totalBytes, totalIdBytes, List.length_nil, List.map_nil, List.sum_nil]
    omega
  | [candidate] =>
    have hone := halone candidate (List.mem_singleton_self _)
    have hrecord : 1 ≤ nativeBatchRecordBudget := by decide
    refine absurd ⟨?_, hrecord⟩ hnot
    simp only [totalBytes, totalIdBytes, List.length_singleton, List.map_singleton,
      List.sum_singleton]
    omega
  | _ :: _ :: rest => exact Nat.le_add_left 2 rest.length

theorem quotient_lt {budget total count width : ℕ} (hcount : 0 < count) (hbudget : budget ≤ 2 ^ 23)
    (hpos : 0 < budget)
    (hover : budget + 1 ≤ count * width + total) :
    0 < toDouble (width + toDouble (total / count)) ∧
      toDouble (budget / toDouble (width + toDouble (total / count))) < count := by
  have hcountQ : (0 : ℚ) < count := by exact_mod_cast hcount
  have hbudgetQ : (budget : ℚ) ≤ 2 ^ 23 := by exact_mod_cast hbudget
  have hposQ : (0 : ℚ) < budget := by exact_mod_cast hpos
  have hoverQ : (budget : ℚ) + 1 ≤ count * width + total := by exact_mod_cast hover
  have haverage : (0 : ℚ) ≤ total / count := div_nonneg (Nat.cast_nonneg _) hcountQ.le
  have hwidth : (0 : ℚ) ≤ width := Nat.cast_nonneg _
  obtain ⟨hlow, -⟩ := toDouble_bounds haverage
  set average := toDouble ((total : ℚ) / count)
  have hsum : (0 : ℚ) ≤ width + average := by linarith
  obtain ⟨hsumLow, -⟩ := toDouble_bounds hsum
  set perCandidate := toDouble (width + average)
  have htotal : (count : ℚ) * (total / count) = total := mul_div_cancel₀ _ hcountQ.ne'
  have hcapacity : ((budget : ℚ) + 1) * ((1 - 1 / 2 ^ 53) * (1 - 1 / 2 ^ 53)) ≤
      count * perCandidate := by
    have hper : ((width : ℚ) + total / count) * ((1 - 1 / 2 ^ 53) * (1 - 1 / 2 ^ 53)) ≤
        perCandidate := by
      nlinarith
    have hscaled := mul_le_mul_of_nonneg_left hper hcountQ.le
    have hall : (count : ℚ) * (width + total / count) = count * width + total := by
      rw [mul_add, htotal]
    rw [← mul_assoc, hall] at hscaled
    refine le_trans (mul_le_mul_of_nonneg_right hoverQ ?_) hscaled
    norm_num
  have hroom : (budget : ℚ) * (1 + 1 / 2 ^ 53) < count * perCandidate := by
    refine lt_of_lt_of_le ?_ hcapacity
    norm_num
    linarith
  have hperPos : 0 < perCandidate := by
    have hproduct : 0 < (count : ℚ) * perCandidate := lt_trans (by positivity) hroom
    exact (pos_iff_pos_of_mul_pos hproduct).mp hcountQ
  obtain ⟨-, hquotient⟩ := toDouble_bounds (div_nonneg hposQ.le hperPos.le)
  refine ⟨hperPos, lt_of_le_of_lt hquotient ?_⟩
  have hscale : (budget : ℚ) / perCandidate + budget / perCandidate / 2 ^ 53 =
      budget * (1 + 1 / 2 ^ 53) / perCandidate := by ring
  rw [hscale, div_lt_iff₀ hperPos]
  exact hroom

omit [LinearOrder I] in
theorem maxPerChunkByBytes_lt (hcount : 2 ≤ eligible.length)
    (hbudget : 8 * dimensions < nativeBatchByteBudget)
    (hover : nativeBatchByteBudget < totalBytes idBytes dimensions eligible) :
    0 < bytesPerCandidate idBytes dimensions eligible ∧
      maxPerChunkByBytes idBytes dimensions eligible < eligible.length := by
  have hbytes : nativeBatchByteBudget = 4128768 := rfl
  have hroom : nativeBatchByteBudget - dimensions * 8 + 1 ≤
      eligible.length * (dimensions * 8) + totalIdBytes idBytes eligible := by
    rw [totalBytes, Nat.add_mul, Nat.mul_assoc] at hover
    omega
  have hbudgetCast : ((byteBudgetForCandidates dimensions : ℤ) : ℚ) =
      ((nativeBatchByteBudget - dimensions * 8 : ℕ) : ℚ) := by
    have hint : byteBudgetForCandidates dimensions =
        ((nativeBatchByteBudget - dimensions * 8 : ℕ) : ℤ) := by
      rw [byteBudgetForCandidates]
      omega
    rw [hint]
    exact Int.cast_natCast _
  have haverage : averageIdBytes idBytes eligible =
      toDouble ((totalIdBytes idBytes eligible : ℚ) / eligible.length) :=
    if_neg (by omega)
  obtain ⟨hper, hlt⟩ := quotient_lt (by omega : 0 < eligible.length) (by omega) (by omega) hroom
  rw [← haverage] at hper hlt
  refine ⟨hper, ?_⟩
  have hfloor : ⌊toDouble (byteBudgetForCandidates dimensions / bytesPerCandidate idBytes dimensions
      eligible)⌋ <
      (eligible.length : ℤ) := by
    rw [Int.floor_lt, hbudgetCast]
    exact_mod_cast hlt
  rw [maxPerChunkByBytes]
  omega

omit [LinearOrder I] in
theorem maxPerChunk_lt (halone : FitsAlone idBytes dimensions eligible)
    (hbudget : 8 * dimensions < nativeBatchByteBudget)
    (h : fits idBytes dimensions eligible = false) :
    maxPerChunk idBytes dimensions eligible < eligible.length := by
  have htwo := two_le_of_not_fits halone hbudget.le h
  have hnot := of_decide_eq_false h
  have hrecords : nativeBatchRecordBudget = 4095 := rfl
  rw [maxPerChunk]
  rcases Nat.lt_or_ge nativeBatchRecordBudget eligible.length with hmany | hfew
  · split
    · exact hmany
    · omega
  · have hover : nativeBatchByteBudget < totalBytes idBytes dimensions eligible := by
      by_contra hle
      exact hnot ⟨Nat.le_of_not_lt hle, hfew⟩
    obtain ⟨hper, hlt⟩ := maxPerChunkByBytes_lt htwo hbudget hover
    rw [if_neg hper.ne']
    omega

end ChunkSize

section Kernel

variable {candidates : List (Candidate I V M)} {k : ℕ}

theorem wellFormedMatches_ranked {identifiers ids seen : List I}
    (hmem : ∀ id ∈ ids, id ∈ identifiers)
    (hfresh : ∀ id ∈ ids, id ∉ seen) (hnodup : ids.Nodup) (index : ℕ) :
    wellFormedMatches identifiers seen index (ids.mapIdx (fun i id => ⟨id, index + i + 1⟩)) =
      true := by
  induction ids generalizing seen index with
  | nil => rfl
  | cons id ids ih =>
    obtain ⟨hid, hids⟩ := List.forall_mem_cons.mp hmem
    obtain ⟨hnew, hrest⟩ := List.forall_mem_cons.mp hfresh
    obtain ⟨hnot, hnodup⟩ := List.nodup_cons.mp hnodup
    have htail : ∀ other ∈ ids, other ∉ id :: seen := by
      intro other hother hseen
      rcases List.mem_cons.mp hseen with rfl | hseen
      · exact hnot hother
      · exact hrest other hother hseen
    have hfound := ih hids htail hnodup (index + 1)
    have hshift : (fun i other => (⟨other, index + 1 + i + 1⟩ : ExactVectorMatch I)) =
        fun i other => ⟨other, index + (i + 1) + 1⟩ := by
      funext i other
      rw [Nat.add_right_comm index 1 i, Nat.add_assoc index i 1]
    rw [hshift] at hfound
    have hrankOf : decide (index + 0 + 1 = index + 1) = true := decide_eq_true rfl
    have hunseen : seen.contains id = false := by rw [List.contains_eq_mem, decide_eq_false hnew]
    rw [List.mapIdx_cons, wellFormedMatches, List.contains_iff_mem.mpr hid, hunseen,
      hrankOf, hfound]
    rfl

omit [LinearOrder D'] in
theorem rankCandidates_eq {identifiers : List I}
    (hmeasures : Measures (kernelDistance kernel) d' candidates) (hvalid : kernel.queryValid = true)
    (hdistinct : DistinctIds candidates)
    (hfresh : ∀ candidate ∈ candidates, candidate.projectionRecordId ∉ identifiers) :
    rankCandidates kernel identifiers
      ((candidates.map (·.vector)).zip (candidates.map (·.projectionRecordId))) =
      .ok (candidates.map (candidateKey d')) := by
  induction candidates generalizing identifiers with
  | nil => rfl
  | cons candidate candidates ih =>
    obtain ⟨hfirst, hrest⟩ := List.forall_mem_cons.mp hmeasures
    obtain ⟨hnew, hothers⟩ := List.forall_mem_cons.mp hfresh
    obtain ⟨hnot, hnodup⟩ := List.nodup_cons.mp hdistinct
    have htail : ∀ other ∈ candidates,
        other.projectionRecordId ∉ candidate.projectionRecordId :: identifiers := by
      intro other hother hmem
      rcases List.mem_cons.mp hmem with heq | hmem
      · exact hnot (List.mem_map.mpr ⟨other, hother, heq⟩)
      · exact hothers other hother hmem
    rw [kernelDistance, if_neg (by rw [hvalid]; exact Bool.true_eq_false_eq_False)] at hfirst
    split at hfirst
    · cases hfirst
    · rename_i hcandidate
      rw [List.map_cons, List.map_cons, List.zip_cons_cons, rankCandidates_cons, if_neg hnew,
        if_neg hcandidate, hfirst, ih hrest hnodup htail]
      rfl

theorem exactVectorTopK_eq (hmeasures : Measures (kernelDistance kernel) d' candidates)
    (hnonempty : candidates ≠ []) (h : DistinctIds candidates) (k : ℕ) :
    exactVectorTopK kernel (packedRequest dimensions elementType candidates k) =
      .ok (nearestMatches d' candidates k) := by
  have hvalid : kernel.queryValid = true := by
    have hfirst := hmeasures _ (List.head_mem hnonempty)
    rw [kernelDistance] at hfirst
    split at hfirst
    · cases hfirst
    · rename_i hquery
      exact Bool.not_eq_false _ ▸ hquery
  have hsorted : sortBy id (candidates.map (candidateKey d')) =
      (sortBy (candidateKey d') candidates).map (candidateKey d') :=
        sortBy_map (fun _ => rfl) candidates
  have hranked : rankCandidates kernel []
      ((candidates.map (·.vector)).zip (candidates.map (·.projectionRecordId))) =
      .ok (candidates.map (candidateKey d')) :=
    rankCandidates_eq hmeasures hvalid h (fun _ _ => List.not_mem_nil)
  rw [exactVectorTopK, if_neg (by rw [hvalid]; exact Bool.true_eq_false_eq_False), packedRequest]
  dsimp only
  rw [hranked]
  simp only [bind, Except.bind]
  rw [hsorted, ← List.map_take, List.map_map]
  rfl

omit [LinearOrder I] in
theorem packedBytes_le (candidates : List (Candidate I V M)) (k : ℕ) :
    packedBytes (packedRequest dimensions elementType candidates k) ≤
      totalBytes idBytes dimensions candidates := by
  have hwidth : dimensions * elementType.width ≤ dimensions * 8 := by
    refine Nat.mul_le_mul_left _ ?_
    cases elementType <;> decide
  have hcandidates := Nat.mul_le_mul_left candidates.length hwidth
  have hbytes : packedBytes (packedRequest dimensions elementType candidates k) =
      dimensions * elementType.width + candidates.length * (dimensions * elementType.width) := by
    simp only [packedBytes, packedRequest, List.length_map]
  rw [hbytes, totalBytes, Nat.add_mul, Nat.mul_assoc candidates.length]
  omega

omit [LinearOrder I] in
theorem vectorRequestBytes_eq (candidates : List (Candidate I V M)) (k : ℕ) :
    vectorRequestBytes idBytes (packedRequest dimensions elementType candidates k) =
      totalBytes idBytes dimensions candidates := by
  simp only [vectorRequestBytes, packedRequest, totalBytes, totalIdBytes, List.length_map,
    List.map_map,
    Function.comp_def]

theorem nativeExactVectorTopK_eq (hmeasures : Measures (kernelDistance kernel) d' candidates)
    (hnonempty : candidates ≠ []) (h : DistinctIds candidates) (hdimensions : 0 < dimensions)
    (hk : 0 < k) (hfits : fits idBytes dimensions candidates = true) :
    nativeExactVectorTopK (exactPackedVectorTopKBatch kernel idBytes)
      (packedRequest dimensions elementType candidates k) =
        .ok (nearestMatches d' candidates k) := by
  obtain ⟨hbytes, hrecords⟩ := of_decide_eq_true hfits
  have hbyteBound : nativeBatchByteBudget ≤ maxBatchFramedBytes := by decide
  have hrecordBound : nativeBatchRecordBudget ≤ maxBatchRecords := by decide
  have hpacked : packedBytes (packedRequest dimensions elementType candidates k) ≤
      totalBytes idBytes dimensions candidates := packedBytes_le candidates k
  have hport : exactPackedVectorTopKBatch kernel idBytes
      (packedRequest dimensions elementType candidates k) =
        .ok (nearestMatches d' candidates k) := by
    have hlength : (packedRequest dimensions elementType candidates k).candidates.length =
        candidates.length := List.length_map _
    have hids : (packedRequest dimensions elementType candidates k).projectionRecordIds.length =
        candidates.length := List.length_map _
    have hpositive : (packedRequest dimensions elementType candidates k).dimensions ≠ 0 :=
      Nat.ne_of_gt hdimensions
    have hcount : (packedRequest dimensions elementType candidates k).k ≠ 0 := Nat.ne_of_gt hk
    rw [exactPackedVectorTopKBatch, if_neg (by omega), if_neg hpositive, if_neg (by omega),
      exactVectorTopKBatch, if_neg hcount, if_neg (by omega),
      if_neg (by rw [vectorRequestBytes_eq]; omega), exactVectorTopK_eq hmeasures hnonempty h]
  have hcount : (nearestMatches d' candidates k).length =
      min k (packedRequest dimensions elementType candidates k).projectionRecordIds.length := by
    rw [nearestMatches, rankedMatches, List.length_mapIdx, List.length_map, length_top,
      packedRequest, List.length_map]
  have hformed : wellFormedMatches
      (packedRequest dimensions elementType candidates k).projectionRecordIds [] 0
      (nearestMatches d' candidates k) = true := by
    have hsublist : ((top (candidateKey d') k candidates).map (·.projectionRecordId)).Sublist
        ((sortBy (candidateKey d') candidates).map (·.projectionRecordId)) :=
      (top_sublist k candidates).map _
    have hsorted : ((sortBy (candidateKey d') candidates).map (·.projectionRecordId)).Nodup :=
      ((sortBy_perm (candidateKey d') candidates).map _).nodup_iff.mpr h
    have hmem : ∀ id ∈ (top (candidateKey d') k candidates).map (·.projectionRecordId),
        id ∈ candidates.map (·.projectionRecordId) := by
      intro id hid
      obtain ⟨candidate, hcandidate, rfl⟩ := List.mem_map.mp hid
      exact List.mem_map_of_mem (mem_of_top hcandidate)
    have hranked := wellFormedMatches_ranked hmem (fun _ _ => List.not_mem_nil)
      (hsorted.sublist hsublist) 0
    simp only [Nat.zero_add] at hranked
    exact hranked
  rw [nativeExactVectorTopK, hport]
  exact (if_neg (not_not_intro hcount)).trans (if_pos hformed)

omit [LinearOrder D'] in
theorem rankCandidates_error {identifiers : List I} {candidate : Candidate I V M}
    (hmem : candidate ∈ candidates) (hvalid : kernel.queryValid = true)
    (hunmeasured : ∀ measured, kernelDistance kernel candidate.vector ≠ .ok measured)
    (ranked : List (D' ×ₗ I)) :
    rankCandidates kernel identifiers
      ((candidates.map (·.vector)).zip (candidates.map (·.projectionRecordId))) ≠ .ok ranked := by
  intro h
  induction candidates generalizing identifiers ranked with
  | nil => cases hmem
  | cons first candidates ih =>
    rw [List.map_cons, List.map_cons, List.zip_cons_cons, rankCandidates_cons] at h
    split at h
    · cases h
    · split at h
      · cases h
      · rename_i hcandidate
        obtain ⟨measured, hmeasured, h⟩ := bind_eq_ok h
        obtain ⟨rest, hrest, -⟩ := bind_eq_ok h
        rcases List.mem_cons.mp hmem with rfl | hmem
        · refine hunmeasured measured ?_
          rw [kernelDistance, if_neg (by rw [hvalid]; exact Bool.true_eq_false_eq_False),
            if_neg hcandidate]
          exact hmeasured
        · exact ih hmem rest hrest

theorem nativeExactVectorTopK_error {candidate : Candidate I V M} (hmem : candidate ∈ candidates)
    (hunmeasured : ∀ measured, kernelDistance kernel candidate.vector ≠ .ok measured)
    (found : List (ExactVectorMatch I)) :
    nativeExactVectorTopK (exactPackedVectorTopKBatch kernel idBytes)
      (packedRequest dimensions elementType candidates k) ≠ .ok found := by
  intro h
  obtain ⟨matches_, hport, -⟩ := bind_eq_ok h
  cases hanswer : exactPackedVectorTopKBatch kernel idBytes
      (packedRequest dimensions elementType candidates k) with
  | error fault =>
    rw [hanswer] at hport
    cases hport
  | ok answer =>
    rw [exactPackedVectorTopKBatch] at hanswer
    obtain ⟨-, hanswer⟩ := ite_error_eq_ok hanswer
    obtain ⟨-, hanswer⟩ := ite_error_eq_ok hanswer
    obtain ⟨-, hanswer⟩ := ite_error_eq_ok hanswer
    rw [exactVectorTopKBatch] at hanswer
    obtain ⟨-, hanswer⟩ := ite_error_eq_ok hanswer
    obtain ⟨-, hanswer⟩ := ite_error_eq_ok hanswer
    obtain ⟨-, hanswer⟩ := ite_error_eq_ok hanswer
    rw [exactVectorTopK] at hanswer
    obtain ⟨hvalid, hanswer⟩ := ite_error_eq_ok hanswer
    obtain ⟨ranked, hranked, -⟩ := bind_eq_ok hanswer
    exact rankCandidates_error hmem (Bool.not_eq_false _ ▸ hvalid) hunmeasured ranked hranked

end Kernel

section Chunked

variable {eligible : List (Candidate I V M)} {limit : ℕ}

def Narrows (idBytes : I → ℕ) (dimensions : ℕ) (eligible : List (Candidate I V M)) (limit : ℕ) :
    Prop :=
  ∀ part : List (Candidate I V M), part.Subperm eligible → fits idBytes dimensions part = false →
    limit < maxPerChunk idBytes dimensions part

omit [LinearOrder I] in
theorem Narrows.sub (h : Narrows idBytes dimensions eligible limit) {part : List (Candidate I V M)}
    (hpart : part.Subperm eligible) {k : ℕ} (hk : k ≤ limit) :
    Narrows idBytes dimensions part k :=
  fun piece hpiece hfits => lt_of_le_of_lt hk (h piece (hpiece.trans hpart) hfits)

theorem min_sum (limit : ℕ) (sizes : List ℕ) :
    min limit (sizes.map (min limit)).sum = min limit sizes.sum := by
  induction sizes with
  | nil => rfl
  | cons size sizes ih =>
    rw [List.map_cons, List.sum_cons, List.sum_cons]
    omega

omit [LinearOrder I] in
theorem Ranks.of_min {found : List (ExactVectorMatch I)}
    (h : Ranks eligible (min limit eligible.length) found) : Ranks eligible limit found := by
  obtain ⟨winners, hsub, hlength, hfound⟩ := h
  exact ⟨winners, hsub, by omega, hfound⟩

omit [LinearOrder I] in
theorem Ranks.of_subperm {winners : List (Candidate I V M)} {found : List (ExactVectorMatch I)}
    (h : Ranks winners limit found) (hsub : winners.Subperm eligible)
    (hcount : min limit winners.length = min limit eligible.length) :
    Ranks eligible limit found := by
  obtain ⟨chosen, hchosen, hlength, hfound⟩ := h
  exact ⟨chosen, hchosen.trans hsub, hlength.trans hcount, hfound⟩

theorem winnersOf_ranks {chunk : List (Candidate I V M)} {found : List (ExactVectorMatch I)}
    (h : DistinctIds chunk) (hranks : Ranks chunk limit found) :
    ∃ winners, winnersOf chunk found = .ok winners ∧ winners.Subperm chunk ∧
      winners.length = min limit chunk.length := by
  obtain ⟨winners, hsub, hlength, rfl⟩ := hranks
  exact ⟨winners, winnersOf_eq h (fun winner hwinner => hsub.subset hwinner) (rankedMatches_ids _),
    hsub, hlength⟩

theorem winnersOf_nearest {chunk : List (Candidate I V M)} (h : DistinctIds chunk) (limit : ℕ) :
    winnersOf chunk (nearestMatches d' chunk limit) = .ok (top (candidateKey d') limit chunk) :=
  winnersOf_eq h (fun _ hwinner => mem_of_top hwinner) (rankedMatches_ids _)

theorem scanChunks_nearest
    {scan : List (Candidate I V M) → ℕ → Except ScanFault (List (ExactVectorMatch I))}
    {chunks : List (List (Candidate I V M))} (hdistinct : ∀ chunk ∈ chunks, DistinctIds chunk)
    (hscan : ∀ chunk ∈ chunks,
      scan chunk (min limit chunk.length) = .ok (nearestMatches d' chunk limit)) :
    scanChunks scan limit chunks = .ok (chunks.flatMap (top (candidateKey d') limit)) := by
  induction chunks with
  | nil => rfl
  | cons chunk chunks ih =>
    obtain ⟨hchunk, hchunks⟩ := List.forall_mem_cons.mp hdistinct
    obtain ⟨hfirst, hrest⟩ := List.forall_mem_cons.mp hscan
    rw [scanChunks, hfirst]
    simp only [bind, Except.bind, winnersOf_nearest hchunk, ih hchunks hrest, List.flatMap_cons]

theorem scanChunks_ranks
    {scan : List (Candidate I V M) → ℕ → Except ScanFault (List (ExactVectorMatch I))}
    {chunks : List (List (Candidate I V M))} (hdistinct : ∀ chunk ∈ chunks, DistinctIds chunk)
    (hscan : ∀ chunk ∈ chunks,
      ∃ found, scan chunk (min limit chunk.length) = .ok found ∧ Ranks chunk limit found) :
    ∃ winners, scanChunks scan limit chunks = .ok winners ∧ winners.Subperm chunks.flatten ∧
      winners.length = ((chunks.map List.length).map (min limit)).sum := by
  induction chunks with
  | nil => exact ⟨[], rfl, List.Subperm.refl _, rfl⟩
  | cons chunk chunks ih =>
    obtain ⟨hchunk, hchunks⟩ := List.forall_mem_cons.mp hdistinct
    obtain ⟨⟨found, hfound, hranks⟩, hrest⟩ := List.forall_mem_cons.mp hscan
    obtain ⟨first, hfirst, hfirstSub, hfirstLength⟩ := winnersOf_ranks hchunk hranks
    obtain ⟨more, hmore, hmoreSub, hmoreLength⟩ := ih hchunks hrest
    refine ⟨first ++ more, ?_, subperm_append hfirstSub hmoreSub, ?_⟩
    · rw [scanChunks, hfound]
      simp only [bind, Except.bind, hfirst, hmore]
    · rw [List.length_append, hfirstLength, hmoreLength, List.map_cons, List.map_cons,
        List.sum_cons]

omit [LinearOrder I] in
theorem maxPerChunk_pos (idBytes : I → ℕ) (dimensions : ℕ) (eligible : List (Candidate I V M)) :
    0 < maxPerChunk idBytes dimensions eligible := by
  rw [maxPerChunk]
  split
  · decide
  · exact Nat.lt_of_lt_of_le Nat.zero_lt_one (Nat.le_max_left _ _)

omit [LinearOrder I] in
theorem FitsAlone.sub (h : FitsAlone idBytes dimensions eligible) {part : List (Candidate I V M)}
    (hpart : ∀ candidate ∈ part, candidate ∈ eligible) : FitsAlone idBytes dimensions part :=
  fun candidate hcandidate => h candidate (hpart candidate hcandidate)

omit [LinearOrder I] in
theorem FitsAlone.budget (h : FitsAlone idBytes dimensions eligible) (hdimensions : 0 < dimensions)
    (hnonempty : eligible ≠ []) : 8 * dimensions < nativeBatchByteBudget := by
  have hone := h (eligible.head hnonempty) (List.head_mem hnonempty)
  omega

structure Chunkable (idBytes : I → ℕ) (dimensions depth : ℕ) (eligible : List (Candidate I V M)) :
    Prop where
  dimensions_pos : 0 < dimensions
  depth_lt : eligible.length < depth
  distinct : DistinctIds eligible
  alone : FitsAlone idBytes dimensions eligible
  nonempty : eligible ≠ []

variable {depth : ℕ}

omit [LinearOrder I] in
theorem Chunkable.chunk (h : Chunkable idBytes dimensions (depth + 1) eligible)
    (hfits : fits idBytes dimensions eligible = false) {chunk : List (Candidate I V M)}
    (hchunk : chunk ∈ chunks (maxPerChunk idBytes dimensions eligible) eligible) :
    chunk.Sublist eligible ∧ Chunkable idBytes dimensions depth chunk := by
  obtain ⟨hsublist, hshort⟩ := sublist_of_mem_chunks hchunk
  have hsize := maxPerChunk_lt h.alone (h.alone.budget h.dimensions_pos h.nonempty) hfits
  have hdepth := h.depth_lt
  exact ⟨hsublist, h.dimensions_pos, by omega, h.distinct.sublist (hsublist.map _),
    h.alone.sub (fun _ hmem => hsublist.mem hmem), ne_nil_of_mem_chunks hchunk⟩

omit [LinearOrder I] in
theorem Chunkable.winners (h : Chunkable idBytes dimensions (depth + 1) eligible)
    {winners : List (Candidate I V M)} (hsub : winners.Subperm eligible)
    (hfewer : winners.length < eligible.length) (hnonempty : winners ≠ []) :
    Chunkable idBytes dimensions depth winners := by
  have hdepth := h.depth_lt
  exact ⟨h.dimensions_pos, by omega, nodup_of_subperm hsub h.distinct,
    h.alone.sub (fun _ hmem => hsub.subset hmem), hnonempty⟩

theorem nativeTopKChunked_fits (hmeasures : Measures (kernelDistance kernel) d' eligible)
    (h : Chunkable idBytes dimensions (depth + 1) eligible) (hlimit : 0 < limit)
    (hfits : fits idBytes dimensions eligible = true) :
    nativeTopKChunked distance idBytes (exactPackedVectorTopKBatch kernel idBytes) dimensions
      elementType (depth + 1) eligible limit = .ok (nearestMatches d' eligible limit) := by
  have hlength := List.length_pos_of_ne_nil h.nonempty
  rw [nativeTopKChunked, if_pos hfits, nativeExactVectorTopK_eq hmeasures h.nonempty h.distinct
    h.dimensions_pos (lt_min hlimit hlength) hfits, nearestMatches_min]

theorem nativeTopKChunked_ranks (hmeasures : Measures (kernelDistance kernel) d' eligible)
    (hplain : Measures distance d eligible) (h : Chunkable idBytes dimensions depth eligible)
    (hlimit : 0 < limit) :
    ∃ found, nativeTopKChunked distance idBytes (exactPackedVectorTopKBatch kernel idBytes)
      dimensions elementType depth eligible limit = .ok found ∧ Ranks eligible limit found := by
  induction depth generalizing eligible limit with
  | zero => exact absurd h.depth_lt (Nat.not_lt_zero _)
  | succ depth ih =>
    cases hfits : fits idBytes dimensions eligible with
    | true =>
      exact ⟨_, nativeTopKChunked_fits hmeasures h hlimit hfits,
        nearestMatches_ranks d' eligible limit⟩
    | false =>
      rw [nativeTopKChunked, hfits, if_neg Bool.false_ne_true]
      have hflat := chunks_flatten (maxPerChunk_pos idBytes dimensions eligible) eligible
      have hparts : ∀ chunk ∈ chunks (maxPerChunk idBytes dimensions eligible) eligible,
          ∃ found, nativeTopKChunked distance idBytes (exactPackedVectorTopKBatch kernel idBytes)
            dimensions elementType depth chunk (min limit chunk.length) = .ok found ∧
            Ranks chunk limit found := by
        intro chunk hchunk
        obtain ⟨hsublist, hpart⟩ := h.chunk hfits hchunk
        obtain ⟨found, hfound, hranks⟩ := ih (hmeasures.sub fun _ hmem => hsublist.mem hmem)
          (hplain.sub fun _ hmem => hsublist.mem hmem) hpart
          (lt_min hlimit (List.length_pos_of_ne_nil hpart.nonempty))
        exact ⟨found, hfound, hranks.of_min⟩
      obtain ⟨winners, hwinners, hsub, hlength⟩ :=
        scanChunks_ranks (fun chunk hchunk => (h.chunk hfits hchunk).2.distinct) hparts
      rw [hflat] at hsub
      have hcount : min limit winners.length = min limit eligible.length := by
        rw [hlength, min_sum, ← List.length_flatten, hflat]
      simp only [hwinners, bind, Except.bind]
      split
      · refine ⟨_, exactDistanceSort_eq (hplain.sub fun _ hmem => hsub.subset hmem) limit, ?_⟩
        exact (nearestMatches_ranks d winners limit).of_subperm hsub hcount
      · rename_i hfewer
        have heligible := List.length_pos_of_ne_nil h.nonempty
        have hnonempty : winners ≠ [] := by
          rw [← List.length_pos_iff]
          omega
        obtain ⟨found, hfound, hranks⟩ := ih (hmeasures.sub fun _ hmem => hsub.subset hmem)
          (hplain.sub fun _ hmem => hsub.subset hmem)
          (h.winners hsub (by omega) hnonempty) hlimit
        exact ⟨found, hfound, hranks.of_subperm hsub hcount⟩

theorem nativeTopKChunked_wide (hmeasures : Measures (kernelDistance kernel) d' eligible)
    (hplain : Measures distance d eligible) (h : Chunkable idBytes dimensions depth eligible)
    (hlimit : 0 < limit) (hfits : fits idBytes dimensions eligible = false)
    (hwide : maxPerChunk idBytes dimensions eligible ≤ limit) :
    nativeTopKChunked distance idBytes (exactPackedVectorTopKBatch kernel idBytes) dimensions
      elementType depth eligible limit = .ok (nearestMatches d eligible limit) := by
  cases depth with
  | zero => exact absurd h.depth_lt (Nat.not_lt_zero _)
  | succ depth =>
    rw [nativeTopKChunked, hfits, if_neg Bool.false_ne_true]
    have hflat := chunks_flatten (maxPerChunk_pos idBytes dimensions eligible) eligible
    have hparts : ∀ chunk ∈ chunks (maxPerChunk idBytes dimensions eligible) eligible,
        ∃ found, nativeTopKChunked distance idBytes (exactPackedVectorTopKBatch kernel idBytes)
          dimensions elementType depth chunk (min limit chunk.length) = .ok found ∧
          Ranks chunk limit found := by
      intro chunk hchunk
      obtain ⟨hsublist, hpart⟩ := h.chunk hfits hchunk
      obtain ⟨found, hfound, hranks⟩ := nativeTopKChunked_ranks
        (hmeasures.sub fun _ hmem => hsublist.mem hmem)
        (hplain.sub fun _ hmem => hsublist.mem hmem) hpart
        (lt_min hlimit (List.length_pos_of_ne_nil hpart.nonempty))
      exact ⟨found, hfound, hranks.of_min⟩
    obtain ⟨winners, hwinners, hsub, hlength⟩ :=
      scanChunks_ranks (fun chunk hchunk => (h.chunk hfits hchunk).2.distinct) hparts
    have hsizes : ((chunks (maxPerChunk idBytes dimensions eligible) eligible).map
        List.length).map (min limit) =
        (chunks (maxPerChunk idBytes dimensions eligible) eligible).map List.length := by
      rw [List.map_map]
      refine List.map_congr_left (fun chunk hchunk => ?_)
      exact min_eq_right ((sublist_of_mem_chunks hchunk).2.trans hwide)
    rw [hsizes, ← List.length_flatten, hflat] at hlength
    rw [hflat] at hsub
    have hperm := hsub.perm_of_length_le hlength.ge
    simp only [hwinners, bind, Except.bind]
    rw [if_pos hlength.ge, exactDistanceSort_eq (hplain.sub fun _ hmem => hsub.subset hmem),
      nearestMatches, top_perm limit hperm ((hperm.map _).nodup_iff.mpr h.distinct.keys)]
    rfl

theorem nativeTopKChunked_narrow (hmeasures : Measures (kernelDistance kernel) d' eligible)
    (h : Chunkable idBytes dimensions depth eligible) (hlimit : 0 < limit)
    (hnarrows : Narrows idBytes dimensions eligible limit) :
    nativeTopKChunked distance idBytes (exactPackedVectorTopKBatch kernel idBytes) dimensions
      elementType depth eligible limit = .ok (nearestMatches d' eligible limit) := by
  induction depth generalizing eligible limit with
  | zero => exact absurd h.depth_lt (Nat.not_lt_zero _)
  | succ depth ih =>
    cases hfits : fits idBytes dimensions eligible with
    | true => exact nativeTopKChunked_fits hmeasures h hlimit hfits
    | false =>
      have hflat := chunks_flatten (maxPerChunk_pos idBytes dimensions eligible) eligible
      have hscan : scanChunks (nativeTopKChunked distance idBytes
          (exactPackedVectorTopKBatch kernel idBytes) dimensions elementType depth) limit
          (chunks (maxPerChunk idBytes dimensions eligible) eligible) =
          .ok ((chunks (maxPerChunk idBytes dimensions eligible) eligible).flatMap
            (top (candidateKey d') limit)) := by
        refine scanChunks_nearest (fun chunk hchunk => (h.chunk hfits hchunk).2.distinct)
          (fun chunk hchunk => ?_)
        obtain ⟨hsublist, hpart⟩ := h.chunk hfits hchunk
        rw [ih (hmeasures.sub fun _ hmem => hsublist.mem hmem) hpart
          (lt_min hlimit (List.length_pos_of_ne_nil hpart.nonempty))
          (hnarrows.sub hsublist.subperm (min_le_left _ _)), nearestMatches_min]
      set winners := (chunks (maxPerChunk idBytes dimensions eligible) eligible).flatMap
        (top (candidateKey d') limit) with hwinners
      have hsub : winners.Subperm eligible := by
        have hsubperm : winners.Subperm
            (chunks (maxPerChunk idBytes dimensions eligible) eligible).flatten :=
          flatMap_top_subperm limit _
        rwa [hflat] at hsubperm
      have hnearest : nearestMatches d' winners limit = nearestMatches d' eligible limit := by
        have hkeys : ((chunks (maxPerChunk idBytes dimensions eligible) eligible).flatten.map
            (candidateKey d')).Nodup := by
          rw [hflat]
          exact h.distinct.keys
        rw [nearestMatches, nearestMatches, hwinners, top_flatMap limit hkeys, hflat]
      have hfewer : winners.length < eligible.length := by
        have hsize := maxPerChunk_lt h.alone (h.alone.budget h.dimensions_pos h.nonempty) hfits
        obtain ⟨chunk, hchunk, hfull⟩ := exists_full_chunk
          (maxPerChunk_pos idBytes dimensions eligible) hsize
        have hdrops := hnarrows eligible (List.Subperm.refl _) hfits
        rw [hwinners, List.length_flatMap]
        conv_rhs => rw [← hflat, List.length_flatten]
        refine List.sum_lt_sum _ _ (fun part _ => (length_top _ _).trans_le (min_le_right _ _))
          ⟨chunk, hchunk, ?_⟩
        rw [length_top]
        omega
      have hnonempty : winners ≠ [] := by
        intro hnil
        have hlengths := congrArg List.length hnearest
        have heligible := List.length_pos_of_ne_nil h.nonempty
        simp only [nearestMatches, rankedMatches, List.length_mapIdx, List.length_map, length_top,
          hnil, List.length_nil] at hlengths
        omega
      rw [nativeTopKChunked, hfits, if_neg Bool.false_ne_true]
      simp only [hscan, bind, Except.bind]
      rw [if_neg hfewer.not_ge, ih (hmeasures.sub fun _ hmem => hsub.subset hmem)
        (h.winners hsub hfewer hnonempty) hlimit (hnarrows.sub hsub (le_refl limit)), hnearest]

theorem scanChunks_error
    {scan : List (Candidate I V M) → ℕ → Except ScanFault (List (ExactVectorMatch I))}
    {chunks : List (List (Candidate I V M))} {chunk : List (Candidate I V M)}
    (hmem : chunk ∈ chunks)
    (hscan : ∀ found, scan chunk (min limit chunk.length) ≠ .ok found)
    (winners : List (Candidate I V M)) : scanChunks scan limit chunks ≠ .ok winners := by
  induction chunks generalizing winners with
  | nil => cases hmem
  | cons first chunks ih =>
    intro h
    rw [scanChunks] at h
    obtain ⟨chunkMatches, hmatches, h⟩ := bind_eq_ok h
    obtain ⟨firstWinners, -, h⟩ := bind_eq_ok h
    obtain ⟨moreWinners, hmore, -⟩ := bind_eq_ok h
    rcases List.mem_cons.mp hmem with rfl | hmem
    · exact hscan chunkMatches hmatches
    · exact ih hmem moreWinners hmore

omit [LinearOrder I] in
theorem fits_eq_false_of_over {candidate : Candidate I V M} (hmem : candidate ∈ eligible)
    (hover : nativeBatchByteBudget < 16 * dimensions + idBytes candidate.projectionRecordId) :
    fits idBytes dimensions eligible = false := by
  refine decide_eq_false (fun hwithin => ?_)
  have hids : idBytes candidate.projectionRecordId ≤ totalIdBytes idBytes eligible :=
    List.single_le_sum (fun _ _ => Nat.zero_le _) _ (List.mem_map_of_mem hmem)
  have hlength : 1 * dimensions ≤ eligible.length * dimensions :=
    Nat.mul_le_mul_right _ (List.length_pos_of_mem hmem)
  have hbytes := hwithin.1
  rw [totalBytes] at hbytes
  omega

theorem nativeTopKChunked_error {port : NativeExactVectorTopKPort I V} {candidate : Candidate I V M}
    (hmem : candidate ∈ eligible)
    (hblocks : ∀ part k found, candidate ∈ part → fits idBytes dimensions part = true →
      nativeExactVectorTopK port (packedRequest dimensions elementType part k) ≠ .ok found)
    (depth : ℕ) (found : List (ExactVectorMatch I)) :
    nativeTopKChunked distance idBytes port dimensions elementType depth eligible limit ≠
      .ok found := by
  induction depth generalizing eligible limit found with
  | zero => exact fun h => nomatch h
  | succ depth ih =>
    intro h
    rw [nativeTopKChunked] at h
    split at h
    · rename_i hfits
      exact hblocks eligible _ found hmem hfits h
    · obtain ⟨winners, hwinners, -⟩ := bind_eq_ok h
      have hflat := chunks_flatten (maxPerChunk_pos idBytes dimensions eligible) eligible
      rw [← hflat] at hmem
      obtain ⟨chunk, hchunk, hin⟩ := List.mem_flatten.mp hmem
      exact scanChunks_error hchunk (fun found => ih hin found) winners hwinners

end Chunked

section Scan

variable {candidates : List (Candidate I V M)} {options : ExactVectorScanOptions M} {depth : ℕ}

theorem exactVectorScan_plain (hlimit : options.limit ≠ some 0)
    (hdimensions : options.dimensions ≠ 0)
    (hdistinct : DistinctIds (eligibleOf candidates options))
    (hmeasures : Measures distance d (eligibleOf candidates options)) (depth : ℕ) :
    exactVectorScan distance idBytes none depth candidates options =
      .ok (nearestMatches d (eligibleOf candidates options)
        (options.limit.getD (eligibleOf candidates options).length)) := by
  rw [exactVectorScan, if_neg hlimit, if_neg hdimensions]
  dsimp only
  split
  · rename_i hempty
    rw [List.isEmpty_iff.mp hempty, nearestMatches, top, List.take_of_length_le (Nat.zero_le _)]
    rfl
  · have hids : ((eligibleOf candidates options).map (·.projectionRecordId)).Nodup := hdistinct
    rw [if_neg (not_not_intro hids)]
    exact exactDistanceSort_eq hmeasures _

theorem exactVectorScan_chunked (hlimit : options.limit ≠ some 0)
    (hdimensions : options.dimensions ≠ 0) (hdistinct : DistinctIds (eligibleOf candidates options))
    (hnonempty : eligibleOf candidates options ≠ []) (port : NativeExactVectorTopKPort I V) :
    exactVectorScan distance idBytes (some port) depth candidates options =
        nativeTopKChunked distance idBytes port options.dimensions options.elementType depth
          (eligibleOf candidates options) (min (options.limit.getD
            (eligibleOf candidates options).length) (eligibleOf candidates options).length) ∧
      0 < min (options.limit.getD (eligibleOf candidates options).length)
        (eligibleOf candidates options).length := by
  have hlength := List.length_pos_of_ne_nil hnonempty
  have hempty : (eligibleOf candidates options).isEmpty = false :=
    List.isEmpty_eq_false_iff.mpr hnonempty
  refine ⟨?_, lt_min ?_ hlength⟩
  · have hids : ((eligibleOf candidates options).map (·.projectionRecordId)).Nodup := hdistinct
    rw [exactVectorScan, if_neg hlimit, if_neg hdimensions]
    dsimp only
    rw [if_neg (by rw [hempty]; exact Bool.false_ne_true), if_neg (not_not_intro hids)]
  · cases hcase : options.limit with
    | none => exact hlength
    | some limit =>
      refine Nat.pos_of_ne_zero (fun hzero => hlimit ?_)
      rw [hcase, show limit = 0 from hzero]

theorem exactVectorScan_native (distance : V → Except ScanFault D) (kernel : ExactVectorKernel V D')
    (idBytes : I → ℕ) (candidates : List (Candidate I V M)) (options : ExactVectorScanOptions M) :
    (options.limit ≠ some 0 → options.dimensions ≠ 0 →
      DistinctIds (eligibleOf candidates options) →
      FitsAlone idBytes options.dimensions (eligibleOf candidates options) →
      ∀ (d : V → D) (d' : V → D'), Measures distance d (eligibleOf candidates options) →
        Measures (kernelDistance kernel) d' (eligibleOf candidates options) →
        ∀ depth, (eligibleOf candidates options).length < depth →
          ∃ found, exactVectorScan distance idBytes
            (some (exactPackedVectorTopKBatch kernel idBytes))
              depth candidates options = .ok found ∧
            Ranks (eligibleOf candidates options)
              (options.limit.getD (eligibleOf candidates options).length) found ∧
            (fits idBytes options.dimensions (eligibleOf candidates options) = true ∨
                Narrows idBytes options.dimensions (eligibleOf candidates options)
                  (options.limit.getD (eligibleOf candidates options).length) →
              found = nearestMatches d' (eligibleOf candidates options)
                (options.limit.getD (eligibleOf candidates options).length)) ∧
            (fits idBytes options.dimensions (eligibleOf candidates options) = false →
                maxPerChunk idBytes options.dimensions (eligibleOf candidates options) ≤
                  options.limit.getD (eligibleOf candidates options).length →
              exactVectorScan distance idBytes none depth candidates options = .ok found)) ∧
      ((∃ candidate ∈ eligibleOf candidates options,
          nativeBatchByteBudget < 16 * options.dimensions + idBytes candidate.projectionRecordId ∨
            ∀ measured, kernelDistance kernel candidate.vector ≠ .ok measured) →
        ∀ depth found, exactVectorScan distance idBytes
          (some (exactPackedVectorTopKBatch kernel idBytes)) depth candidates options ≠
            .ok found) := by
  constructor
  · intro hlimit hdimensions hdistinct halone d d' hplain hmeasures depth hdepth
    rcases eq_or_ne (eligibleOf candidates options) [] with hnil | hnonempty
    · have hscan : ∀ port, exactVectorScan distance idBytes port depth candidates options =
          .ok [] := by
        intro port
        rw [exactVectorScan, if_neg hlimit, if_neg hdimensions, hnil]
        rfl
      have hnearest : nearestMatches d' (eligibleOf candidates options)
          (options.limit.getD (eligibleOf candidates options).length) = [] := by
        rw [hnil, nearestMatches, top, List.take_of_length_le (Nat.zero_le _)]
        rfl
      refine ⟨[], hscan _, ?_, fun _ => hnearest.symm, fun _ _ => hscan none⟩
      exact ⟨[], List.nil_subperm, by rw [hnil, List.length_nil, Nat.min_zero], rfl⟩
    · obtain ⟨hscan, hpositive⟩ := @exactVectorScan_chunked _ _ _ _ _ _ distance idBytes _ _ depth
        hlimit hdimensions hdistinct hnonempty (exactPackedVectorTopKBatch kernel idBytes)
      have hchunkable :
          Chunkable idBytes options.dimensions depth (eligibleOf candidates options) :=
        ⟨Nat.pos_of_ne_zero hdimensions, hdepth, hdistinct, halone, hnonempty⟩
      obtain ⟨found, hfound, hranks⟩ : ∃ found, nativeTopKChunked distance idBytes
          (exactPackedVectorTopKBatch kernel idBytes) options.dimensions options.elementType depth
          (eligibleOf candidates options) _ = .ok found ∧ Ranks _ _ found :=
        nativeTopKChunked_ranks hmeasures hplain hchunkable hpositive
      refine ⟨found, hscan.trans hfound, hranks.of_min, fun hexact => ?_, fun hfits hwide => ?_⟩
      · refine Except.ok.inj (hfound.symm.trans ?_)
        rw [← nearestMatches_min]
        rcases hexact with hfits | hnarrows
        · obtain ⟨depth, rfl⟩ :=
            Nat.exists_eq_succ_of_ne_zero (Nat.ne_of_gt (hdepth.trans_le' (Nat.zero_le _)))
          exact nativeTopKChunked_fits hmeasures hchunkable hpositive hfits
        · exact nativeTopKChunked_narrow hmeasures hchunkable hpositive
            (hnarrows.sub (List.Subperm.refl _) (min_le_left _ _))
      · have hsize :=
          maxPerChunk_lt halone (halone.budget hchunkable.dimensions_pos hnonempty) hfits
        rw [exactVectorScan_plain hlimit hdimensions hdistinct hplain, ← nearestMatches_min,
          ← hfound]
        exact (nativeTopKChunked_wide hmeasures hplain hchunkable hpositive hfits
          (le_min hwide hsize.le)).symm
  · rintro ⟨candidate, hmem, hblocked⟩ depth found h
    rw [exactVectorScan] at h
    obtain ⟨hlimit, h⟩ := ite_error_eq_ok h
    obtain ⟨hdimensions, h⟩ := ite_error_eq_ok h
    dsimp only at h
    split at h
    · rename_i hempty
      rw [List.isEmpty_iff.mp hempty] at hmem
      cases hmem
    · obtain ⟨-, h⟩ := ite_error_eq_ok h
      refine nativeTopKChunked_error hmem (fun part k other hpart hfits => ?_) depth found h
      rcases hblocked with hover | hunmeasured
      · rw [fits_eq_false_of_over hpart hover] at hfits
        cases hfits
      · exact nativeExactVectorTopK_error hpart hunmeasured other

def fiveCandidates : List (ExactVectorCandidate ℕ ℕ Unit) :=
  [⟨1, "profile", "binding", 7, ()⟩, ⟨2, "profile", "binding", 9, ()⟩,
    ⟨3, "profile", "binding", 7, ()⟩, ⟨4, "profile", "binding", 1, ()⟩,
    ⟨5, "profile", "binding", 8, ()⟩]

def wideOptions : ExactVectorScanOptions Unit :=
  ⟨"profile", "binding", 100000, .float32Le, fun _ => true, some 2⟩

def reversedKernel : ExactVectorKernel ℕ ℕ := ⟨true, fun _ => true, fun v => .ok (10 - v)⟩

theorem maxPerChunk_wide {part : List (ExactVectorCandidate ℕ ℕ Unit)} (hnonempty : part ≠ []) :
    maxPerChunk (fun _ => 4) 100000 part = 4 := by
  have hlength := List.length_pos_of_ne_nil hnonempty
  have haverage : averageIdBytes (fun _ => 4) part = 4 := by
    have htotal : totalIdBytes (fun _ => 4) part = part.length * 4 := by
      simp [totalIdBytes]
    have hcount : (part.length : ℚ) ≠ 0 := Nat.cast_ne_zero.mpr (Nat.ne_of_gt hlength)
    rw [averageIdBytes, if_neg (Nat.ne_of_gt hlength), htotal, Nat.cast_mul,
      mul_div_cancel_left₀ _ hcount]
    decide +kernel
  have hbytes : bytesPerCandidate (fun _ => 4) 100000 part = 800004 := by
    rw [bytesPerCandidate, haverage]
    decide +kernel
  have hchunk : maxPerChunkByBytes (fun _ => 4) 100000 part = 4 := by
    rw [maxPerChunkByBytes, hbytes]
    decide +kernel
  rw [maxPerChunk, hbytes, hchunk]
  decide +kernel

theorem exactVectorScan_native_five :
    exactVectorScan (fun v : ℕ => .ok v) (fun _ => 4)
      (some (exactPackedVectorTopKBatch reversedKernel (fun _ => 4))) 6 fiveCandidates wideOptions =
      .ok [⟨2, 1⟩, ⟨5, 2⟩] := by
  have heligible : eligibleOf fiveCandidates wideOptions = fiveCandidates := by
    simp [eligibleOf, fiveCandidates, wideOptions]
  have hbytes : 16 * 100000 + 4 ≤ nativeBatchByteBudget := by decide
  have hnarrows : Narrows (fun _ => 4) 100000 fiveCandidates 2 := by
    intro part _ hfits
    have hnonempty : part ≠ [] := by
      rintro rfl
      exact absurd hfits (by decide)
    rw [maxPerChunk_wide hnonempty]
    decide
  obtain ⟨found, hfound, -, hexact, -⟩ :=
    (exactVectorScan_native (fun v : ℕ => .ok v) reversedKernel
    (fun _ => 4) fiveCandidates wideOptions).1 (by decide) (by decide)
    (by rw [heligible]; unfold DistinctIds; decide) (fun _ _ => hbytes) id (fun v => 10 - v)
    (fun _ _ => rfl) (fun _ _ => rfl) 6 (by rw [heligible]; decide)
  rw [hfound, hexact (Or.inr (by rw [heligible]; exact hnarrows)), heligible]
  decide

end Scan

end Semantic

end Engine
