import Urdira.Lib.MachineTrace
import Urdira.StructuralStore.Container

open ByteOrder MerkleBucket ByteLayout MachineTrace

namespace StructuralStore

namespace ContainerSafety

def overflow : Fault := .panic "attempt to compute with overflow"

def outOfBounds : Fault := .panic "range out of bounds for slice"

section Steps

variable (overflowChecks : Bool) (path : String) (mmap : Bytes)

def sectionRange (row : Bytes) : Except Fault (SectionId × ℕ × ℕ) :=
  let idRaw := u16le row 0
  match SectionId.fromU16 idRaw with
  | none => .error (.error s!"delta container {path} unknown section id {idRaw}")
  | some id =>
    let offset := u64le row 8
    let length := u64le row 16
    let stop := offset + length
    if 2 ^ 64 ≤ stop then .error (.error s!"delta container {path} section {idRaw} overflows")
    else if mmap.length < stop then
      let debugName := id.debugName
      .error (.error s!"delta container {path} section {debugName} out of bounds")
    else .ok (id, offset, stop)

def readTocRowSteps (tocOffset i : ℕ) : Traced Fault (SectionId × ℕ × ℕ) := do
  let before ← operation overflowChecks overflow (i * tocEntryStride)
  let start ← operation overflowChecks overflow (tocOffset + before)
  let next ← operation overflowChecks overflow (i + 1)
  let behind ← operation overflowChecks overflow (next * tocEntryStride)
  let stop ← operation overflowChecks overflow (tocOffset + behind)
  let row ← sliceOf mmap outOfBounds start stop
  lift (sectionRange path mmap row)

def tableOfContentsSteps (generation sectionCount tocOffset : ℕ) :
    Traced Fault OpenedContainer := do
  let tocLength ← operation overflowChecks overflow (sectionCount * tocEntryStride)
  let tocEnd ← operation overflowChecks overflow (tocOffset + tocLength)
  if mmap.length < tocEnd then throw (.error s!"delta container {path} truncated table of contents")
  else do
    record (.reserve sectionCount)
    let rows ← (List.range sectionCount).mapM (readTocRowSteps overflowChecks path mmap tocOffset)
    pure ⟨mmap, generation, AssocMap.insertAll [] rows⟩

def openContainerSteps : Traced Fault OpenedContainer := do
  if mmap.length < containerHeaderLen then
    throw (.error s!"delta container {path} shorter than its header")
  else
    let magic ← sliceOf mmap outOfBounds 0 4
    if magic ≠ containerMagic then throw (.error s!"delta container {path} bad magic")
    else
      let formatBytes ← sliceOf mmap outOfBounds 4 6
      let format := leValue formatBytes
      if format ≠ containerFormat then
        throw (.error s!"delta container {path} unsupported format {format}")
      else
        let generation ← sliceOf mmap outOfBounds 8 16
        let sectionCount ← sliceOf mmap outOfBounds 16 24
        let tocOffset ← sliceOf mmap outOfBounds 24 32
        tableOfContentsSteps overflowChecks path mmap (leValue generation) (leValue sectionCount)
          (leValue tocOffset)

end Steps

section Safety

variable {overflowChecks : Bool} {path : String} {mmap : Bytes}

def Fine (size : ℕ) : Step → Prop
  | .arithmetic exact => exact < 2 ^ 64
  | .slice start stop length => start ≤ stop ∧ stop ≤ length
  | .reserve capacity => capacity * tocEntryStride ≤ size

def IsError (fault : Fault) : Prop := ∃ message, fault = .error message

theorem isError (message : String) : IsError (.error message) := ⟨message, rfl⟩

def InFile (mmap : Bytes) (range : ℕ × ℕ) : Prop := range.1 ≤ range.2 ∧ range.2 ≤ mmap.length

def HeaderAccepted (mmap : Bytes) : Prop :=
  containerHeaderLen ≤ mmap.length ∧ readAt mmap 0 4 = containerMagic ∧
    u16le mmap 4 = containerFormat

def tocEnd (mmap : Bytes) : ℕ := u64le mmap 24 + u64le mmap 16 * tocEntryStride

theorem sectionRange_inFile {row : Bytes} {range : SectionId × ℕ × ℕ}
    (h : sectionRange path mmap row = .ok range) :
    InFile mmap range.2 := by
  unfold sectionRange at h
  dsimp only at h
  split at h
  · cases h
  · split_ifs at h with hoverflow hbounds
    obtain rfl := Except.ok.inj h
    exact ⟨Nat.le_add_right _ _, Nat.not_lt.mp hbounds⟩

theorem sectionRange_isError {row : Bytes} {fault : Fault}
    (h : sectionRange path mmap row = .error fault) :
    IsError fault := by
  unfold sectionRange at h
  dsimp only at h
  split at h
  · exact ⟨_, (Except.error.inj h).symm⟩
  · split_ifs at h with hoverflow hbounds
    · exact ⟨_, (Except.error.inj h).symm⟩
    · exact ⟨_, (Except.error.inj h).symm⟩

theorem readTocRowSteps_safe {sectionCount tocOffset i : ℕ} (hi : i < sectionCount)
    (hfits : tocOffset + sectionCount * tocEntryStride < 2 ^ 64)
    (hinside : tocOffset + sectionCount * tocEntryStride ≤ mmap.length) :
    Safe (Fine mmap.length) IsError (readTocRowSteps overflowChecks path mmap tocOffset i)
      (fun row => InFile mmap row.2) := by
  have hstride : tocEntryStride = 32 := rfl
  rw [hstride] at hfits hinside
  have hbefore : i * tocEntryStride < 2 ^ 64 := by rw [hstride]; omega
  have hstart : tocOffset + i * tocEntryStride < 2 ^ 64 := by rw [hstride]; omega
  have hnext : i + 1 < 2 ^ 64 := by omega
  have hbehind : (i + 1) * tocEntryStride < 2 ^ 64 := by rw [hstride]; omega
  have hstop : tocOffset + (i + 1) * tocEntryStride < 2 ^ 64 := by rw [hstride]; omega
  have hle : tocOffset + i * tocEntryStride ≤ tocOffset + (i + 1) * tocEntryStride := by
    rw [hstride]; omega
  have hlen : tocOffset + (i + 1) * tocEntryStride ≤ mmap.length := by rw [hstride]; omega
  unfold readTocRowSteps
  refine (safe_operation hbefore hbefore).bind ?_
  rintro _ rfl
  refine (safe_operation hstart hstart).bind ?_
  rintro _ rfl
  refine (safe_operation hnext hnext).bind ?_
  rintro _ rfl
  refine (safe_operation hbehind hbehind).bind ?_
  rintro _ rfl
  refine (safe_operation hstop hstop).bind ?_
  rintro _ rfl
  refine (safe_sliceOf ⟨hle, hlen⟩ hle hlen).bind fun row _ => ?_
  exact safe_lift (fun _ => sectionRange_inFile) (fun _ => sectionRange_isError)

theorem tableOfContentsSteps_safe {generation sectionCount tocOffset : ℕ}
    (hfits : tocOffset + sectionCount * tocEntryStride < 2 ^ 64) :
    Safe (Fine mmap.length) IsError (tableOfContentsSteps overflowChecks path mmap generation
      sectionCount tocOffset)
      (fun container => ∀ row ∈ container.ranges, InFile mmap row.2) := by
  have hlength : sectionCount * tocEntryStride < 2 ^ 64 := by omega
  unfold tableOfContentsSteps
  refine (safe_operation hlength hlength).bind ?_
  rintro _ rfl
  refine (safe_operation hfits hfits).bind ?_
  rintro _ rfl
  split_ifs with htruncated
  · exact safe_throw (isError _)
  · have hinside : tocOffset + sectionCount * tocEntryStride ≤ mmap.length :=
      Nat.not_lt.mp htruncated
    have hcapacity : sectionCount * tocEntryStride ≤ mmap.length :=
      le_trans (Nat.le_add_left _ _) hinside
    refine (safe_record hcapacity).bind fun _ _ => ?_
    refine (safe_mapM fun i hi => readTocRowSteps_safe (List.mem_range.mp hi) hfits hinside).bind
      fun rows hrows => ?_
    exact safe_pure (AssocMap.values_insertAll (List.forall_mem_nil _) hrows)

variable (overflowChecks path) in
theorem openContainerSteps_safe (h : HeaderAccepted mmap → tocEnd mmap < 2 ^ 64) :
    Safe (Fine mmap.length) IsError (openContainerSteps overflowChecks path mmap)
      (fun container => ∀ row ∈ container.ranges, InFile mmap row.2) := by
  unfold openContainerSteps
  split_ifs with hshort
  · exact safe_throw (isError _)
  · have hheader : 64 ≤ mmap.length := Nat.not_lt.mp hshort
    have hslice : ∀ start stop, start ≤ stop → stop ≤ 64 → Safe (Fine mmap.length) IsError
        (sliceOf mmap outOfBounds start stop)
        (fun bytes => bytes = readAt mmap start (stop - start)) :=
      fun start stop hle hstop => safe_sliceOf ⟨hle, by omega⟩ hle (by omega)
    refine (hslice 0 4 (by decide) (by decide)).bind ?_
    rintro _ rfl
    split_ifs with hmagic
    · exact safe_throw (isError _)
    · refine (hslice 4 6 (by decide) (by decide)).bind ?_
      rintro _ rfl
      dsimp only
      split_ifs with hformat
      · exact safe_throw (isError _)
      · refine (hslice 8 16 (by decide) (by decide)).bind ?_
        rintro _ rfl
        refine (hslice 16 24 (by decide) (by decide)).bind ?_
        rintro _ rfl
        refine (hslice 24 32 (by decide) (by decide)).bind ?_
        rintro _ rfl
        exact tableOfContentsSteps_safe (h ⟨hheader, not_not.mp hmagic, not_not.mp hformat⟩)

theorem grows_readTocRowSteps (tocOffset i : ℕ) :
    Grows (readTocRowSteps overflowChecks path mmap tocOffset i) := by
  unfold readTocRowSteps
  refine (grows_operation _ _ _).bind fun _ => (grows_operation _ _ _).bind fun _ =>
    (grows_operation _ _ _).bind fun _ =>
    (grows_operation _ _ _).bind fun _ => (grows_operation _ _ _).bind fun _ =>
      (grows_sliceOf _ _ _ _).bind fun row => ?_
  exact grows_lift _

theorem unsafe_table {generation sectionCount tocOffset : ℕ}
    (h : 2 ^ 64 ≤ tocOffset + sectionCount * tocEntryStride) (trace : List Step) :
    ∃ step ∈ steps (tableOfContentsSteps overflowChecks path mmap generation sectionCount tocOffset)
      trace,
      ¬ Fine mmap.length step := by
  have hrows : ∀ tocEnd, Grows (if mmap.length < tocEnd then
      throw (.error s!"delta container {path} truncated table of contents")
    else do
      record (.reserve sectionCount)
      let rows ← (List.range sectionCount).mapM (readTocRowSteps overflowChecks path mmap tocOffset)
      pure ⟨mmap, generation, AssocMap.insertAll [] rows⟩ : Traced Fault OpenedContainer) :=
        fun _ =>
    (grows_throw _).ite ((grows_record _).bind fun _ =>
      (grows_mapM (grows_readTocRowSteps _) _).bind fun _ => grows_pure _)
  unfold tableOfContentsSteps
  rcases Nat.lt_or_ge (sectionCount * tocEntryStride) (2 ^ 64) with hlength | hlength
  · refine ⟨.arithmetic (tocOffset + sectionCount * tocEntryStride), ?_, Nat.not_lt.mpr h⟩
    rw [steps_bind_ok (operation_ok hlength trace)]
    exact mem_steps_bind hrows (mem_steps_operation _ _ _ _)
  · refine ⟨.arithmetic (sectionCount * tocEntryStride), ?_, Nat.not_lt.mpr hlength⟩
    exact mem_steps_bind (fun _ => (grows_operation _ _ _).bind hrows) (mem_steps_operation _ _ _ _)

variable (overflowChecks path) in
theorem openContainerSteps_accepted (h : HeaderAccepted mmap) : ∃ trace,
    steps (openContainerSteps overflowChecks path mmap) [] =
      steps (tableOfContentsSteps overflowChecks path mmap (u64le mmap 8) (u64le mmap 16)
        (u64le mmap 24)) trace := by
  obtain ⟨hheader, hmagic, hformat⟩ := h
  have hslice : ∀ start stop trace, start ≤ stop → stop ≤ 64 →
      sliceOf mmap outOfBounds start stop trace =
      .ok (readAt mmap start (stop - start)) (trace ++ [.slice start stop mmap.length]) :=
    fun start stop trace hle hstop => sliceOf_ok hle (le_trans hstop hheader) trace
  have hsupported : leValue (readAt mmap 4 (6 - 4)) = containerFormat := hformat
  unfold openContainerSteps
  rw [if_neg (Nat.not_lt.mpr hheader), steps_bind_ok (hslice 0 4 _ (by decide) (by decide)),
    if_neg (not_not.mpr hmagic),
    steps_bind_ok (hslice 4 6 _ (by decide) (by decide))]
  dsimp only
  rw [if_neg (not_not.mpr hsupported), steps_bind_ok (hslice 8 16 _ (by decide) (by decide)),
    steps_bind_ok (hslice 16 24 _ (by decide) (by decide)),
      steps_bind_ok (hslice 24 32 _ (by decide) (by decide))]
  exact ⟨_, rfl⟩

structure OpensSafely (overflowChecks : Bool) (path : String) (mmap : Bytes) : Prop where
  fine : ∀ step ∈ steps (openContainerSteps overflowChecks path mmap) [], Fine mmap.length step
  result : match outcome (openContainerSteps overflowChecks path mmap) with
    | .ok container => ∀ row ∈ container.ranges, InFile mmap row.2
    | .error fault => IsError fault

theorem opensSafely_of_fits (h : HeaderAccepted mmap → tocEnd mmap < 2 ^ 64) :
    OpensSafely overflowChecks path mmap := by
  have hsafe := openContainerSteps_safe overflowChecks path h [] (List.forall_mem_nil _)
  cases hrun : openContainerSteps overflowChecks path mmap [] with
  | ok container trace =>
    rw [hrun] at hsafe
    refine ⟨?_, ?_⟩
    · rw [steps, hrun]
      exact hsafe.1
    · rw [outcome, hrun]
      exact hsafe.2
  | error fault trace =>
    rw [hrun] at hsafe
    refine ⟨?_, ?_⟩
    · rw [steps, hrun]
      exact hsafe.1
    · rw [outcome, hrun]
      exact hsafe.2

theorem not_opensSafely (haccepted : HeaderAccepted mmap) (h : 2 ^ 64 ≤ tocEnd mmap) :
    ¬ OpensSafely overflowChecks path mmap := by
  intro hsafe
  obtain ⟨trace, htrace⟩ := openContainerSteps_accepted overflowChecks path haccepted
  obtain ⟨step, hmem, hnot⟩ := unsafe_table h trace
  exact hnot (hsafe.fine step (htrace ▸ hmem))

theorem readTocRowSteps_agrees {sectionCount tocOffset i : ℕ} (hi : i < sectionCount)
    (hfits : tocOffset + sectionCount * tocEntryStride < 2 ^ 64)
    (hinside : tocOffset + sectionCount * tocEntryStride ≤ mmap.length) :
    Agrees (readTocRowSteps overflowChecks path mmap tocOffset i)
      (readTocRow path mmap tocOffset i) := by
  have hstride : tocEntryStride = 32 := rfl
  rw [hstride] at hfits hinside
  have hlength : tocOffset + (i + 1) * tocEntryStride - (tocOffset + i * tocEntryStride) =
      tocEntryStride := by
    rw [hstride]
    omega
  have hrow : sectionRange path mmap (readAt mmap (tocOffset + i * tocEntryStride)
      (tocOffset + (i + 1) * tocEntryStride - (tocOffset + i * tocEntryStride))) =
        readTocRow path mmap tocOffset i := by
    rw [hlength]
    rfl
  unfold readTocRowSteps
  refine (agrees_operation (by rw [hstride]; omega)).bind_ok ?_
  refine (agrees_operation (by rw [hstride]; omega)).bind_ok ?_
  refine (agrees_operation (by omega)).bind_ok ?_
  refine (agrees_operation (by rw [hstride]; omega)).bind_ok ?_
  refine (agrees_operation (by rw [hstride]; omega)).bind_ok ?_
  refine (agrees_sliceOf (by rw [hstride]; omega) (by rw [hstride]; omega)).bind_ok ?_
  rw [hrow]
  exact agrees_lift _

theorem openContainerSteps_agrees (h : HeaderAccepted mmap → tocEnd mmap < 2 ^ 64) :
    outcome (openContainerSteps overflowChecks path mmap) = openContainer path mmap := by
  refine Agrees.outcome ?_
  unfold openContainerSteps openContainer
  refine Agrees.ite (fun _ => agrees_throw _) fun hshort => ?_
  have hheader : 64 ≤ mmap.length := Nat.not_lt.mp hshort
  refine (agrees_sliceOf (by decide) (by omega)).bind_ok ?_
  refine Agrees.ite (fun _ => agrees_throw _) fun hmagic => ?_
  refine (agrees_sliceOf (by decide) (by omega)).bind_ok ?_
  refine Agrees.ite (fun _ => agrees_throw _) fun hformat => ?_
  refine (agrees_sliceOf (by decide) (by omega)).bind_ok ?_
  refine (agrees_sliceOf (by decide) (by omega)).bind_ok ?_
  refine (agrees_sliceOf (by decide) (by omega)).bind_ok ?_
  have hfits : u64le mmap 24 + u64le mmap 16 * tocEntryStride < 2 ^ 64 :=
    h ⟨hheader, not_not.mp hmagic, not_not.mp hformat⟩
  have hlength : u64le mmap 16 * tocEntryStride < 2 ^ 64 :=
    lt_of_le_of_lt (Nat.le_add_left _ _) hfits
  unfold tableOfContentsSteps
  refine (agrees_operation hlength).bind_ok ?_
  refine (agrees_operation hfits).bind_ok ?_
  dsimp only
  rw [Nat.mod_eq_of_lt hfits]
  refine Agrees.ite (fun _ => agrees_throw _) fun htruncated => ?_
  refine (agrees_record _).bind_ok ?_
  refine Agrees.bind (agrees_mapM fun i hi => ?_) fun rows _ => agrees_pure _
  exact readTocRowSteps_agrees (List.mem_range.mp hi) hfits (Nat.not_lt.mp htruncated)

theorem openContainer_safe_iff (overflowChecks : Bool) (path : String) (mmap : Bytes) :
    OpensSafely overflowChecks path mmap ↔ (HeaderAccepted mmap → tocEnd mmap < 2 ^ 64) := by
  constructor
  · intro hsafe haccepted
    by_contra hge
    exact not_opensSafely haccepted (Nat.not_lt.mp hge) hsafe
  · exact opensSafely_of_fits

def wrappingHeader : Bytes :=
  containerMagic ++ leBytes 2 1 ++ leBytes 2 0 ++ leBytes 8 1 ++ leBytes 8 (2 ^ 61) ++
    leBytes 8 0 ++ zeros 32

theorem wrapping_table_of_contents_unsafe :
    ¬ OpensSafely true "delta-1.seg" wrappingHeader ∧
      ¬ OpensSafely false "delta-1.seg" wrappingHeader := by
  have haccepted : HeaderAccepted wrappingHeader :=
    ⟨by decide +kernel, by decide +kernel, by decide +kernel⟩
  have hend : 2 ^ 64 ≤ tocEnd wrappingHeader := by decide +kernel
  exact ⟨not_opensSafely haccepted hend, not_opensSafely haccepted hend⟩

end Safety

end ContainerSafety

end StructuralStore
