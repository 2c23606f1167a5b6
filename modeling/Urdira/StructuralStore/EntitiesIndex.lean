import Urdira.StructuralStore.CompactAnswers

open ByteOrder KeyedSet MerkleBucket BinarySearch

namespace StructuralStore

open IdentityCodec

theorem isEntitiesIndexRow_transfer {d d' : Dictionaries} (hd : d.kinds <+: d'.kinds)
    (category : Category) {kindId : ℕ} (hkind : kindId < d.kinds.length) :
    isEntitiesIndexRow category kindId (inferredTypeKindId d') =
      isEntitiesIndexRow category kindId (inferredTypeKindId d) := by
  obtain ⟨more, hmore⟩ := hd
  unfold isEntitiesIndexRow inferredTypeKindId
  rw [← hmore, List.findIdx?_append]
  cases hfound :
    d.kinds.findIdx? (fun kind => decide (kind = utf8 "jsts:entity_inferred_type")) with
  | some i => rfl
  | none =>
    congr 2
    cases hmore' : more.findIdx? (fun kind => decide (kind = utf8 "jsts:entity_inferred_type")) with
    | none => rfl
    | some j =>
      have hne : kindId ≠ j + d.kinds.length := by omega
      simp [hne]

def storedStart (orig : Digest32 → Bytes) (row : RecordFields) : ℕ :=
  (entityIdentityNameStart (orig row.recordId)).getD row.spanStartByte

def entitiesIndexOf (orig : Digest32 → Bytes) (dicts : Dictionaries) (rows : List StoredRow) :
    List (StartKey ×ₗ ℕ) :=
  indexOf (fun p =>
    if isEntitiesIndexRow p.1.category p.1.kindId (inferredTypeKindId dicts) then
      some (toLex (toLex (p.1.ownerArtifact, storedStart orig p.1.toRecordFields), p.2))
    else none) rows

theorem entitiesIndexOf_congr {orig orig' : Digest32 → Bytes} {d d' : Dictionaries}
    {rows : List StoredRow} (hd : d.kinds <+: d'.kinds)
    (hkinds : ∀ row ∈ rows, row.kindId < d.kinds.length)
    (horig : ∀ row ∈ rows, orig' row.recordId = orig row.recordId) :
    entitiesIndexOf orig' d' rows = entitiesIndexOf orig d rows := by
  unfold entitiesIndexOf indexOf
  congr 1
  refine List.filterMap_congr (fun p hp => ?_)
  have hmem : p.1 ∈ rows := List.mem_of_getElem? (List.mem_zipIdx_iff_getElem?.mp hp)
  rw [isEntitiesIndexRow_transfer hd p.1.category (hkinds p.1 hmem), storedStart, storedStart,
    horig p.1 hmem]

theorem entitiesIndexWith_eq {orig : Digest32 → Bytes} {keyStart : RecordRow → ℕ} {d : Dictionaries}
    {resolve : Digest32 → Option Bytes} {ordered : List RecordRow}
    (hstart : ∀ row ∈ ordered, isEntitiesIndexRow row.category row.kindId (inferredTypeKindId d) =
      true →
      keyStart row = entitiesIndexKeyStart row)
    (horig : ∀ row ∈ ordered, orig row.recordId = row.identityKey) :
    entitiesIndexWith keyStart d ordered =
      entitiesIndexOf orig d (ordered.map (fun row => classifyIdentity row d resolve)) := by
  unfold entitiesIndexWith entitiesIndexOf indexOf
  rw [List.zipIdx_map, List.filterMap_map]
  congr 1
  refine List.filterMap_congr (fun p hp => ?_)
  have hmem : p.1 ∈ ordered := List.mem_of_getElem? (List.mem_zipIdx_iff_getElem?.mp hp)
  change (if isEntitiesIndexRow p.1.category p.1.kindId (inferredTypeKindId d) =
    true then _ else none) =
    if isEntitiesIndexRow p.1.category p.1.kindId (inferredTypeKindId d) = true then _ else none
  by_cases hrow : isEntitiesIndexRow p.1.category p.1.kindId (inferredTypeKindId d) = true
  · rw [if_pos hrow, if_pos hrow, hstart p.1 hmem hrow, entitiesIndexKeyStart, ← horig p.1 hmem]
    rfl
  · rw [if_neg hrow, if_neg hrow]

namespace StoreReader

structure Indexed (reader : StoreReader) (orig : Digest32 → Bytes) : Prop where
  elides : reader.Elides orig
  ids : reader.IdsUnique
  layered : reader.Layered
  kinds : ∀ row ∈ reader.rows, row.kindId < reader.dicts.kinds.length
  index : ∀ seg ∈ reader.segments, seg.entitiesIndex = entitiesIndexOf orig reader.dicts seg.rows

def belongs (dicts : Dictionaries) (owner start : ℕ) (row : RecordRow) : Bool :=
  isEntitiesIndexRow row.category row.kindId (inferredTypeKindId dicts) &&
    (decide (row.ownerArtifact = owner) && decide (entitiesIndexKeyStart row = start))

def entityAnswer (dicts : Dictionaries) (rows : List RecordRow) (owner start : ℕ) :
    Option RecordRow :=
  (rows.filter (belongs dicts owner start)).argmax
    (fun row => (toLex (row.validFrom, row.recordId) : ℕ ×ₗ Digest32))

theorem entityAnswer_injOn {rows : List RecordRow}
    (hnodup : (rows.map (fun row => row.recordId)).Nodup)
    (dicts : Dictionaries) (owner start : ℕ) :
    ∀ a ∈ rows.filter (belongs dicts owner start), ∀ b ∈ rows.filter (belongs dicts owner start),
      (toLex (a.validFrom, a.recordId) : ℕ ×ₗ Digest32) = toLex (b.validFrom, b.recordId) →
        a = b := by
  intro a ha b hb hab
  have hid : a.recordId = b.recordId := congrArg (fun x => (ofLex x).2) hab
  exact functional_of_nodup hnodup a (List.mem_filter.mp ha).1 b (List.mem_filter.mp hb).1 hid

theorem entityAnswer_perm {dicts dicts' : Dictionaries} {rows rows' : List RecordRow}
    (hnodup : (rows.map (fun row => row.recordId)).Nodup) (h : rows.Perm rows')
    (hdicts : dicts'.kinds = dicts.kinds) (owner start : ℕ) :
    entityAnswer dicts' rows' owner start = entityAnswer dicts rows owner start := by
  have hbelongs : belongs dicts' owner start = belongs dicts owner start := by
    funext row
    unfold belongs inferredTypeKindId
    rw [hdicts]
  unfold entityAnswer
  rw [hbelongs]
  exact Argmax.argmax_perm (entityAnswer_injOn hnodup dicts owner start) (h.filter _)

abbrev CandidateKey := ℕ ×ₗ ℕ ×ₗ ℕ

def entityCandidates (reader : StoreReader) (owner start generation : ℕ) :
    List (CandidateKey × StoredRow) :=
  reader.segments.zipIdx.flatMap (fun p =>
    (keyRange (fun e => (ofLex e).1) p.1.entitiesIndex (toLex (owner, start))).filterMap (fun e =>
      ((p.1.rows[(ofLex e).2]?).filter (fun row => reader.isVisible row generation)).map (fun row =>
        (toLex (row.validFrom, toLex (reader.segments.length - p.2, (ofLex e).2)), row))))

structure CandidateAt (reader : StoreReader) (c : CandidateKey × StoredRow) (i ord : ℕ)
    (seg : Segment) :
    Prop where
  segment : reader.segments[i]? = some seg
  row : seg.rows[ord]? = some c.2
  key : c.1 = toLex (c.2.validFrom, toLex (reader.segments.length - i, ord))

variable {reader : StoreReader} {orig : Digest32 → Bytes}

theorem CandidateAt.mem {c : CandidateKey × StoredRow} {i ord : ℕ} {seg : Segment}
    (h : reader.CandidateAt c i ord seg) : c.2 ∈ reader.rows :=
  List.mem_flatMap.mpr ⟨seg, List.mem_of_getElem? h.segment, List.mem_of_getElem? h.row⟩

theorem mem_entitiesIndexOf {dicts : Dictionaries} {rows : List StoredRow} {owner start ord : ℕ} :
    toLex (toLex (owner, start), ord) ∈ entitiesIndexOf orig dicts rows ↔
      ∃ row, rows[ord]? = some row ∧
        isEntitiesIndexRow row.category row.kindId (inferredTypeKindId dicts) = true ∧
        row.ownerArtifact = owner ∧ storedStart orig row.toRecordFields = start := by
  unfold entitiesIndexOf indexOf
  rw [mem_sortOn, List.mem_filterMap]
  constructor
  · rintro ⟨⟨row, i⟩, hmem, hentry⟩
    have hrow := List.mem_zipIdx_iff_getElem?.mp hmem
    simp only [Option.ite_none_right_eq_some, Option.some.injEq, EmbeddingLike.apply_eq_iff_eq,
      Prod.mk.injEq] at hentry
    obtain ⟨hindex, ⟨rfl, rfl⟩, rfl⟩ := hentry
    exact ⟨row, hrow, hindex, rfl, rfl⟩
  · rintro ⟨row, hrow, hindex, rfl, rfl⟩
    refine ⟨(row, ord), List.mem_zipIdx_iff_getElem?.mpr hrow, ?_⟩
    simp only [hindex, if_true]

theorem mem_entityCandidates (h : reader.Indexed orig) {owner start generation : ℕ}
    {c : CandidateKey × StoredRow} :
    c ∈ reader.entityCandidates owner start generation ↔
      (∃ i ord seg, reader.CandidateAt c i ord seg) ∧ reader.isVisible c.2 generation = true ∧
        isEntitiesIndexRow c.2.category c.2.kindId (inferredTypeKindId reader.dicts) = true ∧
        c.2.ownerArtifact = owner ∧ storedStart orig c.2.toRecordFields = start := by
  unfold entityCandidates
  rw [List.mem_flatMap]
  constructor
  · rintro ⟨⟨seg, i⟩, hseg, hc⟩
    have hsegment := List.mem_zipIdx_iff_getElem?.mp hseg
    have hmem := List.mem_of_getElem? hsegment
    obtain ⟨e, he, hview⟩ := List.mem_filterMap.mp hc
    rw [keyRange_eq_filter (seg.entitiesIndex_sorted.imp (fun hle => mono_fst hle)),
      List.mem_filter,
      h.index seg hmem, decide_eq_true_eq] at he
    obtain ⟨hindex, hkey⟩ := he
    have heq : e = toLex (toLex (owner, start), (ofLex e).2) := by
      rw [← hkey]
      rfl
    rw [heq] at hindex
    obtain ⟨row, hrow, hentity, howner, hstart⟩ := mem_entitiesIndexOf.mp hindex
    simp only [hrow, Option.map_eq_some_iff, Option.filter_eq_some_iff, Option.some.injEq] at hview
    obtain ⟨row', ⟨rfl, hvis⟩, rfl⟩ := hview
    exact ⟨⟨i, (ofLex e).2, seg, hsegment, hrow, rfl⟩, hvis, hentity, howner, hstart⟩
  · rintro ⟨⟨i, ord, seg, hc⟩, hvis, hentity, howner, hstart⟩
    have hmem := List.mem_of_getElem? hc.segment
    refine ⟨(seg, i), List.mem_zipIdx_iff_getElem?.mpr hc.segment, List.mem_filterMap.mpr ?_⟩
    refine ⟨toLex (toLex (owner, start), ord), ?_, ?_⟩
    · rw [keyRange_eq_filter (seg.entitiesIndex_sorted.imp (fun hle => mono_fst hle)),
        List.mem_filter,
        h.index seg hmem]
      exact ⟨mem_entitiesIndexOf.mpr ⟨c.2, hc.row, hentity, howner, hstart⟩, by simp⟩
    · simp only [ofLex_toLex, hc.row, Option.map_eq_some_iff, Option.filter_eq_some_iff,
        Option.some.injEq]
      exact ⟨c.2, ⟨rfl, hvis⟩, Prod.ext hc.key.symm rfl⟩

theorem Layered.candidate_order (h : reader.Layered) {c c' : CandidateKey × StoredRow}
    {i i' ord ord' : ℕ} {seg seg' : Segment} (hc : reader.CandidateAt c i ord seg)
    (hc' : reader.CandidateAt c' i' ord' seg') (hle : c.1 ≤ c'.1) :
    (toLex (c.2.validFrom, c.2.recordId) : ℕ ×ₗ Digest32) ≤
      toLex (c'.2.validFrom, c'.2.recordId) := by
  rw [hc.key, hc'.key, Prod.Lex.toLex_le_toLex] at hle
  rw [Prod.Lex.toLex_le_toLex]
  rcases hle with hlt | ⟨hvf, hrest⟩
  · exact Or.inl hlt
  · refine Or.inr ⟨hvf, ?_⟩
    obtain ⟨hi, hseg⟩ := List.getElem?_eq_some_iff.mp hc.segment
    obtain ⟨hi', hseg'⟩ := List.getElem?_eq_some_iff.mp hc'.segment
    have hrow := List.mem_of_getElem? hc.row
    have hrow' := List.mem_of_getElem? hc'.row
    have hpair := List.pairwise_iff_getElem.mp h
    obtain rfl : i = i' := by
      rcases Nat.lt_trichotomy i i' with hlt | heq | hgt
      · have := hpair i i' hi hi' hlt c.2 (hseg ▸ hrow) c'.2 (hseg' ▸ hrow')
        dsimp only at hvf
        omega
      · exact heq
      · have := hpair i' i hi' hi hgt c'.2 (hseg' ▸ hrow') c.2 (hseg ▸ hrow)
        dsimp only at hvf
        omega
    obtain rfl : seg = seg' := hseg.symm.trans hseg'
    have hord : ord ≤ ord' := by
      rcases Prod.Lex.toLex_le_toLex.mp hrest with hlt | ⟨-, hle⟩
      · exact absurd hlt (lt_irrefl _)
      · exact hle
    obtain ⟨ho, hget⟩ := List.getElem?_eq_some_iff.mp hc.row
    obtain ⟨ho', hget'⟩ := List.getElem?_eq_some_iff.mp hc'.row
    rcases Nat.lt_or_eq_of_le hord with hlt | rfl
    · have := List.pairwise_iff_getElem.mp seg.rows_sorted _ _ ho ho' hlt
      rwa [hget, hget'] at this
    · rw [← hget, ← hget']

theorem Indexed.start_view (h : reader.Indexed orig) (hl : reader.Ledger) {row : StoredRow}
    (hrow : row ∈ reader.visible) (owner start : ℕ) :
    belongs reader.dicts owner start (viewToRow reader row) =
      (isEntitiesIndexRow row.category row.kindId (inferredTypeKindId reader.dicts) &&
        (decide (row.ownerArtifact = owner) &&
          decide (storedStart orig row.toRecordFields = start))) := by
  rw [hl.viewToRow_eq hrow, h.elides.identityKey_eq (List.mem_filter.mp hrow).1]
  rfl

theorem Indexed.mem_belonging (h : reader.Indexed orig) (hl : reader.Ledger) {owner start : ℕ}
    {view : RecordRow} :
    view ∈ reader.views.filter (belongs reader.dicts owner start) ↔
      ∃ c ∈ reader.entityCandidates owner start reader.generation, viewToRow reader c.2 = view := by
  unfold views
  rw [List.mem_filter, List.mem_map]
  constructor
  · rintro ⟨⟨row, hrow, rfl⟩, hbelongs⟩
    rw [h.start_view hl hrow] at hbelongs
    simp only [Bool.and_eq_true, decide_eq_true_eq] at hbelongs
    obtain ⟨hmem, hvis⟩ := List.mem_filter.mp hrow
    obtain ⟨seg, hseg, hrowseg⟩ := List.mem_flatMap.mp hmem
    obtain ⟨i, hi⟩ := List.mem_iff_getElem?.mp hseg
    obtain ⟨ord, hord⟩ := List.mem_iff_getElem?.mp hrowseg
    refine ⟨(toLex (row.validFrom, toLex (reader.segments.length - i, ord)), row), ?_, rfl⟩
    exact (mem_entityCandidates h).mpr ⟨⟨i, ord, seg, hi, hord, rfl⟩, hvis, hbelongs⟩
  · rintro ⟨c, hc, rfl⟩
    obtain ⟨⟨i, ord, seg, hat⟩, hvis, hbelongs⟩ := (mem_entityCandidates h).mp hc
    have hrow : c.2 ∈ reader.visible := List.mem_filter.mpr ⟨hat.mem, hvis⟩
    refine ⟨⟨c.2, hrow, rfl⟩, ?_⟩
    rw [h.start_view hl hrow]
    simpa only [Bool.and_eq_true, decide_eq_true_eq] using hbelongs

theorem Indexed.entityByOwnerAndStart_eq (h : reader.Indexed orig) (hl : reader.Ledger)
    (owner start : ℕ) :
    (reader.entityByOwnerAndStart owner start reader.generation).map (viewToRow reader) =
      entityAnswer reader.dicts reader.views owner start := by
  have hanswer : reader.entityByOwnerAndStart owner start reader.generation =
      ((reader.entityCandidates owner start reader.generation).argmax Prod.fst).map Prod.snd := rfl
  rw [hanswer]
  cases hbest : (reader.entityCandidates owner start reader.generation).argmax Prod.fst with
  | none =>
    have hnil := List.argmax_eq_none.mp hbest
    have hempty : reader.views.filter (belongs reader.dicts owner start) = [] := by
      rw [List.eq_nil_iff_forall_not_mem]
      intro view hview
      obtain ⟨c, hc, -⟩ := (h.mem_belonging hl).mp hview
      rw [hnil] at hc
      exact absurd hc List.not_mem_nil
    rw [entityAnswer, hempty]
    rfl
  | some best =>
    obtain ⟨hmem, hmax, -⟩ := List.argmax_eq_some_iff.mp hbest
    obtain ⟨⟨i, ord, seg, hat⟩, -, -⟩ := (mem_entityCandidates h).mp hmem
    refine (Argmax.argmax_eq_some_of_injOn (entityAnswer_injOn (hl.views_nodup h.ids) _ _ _)
      ((h.mem_belonging hl).mpr ⟨best, hmem, rfl⟩) ?_).symm
    intro view hview
    obtain ⟨c, hc, rfl⟩ := (h.mem_belonging hl).mp hview
    obtain ⟨⟨i', ord', seg', hat'⟩, -, -⟩ := (mem_entityCandidates h).mp hc
    exact h.layered.candidate_order hat' hat (hmax c hc)

end StoreReader

section Writers

structure BaseInput.Resolved (input : BaseInput) : Prop where
  ids : (input.rows.map (fun row => row.recordId)).Nodup
  kinds : ∀ row ∈ input.rows, row.kindId < input.dicts.kinds.length

instance (input : BaseInput) : Decidable input.Resolved :=
  decidable_of_iff _ ⟨fun h => ⟨h.1, h.2⟩, fun h => And.intro h.ids h.kinds⟩

theorem BaseInput.Built.indexed {input : BaseInput} {ordered : List RecordRow} {seg : Segment}
    (h : input.Built ordered seg) (hr : input.Resolved) (manifest : Manifest) :
    (StoreReader.load manifest seg []).Indexed input.originals := by
  have horig : ∀ row ∈ input.rows, input.originals row.recordId = row.identityKey :=
    fun row hrow => BaseInput.originals_eq hr.ids hrow
  refine ⟨h.elides manifest horig, h.idsUnique hr.ids, StoreReader.load_layered manifest seg, ?_,
    ?_⟩
  · intro row hrow
    rw [h.load_rows] at hrow
    obtain ⟨orig, hmem, heq⟩ := h.mem_rows hrow
    rw [h.dicts_eq, heq]
    exact hr.kinds orig hmem
  · intro seg' hseg'
    obtain rfl : seg' = seg := by simpa [StoreReader.load] using hseg'
    rw [h.entities_eq, h.dicts_eq, h.rows_eq]
    refine entitiesIndexWith_eq (fun _ _ _ => rfl) (fun row hrow => ?_)
    exact horig row (h.perm.mem_iff.mp hrow)

structure DeltaInput.Resolved (input : DeltaInput) (reader : StoreReader) : Prop where
  entityKinds : input.dictAdditions.entityKinds = []
  kinds : ∀ row ∈ input.opened, row.kindId < (input.fullDicts reader).kinds.length

instance (input : DeltaInput) (reader : StoreReader) : Decidable (input.Resolved reader) :=
  decidable_of_iff _ ⟨fun h => ⟨h.1, h.2⟩, fun h => And.intro h.entityKinds h.kinds⟩

def DeltaInput.SpanKeyed (input : DeltaInput) (reader : StoreReader) : Prop :=
  ∀ row ∈ input.opened,
    isEntitiesIndexRow row.category row.kindId (inferredTypeKindId (input.fullDicts reader)) =
      true →
      entitiesIndexKeyStart row = row.spanStartByte

instance (input : DeltaInput) (reader : StoreReader) : Decidable (input.SpanKeyed reader) :=
  inferInstanceAs (Decidable (∀ row ∈ input.opened, _ → _))

variable {input : DeltaInput} {reader : StoreReader} {manifest : Manifest} {seg : Segment}
  {orig : Digest32 → Bytes}

theorem StoreReader.Indexed.extend (hi : reader.Indexed orig) (hl : reader.Ledger)
    (h : input.Built reader manifest seg) (hv : input.Valid reader) (hr : input.Resolved reader)
    (hkey : input.SpanKeyed reader) :
    (reader.extend manifest seg).Indexed (input.originals orig) := by
  have hdicts := h.dicts_eq hr.entityKinds
  have hsub : reader.dicts.kinds <+: (reader.extend manifest seg).dicts.kinds :=
    (Dictionaries.sub_append _ _).kinds
  refine ⟨h.elides hv.sound.freshIds hr.entityKinds hi.elides, h.idsUnique hv.sound hi.ids,
    hi.layered.extend hl h hv.sound, ?_, ?_⟩
  · intro row hrow
    rw [StoreReader.extend_rows, List.mem_append] at hrow
    rcases hrow with hnew | hold
    · obtain ⟨written, hwritten, heq⟩ := h.mem_rows hnew
      rw [heq, hdicts]
      exact hr.kinds written hwritten
    · exact (hi.kinds row hold).trans_le hsub.length_le
  · intro seg' hseg'
    rcases List.mem_cons.mp hseg' with rfl | hold
    · rw [(SegmentInput.build_ok h.build).2.2.2.2.2.2.2.1, hdicts, h.rows_eq]
      refine entitiesIndexWith_eq (fun row hrow hindex => ?_) (fun row hrow => ?_)
      · exact (hkey row ((mem_sortOn _ _ _).mp hrow) hindex).symm
      · exact hv.sound.freshIds.originals_new ((mem_sortOn _ _ _).mp hrow)
    · have hmem : ∀ row ∈ seg'.rows, row ∈ reader.rows :=
        fun row hrow => List.mem_flatMap.mpr ⟨seg', hold, hrow⟩
      rw [hi.index seg' hold]
      exact (entitiesIndexOf_congr hsub (fun row hrow => hi.kinds row (hmem row hrow))
        (fun row hrow => hv.sound.freshIds.originals_old (hmem row hrow))).symm

theorem StoreReader.Indexed.compactInput_resolved (hi : reader.Indexed orig) (hl : reader.Ledger)
    {generation : ℕ} (hg : reader.generation ≤ generation) :
    (compactInput reader generation).Resolved := by
  refine ⟨hl.compactInput_nodup hg hi.ids, fun row hrow => ?_⟩
  obtain ⟨stored, hstored, heq⟩ := hl.mem_views ((hl.compactInput_rows hg).mem_iff.mp hrow)
  rw [heq]
  exact hi.kinds stored hstored

end Writers

section Run

variable [Sha256]

inductive MaintainedRun (starts : BaseInput → Prop) (admits : StoreReader → DeltaInput → Prop) :
    Disk → Prop
  | store {disk : Disk} {roots : Roots} (written : StoreRun starts admits disk roots) :
      MaintainedRun starts admits disk
  | delta {disk disk' : Disk} {roots : Roots} {reader : StoreReader} {input : DeltaInput}
      (before : MaintainedRun starts admits disk) (opened : StoreReader.open disk = .ok reader)
      (admitted : admits reader input)
      (write : writeDeltaWithReaderAndPending disk reader input = .ok (disk', roots)) :
      MaintainedRun starts admits disk'
  | compact {disk disk' : Disk} {roots : Roots} {reader : StoreReader} {newGeneration : ℕ}
      (before : MaintainedRun starts admits disk) (opened : StoreReader.open disk = .ok reader)
      (newer : reader.generation ≤ newGeneration)
      (write : StructuralStore.compact disk newGeneration = .ok (disk', roots)) :
      MaintainedRun starts admits disk'

def IndexedDisk (disk : Disk) : Prop :=
  ∃ reader orig, StoreReader.open disk = .ok reader ∧ reader.Ledger ∧ reader.Indexed orig

variable {disk disk' : Disk} {roots : Roots} {reader : StoreReader} {newGeneration : ℕ}

theorem publishBase_indexed {input : BaseInput} {ordered : List RecordRow}
    {hs : ordered.Pairwise (fun a b => a.recordId ≤ b.recordId)} (hperm : ordered.Perm input.rows)
    (hv : input.Valid) (hr : input.Resolved)
    (h : publishBase disk input (input.sections ordered hs) = .ok (disk', roots)) :
    IndexedDisk disk' := by
  obtain ⟨seg, hbuilt, hok, -⟩ := publishBase_ok hv hperm h
  exact ⟨_, _, hok.opens, hok.ledger, hbuilt.indexed hr _⟩

theorem writeDelta_indexed {input : DeltaInput} (hdisk : IndexedDisk disk)
    (hopen : StoreReader.open disk = .ok reader) (hv : input.Valid reader)
    (hr : input.Resolved reader)
    (hkey : input.SpanKeyed reader)
    (h : writeDeltaWithReaderAndPending disk reader input = .ok (disk', roots)) :
    IndexedDisk disk' := by
  obtain ⟨reader', orig, hopen', hl, hi⟩ := hdisk
  obtain rfl := Except.ok.inj (hopen'.symm.trans hopen)
  obtain ⟨plan, hplan, h⟩ := ExceptOk.bind_eq_ok h
  cases h
  have hbuilt := (planDelta_spec hplan).1
  exact ⟨_, _, open_published hopen hl hv.sound hplan, hbuilt.ledger hl hv.sound,
    hi.extend hl hbuilt hv hr hkey⟩

theorem compact_indexed (hdisk : IndexedDisk disk) (hopen : StoreReader.open disk = .ok reader)
    (hg : reader.generation ≤ newGeneration) (h : compact disk newGeneration = .ok (disk', roots)) :
    IndexedDisk disk' := by
  obtain ⟨reader', orig, hopen', hl, hi⟩ := hdisk
  obtain rfl := Except.ok.inj (hopen'.symm.trans hopen)
  obtain ⟨seg, hbuilt, hok, -, -⟩ := compact_spec hopen hl hi.ids hg h
  exact ⟨_, _, hok.opens, hok.ledger, hbuilt.indexed (hi.compactInput_resolved hl hg) _⟩

theorem StoreRun.indexed
    (h : StoreRun (fun input => input.Valid ∧ input.Resolved)
      (fun reader input => input.Valid reader ∧ input.Resolved reader ∧ input.SpanKeyed reader)
      disk roots) : IndexedDisk disk := by
  induction h with
  | base started write => exact publishBase_indexed (sortOn_perm _ _) started.1 started.2 write
  | partitioned started write =>
    exact publishBase_indexed (List.Perm.refl _) started.1 started.2 write
  | delta before opened admitted write ih =>
    exact writeDelta_indexed ih opened admitted.1 admitted.2.1 admitted.2.2 write

theorem MaintainedRun.indexed
    (h : MaintainedRun (fun input => input.Valid ∧ input.Resolved)
      (fun reader input => input.Valid reader ∧ input.Resolved reader ∧
        input.SpanKeyed reader) disk) :
    IndexedDisk disk := by
  induction h with
  | store written => exact written.indexed
  | delta before opened admitted write ih =>
    exact writeDelta_indexed ih opened admitted.1 admitted.2.1 admitted.2.2 write
  | compact before opened newer write ih => exact compact_indexed ih opened newer write

structure FindsEntities (reader : StoreReader) : Prop where
  sound : ∀ owner start view,
    (reader.entityByOwnerAndStart owner start reader.generation).map (viewToRow reader) =
      some view →
      view ∈ reader.views ∧ StoreReader.belongs reader.dicts owner start view = true
  complete : ∀ owner start, ∀ view ∈ reader.views,
    StoreReader.belongs reader.dicts owner start view = true →
      ∃ found, (reader.entityByOwnerAndStart owner start reader.generation).map (viewToRow reader) =
          some found ∧ view.validFrom ≤ found.validFrom ∧
        ((∀ other ∈ reader.views, StoreReader.belongs reader.dicts owner start other = true →
          other = view) → found = view)

omit [Sha256] in
theorem StoreReader.Indexed.findsEntities {orig : Digest32 → Bytes} (h : reader.Indexed orig)
    (hl : reader.Ledger) : FindsEntities reader := by
  refine ⟨?_, ?_⟩
  · intro owner start view hview
    rw [h.entityByOwnerAndStart_eq hl] at hview
    exact List.mem_filter.mp (List.argmax_eq_some_iff.mp hview).1
  · intro owner start view hview hbelongs
    have hmem : view ∈ reader.views.filter (StoreReader.belongs reader.dicts owner start) :=
      List.mem_filter.mpr ⟨hview, hbelongs⟩
    rw [h.entityByOwnerAndStart_eq hl]
    cases hfound : StoreReader.entityAnswer reader.dicts reader.views owner start with
    | none =>
      rw [List.argmax_eq_none.mp hfound] at hmem
      exact absurd hmem List.not_mem_nil
    | some found =>
      obtain ⟨hfoundmem, hmax, -⟩ := List.argmax_eq_some_iff.mp hfound
      refine ⟨found, rfl, ?_, ?_⟩
      · rcases Prod.Lex.toLex_le_toLex.mp (hmax view hmem) with hlt | ⟨heq, -⟩
        · exact hlt.le
        · exact heq.le
      · intro honly
        obtain ⟨hfoundview, hfoundbelongs⟩ := List.mem_filter.mp hfoundmem
        exact honly found hfoundview hfoundbelongs

def SameEntities (reader compacted : StoreReader) : Prop :=
  ∀ owner start,
    (compacted.entityByOwnerAndStart owner start compacted.generation).map (viewToRow compacted) =
      (reader.entityByOwnerAndStart owner start reader.generation).map (viewToRow reader)

theorem compact_sameEntities (hdisk : IndexedDisk disk) (hopen : StoreReader.open disk = .ok reader)
    (hg : reader.generation ≤ newGeneration) (h : compact disk newGeneration = .ok (disk', roots))
    {compacted : StoreReader} (hopen' : StoreReader.open disk' = .ok compacted) :
    SameEntities reader compacted := by
  obtain ⟨reader', orig, hopened, hl, hi⟩ := hdisk
  obtain rfl := Except.ok.inj (hopened.symm.trans hopen)
  obtain ⟨seg, hbuilt, hok, -, hcompacted⟩ := compact_spec hopen hl hi.ids hg h
  obtain rfl := Except.ok.inj (hok.opens.symm.trans hopen')
  have hi' := hbuilt.indexed (hi.compactInput_resolved hl hg) (baseManifest newGeneration roots)
  intro owner start
  obtain ⟨words, hdicts⟩ := hcompacted.dicts
  rw [hi'.entityByOwnerAndStart_eq hok.ledger, hi.entityByOwnerAndStart_eq hl]
  exact StoreReader.entityAnswer_perm (hl.views_nodup hi.ids) hcompacted.views.symm
    (by rw [hdicts]; rfl) owner start

theorem entities_index_finds_identity_start
    (h : MaintainedRun (fun input => input.Valid ∧ input.Resolved)
      (fun reader input => input.Valid reader ∧ input.Resolved reader ∧
        input.SpanKeyed reader) disk)
    (hopen : StoreReader.open disk = .ok reader) :
    FindsEntities reader ∧
      ∀ newGeneration disk' roots compacted, reader.generation ≤ newGeneration →
        compact disk newGeneration = .ok (disk', roots) → StoreReader.open disk' = .ok compacted →
          FindsEntities compacted ∧ SameEntities reader compacted := by
  have hdisk := h.indexed
  have hfinds : ∀ {disk : Disk} {reader : StoreReader}, IndexedDisk disk →
      StoreReader.open disk = .ok reader → FindsEntities reader := by
    rintro disk reader ⟨reader', orig, hopen', hl, hi⟩ hopen
    obtain rfl := Except.ok.inj (hopen'.symm.trans hopen)
    exact hi.findsEntities hl
  refine ⟨hfinds hdisk hopen, ?_⟩
  intro newGeneration disk' roots compacted hg hcompact hopen'
  exact ⟨hfinds (compact_indexed hdisk hopen hg hcompact) hopen',
    compact_sameEntities hdisk hopen hg hcompact hopen'⟩

end Run

section Instances

def plainEntity (id : Digest32) (identityKey : Bytes) (spanStart generation : ℕ) : RecordRow where
  recordId := id
  ownerArtifact := 0
  ownerVersion := 0
  validFrom := generation
  validTo := 0
  category := .entity
  kindId := 0
  universalKindId := 0
  facets := 0
  spanArtifactVersion := 0
  spanStartByte := spanStart
  spanEndByte := 0
  spanStartLine := 0
  spanEndLine := 0
  identityType := 0
  assignmentKind := 0
  nameId := noneU32
  recordDigest := id
  bodyDigest := id
  identityId := id
  identityKeyDigest := id
  previousRecordId := zero
  sourceSubject := none
  targetSubject := none
  relationKindId := noneU16
  body := []
  identityKey := identityKey

def entityBase (rows : List RecordRow) : BaseInput where
  rows := rows
  deps := []
  dicts := { Dictionaries.empty with kinds := [utf8 "jsts:entity_function"] }
  generation := 1
  pendingSites := []

def entityDelta (rows : List RecordRow) (generation : ℕ) : DeltaInput where
  opened := rows
  closures := []
  depsOpened := []
  depsClosures := []
  dictAdditions := Dictionaries.empty
  generation := generation
  pendingOpened := []
  pendingClosures := []

theorem entities_index_finds_identity_start_mixed :
    ∃ reader, FindsEntities reader ∧ (reader.entityByOwnerAndStart 0 7 2).isSome = true ∧
      (reader.entityByOwnerAndStart 0 30 2).isSome = true := by
  let _ := fixedDigest
  let base := entityBase [plainEntity (Block.fill 32 1) (utf8 "jsts:function:a.ts:7:f") 0 1]
  let delta := entityDelta [plainEntity (Block.fill 32 2) (utf8 "jsts:function:a.ts:30:g") 30 2] 2
  have hscript : (do
      let state ← replay (fun reader input => input.Valid reader ∧ input.Resolved reader ∧
        input.SpanKeyed reader) base [delta]
      let reader ← StoreReader.open state.1
      Except.ok ((reader.entityByOwnerAndStart 0 7 2).isSome,
        (reader.entityByOwnerAndStart 0 30 2).isSome)) = .ok (true, true) := by
    decide +kernel
  obtain ⟨⟨disk, roots⟩, hrun, hscript⟩ := ExceptOk.bind_eq_ok hscript
  obtain ⟨reader, hopen, hscript⟩ := ExceptOk.bind_eq_ok hscript
  obtain ⟨hseven, hthirty⟩ := Prod.mk.inj (Except.ok.inj hscript)
  have hstart : base.Valid ∧ base.Resolved := by decide +kernel
  have hfinds := entities_index_finds_identity_start
    (MaintainedRun.store (replay_storeRun hstart hrun)) hopen
  exact ⟨reader, hfinds.1, hseven, hthirty⟩

theorem delta_entity_not_found_at_identity_start :
    ¬ ∀ (_ : Sha256) (disk : Disk) (reader : StoreReader),
      MaintainedRun (fun input => input.Valid ∧ input.Resolved)
        (fun reader input => input.Valid reader ∧ input.Resolved reader) disk →
      StoreReader.open disk = .ok reader → FindsEntities reader := by
  intro hall
  let _ := fixedDigest
  let base := entityBase []
  let delta := entityDelta [plainEntity (Block.fill 32 1) (utf8 "jsts:function:a.ts:7:f") 0 2] 2
  have hscript : (do
      let state ← replay (fun reader input => input.Valid reader ∧ input.Resolved reader)
        base [delta]
      let reader ← StoreReader.open state.1
      Except.ok ((reader.entityByOwnerAndStart 0 7 reader.generation).isNone,
        decide (∃ view ∈ reader.views, StoreReader.belongs reader.dicts 0 7 view = true))) =
      .ok (true, true) := by
    decide +kernel
  obtain ⟨⟨disk, roots⟩, hrun, hscript⟩ := ExceptOk.bind_eq_ok hscript
  obtain ⟨reader, hopen, hscript⟩ := ExceptOk.bind_eq_ok hscript
  obtain ⟨hnone, hview⟩ := Prod.mk.inj (Except.ok.inj hscript)
  obtain ⟨view, hmem, hbelongs⟩ := of_decide_eq_true hview
  have hstart : base.Valid ∧ base.Resolved := by decide +kernel
  have hfinds :=
    hall fixedDigest disk reader (MaintainedRun.store (replay_storeRun hstart hrun)) hopen
  obtain ⟨found, hfound, -⟩ := hfinds.complete 0 7 view hmem hbelongs
  rw [Option.isNone_iff_eq_none.mp hnone] at hfound
  cases hfound

end Instances

end StructuralStore
