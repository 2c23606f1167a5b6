import Urdira.StructuralStore.Ledger
import Urdira.StructuralStore.StoreRun

open ByteOrder KeyedSet MerkleBucket LastIndex

namespace StructuralStore

open IdentityCodec

section Dicts

structure Dictionaries.Sub (d d' : Dictionaries) : Prop where
  kinds : d.kinds <+: d'.kinds
  names : d.names <+: d'.names
  subjects : d.subjects <+: d'.subjects
  artifactPaths : d.artifactPaths <+: d'.artifactPaths
  entityKinds : d.entityKinds <+: d'.entityKinds

theorem Dictionaries.Sub.refl (d : Dictionaries) : d.Sub d :=
  ⟨List.prefix_rfl, List.prefix_rfl, List.prefix_rfl, List.prefix_rfl, List.prefix_rfl⟩

theorem Dictionaries.sub_append (d additions : Dictionaries) : d.Sub (d.append additions) :=
  ⟨List.prefix_append _ _, List.prefix_append _ _, List.prefix_append _ _, List.prefix_append _ _,
    List.prefix_append _ _⟩

theorem getElem?_of_isPrefix {α : Type} {xs ys : List α} (h : xs <+: ys) {i : ℕ} {a : α}
    (hi : xs[i]? = some a) : ys[i]? = some a := by
  obtain ⟨hlt, rfl⟩ := List.getElem?_eq_some_iff.mp hi
  exact List.prefix_iff_getElem?.mp h i hlt

end Dicts

section Candidates

variable {row : RecordFields} {d d' : Dictionaries} {resolve resolve' : Digest32 → Option Bytes}

theorem endpoints_transfer {e : Endpoints} (h : endpoints row d resolve = some e) (hd : d.Sub d')
    (hr : ∀ id key, resolve id = some key → (key = e.sourceKey ∨ key = e.targetKey) →
      resolve' id = some key) : endpoints row d' resolve' = some e := by
  unfold endpoints at h ⊢
  simp only [Option.bind_eq_bind, Option.bind_eq_some_iff] at h ⊢
  obtain ⟨kind, hkind, rel, hrel, source, hsource, target, htarget, sourceId, hsourceId, targetId,
    htargetId, sourceKey, hsourceKey, targetKey, htargetKey, he⟩ := h
  obtain rfl := Option.some.inj he
  exact ⟨kind, getElem?_of_isPrefix hd.kinds hkind, rel, hrel, source, hsource, target, htarget,
    sourceId, getElem?_of_isPrefix hd.subjects hsourceId, targetId,
    getElem?_of_isPrefix hd.subjects htargetId, sourceKey, hr _ _ hsourceKey (Or.inl rfl),
      targetKey,
    hr _ _ htargetKey (Or.inr rfl), rfl⟩

theorem relationCandidate_transfer {key : Bytes} (h : relationCandidate row d resolve = some key)
    (hd : d.Sub d')
    (hr : ∀ id k, resolve id = some k → k.length < key.length → resolve' id = some k) :
    relationCandidate row d' resolve' = some key := by
  unfold relationCandidate at h ⊢
  simp only [Option.bind_eq_bind, Option.bind_eq_some_iff] at h ⊢
  obtain ⟨path, hpath, e, he, hkey⟩ := h
  obtain rfl := Option.some.inj hkey
  refine ⟨path, getElem?_of_isPrefix hd.artifactPaths hpath, e, endpoints_transfer he hd ?_, rfl⟩
  rintro id k hk (rfl | rfl)
  · exact hr id _ hk
      (by simp only [reconstructRelation, List.length_append, List.length_singleton]; omega)
  · exact hr id _ hk
      (by simp only [reconstructRelation, List.length_append, List.length_singleton]; omega)

theorem relationNoSpanCandidate_transfer {key : Bytes}
    (h : relationNoSpanCandidate row d resolve = some key) (hd : d.Sub d')
    (hr : ∀ id k, resolve id = some k → k.length < key.length → resolve' id = some k) :
    relationNoSpanCandidate row d' resolve' = some key := by
  unfold relationNoSpanCandidate at h ⊢
  simp only [Option.bind_eq_bind, Option.bind_eq_some_iff] at h ⊢
  obtain ⟨e, he, hkey⟩ := h
  obtain rfl := Option.some.inj hkey
  refine ⟨e, endpoints_transfer he hd ?_, rfl⟩
  rintro id k hk (rfl | rfl)
  · exact hr id _ hk
      (by simp only [reconstructRelationNoSpan, List.length_append, List.length_singleton]; omega)
  · exact hr id _ hk
      (by simp only [reconstructRelationNoSpan, List.length_append, List.length_singleton]; omega)

end Candidates

section Reads

def entityCandidate (row : StoredRow) (d : Dictionaries) : Option Bytes := do
  let ord ← row.entityKindOrdinal
  let kind ← d.entityKinds[ord]?
  let path ← d.artifactPaths[row.ownerArtifact]?
  let nameId ← row.nameIdOpt
  let name ← d.names[nameId]?
  some (reconstructEntity kind path row.spanStartByte name)

theorem entityCandidate_transfer {row : StoredRow} {d d' : Dictionaries} {key : Bytes}
    (h : entityCandidate row d = some key) (hd : d.Sub d') : entityCandidate row d' = some key := by
  unfold entityCandidate at h ⊢
  simp only [Option.bind_eq_bind, Option.bind_eq_some_iff] at h ⊢
  obtain ⟨ord, hord, kind, hkind, path, hpath, nameId, hnameId, name, hname, hkey⟩ := h
  exact ⟨ord, hord, kind, getElem?_of_isPrefix hd.entityKinds hkind, path,
    getElem?_of_isPrefix hd.artifactPaths hpath, nameId, hnameId, name,
    getElem?_of_isPrefix hd.names hname, hkey⟩

def StoredRow.Reads (row : StoredRow) (d : Dictionaries) (resolve : Digest32 → Option Bytes)
    (key : Bytes) : Prop :=
  match row.identityLayout with
  | .raw => row.ident = key
  | .entity => entityCandidate row d = some key
  | .relation => relationCandidate row.toRecordFields d resolve = some key
  | .relationNoSpan => relationNoSpanCandidate row.toRecordFields d resolve = some key

theorem StoredRow.Reads.transfer {row : StoredRow} {d d' : Dictionaries}
    {resolve resolve' : Digest32 → Option Bytes} {key : Bytes} (h : row.Reads d resolve key)
    (hd : d.Sub d')
    (hr : ∀ id k, resolve id = some k → k.length < key.length → resolve' id = some k) :
    row.Reads d' resolve' key := by
  unfold StoredRow.Reads at h ⊢
  cases hlayout : row.identityLayout with
  | raw =>
    rw [hlayout] at h
    exact h
  | entity =>
    rw [hlayout] at h
    exact entityCandidate_transfer h hd
  | relation =>
    rw [hlayout] at h
    exact relationCandidate_transfer h hd hr
  | relationNoSpan =>
    rw [hlayout] at h
    exact relationNoSpanCandidate_transfer h hd hr

theorem tryEntity_some {row : RecordRow} {d : Dictionaries} {key : Bytes} {ord : ℕ}
    (h : tryEntity row d = some (key, ord)) (stored : StoredRow)
    (hfields : stored.toRecordFields = row.toRecordFields) (hord : stored.entityKind = ord) :
    entityCandidate stored d = some row.identityKey := by
  unfold tryEntity at h
  split at h
  · cases h
  · simp only [Option.bind_eq_bind, Option.bind_eq_some_iff] at h
    obtain ⟨path, hpath, nameId, hnameId, name, hname, word, -, ord', hindex, h⟩ := h
    split at h
    · cases h
    · rename_i hlt
      split at h
      · rename_i hcandidate
        simp only [Option.some.injEq, Prod.mk.injEq] at h
        obtain ⟨-, rfl⟩ := h
        have hne : ord' ≠ entityKindNone := by omega
        unfold entityCandidate
        simp only [Option.bind_eq_bind, Option.bind_eq_some_iff]
        refine ⟨ord', by simp [StoredRow.entityKindOrdinal, hord, hne], word,
          lastIndexOf_some hindex, path, by rw [hfields]; exact hpath, nameId,
          by rw [hfields]; exact hnameId, name, hname, ?_⟩
        rw [hfields, hcandidate]
      · cases h

theorem classifyIdentity_reads (row : RecordRow) (d : Dictionaries)
    (resolve : Digest32 → Option Bytes) :
    (classifyIdentity row d resolve).Reads d resolve row.identityKey := by
  unfold StoredRow.Reads classifyIdentity classifyIdentityLayout
  cases hcat : row.category with
  | entity =>
    cases htry : tryEntity row d with
    | none => simp
    | some found =>
      obtain ⟨candidate, ord⟩ := found
      by_cases hkey : candidate = row.identityKey
      · simp only [hkey, if_true]
        exact tryEntity_some htry _ rfl rfl
      · simp [hkey]
  | relation =>
    by_cases hspan : tryRelation row d resolve = some row.identityKey
    · simp only [hspan, if_true]
      simpa [tryRelation, hcat] using hspan
    · by_cases hnospan : tryRelationNoSpan row d resolve = some row.identityKey
      · simp only [hspan, hnospan, if_true, if_false]
        simpa [tryRelationNoSpan, hcat] using hnospan
      · simp [hspan, hnospan]
  | diagnostic => simp
  | fact => simp
  | evidence => simp

end Reads

namespace StoreReader

def known (reader : StoreReader) (orig : Digest32 → Bytes) (id : Digest32) : Option Bytes :=
  (reader.get id).map (fun _ => orig id)

def Elides (reader : StoreReader) (orig : Digest32 → Bytes) : Prop :=
  ∀ row ∈ reader.rows, row.Reads reader.dicts (reader.known orig) (orig row.recordId)

def shorterRows (reader : StoreReader) (orig : Digest32 → Bytes) (key : Bytes) : ℕ :=
  reader.rows.countP (fun r => decide ((orig r.recordId).length < key.length))

variable {reader : StoreReader} {orig : Digest32 → Bytes}

theorem countP_lt_countP {α : Type} {p q : α → Bool} {xs : List α}
    (hpq : ∀ a ∈ xs, p a → q a) {a : α}
    (ha : a ∈ xs) (hq : q a) (hp : ¬ p a) : xs.countP p < xs.countP q := by
  obtain ⟨ys, zs, rfl⟩ := List.append_of_mem ha
  have hys : ys.countP p ≤ ys.countP q := List.countP_mono_left (fun b hb => hpq b (by simp [hb]))
  have hzs : zs.countP p ≤ zs.countP q := List.countP_mono_left (fun b hb => hpq b (by simp [hb]))
  simp only [List.countP_append, List.countP_cons, hq, hp, if_true]
  simp only [Bool.false_eq_true, if_false]
  omega

theorem shorterRows_lt {row : StoredRow} (hrow : row ∈ reader.rows) {key : Bytes}
    (hlt : (orig row.recordId).length < key.length) :
    reader.shorterRows orig (orig row.recordId) < reader.shorterRows orig key := by
  refine countP_lt_countP (fun r _ hr => ?_) hrow (by simpa using hlt) (by simp)
  rw [decide_eq_true_eq] at hr ⊢
  omega

theorem identityKeyWithin_succ (fuel : ℕ) (row : StoredRow) :
    reader.identityKeyWithin (fuel + 1) row =
      (match row.identityLayout with
        | .raw => none
        | .entity => entityCandidate row reader.dicts
        | .relation => relationCandidate row.toRecordFields reader.dicts
            (fun id => (reader.get id).map (reader.identityKeyWithin fuel))
        | .relationNoSpan => relationNoSpanCandidate row.toRecordFields reader.dicts
            (fun id => (reader.get id).map (reader.identityKeyWithin fuel))).getD row.ident := rfl

theorem StoredRow.Reads.identityKeyWithin {row : StoredRow} {fuel : ℕ} {key : Bytes}
    (h : row.Reads reader.dicts (fun id => (reader.get id).map (reader.identityKeyWithin fuel))
      key) :
    reader.identityKeyWithin (fuel + 1) row = key := by
  rw [identityKeyWithin_succ]
  unfold StoredRow.Reads at h
  cases hlayout : row.identityLayout with
  | raw =>
    rw [hlayout] at h
    exact h
  | entity =>
    rw [hlayout] at h
    simp only [h, Option.getD_some]
  | relation =>
    rw [hlayout] at h
    simp only [h, Option.getD_some]
  | relationNoSpan =>
    rw [hlayout] at h
    simp only [h, Option.getD_some]

theorem Elides.identityKeyWithin_eq (h : reader.Elides orig) (fuel : ℕ) {row : StoredRow}
    (hrow : row ∈ reader.rows) (hfuel : reader.shorterRows orig (orig row.recordId) < fuel) :
    reader.identityKeyWithin fuel row = orig row.recordId := by
  induction fuel generalizing row with
  | zero => omega
  | succ fuel ih =>
    refine StoredRow.Reads.identityKeyWithin ((h row hrow).transfer (Dictionaries.Sub.refl _) ?_)
    intro id key hknown hlt
    obtain ⟨found, hget, rfl⟩ := Option.map_eq_some_iff.mp hknown
    obtain ⟨hmem, hid⟩ := reader.get_some hget
    subst hid
    have hrank := shorterRows_lt hmem hlt
    rw [hget, Option.map_some, ih hmem (by omega)]

theorem Elides.identityKey_eq (h : reader.Elides orig) {row : StoredRow}
    (hrow : row ∈ reader.rows) :
    reader.identityKey row = orig row.recordId :=
  h.identityKeyWithin_eq _ hrow (Nat.lt_succ_of_le List.countP_le_length)

end StoreReader

section Written

theorem batchIndex_of_mem {rows : List RecordRow}
    (hnodup : (rows.map (fun row => row.recordId)).Nodup)
    {row : RecordRow} (hrow : row ∈ rows) :
    batchIndex rows row.recordId = some row.identityKey := by
  have hsome : (rows.reverse.find? (fun r => decide (r.recordId = row.recordId))).isSome := by
    rw [List.find?_isSome]
    exact ⟨row, by simpa using hrow, by simp⟩
  obtain ⟨found, hfound⟩ := Option.isSome_iff_exists.mp hsome
  have hid : found.recordId = row.recordId := by simpa using List.find?_some hfound
  have hmem : found ∈ rows := by simpa using List.mem_of_find?_eq_some hfound
  have heq : found = row := List.inj_on_of_nodup_map hnodup hmem hrow hid
  rw [batchIndex, hfound, heq]
  rfl

theorem batchIndex_some {rows : List RecordRow} {id : Digest32} {key : Bytes}
    (h : batchIndex rows id = some key) :
    ∃ row ∈ rows, row.recordId = id ∧ row.identityKey = key := by
  obtain ⟨row, hrow, rfl⟩ := Option.map_eq_some_iff.mp h
  exact ⟨row,
    by simpa using List.mem_of_find?_eq_some hrow, by simpa using List.find?_some hrow, rfl⟩

theorem StoreReader.known_of_mem {reader : StoreReader} {orig : Digest32 → Bytes} {row : StoredRow}
    (hrow : row ∈ reader.rows) : reader.known orig row.recordId = some (orig row.recordId) := by
  cases hget : reader.get row.recordId with
  | none => exact absurd rfl (reader.get_none hget row hrow)
  | some found =>
    rw [StoreReader.known, hget]
    rfl

theorem BaseInput.Built.dicts_eq {input : BaseInput} {ordered : List RecordRow} {seg : Segment}
    (h : input.Built ordered seg) (manifest : Manifest) :
    (StoreReader.load manifest seg []).dicts = input.fullDicts := by
  rw [← h.dict_eq]
  simp [StoreReader.load, Dictionaries.append, Dictionaries.empty]

theorem BaseInput.Built.load_rows {input : BaseInput} {ordered : List RecordRow} {seg : Segment}
    (_ : input.Built ordered seg) (manifest : Manifest) :
    (StoreReader.load manifest seg []).rows = seg.rows := by
  simp [StoreReader.rows, StoreReader.load]

theorem BaseInput.Built.elides {input : BaseInput} {ordered : List RecordRow} {seg : Segment}
    (h : input.Built ordered seg) (manifest : Manifest) {orig : Digest32 → Bytes}
    (horig : ∀ row ∈ input.rows, orig row.recordId = row.identityKey) :
    (StoreReader.load manifest seg []).Elides orig := by
  intro row hrow
  rw [h.load_rows, h.rows_eq] at hrow
  obtain ⟨written, hwritten, rfl⟩ := List.mem_map.mp hrow
  have hmem := h.perm.mem_iff.mp hwritten
  rw [h.dicts_eq, show orig (classifyIdentity written input.fullDicts
    (batchIndex input.rows)).recordId = written.identityKey from horig written hmem]
  refine (classifyIdentity_reads written _ _).transfer (Dictionaries.Sub.refl _) ?_
  intro id key hkey _
  obtain ⟨other, hother, rfl, rfl⟩ := batchIndex_some hkey
  rw [← horig other hother]
  have hstored : classifyIdentity other input.fullDicts (batchIndex input.rows) ∈
      (StoreReader.load manifest seg []).rows := by
    rw [h.load_rows, h.rows_eq]
    exact List.mem_map_of_mem (h.perm.mem_iff.mpr hother)
  exact StoreReader.known_of_mem hstored

def DeltaInput.originals (input : DeltaInput) (orig : Digest32 → Bytes) (id : Digest32) : Bytes :=
  (batchIndex input.opened id).getD (orig id)

variable {input : DeltaInput} {reader : StoreReader} {manifest : Manifest} {seg : Segment}
  {orig : Digest32 → Bytes}

structure DeltaInput.FreshIds (input : DeltaInput) (reader : StoreReader) : Prop where
  opened_nodup : (input.opened.map (fun row => row.recordId)).Nodup
  opened_fresh : ∀ row ∈ input.opened, ∀ old ∈ reader.rows, old.recordId ≠ row.recordId

theorem DeltaInput.Sound.freshIds (hs : input.Sound reader) : input.FreshIds reader :=
  ⟨hs.opened_nodup, hs.opened_fresh⟩

theorem DeltaInput.FreshIds.idsUnique (hs : input.FreshIds reader)
    (h : input.Built reader manifest seg)
    (hu : reader.IdsUnique) : (reader.extend manifest seg).IdsUnique := by
  unfold StoreReader.IdsUnique
  rw [StoreReader.extend_rows, List.map_append, List.nodup_append]
  refine ⟨(h.map_rows (fun r => r.recordId)).nodup_iff.mpr hs.opened_nodup, hu, ?_⟩
  intro id hid id' hid'
  obtain ⟨row, hrow, rfl⟩ := List.mem_map.mp hid
  obtain ⟨old, hold, rfl⟩ := List.mem_map.mp hid'
  obtain ⟨orig, horig, heq⟩ := h.mem_rows hrow
  rw [heq]
  exact (hs.opened_fresh orig horig old hold).symm

theorem DeltaInput.FreshIds.originals_old (hs : input.FreshIds reader) {row : StoredRow}
    (hrow : row ∈ reader.rows) : input.originals orig row.recordId = orig row.recordId := by
  unfold DeltaInput.originals
  cases hbatch : batchIndex input.opened row.recordId with
  | none => rfl
  | some key =>
    obtain ⟨opened, hopened, hid, -⟩ := batchIndex_some hbatch
    exact absurd hid.symm (hs.opened_fresh opened hopened row hrow)

theorem DeltaInput.FreshIds.originals_new (hs : input.FreshIds reader) {row : RecordRow}
    (hrow : row ∈ input.opened) : input.originals orig row.recordId = row.identityKey := by
  rw [DeltaInput.originals, batchIndex_of_mem hs.opened_nodup hrow]
  rfl

theorem DeltaInput.Built.dicts_eq (h : input.Built reader manifest seg)
    (hkinds : input.dictAdditions.entityKinds = []) :
    (reader.extend manifest seg).dicts = input.fullDicts reader := by
  change reader.dicts.append seg.dict = _
  rw [h.dict_eq]
  simp [Dictionaries.append, DeltaInput.dictSection, DeltaInput.fullDicts, withEntityKinds, hkinds]

theorem DeltaInput.Built.elides (h : input.Built reader manifest seg) (hs : input.FreshIds reader)
    (hkinds : input.dictAdditions.entityKinds = []) (he : reader.Elides orig) :
    (reader.extend manifest seg).Elides (input.originals orig) := by
  have hsub : reader.dicts.Sub (reader.extend manifest seg).dicts := Dictionaries.sub_append _ _
  have hknown : ∀ row ∈ reader.rows,
      (reader.extend manifest seg).known (input.originals orig) row.recordId =
        some (orig row.recordId) := by
    intro row hrow
    rw [StoreReader.known_of_mem
      (by rw [StoreReader.extend_rows]; exact List.mem_append_right _ hrow),
      hs.originals_old hrow]
  intro row hrow
  rw [StoreReader.extend_rows, List.mem_append] at hrow
  rcases hrow with hnew | hold
  · rw [h.rows_eq] at hnew
    obtain ⟨written, hwritten, rfl⟩ := List.mem_map.mp hnew
    have hopened := (mem_sortOn _ _ _).mp hwritten
    rw [h.dicts_eq hkinds, show input.originals orig
      (classifyIdentity written (input.fullDicts reader)
      (input.resolveIdentity reader)).recordId = written.identityKey from hs.originals_new hopened]
    refine (classifyIdentity_reads written _ _).transfer (Dictionaries.Sub.refl _) ?_
    intro id key hkey _
    unfold DeltaInput.resolveIdentity at hkey
    cases hbatch : batchIndex input.opened id with
    | some found =>
      rw [hbatch] at hkey
      obtain rfl := Option.some.inj hkey
      obtain ⟨other, hother, rfl, rfl⟩ := batchIndex_some hbatch
      have hstored :
          classifyIdentity other (input.fullDicts reader) (input.resolveIdentity reader) ∈
          (reader.extend manifest seg).rows := by
        rw [StoreReader.extend_rows, h.rows_eq]
        exact List.mem_append_left _ (List.mem_map_of_mem ((mem_sortOn _ _ _).mpr hother))
      have horig : input.originals orig other.recordId = other.identityKey :=
        hs.originals_new hother
      rw [← horig]
      exact StoreReader.known_of_mem hstored
    | none =>
      rw [hbatch] at hkey
      obtain ⟨found, hget, rfl⟩ := Option.map_eq_some_iff.mp hkey
      obtain ⟨hmem, rfl⟩ := reader.get_some hget
      rw [he.identityKey_eq hmem]
      exact hknown found hmem
  · rw [hs.originals_old hold]
    refine (he row hold).transfer hsub ?_
    intro id key hkey _
    obtain ⟨found, hget, rfl⟩ := Option.map_eq_some_iff.mp hkey
    obtain ⟨hmem, rfl⟩ := reader.get_some hget
    exact hknown found hmem

end Written

end StructuralStore
