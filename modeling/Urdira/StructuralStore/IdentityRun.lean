import Urdira.StructuralStore.Reopen
import Urdira.StructuralStore.EntitiesIndex

open ByteOrder KeyedSet MerkleBucket

namespace StructuralStore

open IdentityCodec

structure DeltaInput.Elidable (input : DeltaInput) (reader : StoreReader) : Prop where
  newer : reader.generation < input.generation
  fresh : input.FreshIds reader
  entityKinds : input.dictAdditions.entityKinds = []

inductive WrittenRun [Sha256] : Disk → (Digest32 → Option Bytes) → Prop
  | base {disk disk' : Disk} {input : BaseInput} {roots : Roots}
      (ids : (input.rows.map (fun row => row.recordId)).Nodup)
      (write : writeBaseWithPending disk input = .ok (disk', roots)) :
      WrittenRun disk' (batchIndex input.rows)
  | partitioned {disk disk' : Disk} {partitions : Partitions} {deps : List DependencyRow}
      {dicts : Dictionaries} {generation : ℕ} {pendingSites : List PendingSiteRow} {roots : Roots}
      (ids : (partitions.rows.map (fun row => row.recordId)).Nodup)
      (write : writeBasePartitionedWithPending disk partitions deps dicts generation pendingSites =
        .ok (disk', roots)) : WrittenRun disk' (batchIndex partitions.rows)
  | delta {disk disk' : Disk} {written : Digest32 → Option Bytes} {reader : StoreReader}
      {input : DeltaInput} {roots : Roots} (before : WrittenRun disk written)
      (opened : StoreReader.open disk = .ok reader) (elidable : input.Elidable reader)
      (write : writeDeltaWithReaderAndPending disk reader input = .ok (disk', roots)) :
      WrittenRun disk' (fun id => (batchIndex input.opened id).or (written id))
  | compact {disk disk' : Disk} {written : Digest32 → Option Bytes} {newGeneration : ℕ}
      {roots : Roots} (before : WrittenRun disk written)
      (write : StructuralStore.compact disk newGeneration = .ok (disk', roots)) :
      WrittenRun disk' written

def writtenKey (written : Digest32 → Option Bytes) (id : Digest32) : Bytes := (written id).getD []

structure Elided (disk : Disk) (reader : StoreReader) (written : Digest32 → Option Bytes) :
    Prop where
  opens : StoreReader.open disk = .ok reader
  ids : reader.IdsUnique
  elides : reader.Elides (writtenKey written)
  written : ∀ row ∈ reader.rows, written row.recordId = some (writtenKey written row.recordId)
  deltas_le : ∀ g ∈ reader.manifest.deltas, g ≤ reader.generation

section Calls

def StoreReader.EndpointCall (reader : StoreReader) (callee caller : StoredRow) : Prop :=
  (caller.identityLayout = .relation ∨ caller.identityLayout = .relationNoSpan) ∧
    ∃ ord id, (caller.sourceSubject = some ord ∨ caller.targetSubject = some ord) ∧
      reader.dicts.subjects[ord]? = some id ∧ reader.get id = some callee

variable {row : StoredRow} {d : Dictionaries} {resolve : Digest32 → Option Bytes} {key : Bytes}
  {e : Endpoints} {ord : ℕ} {id : Digest32}

theorem endpoints_resolve (h : endpoints row.toRecordFields d resolve = some e)
    (hsubject : row.sourceSubject = some ord ∨ row.targetSubject = some ord)
    (hid : d.subjects[ord]? = some id) :
    resolve id = some e.sourceKey ∨ resolve id = some e.targetKey := by
  unfold endpoints at h
  simp only [Option.bind_eq_bind, Option.bind_eq_some_iff] at h
  obtain ⟨kind, hkind, rel, hrel, source, hsource, target, htarget, sourceId, hsourceId, targetId,
    htargetId, sourceKey, hsourceKey, targetKey, htargetKey, he⟩ := h
  obtain rfl := Option.some.inj he
  rcases hsubject with hsubject | hsubject
  · obtain rfl := Option.some.inj (hsource.symm.trans hsubject)
    obtain rfl := Option.some.inj (hsourceId.symm.trans hid)
    exact Or.inl hsourceKey
  · obtain rfl := Option.some.inj (htarget.symm.trans hsubject)
    obtain rfl := Option.some.inj (htargetId.symm.trans hid)
    exact Or.inr htargetKey

theorem StoredRow.Reads.endpoint_shorter (h : row.Reads d resolve key)
    (hlayout : row.identityLayout = .relation ∨ row.identityLayout = .relationNoSpan)
    (hsubject : row.sourceSubject = some ord ∨ row.targetSubject = some ord)
    (hid : d.subjects[ord]? = some id) : ∃ k, resolve id = some k ∧ k.length < key.length := by
  unfold StoredRow.Reads at h
  rcases hlayout with hlayout | hlayout
  · rw [hlayout] at h
    simp only [relationCandidate, Option.bind_eq_bind, Option.bind_eq_some_iff] at h
    obtain ⟨path, -, e, he, hkey⟩ := h
    obtain rfl := Option.some.inj hkey
    rcases endpoints_resolve he hsubject hid with hk | hk
    · refine ⟨_, hk, ?_⟩
      simp only [reconstructRelation, List.length_append, List.length_singleton]
      omega
    · refine ⟨_, hk, ?_⟩
      simp only [reconstructRelation, List.length_append, List.length_singleton]
      omega
  · rw [hlayout] at h
    simp only [relationNoSpanCandidate, Option.bind_eq_bind, Option.bind_eq_some_iff] at h
    obtain ⟨e, he, hkey⟩ := h
    obtain rfl := Option.some.inj hkey
    rcases endpoints_resolve he hsubject hid with hk | hk
    · refine ⟨_, hk, ?_⟩
      simp only [reconstructRelationNoSpan, List.length_append, List.length_singleton]
      omega
    · refine ⟨_, hk, ?_⟩
      simp only [reconstructRelationNoSpan, List.length_append, List.length_singleton]
      omega

theorem StoreReader.Elides.call_shorter {reader : StoreReader} {orig : Digest32 → Bytes}
    (h : reader.Elides orig) {callee caller : StoredRow} (hcaller : caller ∈ reader.rows)
    (hcall : reader.EndpointCall callee caller) :
    callee ∈ reader.rows ∧ (orig callee.recordId).length < (orig caller.recordId).length := by
  obtain ⟨hlayout, ord, id, hsubject, hid, hget⟩ := hcall
  obtain ⟨hmem, rfl⟩ := reader.get_some hget
  obtain ⟨k, hk, hlt⟩ := (h caller hcaller).endpoint_shorter hlayout hsubject hid
  rw [StoreReader.known_of_mem hmem] at hk
  obtain rfl := Option.some.inj hk
  exact ⟨hmem, hlt⟩

theorem StoreReader.Elides.acc_endpointCall {reader : StoreReader} {orig : Digest32 → Bytes}
    (h : reader.Elides orig) {row : StoredRow} (hrow : row ∈ reader.rows) :
    Acc reader.EndpointCall row := by
  -- every call goes to a row whose key is strictly shorter, so the induction is on the key's length
  induction hn : (orig row.recordId).length using Nat.strong_induction_on generalizing row with
  | _ n ih =>
    refine Acc.intro row (fun callee hcall => ?_)
    obtain ⟨hmem, hlt⟩ := h.call_shorter hrow hcall
    exact ih _ (hn ▸ hlt) hmem rfl

end Calls

section Run

variable [Sha256] {disk disk' : Disk} {reader : StoreReader} {roots : Roots}
  {written : Digest32 → Option Bytes}

theorem publishBase_elided {input : BaseInput} {ordered : List RecordRow}
    {hs : ordered.Pairwise (fun a b => a.recordId ≤ b.recordId)}
    (ids : (input.rows.map (fun row => row.recordId)).Nodup) (hperm : ordered.Perm input.rows)
    (hwritten : ∀ row ∈ input.rows, written row.recordId = some row.identityKey)
    (h : publishBase disk input (input.sections ordered hs) = .ok (disk', roots)) :
    ∃ reader, Elided disk' reader written := by
  obtain ⟨seg, hbuilt, hpub, -⟩ := publishBase_spec hperm h
  have horig : ∀ row ∈ input.rows, writtenKey written row.recordId = row.identityKey := by
    intro row hrow
    rw [writtenKey, hwritten row hrow, Option.getD_some]
  refine ⟨StoreReader.load (baseManifest input.generation roots) seg [],
    open_ok_iff.mpr ⟨_, seg, [], hpub.opens, rfl⟩, hbuilt.idsUnique ids, hbuilt.elides _ horig, ?_,
    by simp [StoreReader.load, baseManifest]⟩
  intro row hrow
  rw [hbuilt.load_rows] at hrow
  obtain ⟨orig, hmem, heq⟩ := hbuilt.mem_rows hrow
  rw [heq, hwritten orig hmem, horig orig hmem]

theorem writeDelta_elided {input : DeltaInput} (hok : Elided disk reader written)
    (he : input.Elidable reader)
    (h : writeDeltaWithReaderAndPending disk reader input = .ok (disk', roots)) :
    ∃ reader', Elided disk' reader' (fun id => (batchIndex input.opened id).or (written id)) := by
  have hfresh : input.generation ∉ reader.manifest.deltas :=
    fun hmem => absurd (hok.deltas_le _ hmem) (not_le.mpr he.newer)
  obtain ⟨seg, hbuilt, hopen⟩ := open_written hok.opens hfresh h
  have hkeys : writtenKey (fun id => (batchIndex input.opened id).or (written id)) =
      input.originals (writtenKey written) := by
    funext id
    unfold writtenKey DeltaInput.originals
    dsimp only
    cases batchIndex input.opened id <;> rfl
  refine ⟨_, hopen, he.fresh.idsUnique hbuilt hok.ids, ?_, ?_, ?_⟩
  · rw [hkeys]
    exact hbuilt.elides he.fresh he.entityKinds hok.elides
  · intro row hrow
    rw [hkeys]
    rw [StoreReader.extend_rows, List.mem_append] at hrow
    rcases hrow with hnew | hold
    · obtain ⟨orig, horig, heq⟩ := hbuilt.mem_rows hnew
      have hid : row.recordId = orig.recordId := congrArg RecordFields.recordId heq
      rw [hid, batchIndex_of_mem he.fresh.opened_nodup horig, Option.some_or,
        he.fresh.originals_new horig]
    · rw [he.fresh.originals_old hold, ← hok.written row hold]
      cases hbatch : batchIndex input.opened row.recordId with
      | none => rfl
      | some key =>
        obtain ⟨opened, hopened, hid, -⟩ := batchIndex_some hbatch
        exact absurd hid.symm (he.fresh.opened_fresh opened hopened row hold)
  · intro g hg
    have hlist := List.mem_append.mp hg
    rcases hlist with hold | hnew
    · exact (hok.deltas_le g hold).trans he.newer.le
    · exact (List.mem_singleton.mp hnew).le

theorem compact_elided {newGeneration : ℕ} (hok : Elided disk reader written)
    (h : compact disk newGeneration = .ok (disk', roots)) :
    ∃ reader', Elided disk' reader' written := by
  unfold compact at h
  obtain ⟨reader', hopen, h⟩ := ExceptOk.bind_eq_ok h
  obtain rfl := Except.ok.inj (hok.opens.symm.trans hopen)
  have hvisible := reader.iterVisible_perm newGeneration
  refine publishBase_elided ?_ (sortOn_perm _ _) ?_ h
  · have hids : ((compactInput reader newGeneration).rows.map (fun row => row.recordId)) =
        (reader.iterVisible newGeneration).map (fun row => row.recordId) := by
      unfold compactInput
      rw [List.map_map]
      rfl
    rw [hids, (hvisible.map _).nodup_iff]
    exact hok.ids.sublist (List.filter_sublist.map _)
  · intro row hrow
    obtain ⟨stored, hstored, rfl⟩ := List.mem_map.mp hrow
    have hmem := (List.mem_filter.mp (hvisible.mem_iff.mp hstored)).1
    change written stored.recordId = some (reader.identityKey stored)
    rw [hok.elides.identityKey_eq hmem]
    exact hok.written stored hmem

theorem WrittenRun.elided (h : WrittenRun disk written) : ∃ reader, Elided disk reader written := by
  induction h with
  | base ids write =>
    exact publishBase_elided ids (sortOn_perm _ _)
      (fun row hrow => batchIndex_of_mem ids hrow) write
  | partitioned ids write =>
    exact publishBase_elided ids (List.Perm.refl _)
      (fun row hrow => batchIndex_of_mem ids hrow) write
  | delta before opened elidable write ih =>
    obtain ⟨reader', hok⟩ := ih
    obtain rfl := Except.ok.inj (hok.opens.symm.trans opened)
    exact writeDelta_elided hok elidable write
  | compact before write ih =>
    obtain ⟨reader, hok⟩ := ih
    exact compact_elided hok write

theorem identity_key_elision_lossless (h : WrittenRun disk written) :
    ∃ reader, StoreReader.open disk = .ok reader ∧ ∀ row ∈ reader.rows,
      written row.recordId = some (reader.identityKey row) ∧ Acc reader.EndpointCall row ∧
        ∀ fuel, reader.rows.length < fuel → reader.identityKeyWithin fuel row =
          reader.identityKey row := by
  obtain ⟨reader, hok⟩ := h.elided
  refine ⟨reader, hok.opens, fun row hrow => ⟨?_, hok.elides.acc_endpointCall hrow, ?_⟩⟩
  · rw [hok.elides.identityKey_eq hrow]
    exact hok.written row hrow
  · intro fuel hfuel
    rw [hok.elides.identityKey_eq hrow]
    exact hok.elides.identityKeyWithin_eq fuel hrow (List.countP_le_length.trans_lt hfuel)

end Run

section Instances

instance (input : DeltaInput) (reader : StoreReader) : Decidable (input.Elidable reader) :=
  decidable_of_iff
    (reader.generation < input.generation ∧ (input.opened.map (fun row => row.recordId)).Nodup ∧
      (∀ row ∈ input.opened, ∀ old ∈ reader.rows, old.recordId ≠ row.recordId) ∧
      input.dictAdditions.entityKinds = [])
    ⟨fun ⟨h₁, h₂, h₃, h₄⟩ => ⟨h₁, ⟨h₂, h₃⟩, h₄⟩, fun h => ⟨h.1, h.2.1, h.2.2, h.3⟩⟩

def functionKey : Bytes := utf8 "jsts:function:a.ts:7:f"

def functionBase : BaseInput where
  rows := [{ plainEntity (Block.fill 32 1) functionKey 7 1 with kindId := 1, nameId := 0 }]
  deps := []
  dicts :=
    { Dictionaries.empty with
      kinds := [utf8 "jsts:relation_calls", utf8 "jsts:entity_function"]
      names := [utf8 "f"]
      subjects := [Block.fill 32 1]
      artifactPaths := [utf8 "a.ts"] }
  generation := 1
  pendingSites := []

def selfCall : RecordRow :=
  { plainEntity (Block.fill 32 2)
      (reconstructRelation (utf8 "calls") (utf8 "a.ts") 20 0 functionKey functionKey) 20 2 with
    category := .relation
    sourceSubject := some 0
    targetSubject := some 0 }

theorem identity_key_elision_lossless_compacted :
    ∃ (reader : StoreReader) (written : Digest32 → Option Bytes) (row : StoredRow),
      row.identityLayout = .relation ∧ row.ident = [] ∧ Acc reader.EndpointCall row ∧
        written row.recordId = some (reader.identityKey row) := by
  let _ := fixedDigest
  have hscript : (do
      let first ← writeBaseWithPending Disk.empty functionBase
      let second ← replayDelta (fun reader input => input.Elidable reader) first
        (entityDelta [selfCall] 2)
      let third ← compact second.1 3
      let reader ← StoreReader.open third.1
      Except.ok (decide (∃ row ∈ reader.rows,
        row.identityLayout = IdentityLayout.relation ∧ row.ident = []))) =
      .ok true := by
    decide +kernel
  obtain ⟨⟨disk, roots⟩, hbase, hscript⟩ := ExceptOk.bind_eq_ok hscript
  obtain ⟨⟨disk', roots'⟩, hdelta, hscript⟩ := ExceptOk.bind_eq_ok hscript
  obtain ⟨⟨disk'', roots''⟩, hcompact, hscript⟩ := ExceptOk.bind_eq_ok hscript
  obtain ⟨reader, hopen, hscript⟩ := ExceptOk.bind_eq_ok hscript
  obtain ⟨row, hrow, hlayout, hident⟩ := of_decide_eq_true (Except.ok.inj hscript)
  obtain ⟨before, hbefore, hstep⟩ := ExceptOk.bind_eq_ok hdelta
  obtain ⟨helidable, hwrite⟩ := ExceptOk.ite_eq_ok hstep
  have hids : (functionBase.rows.map (fun row => row.recordId)).Nodup := by decide +kernel
  have hrun := ((WrittenRun.base hids hbase).delta hbefore helidable hwrite).compact hcompact
  obtain ⟨reader', hopen', hall⟩ := identity_key_elision_lossless hrun
  obtain rfl := Except.ok.inj (hopen.symm.trans hopen')
  obtain ⟨hkey, hacc, -⟩ := hall row hrow
  exact ⟨reader, fun id => (batchIndex (entityDelta [selfCall] 2).opened id).or
    (batchIndex functionBase.rows id), row, hlayout, hident, hacc, hkey⟩

end Instances

end StructuralStore
