import Urdira.IndexingWorker.RecordHistory

open ByteOrder KeyedSet MerkleBucket StructuralStore

namespace IndexingWorker

theorem InjectiveIds.mono {rows rows' : List RecordRow} (h : InjectiveIds rows')
    (hsub : rows ⊆ rows') :
    InjectiveIds rows where
  ids := fun a ha b hb => h.ids a (hsub ha) b (hsub hb)
  digests := fun a ha b hb => h.digests a (hsub ha) b (hsub hb)
  ids_ne_zero := fun a ha => h.ids_ne_zero a (hsub ha)

section Run

variable [Sha256] {disk disk' : Disk} {opened : List RecordRow} {generations : List Generation}
  {roots : Roots}

theorem writeBase_recorded {input : BaseInput}
    (cold : ∀ row ∈ input.rows, row.previousRecordId = zero ∧ row.validTo = 0 ∧
      row.validFrom ≤ input.generation)
    (ids : (input.rows.map (fun row => row.recordId)).Nodup)
    (identities : (identityKeyDigests input.rows).Nodup) (hinj : InjectiveIds input.rows)
    (write : writeBaseWithPending disk input = .ok (disk', roots)) :
    ∃ reader, StoreReader.open disk' = .ok reader ∧ Recorded reader input.rows := by
  obtain ⟨seg, hbuilt, hpub, -⟩ := publishBase_spec (sortOn_perm _ _) write
  have hrows : ∀ row ∈ (StoreReader.load (baseManifest input.generation roots) seg []).rows,
      ∃ orig ∈ input.rows, row.toRecordFields = orig.toRecordFields := by
    intro row hrow
    rw [hbuilt.load_rows] at hrow
    exact hbuilt.mem_rows hrow
  have hunique : (StoreReader.load (baseManifest input.generation roots) seg []).IdsUnique :=
    hbuilt.idsUnique ids
  refine ⟨StoreReader.load (baseManifest input.generation roots) seg [],
    open_ok_iff.mpr ⟨_, seg, [], hpub.opens, rfl⟩, ⟨hunique, ?_, ?_, ?_, ?_⟩, ?_, ⟨?_, ?_⟩, ?_⟩
  · intro row hrow
    obtain ⟨orig, horig, heq⟩ := hrows row hrow
    obtain ⟨-, hto, hfrom⟩ := cold orig horig
    rw [heq]
    exact ⟨hfrom, hto⟩
  · simp [StoreReader.load]
  · simp [StoreReader.load]
  · simp [StoreReader.load, baseManifest]
  · rw [hbuilt.load_rows]
    exact hbuilt.map_rows id
  · intro row hrow
    obtain ⟨orig, horig, heq⟩ := hrows row hrow
    rw [heq]
    exact hinj.ids_ne_zero orig horig
  · intro row hrow
    obtain ⟨orig, horig, heq⟩ := hrows row hrow
    rw [heq]
    exact Or.inl (cold orig horig).1
  · intro shown hshown row hrow hid
    have hstored := (List.mem_filter.mp hshown).1
    obtain ⟨orig, horig, heq⟩ := hrows shown hstored
    obtain ⟨orig', horig', heq'⟩ := hrows row hrow
    rw [heq, heq'] at hid
    obtain rfl := List.inj_on_of_nodup_map identities horig' horig hid
    refine Or.inl (List.inj_on_of_nodup_map hunique hrow hstored ?_)
    exact congrArg RecordFields.recordId (heq'.trans heq.symm)

theorem writeDelta_wellFormed {reader : StoreReader} {updates : List OwnerUpdate}
    {input : DeltaInput}
    (hopen : StoreReader.open disk = .ok reader) (hr : Recorded reader opened)
    (hd : DiffsOwners input reader updates) (hdist : OwnersDistinct updates)
    (hinj : InjectiveIds (opened ++ input.opened))
    (write : writeDeltaWithReaderAndPending disk reader input = .ok (disk', roots)) :
    Generation.WellFormed ⟨disk, updates, input, disk'⟩ ∧
      ∃ reader', StoreReader.open disk' = .ok reader' ∧
        Recorded reader' (opened ++ input.opened) := by
  have hfresh : input.generation ∉ reader.manifest.deltas :=
    fun hmem => absurd (hr.deltas_le _ hmem) (not_le.mpr hd.newer)
  obtain ⟨seg, hbuilt, hopen'⟩ := open_written hopen hfresh write
  have hr' := recorded_extend hr hd hdist hinj hbuilt
  refine ⟨⟨⟨reader, hopen, closures_visible hr hd⟩, _, hopen', hr'.visible_identities_nodup, ?_⟩,
    _, hopen', hr'⟩
  intro update hupdate pair
  exact owner_shows_next hr hd hdist hinj hbuilt hupdate pair

theorem DiffRun.recorded (h : DiffRun OwnersDistinct disk opened generations)
    (hinj : InjectiveIds opened) :
    (∃ reader, StoreReader.open disk = .ok reader ∧ Recorded reader opened) ∧
      ∀ step ∈ generations, step.WellFormed := by
  induction h with
  | base cold ids identities write =>
      exact ⟨writeBase_recorded cold ids identities hinj write, by simp⟩
  | generation before opens diffs admitted write ih =>
    obtain ⟨⟨reader', hopen, hr⟩, hall⟩ := ih (hinj.mono (List.subset_append_left _ _))
    obtain rfl := Except.ok.inj (hopen.symm.trans opens)
    obtain ⟨hstep, hnext⟩ := writeDelta_wellFormed hopen hr diffs admitted hinj write
    refine ⟨hnext, fun step hmem => ?_⟩
    rcases List.mem_append.mp hmem with hold | hnew
    · exact hall step hold
    · rw [List.mem_singleton.mp hnew]
      exact hstep

theorem owner_diffs_keep_history_well_formed (h : DiffRun OwnersDistinct disk opened generations)
    (hinj : InjectiveIds opened) :
    (opened.map (fun row => row.recordId)).Nodup ∧ ∀ step ∈ generations, step.WellFormed := by
  obtain ⟨⟨reader, -, hr⟩, hall⟩ := h.recorded hinj
  exact ⟨hr.opened_nodup, hall⟩

end Run

section Instances

instance (update : OwnerUpdate) : Decidable update.KernelCold :=
  decidable_of_iff
    ((∀ row ∈ update.next, row.ownerArtifact = update.owner) ∧
      ∀ row ∈ update.next, row.previousRecordId = zero ∧ row.validTo = 0)
    ⟨fun ⟨h₁, h₂⟩ => ⟨h₁, h₂⟩, fun h => ⟨h.1, h.2⟩⟩

instance : DecidablePred EachOwnerDistinct := fun updates =>
  inferInstanceAs (Decidable (∀ update ∈ updates, (identityKeyDigests update.next).Nodup))

instance : DecidablePred OwnersDistinct := fun updates =>
  inferInstanceAs (Decidable (identityKeyDigests (updates.flatMap OwnerUpdate.next)).Nodup)

instance (rows : List RecordRow) : Decidable (InjectiveIds rows) :=
  decidable_of_iff
    ((∀ a ∈ rows, ∀ b ∈ rows, a.recordId = b.recordId →
        a.recordDigest = b.recordDigest ∧ a.previousRecordId = b.previousRecordId) ∧
      (∀ a ∈ rows, ∀ b ∈ rows, a.recordDigest = b.recordDigest →
        a.identityKeyDigest = b.identityKeyDigest) ∧ ∀ a ∈ rows, a.recordId ≠ zero)
    ⟨fun ⟨h₁, h₂, h₃⟩ => ⟨h₁, h₂, h₃⟩, fun h => ⟨h.1, h.2, h.3⟩⟩

abbrev positionalDigest : Sha256 where
  digest := fun bytes => Block.fill 32 (Fin.ofNat 256
    (bytes.foldl (fun acc byte => (acc * 31 + byte.val) % 251) 7 + 1))

structure ReplayState where
  disk : Disk
  opened : List RecordRow
  generations : List Generation

section Replay

variable [Sha256] (distinct : List OwnerUpdate → Prop) [DecidablePred distinct]

def diffedDelta (reader : StoreReader) (updates : List OwnerUpdate) (generation : ℕ) : DeltaInput :=
  { entityDelta (updates.flatMap (fun update => (ownerDiff reader generation update).opened))
    generation with
    closures :=
      updates.flatMap (fun update => (ownerDiff reader generation update).recordClosures) }

def replayDiff (state : ReplayState) (updates : List OwnerUpdate) : Except Fault ReplayState := do
  let reader ← StoreReader.open state.disk
  if (updates.map OwnerUpdate.owner).Nodup ∧ (∀ update ∈ updates, update.KernelCold) ∧
    distinct updates then
    let input := diffedDelta reader updates (reader.generation + 1)
    let written ← writeDeltaWithReaderAndPending state.disk reader input
    .ok ⟨written.1, state.opened ++ input.opened,
      state.generations ++ [⟨state.disk, updates, input, written.1⟩]⟩
  else .error (.error "owner updates not admitted")

variable {distinct}

theorem replayDiff_run {state state' : ReplayState} {updates : List OwnerUpdate}
    (h : DiffRun distinct state.disk state.opened state.generations)
    (hstep : replayDiff distinct state updates = .ok state') :
    DiffRun distinct state'.disk state'.opened state'.generations := by
  obtain ⟨reader, hopen, hstep⟩ := ExceptOk.bind_eq_ok hstep
  obtain ⟨⟨howners, hcold, hdistinct⟩, hstep⟩ := ExceptOk.ite_eq_ok hstep
  obtain ⟨⟨disk', roots⟩, hwrite, hstep⟩ := ExceptOk.bind_eq_ok hstep
  obtain rfl := Except.ok.inj hstep
  exact h.generation hopen ⟨Nat.lt_succ_self _, howners, hcold, rfl, rfl⟩ hdistinct hwrite

theorem replayDiff_last {state state' : ReplayState} {updates : List OwnerUpdate}
    (hstep : replayDiff distinct state updates = .ok state') :
    ∃ step ∈ state'.generations, step.after = state'.disk := by
  obtain ⟨reader, hopen, hstep⟩ := ExceptOk.bind_eq_ok hstep
  obtain ⟨-, hstep⟩ := ExceptOk.ite_eq_ok hstep
  obtain ⟨⟨disk', roots⟩, hwrite, hstep⟩ := ExceptOk.bind_eq_ok hstep
  obtain rfl := Except.ok.inj hstep
  exact ⟨_, List.mem_append_right _ (List.mem_singleton.mpr rfl), rfl⟩

theorem replayDiffs_run {changes : List (List OwnerUpdate)} {state state' : ReplayState}
    (h : DiffRun distinct state.disk state.opened state.generations)
    (hrun : changes.foldlM (replayDiff distinct) state = .ok state') :
    DiffRun distinct state'.disk state'.opened state'.generations := by
  induction changes generalizing state with
  | nil =>
    cases hrun
    exact h
  | cons updates changes ih =>
    rw [List.foldlM_cons] at hrun
    obtain ⟨next, hstep, hrun⟩ := ExceptOk.bind_eq_ok hrun
    exact ih (replayDiff_run h hstep) hrun

end Replay

def ownedEntity (owner identity digest : ℕ) : RecordRow :=
  { plainEntity (Block.fill 32 (Fin.ofNat 256 digest)) (utf8 "jsts:function:a.ts:7:f") 7 1 with
    ownerArtifact := owner
    identityKeyDigest := Block.fill 32 (Fin.ofNat 256 identity) }

theorem owner_diffs_keep_history_well_formed_edited_back :
    ∃ (opened : List RecordRow) (generations : List Generation),
      opened.map (fun row => row.recordDigest) =
        [Block.fill 32 1, Block.fill 32 2, Block.fill 32 1] ∧
        (opened.map (fun row => row.recordId)).Nodup ∧ generations.length = 2 ∧
        ∀ step ∈ generations, step.WellFormed := by
  let _ := positionalDigest
  let base := entityBase [ownedEntity 0 9 1]
  have hscript : (do
      let first ← writeBaseWithPending Disk.empty base
      let state ← [[OwnerUpdate.mk 0 [ownedEntity 0 9 2]], [⟨0, [ownedEntity 0 9 1]⟩]].foldlM
        (replayDiff OwnersDistinct) ⟨first.1, base.rows, []⟩
      Except.ok (decide (InjectiveIds state.opened ∧ state.generations.length = 2 ∧
        state.opened.map (fun row : RecordRow => row.recordDigest) =
          [Block.fill 32 1, Block.fill 32 2, Block.fill 32 1]))) = .ok true := by
    decide +kernel
  obtain ⟨⟨disk, roots⟩, hbase, hscript⟩ := ExceptOk.bind_eq_ok hscript
  obtain ⟨state, hrun, hscript⟩ := ExceptOk.bind_eq_ok hscript
  obtain ⟨hinj, hlength, hdigests⟩ := of_decide_eq_true (Except.ok.inj hscript)
  have hstart : DiffRun OwnersDistinct disk base.rows [] :=
    .base (by decide +kernel) (by decide +kernel) (by decide +kernel) hbase
  obtain ⟨hnodup, hall⟩ := owner_diffs_keep_history_well_formed (replayDiffs_run hstart hrun) hinj
  exact ⟨state.opened, state.generations, hdigests, hnodup, hlength, hall⟩

theorem shared_identity_shows_twice :
    ¬ ∀ (_ : Sha256) (disk : Disk) (opened : List RecordRow) (generations : List Generation),
      DiffRun EachOwnerDistinct disk opened generations → InjectiveIds opened →
        (opened.map (fun row => row.recordId)).Nodup ∧ ∀ step ∈ generations, step.WellFormed := by
  intro hall
  let _ := positionalDigest
  let base := entityBase []
  have hscript : (do
      let first ← writeBaseWithPending Disk.empty base
      let state ← replayDiff EachOwnerDistinct ⟨first.1, base.rows, []⟩
        [⟨0, [ownedEntity 0 9 1]⟩, ⟨1, [ownedEntity 1 9 2]⟩]
      let reader ← StoreReader.open state.disk
      Except.ok (decide (InjectiveIds state.opened),
        decide (reader.visible.map (fun row : StoredRow => row.identityKeyDigest)).Nodup)) =
      .ok (true, false) := by
    decide +kernel
  obtain ⟨⟨disk, roots⟩, hbase, hscript⟩ := ExceptOk.bind_eq_ok hscript
  obtain ⟨state, hrun, hscript⟩ := ExceptOk.bind_eq_ok hscript
  obtain ⟨reader, hopen, hscript⟩ := ExceptOk.bind_eq_ok hscript
  obtain ⟨hinj, htwice⟩ := Prod.mk.inj (Except.ok.inj hscript)
  have hstart : DiffRun EachOwnerDistinct disk base.rows [] :=
    .base (by decide +kernel) (by decide +kernel) (by decide +kernel) hbase
  obtain ⟨-, hwell⟩ :=
    hall positionalDigest _ _ _ (replayDiff_run hstart hrun) (of_decide_eq_true hinj)
  obtain ⟨step, hstep, hafter⟩ := replayDiff_last hrun
  obtain ⟨reader', hopen', hnodup, -⟩ := (hwell step hstep).shows
  rw [hafter] at hopen'
  obtain rfl := Except.ok.inj (hopen.symm.trans hopen')
  exact of_decide_eq_false htwice hnodup

end Instances

end IndexingWorker
