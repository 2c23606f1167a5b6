import Urdira.StructuralStore.StoreRun

open ByteOrder KeyedSet MerkleBucket BucketedMerkleSet

namespace StructuralStore

section Frame

structure Disk.SameStore (disk disk' : Disk) (generation : ℕ) : Prop where
  manifest : disk'.manifest = disk.manifest
  bases : disk'.bases = disk.bases
  deltas : ∀ g, g ≠ generation → disk'.deltas g = disk.deltas g

theorem Disk.SameStore.refl (disk : Disk) (generation : ℕ) : disk.SameStore disk generation :=
  ⟨rfl, rfl, fun _ _ => rfl⟩

def FsStep.Unpublished (generation : ℕ) : FsStep → Prop
  | .createDelta g => g = generation
  | .fillDelta g _ => g = generation
  | .publishNext => False
  | _ => True

theorem Disk.SameStore.apply {disk disk' : Disk} {generation : ℕ}
    (h : disk.SameStore disk' generation)
    {step : FsStep} (hstep : step.Unpublished generation) :
    disk.SameStore (disk'.apply step) generation := by
  cases step with
  | createDelta g =>
    obtain rfl : g = generation := hstep
    refine ⟨h.manifest, h.bases, fun g' hg' => ?_⟩
    rw [← h.deltas g' hg']
    exact Function.update_of_ne hg' _ _
  | fillDelta g seg =>
    obtain rfl : g = generation := hstep
    refine ⟨h.manifest, h.bases, fun g' hg' => ?_⟩
    rw [← h.deltas g' hg']
    exact Function.update_of_ne hg' _ _
  | tree kind write => exact ⟨h.manifest, h.bases, h.deltas⟩
  | createManifestTmp => exact ⟨h.manifest, h.bases, h.deltas⟩
  | fillManifestTmp manifest => exact ⟨h.manifest, h.bases, h.deltas⟩
  | renameTmp =>
    simp only [Disk.apply]
    split
    · exact ⟨h.manifest, h.bases, h.deltas⟩
    · exact h
  | publishNext => exact hstep.elim

theorem Disk.SameStore.run {disk disk' : Disk} {generation : ℕ}
    (h : disk.SameStore disk' generation)
    {steps : List FsStep} (hsteps : ∀ step ∈ steps, step.Unpublished generation) :
    disk.SameStore (disk'.run steps) generation := by
  induction steps generalizing disk' with
  | nil => exact h
  | cons step steps ih =>
    exact ih (h.apply (hsteps step (by simp))) (fun s hs => hsteps s (by simp [hs]))

theorem recover_of_manifest {disk : Disk} {manifest : Manifest}
    (h : disk.manifest = some manifest) :
    (recover disk).manifest = some manifest ∧ (recover disk).trees = disk.trees ∧
      (recover disk).bases manifest.base = disk.bases manifest.base ∧
      ∀ g ∈ manifest.deltas, (recover disk).deltas g = disk.deltas g := by
  unfold recover
  rw [h]
  cases hnext : disk.manifestNext with
  | none =>
    refine ⟨?_, rfl, ?_, fun g hg => ?_⟩ <;> simp [removeOrphans, *]
  | some next =>
    by_cases hgen : next.generation = manifest.generation
    · refine ⟨?_, ?_, ?_, fun g hg => ?_⟩ <;> simp [removeOrphans, *]
    · refine ⟨?_, ?_, ?_, fun g hg => ?_⟩ <;> simp [removeOrphans, removeSegments, *]

theorem open_recover {disk disk' : Disk} {reader : StoreReader} {generation : ℕ}
    (hopen : StoreReader.open disk = .ok reader) (hsame : disk.SameStore disk' generation)
    (hfresh : generation ∉ reader.manifest.deltas) :
    StoreReader.open (recover disk') = .ok reader := by
  obtain ⟨manifest, base, deltas, hop, rfl⟩ := open_ok_iff.mp hopen
  have hmanifest : disk'.manifest = some manifest := hsame.manifest.trans hop.manifest_eq
  obtain ⟨hm, -, hb, hd⟩ := recover_of_manifest hmanifest
  refine open_ok_iff.mpr ⟨manifest, base, deltas, ⟨hm, ?_, ?_⟩, rfl⟩
  · rw [hb, hsame.bases]
    exact hop.base_eq
  · refine deltas_congr hop.deltas_eq (fun g hg => ?_)
    have hne : g ≠ generation := fun heq => hfresh (heq ▸ hg)
    rw [hd g hg, hsame.deltas g hne]

end Frame

section Quiet

def TreeWrite.Rewrites (file : TreeFile) : TreeWrite → Prop
  | .node depth idx value => file.nodeLevels depth idx = value
  | .bucket idx value => file.bucketLevel idx = value
  | .header _ _ count _ => file.count = count

def FsStep.Quiet (disk : Disk) : FsStep → Prop
  | .tree kind write => ∀ file, disk.trees kind = some file → TreeWrite.Rewrites file write
  | _ => True

def Disk.SameTrees (disk disk' : Disk) : Prop :=
  ∀ kind, (disk'.trees kind).map (fun file => (readFrom file).1) =
    (disk.trees kind).map (fun file => (readFrom file).1)

theorem readFrom_apply_of_rewrites {file : TreeFile} {write : TreeWrite}
    (h : TreeWrite.Rewrites file write) : (readFrom (file.apply write)).1 = (readFrom file).1 := by
  cases write with
  | node depth idx value =>
    obtain rfl : file.nodeLevels depth idx = value := h
    simp [TreeFile.apply, readFrom]
  | bucket idx value =>
    obtain rfl : file.bucketLevel idx = value := h
    simp [TreeFile.apply, readFrom]
  | header kind generation count root =>
    obtain rfl : file.count = count := h
    rfl

theorem rewrites_congr {file file' : TreeFile} (h : (readFrom file).1 = (readFrom file').1)
    (write : TreeWrite) : TreeWrite.Rewrites file write ↔ TreeWrite.Rewrites file' write := by
  simp only [readFrom, BucketedMerkleSet.mk.injEq] at h
  obtain ⟨hnodes, hbuckets, -, hcount⟩ := h
  cases write with
  | node depth idx value => rw [TreeWrite.Rewrites, TreeWrite.Rewrites, hnodes]
  | bucket idx value => rw [TreeWrite.Rewrites, TreeWrite.Rewrites, hbuckets]
  | header kind generation count root => rw [TreeWrite.Rewrites, TreeWrite.Rewrites, hcount]

theorem Disk.SameTrees.apply {disk disk' : Disk} (h : disk.SameTrees disk') {step : FsStep}
    (hstep : step.Quiet disk) : disk.SameTrees (disk'.apply step) := by
  cases step with
  | createDelta g => exact h
  | fillDelta g seg => exact h
  | tree kind write =>
    intro kind'
    by_cases hkind : kind' = kind
    · subst hkind
      rw [← h kind']
      have hsame := h kind'
      cases hfile' : disk'.trees kind' with
      | none => simp [Disk.apply, hfile']
      | some file' =>
        cases hfile : disk.trees kind' with
        | none => rw [hfile, hfile'] at hsame; cases hsame
        | some file =>
          rw [hfile, hfile'] at hsame
          have hread : (readFrom file').1 = (readFrom file).1 := Option.some.inj hsame
          have hrewrites := (rewrites_congr hread write).mpr (hstep file hfile)
          simp [Disk.apply, hfile', readFrom_apply_of_rewrites hrewrites]
    · rw [← h kind']
      simp [Disk.apply, Function.update_of_ne hkind]
  | createManifestTmp => exact h
  | fillManifestTmp manifest => exact h
  | renameTmp =>
    simp only [Disk.apply]
    split
    · exact h
    · exact h
  | publishNext =>
    simp only [Disk.apply]
    split
    · exact h
    · exact h

theorem Disk.SameTrees.run {disk disk' : Disk} (h : disk.SameTrees disk') {steps : List FsStep}
    (hsteps : ∀ step ∈ steps, step.Quiet disk) : disk.SameTrees (disk'.run steps) := by
  induction steps generalizing disk' with
  | nil => exact h
  | cons step steps ih =>
    exact ih (h.apply (hsteps step (by simp))) (fun s hs => hsteps s (by simp [hs]))

theorem Disk.SameTrees.exists_tree {disk disk' : Disk} (h : disk.SameTrees disk') {kind : SetKind}
    {S : List (Digest32 × Digest32)} [Sha256]
    (htree : ∃ file, disk.trees kind = some file ∧ (readFrom file).1.Represents S) :
    ∃ file, disk'.trees kind = some file ∧ (readFrom file).1.Represents S := by
  obtain ⟨file, hfile, hset⟩ := htree
  have hsame := h kind
  rw [hfile] at hsame
  obtain ⟨file', hfile', hread⟩ := Option.map_eq_some_iff.mp hsame
  exact ⟨file', hfile', hread ▸ hset⟩

end Quiet

section Plan

variable [Sha256]

variable {disk : Disk} {reader : StoreReader} {input : DeltaInput} {plan : DeltaPlan}

def DeltaPlan.unpublishedSteps (plan : DeltaPlan) : List FsStep :=
  [.createDelta plan.manifest.generation, .fillDelta plan.manifest.generation plan.segment] ++
    plan.recordSteps ++ plan.depSteps ++
    [.createManifestTmp, .fillManifestTmp plan.manifest, .renameTmp]

omit [Sha256] in
theorem DeltaPlan.steps_eq (plan : DeltaPlan) :
    plan.steps = plan.unpublishedSteps ++ [.publishNext] := by
  simp [DeltaPlan.steps, DeltaPlan.unpublishedSteps]

theorem unpublishedSteps_unpublished (h : planDelta disk reader input = .ok plan) :
    ∀ step ∈ plan.unpublishedSteps, step.Unpublished input.generation := by
  obtain ⟨hbuilt, -, ⟨rwrites, hr⟩, dwrites, hd⟩ := planDelta_spec h
  intro step hstep
  simp only [DeltaPlan.unpublishedSteps, hr, hd, List.mem_append, List.mem_cons, List.mem_map,
    List.not_mem_nil, or_false] at hstep
  rcases hstep with (((rfl | rfl) | ⟨w, -, rfl⟩) | ⟨w, -, rfl⟩) | rfl | rfl | rfl
  · exact hbuilt.manifest_generation
  · exact hbuilt.manifest_generation
  all_goals trivial

omit [Sha256] in
theorem take_steps_of_lt {k : ℕ} (hk : k < plan.steps.length) :
    plan.steps.take k = plan.unpublishedSteps.take k := by
  rw [plan.steps_eq, List.length_append, List.length_singleton] at hk
  rw [plan.steps_eq, List.take_append_of_le_length (by omega)]

theorem open_stopped (hopen : StoreReader.open disk = .ok reader) (hl : reader.Ledger)
    (hv : input.Valid reader) (hplan : planDelta disk reader input = .ok plan) {k : ℕ}
    (hk : k < plan.steps.length) :
    StoreReader.open (recover (disk.run (plan.steps.take k))) = .ok reader := by
  have hsame := Disk.SameStore.refl disk input.generation
  refine open_recover hopen (hsame.run ?_) ?_
  · intro step hstep
    rw [take_steps_of_lt hk] at hstep
    exact unpublishedSteps_unpublished hplan step (List.mem_of_mem_take hstep)
  · exact hl.newer_notMem hv.newer

theorem publishNext_mem_take (h : planDelta disk reader input = .ok plan) (k : ℕ) :
    FsStep.publishNext ∈ plan.steps.take k ↔ plan.steps.length ≤ k := by
  constructor
  · intro hmem
    by_contra hlt
    rw [take_steps_of_lt (not_le.mp hlt)] at hmem
    exact unpublishedSteps_unpublished h _ (List.mem_of_mem_take hmem)
  · intro hle
    rw [List.take_of_length_le hle, plan.steps_eq]
    simp

end Plan

section Run

structure StoreReader.SameVisible (reader reader' : StoreReader) : Prop where
  records : reader'.visible = reader.visible
  deps : reader'.visibleDeps = reader.visibleDeps
  pending : reader'.visiblePending = reader.visiblePending

variable [Sha256]

inductive CrashRun (admits : StoreReader → DeltaInput → Prop) (stops : Disk → List FsStep → Prop) :
    Disk → Prop
  | store {disk : Disk} {roots : Roots} (written : StoreRun BaseInput.Valid admits disk roots) :
    CrashRun admits stops disk
  | delta {disk disk' : Disk} {roots : Roots} {reader : StoreReader} {input : DeltaInput}
      (before : CrashRun admits stops disk) (opened : StoreReader.open disk = .ok reader)
      (admitted : admits reader input)
      (write : writeDeltaWithReaderAndPending disk reader input = .ok (disk', roots)) :
      CrashRun admits stops disk'
  | stop {disk : Disk} {reader : StoreReader} {input : DeltaInput} {plan : DeltaPlan} {k : ℕ}
      (before : CrashRun admits stops disk) (opened : StoreReader.open disk = .ok reader)
      (admitted : admits reader input) (planned : planDelta disk reader input = .ok plan)
      (stopped : stops disk (plan.steps.take k)) :
      CrashRun admits stops (recover (disk.run (plan.steps.take k)))

def HarmlessStop (disk : Disk) (executed : List FsStep) : Prop :=
  (∀ step ∈ executed, step.Quiet disk) ∨ FsStep.publishNext ∈ executed

variable {disk disk' : Disk} {reader : StoreReader} {input : DeltaInput} {plan : DeltaPlan}

theorem StoreOk.recover {generation : ℕ} (hok : StoreOk disk reader)
    (hsame : disk.SameStore disk' generation) (hfresh : generation ∉ reader.manifest.deltas)
    (htrees : disk.SameTrees disk') : StoreOk (StructuralStore.recover disk') reader := by
  obtain ⟨manifest, base, deltas, hop, heq⟩ := open_ok_iff.mp hok.opens
  have hmanifest : disk'.manifest = some manifest := hsame.manifest.trans hop.manifest_eq
  have hrecovered := (recover_of_manifest hmanifest).2.1
  refine ⟨open_recover hok.opens hsame hfresh, hok.ledger, ⟨?_, ?_⟩, hok.manifest_roots⟩
  · rw [hrecovered]
    exact htrees.exists_tree hok.trees.records
  · rw [hrecovered]
    exact htrees.exists_tree hok.trees.dependency

theorem StoreOk.stop (hok : StoreOk disk reader) (hv : input.Valid reader)
    (hd : input.Distinct reader)
    (hplan : planDelta disk reader input = .ok plan) {k : ℕ}
    (hstop : HarmlessStop disk (plan.steps.take k)) :
    ∃ reader', StoreOk (StructuralStore.recover (disk.run (plan.steps.take k))) reader' := by
  have hsame := Disk.SameStore.refl disk input.generation
  have htrees : disk.SameTrees disk := fun _ => rfl
  by_cases hk : k < plan.steps.length
  · rcases hstop with hquiet | hpublished
    · refine ⟨reader, hok.recover (hsame.run ?_) (hok.ledger.newer_notMem hv.newer)
        (htrees.run hquiet)⟩
      intro step hstep
      rw [take_steps_of_lt hk] at hstep
      exact unpublishedSteps_unpublished hplan step (List.mem_of_mem_take hstep)
    · exact absurd ((publishNext_mem_take hplan k).mp hpublished) (not_le.mpr hk)
  · obtain ⟨plan', records, dependency, hplan', h⟩ :=
      planDelta_ok hok.ledger hok.trees hv.sound hv.pending_nodup hd
    obtain rfl := Except.ok.inj (hplan.symm.trans hplan')
    have hok' := h.storeOk hok hv.sound
    rw [List.take_of_length_le (not_lt.mp hk)]
    exact ⟨_, hok'.recover (Disk.SameStore.refl _ _) (hok'.ledger.newer_notMem (Nat.lt_succ_self _))
      (fun _ => rfl)⟩

theorem CrashRun.storeOk
    (h : CrashRun (fun reader input => input.Valid reader ∧ input.Distinct reader)
      HarmlessStop disk) :
    ∃ reader, StoreOk disk reader := by
  induction h with
  | store written =>
    obtain ⟨reader, hok, -⟩ := written.storeOk
    exact ⟨reader, hok⟩
  | delta before opened admitted write ih =>
    obtain ⟨reader, hok⟩ := ih
    obtain rfl := Except.ok.inj (hok.opens.symm.trans opened)
    obtain ⟨disk', reader', hwrite, hok'⟩ := writeDelta_ok hok admitted.1 admitted.2
    rw [hwrite] at write
    cases write
    exact ⟨reader', hok'⟩
  | stop before opened admitted planned stopped ih =>
    obtain ⟨reader, hok⟩ := ih
    obtain rfl := Except.ok.inj (hok.opens.symm.trans opened)
    exact hok.stop admitted.1 admitted.2 planned stopped

def CrashVisible (disk : Disk) : Prop :=
  ∀ reader input plan k, StoreReader.open disk = .ok reader → input.Valid reader →
    planDelta disk reader input = .ok plan →
    ∃ reader', StoreReader.open (recover (disk.run (plan.steps.take k))) = .ok reader' ∧
      (FsStep.publishNext ∉ plan.steps.take k → reader.SameVisible reader') ∧
      (FsStep.publishNext ∈ plan.steps.take k →
        ∃ published, StoreReader.open (disk.run plan.steps) = .ok published ∧
          published.SameVisible reader')

theorem StoreOk.crashVisible (hok : StoreOk disk reader) : CrashVisible disk := by
  intro reader' input plan k hopen hv hplan
  obtain rfl := Except.ok.inj (hok.opens.symm.trans hopen)
  have hmem := publishNext_mem_take hplan k
  by_cases hk : k < plan.steps.length
  · refine ⟨reader, open_stopped hopen hok.ledger hv hplan hk, fun _ => ⟨rfl, rfl, rfl⟩, ?_⟩
    intro hpublished
    exact absurd (hmem.mp hpublished) (not_le.mpr hk)
  · have hpub := open_published hopen hok.ledger hv.sound hplan
    have hl' := (planDelta_spec hplan).1.ledger hok.ledger hv.sound
    rw [List.take_of_length_le (not_lt.mp hk)] at hmem ⊢
    refine ⟨reader.extend plan.manifest plan.segment, ?_, ?_, fun _ => ⟨_, hpub, rfl, rfl, rfl⟩⟩
    · exact open_recover hpub (Disk.SameStore.refl _ _) (hl'.newer_notMem (Nat.lt_succ_self _))
    · intro hnot
      exact absurd (hmem.mpr (not_lt.mp hk)) hnot

def LaterRootsAgree (disk : Disk) : Prop :=
  ∀ reader input disk' roots, StoreReader.open disk = .ok reader → input.Valid reader →
    input.Distinct reader → writeDeltaWithReaderAndPending disk reader input = .ok (disk', roots) →
    RootsAgree disk' roots

theorem crash_recovery_atomic
    (h : CrashRun (fun reader input => input.Valid reader ∧ input.Distinct reader)
      HarmlessStop disk) :
    CrashVisible disk ∧ LaterRootsAgree disk ∧
      ∀ reader input, StoreReader.open disk = .ok reader → input.Valid reader →
        input.Distinct reader →
        ∃ written, writeDeltaWithReaderAndPending disk reader input = .ok written := by
  obtain ⟨reader, hok⟩ := h.storeOk
  have hdelta : ∀ reader' input, StoreReader.open disk = .ok reader' → input.Valid reader' →
      input.Distinct reader' → ∃ disk' reader'',
        writeDeltaWithReaderAndPending disk reader' input = .ok (disk', reader''.roots) ∧
          StoreOk disk' reader'' := by
    intro reader' input hopen hv hd
    obtain rfl := Except.ok.inj (hok.opens.symm.trans hopen)
    exact writeDelta_ok hok hv hd
  refine ⟨hok.crashVisible, ?_, ?_⟩
  · intro reader' input disk' roots hopen hv hd hwrite
    obtain ⟨written, reader'', hwritten, hok'⟩ := hdelta reader' input hopen hv hd
    rw [hwritten] at hwrite
    cases hwrite
    exact hok'.rootsAgree
  · intro reader' input hopen hv hd
    obtain ⟨written, reader'', hwritten, -⟩ := hdelta reader' input hopen hv hd
    exact ⟨_, hwritten⟩

end Run

section Instances

theorem stopped_before_publish_corrupts_root :
    ¬ ∀ (_ : Sha256) (disk : Disk),
      CrashRun (fun reader input => input.Valid reader ∧ input.Distinct reader)
        (fun _ _ => True) disk →
        LaterRootsAgree disk := by
  intro hall
  let _ := fixedDigest
  let base := dependencyBase []
  let first := dependencyDelta [plainDependency (Block.fill 32 1) 0 2] [] 2
  let second := dependencyDelta [] [] 2
  have hscript : (do
      let state ← writeBaseWithPending Disk.empty base
      let reader ← StoreReader.open state.1
      let plan ← planDelta state.1 reader first
      let disk := recover (state.1.run (plan.steps.take (plan.steps.length - 4)))
      let reader' ← StoreReader.open disk
      let state' ← writeDeltaWithReaderAndPending disk reader' second
      Except.ok (decide (first.Valid reader ∧ first.Distinct reader),
        decide (second.Valid reader' ∧ second.Distinct reader'),
        decide (RootsAgree state'.1 state'.2))) = .ok (true, true, false) := by
    decide +kernel
  obtain ⟨⟨disk, roots⟩, hbase, hscript⟩ := ExceptOk.bind_eq_ok hscript
  obtain ⟨reader, hopen, hscript⟩ := ExceptOk.bind_eq_ok hscript
  obtain ⟨plan, hplan, hscript⟩ := ExceptOk.bind_eq_ok hscript
  obtain ⟨reader', hopen', hscript⟩ := ExceptOk.bind_eq_ok hscript
  obtain ⟨⟨disk', roots'⟩, hwrite, hscript⟩ := ExceptOk.bind_eq_ok hscript
  simp only [Except.ok.injEq, Prod.mk.injEq, decide_eq_true_eq, decide_eq_false_iff_not] at hscript
  obtain ⟨hfirst, hsecond, hroots⟩ := hscript
  have hvalid : base.Valid := by decide +kernel
  have hrun : CrashRun (fun reader input => input.Valid reader ∧ input.Distinct reader)
      (fun _ _ => True) (recover (disk.run (plan.steps.take (plan.steps.length - 4)))) :=
    CrashRun.stop (CrashRun.store (StoreRun.base hvalid hbase)) hopen hfirst hplan trivial
  exact hroots (hall fixedDigest _ hrun reader' second disk' roots' hopen' hsecond.1
    hsecond.2 hwrite)

theorem crash_recovery_atomic_before_trees :
    ∃ disk, (@CrashRun fixedDigest (fun reader input => input.Valid reader ∧
        @DeltaInput.Distinct fixedDigest input reader) HarmlessStop disk) ∧
      @CrashVisible fixedDigest disk ∧ @LaterRootsAgree fixedDigest disk := by
  let _ := fixedDigest
  let base := dependencyBase [plainDependency (Block.fill 32 2) 0 1]
  let first := dependencyDelta [plainDependency (Block.fill 32 1) 0 2] [] 2
  have hscript : (do
      let state ← writeBaseWithPending Disk.empty base
      let reader ← StoreReader.open state.1
      let plan ← planDelta state.1 reader first
      Except.ok (decide (first.Valid reader ∧ first.Distinct reader))) = .ok true := by
    decide +kernel
  obtain ⟨⟨disk, roots⟩, hbase, hscript⟩ := ExceptOk.bind_eq_ok hscript
  obtain ⟨reader, hopen, hscript⟩ := ExceptOk.bind_eq_ok hscript
  obtain ⟨plan, hplan, hscript⟩ := ExceptOk.bind_eq_ok hscript
  have hfirst := of_decide_eq_true (Except.ok.inj hscript)
  have hvalid : base.Valid := by decide +kernel
  have hquiet : HarmlessStop disk (plan.steps.take 2) := by
    refine Or.inl (fun step hstep => ?_)
    have htake : plan.steps.take 2 = [.createDelta plan.manifest.generation,
        .fillDelta plan.manifest.generation plan.segment] := by
      simp [DeltaPlan.steps]
    rw [htake] at hstep
    rcases List.mem_cons.mp hstep with rfl | hstep
    · trivial
    · rw [List.mem_singleton] at hstep
      subst hstep
      trivial
  have hrun : CrashRun (fun reader input => input.Valid reader ∧ input.Distinct reader)
      HarmlessStop (recover (disk.run (plan.steps.take 2))) :=
    CrashRun.stop (CrashRun.store (StoreRun.base hvalid hbase)) hopen hfirst hplan hquiet
  have hatomic := crash_recovery_atomic hrun
  exact ⟨_, hrun, hatomic.1, hatomic.2.1⟩

end Instances

end StructuralStore
