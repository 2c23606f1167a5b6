import Urdira.Engine.SpoolReading

open ByteOrder Canonical MerkleBucket RowLedger TextCodec

namespace Engine

namespace Spool

abbrev Answer := Except SpoolError (Option StageSetHandle)

def Call.sealing : Call → Option (Coordinates × List QueryStreamItem)
  | .put c items => some (c, items)
  | .putIterable c values => some (c, values.items)
  | .cleanup _ => none

section Agreement

variable [Sha256] [LocaleCompare] {memory : MemoryStageSpool} {sqlite : SqliteStageSpool}
  {outputs : Outputs}
  {c : Coordinates} {values : Values} {call : Call}

def memberRoot (items : List QueryStreamItem) : Except SpoolError Canonical.JsString :=
  (memberTree items).map (fun tree => sha256Text (nibbles tree.root.bytes))

inductive SameAnswer (call : Call) : Answer → Answer → Prop where
  | failed (fault : SpoolError) : SameAnswer call (.error fault) (.error fault)
  | cleaned (hcall : call.sealing = none) : SameAnswer call (.ok none) (.ok none)
  | handles {c : Coordinates} {items : List QueryStreamItem} {handle : StageSetHandle}
      {root : Canonical.JsString}
      (hcall : call.sealing = some (c, items)) (hcopied : stageSetHandle c items .declared =
        .ok handle)
      (hmembers : memberRoot items = .ok root) :
      SameAnswer call (.ok (some handle))
        (.ok (some { handle with root := root, source := .paged }))

theorem SameAnswer.sealAfter {answer answer' : Answer} (h : SameAnswer call answer answer') :
    sealAfter outputs call answer' = sealAfter outputs call answer := by
  cases h with
  | failed fault => rfl
  | cleaned hcall => rfl
  | handles hcall hcopied hmembers => rfl

structure Alike (memory : MemoryStageSpool) (sqlite : SqliteStageSpool) (outputs : Outputs) :
    Prop where
  memorySound : memory.Sound outputs
  sqliteSound : sqlite.Sound outputs
  limits : memory.limits = sqlite.limits

omit [Sha256] [LocaleCompare] in
theorem Alike.used (h : Alike memory sqlite outputs) : memory.used = sqlite.used := by
  have hmemory := h.memorySound.exact
  have hsqlite := h.sqliteSound.exact
  have hbytes : StageSpool.bytes (.memory memory) = StageSpool.bytes (.sqlite sqlite) := by
    rw [hmemory.bytes, hmemory.nothingElse, hsqlite.bytes, hsqlite.nothingElse]
  exact hbytes

theorem Alike.put (h : Alike memory sqlite outputs) (hcall : call.sealing = some (c, values.items))
    (hcalm : StageSpool.PutAccountable c values StageSpool.working (.sqlite sqlite)) :
    SameAnswer call ((memory.putIterable c values).2.map some)
      ((sqlite.putIterable c values StageSpool.working).2.map some) := by
  have hheld : StageSpool.heldRows c (.sqlite sqlite) = heldAt (SqliteStageSpool.stored sqlite.rows)
      (SqliteStageSpool.storedKey c) := (SqliteStageSpool.heldAt_stored sqlite.rows c).symm
  rw [MemoryStageSpool.putIterable, SqliteStageSpool.putIterable, SqliteStageSpool.transaction,
    ← h.limits, ← h.used]
  cases hrun : consumed memory.limits.hardBytes (memory.limits.hardBytes - memory.used) values with
  | error fault =>
    rw [consumedMembers_error hrun]
    exact .failed fault
  | ok bytes =>
    obtain ⟨root, hset⟩ := setRoot_succeeds (consumed_payloads hrun)
    have hhandle : stageSetHandle c values.items .declared =
        .ok (stageSetHandleMetadata c values.items.length root .declared
          (.copied values.items)) := by
      rw [stageSetHandle, hset]
      rfl
    obtain ⟨tree, htree, hmembers⟩ := consumedMembers_ok hrun
    have hroot : memberRoot values.items = .ok (sha256Text (nibbles tree.root.bytes)) := by
      rw [memberRoot, htree]
      rfl
    have hinsert :
        SqliteStageSpool.insertRows sqlite.rows (SqliteStageSpool.rowsFrom c 0 values.items) =
        .ok (sqlite.rows ++ SqliteStageSpool.rowsFrom c 0 values.items) := by
      rcases hcalm with hfresh | hfails | hempty
      · rw [hheld] at hfresh
        exact SqliteStageSpool.insertRows_ok
          (fun row hrow hkey => absurd hkey (SqliteStageSpool.no_row_of_fresh hfresh row hrow))
      · cases hfails
      · rw [hempty.1, SqliteStageSpool.rowsFrom, SqliteStageSpool.insertRows, List.append_nil]
    rw [hmembers, hhandle]
    simp only [bind, Except.bind, hinsert]
    exact .handles hcall hhandle hroot

theorem Alike.sealed_put (h : Alike memory sqlite outputs)
    (hcalm : StageSpool.PutAccountable c values StageSpool.working (.memory memory))
    (hcalm' : StageSpool.PutAccountable c values StageSpool.working (.sqlite sqlite))
    (hcall : call.sealing = some (c, values.items))
    (hseal : ∀ answer, sealAfter outputs call (.ok answer) =
      outputs ++ [(c, values.items.map payloadBytes)]) :
    Alike (memory.putIterable c values).1 (sqlite.putIterable c values StageSpool.working).1
      (sealAfter outputs call ((memory.putIterable c values).2.map some)) := by
  have hlimits : (memory.putIterable c values).1.limits =
      (sqlite.putIterable c values StageSpool.working).1.limits := by
    rw [MemoryStageSpool.limits_putIterable, SqliteStageSpool.limits_putIterable, h.limits]
  have hsame := h.put hcall hcalm'
  rcases h.memorySound.putIterable hcalm with ⟨fault, hput⟩ | ⟨next, handle, hput, hnext⟩
  · rw [hput] at hsame hlimits ⊢
    rcases h.sqliteSound.putIterable hcalm' with ⟨fault', hput'⟩ | ⟨next', handle', hput', -⟩
    · rw [hput'] at hlimits ⊢
      exact ⟨h.memorySound, h.sqliteSound, hlimits⟩
    · rw [hput'] at hsame
      cases hsame
  · rw [hput] at hsame hlimits ⊢
    rcases h.sqliteSound.putIterable hcalm' with ⟨fault', hput'⟩ | ⟨next', handle', hput', hnext'⟩
    · rw [hput'] at hsame
      cases hsame
    · rw [hput'] at hlimits ⊢
      change Alike next next' (sealAfter outputs call (.ok (some handle)))
      rw [hseal]
      exact ⟨hnext, hnext', hlimits⟩

structure Matched (memory : MemoryStageSpool) (sqlite : SqliteStageSpool) (outputs : Outputs)
    (call : Call) : Prop where
  answer : SameAnswer call ((StageSpool.memory memory).step call StageSpool.working).2
    ((StageSpool.sqlite sqlite).step call StageSpool.working).2
  alike : ∃ memory' sqlite', ((StageSpool.memory memory).step call StageSpool.working).1 =
    .memory memory' ∧
    ((StageSpool.sqlite sqlite).step call StageSpool.working).1 = .sqlite sqlite' ∧
    Alike memory' sqlite' (sealAfter outputs call
      ((StageSpool.memory memory).step call StageSpool.working).2)

theorem Alike.cleanup (h : Alike memory sqlite outputs) {executionId : Text}
    (hcalm : StageSpool.CleanupAccountable outputs executionId StageSpool.working (.memory memory))
    (hcalm' : StageSpool.CleanupAccountable outputs executionId StageSpool.working
      (.sqlite sqlite)) :
    Matched memory sqlite outputs (.cleanup executionId) := by
  have hmemory := MemoryStageSpool.Sound.cleanup h.memorySound hcalm
  rcases SqliteStageSpool.Sound.cleanup h.sqliteSound hcalm' with ⟨fault, hcleanup⟩ | ⟨next,
    hcleanup, hnext⟩
  · have hresult : (.ok () : Except SpoolError Unit) = .error fault := congrArg Prod.snd hcleanup
    cases hresult
  · have hlimits := SqliteStageSpool.limits_cleanup sqlite executionId StageSpool.working
    rw [hcleanup] at hlimits
    refine ⟨.cleaned rfl, memory.cleanup executionId, next, rfl, ?_, hmemory, hnext,
      h.limits.trans hlimits.symm⟩
    exact congrArg (fun result : SqliteStageSpool × Except SpoolError Unit =>
      StageSpool.sqlite result.1) hcleanup

theorem Alike.step (h : Alike memory sqlite outputs)
    (hcalm : StageSpool.Accountable outputs (.memory memory) StageSpool.working call)
    (hcalm' : StageSpool.Accountable outputs (.sqlite sqlite) StageSpool.working call) :
    Matched memory sqlite outputs call := by
  cases call with
  | put c items =>
    have hput := @Alike.put _ _ memory sqlite outputs c ⟨items, false⟩ (.put c items) h rfl hcalm'
    exact ⟨hput, _, _, rfl, rfl, h.sealed_put hcalm hcalm' rfl (fun _ => rfl)⟩
  | putIterable c values =>
    exact ⟨h.put rfl hcalm', _, _, rfl, rfl, h.sealed_put hcalm hcalm' rfl (fun _ => rfl)⟩
  | cleanup executionId => exact h.cleanup hcalm hcalm'

def working (calls : List Call) : List (Call × Database) :=
  calls.map (fun call => (call, StageSpool.working))

def answers (memory sqlite : StageSpool) : List Call → List (Call × Answer × Answer)
  | [] => []
  | call :: calls =>
    (call, (memory.step call StageSpool.working).2, (sqlite.step call StageSpool.working).2) ::
      answers (memory.step call StageSpool.working).1 (sqlite.step call StageSpool.working).1 calls

theorem Alike.run (h : Alike memory sqlite outputs) {calls : List Call}
    (hcalls : StageSpool.AllAccountable (.memory memory) outputs (working calls))
    (hcalls' : StageSpool.AllAccountable (.sqlite sqlite) outputs (working calls)) :
    (∀ entry ∈ answers (.memory memory) (.sqlite sqlite) calls,
      SameAnswer entry.1 entry.2.1 entry.2.2) ∧
      ∃ memory' sqlite' sealedOutputs,
        (StageSpool.memory memory).run outputs (working calls) = (.memory memory', sealedOutputs) ∧
        (StageSpool.sqlite sqlite).run outputs (working calls) = (.sqlite sqlite', sealedOutputs) ∧
        Alike memory' sqlite' sealedOutputs := by
  induction calls generalizing memory sqlite outputs with
  | nil => exact ⟨List.forall_mem_nil _, memory, sqlite, outputs, rfl, rfl, h⟩
  | cons call calls ih =>
    obtain ⟨hcalm, hrest⟩ := hcalls
    obtain ⟨hcalm', hrest'⟩ := hcalls'
    obtain ⟨hanswer, memory', sqlite', hmemory, hsqlite, halike⟩ := h.step hcalm hcalm'
    change StageSpool.AllAccountable _ _ (working calls) at hrest hrest'
    rw [hmemory] at hrest
    rw [hsqlite, hanswer.sealAfter] at hrest'
    obtain ⟨hanswers, hrun⟩ := ih halike hrest hrest'
    constructor
    · rw [answers, hmemory, hsqlite]
      exact List.forall_mem_cons.mpr ⟨hanswer, hanswers⟩
    · change ∃ memory' sqlite' sealedOutputs, StageSpool.run _ _ (working calls) = _ ∧
        StageSpool.run _ _ (working calls) = _ ∧ _
      rw [hmemory, hsqlite, hanswer.sealAfter]
      exact hrun

theorem spools_agree {limits : StageSpoolLimits} {memory sqlite : StageSpool} {calls : List Call}
    (hmemory : StageSpool.openMemory limits = .ok memory)
    (hsqlite : StageSpool.openSqlite limits = .ok sqlite)
    (hcalls : StageSpool.AllAccountable memory [] (working calls))
    (hcalls' : StageSpool.AllAccountable sqlite [] (working calls)) :
    (∀ entry ∈ answers memory sqlite calls, SameAnswer entry.1 entry.2.1 entry.2.2) ∧
      (memory.run [] (working calls)).1.bytes = (sqlite.run [] (working calls)).1.bytes ∧
      ∀ c payloads, (c, payloads) ∈ (memory.run [] (working calls)).2 → payloads ≠ [] →
        (memory.run [] (working calls)).1.heldRows c = payloads ∧
        (sqlite.run [] (working calls)).1.heldRows c = payloads := by
  have hsound := StageSpool.sound_opened (.inl hmemory)
  have hsound' := StageSpool.sound_opened (.inr hsqlite)
  obtain ⟨checked, hchecked, hopened⟩ := ExceptOk.bind_eq_ok hmemory
  obtain ⟨checked', hchecked', hopened'⟩ := ExceptOk.bind_eq_ok hsqlite
  obtain rfl := Except.ok.inj (hchecked.symm.trans hchecked')
  obtain rfl := Except.ok.inj hopened
  obtain rfl := Except.ok.inj hopened'
  have halike : Alike ⟨[], checked, 0⟩ ⟨[], checked, 0⟩ [] := ⟨hsound, hsound', rfl⟩
  obtain ⟨hanswers, memory', sqlite', sealedOutputs, hrun, hrun', halike'⟩ :=
    halike.run hcalls hcalls'
  rw [hrun, hrun']
  refine ⟨hanswers, halike'.used, fun c payloads hmem hne => ⟨?_, ?_⟩⟩
  · exact halike'.memorySound.exact.held _ hmem hne
  · exact halike'.sqliteSound.exact.held _ hmem hne

end Agreement

def sampleCalls : List Call := [(StageSpool.samplePut "a").1, (StageSpool.sampleThrow "b").1]

theorem spools_agree_sample :
    let _ : Sha256 := StageSpool.fixedDigest
    let _ : LocaleCompare := StageSpool.codeUnitOrder
    (∀ entry ∈ answers StageSpool.sampleMemory StageSpool.sampleSqlite sampleCalls,
      SameAnswer entry.1 entry.2.1 entry.2.2) ∧
    (StageSpool.sampleMemory.run [] (working sampleCalls)).1.bytes =
      (StageSpool.sampleSqlite.run [] (working sampleCalls)).1.bytes := by
  intro _ _
  have hfirst : StageSpool.sampleMemory.heldRows (StageSpool.sampleStage "a") = [] := by
    decide +kernel
  have hfirst' : StageSpool.sampleSqlite.heldRows (StageSpool.sampleStage "a") = [] := by
    decide +kernel
  have hsecond :
      ((StageSpool.sampleSqlite.step (StageSpool.samplePut "a").1 StageSpool.working).1).heldRows
      (StageSpool.sampleStage "b") = [] := by decide +kernel
  have hcalls : StageSpool.AllAccountable StageSpool.sampleMemory [] (working sampleCalls) :=
    ⟨.inl hfirst, .inr (.inl rfl), trivial⟩
  have hcalls' : StageSpool.AllAccountable StageSpool.sampleSqlite [] (working sampleCalls) :=
    ⟨.inl hfirst', .inl hsecond, trivial⟩
  obtain ⟨hanswers, hbytes, -⟩ :=
    @spools_agree _ _ StageSpool.sampleLimits _ _ _ rfl rfl hcalls hcalls'
  exact ⟨hanswers, hbytes⟩

end Spool

end Engine
