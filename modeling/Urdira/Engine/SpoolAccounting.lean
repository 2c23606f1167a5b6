import Urdira.Engine.StageSpool

open ByteOrder Canonical MerkleBucket RowLedger TextCodec Utf16

namespace Engine

namespace Spool

abbrev Outputs := Sealed Coordinates Bytes

def sizeOf (payloads : List Bytes) : ℕ := (payloads.map List.length).sum

def sealedBytes (outputs : Outputs) : ℕ := (outputs.map (fun output => sizeOf output.2)).sum

namespace StageSpool

def heldRows (c : Coordinates) : StageSpool → List Bytes
  | .memory spool => ((AssocMap.get spool.rows (MemoryStageSpool.keyOf c)).getD []).map payloadBytes
  | .sqlite spool =>
    (spool.rows.filter (fun row => decide (SqliteStageSpool.rowKey row =
      SqliteStageSpool.storedKey c))).map Row.payload

def retainedBytes : StageSpool → ℕ
  | .memory spool => (spool.rows.map (fun entry => (entry.2.map itemSize).sum)).sum
  | .sqlite spool => (spool.rows.map (fun row => row.payload.length)).sum

end StageSpool

def sealAfter (outputs : Outputs) (call : Call) :
    Except SpoolError (Option StageSetHandle) → Outputs
  | .error _ => outputs
  | .ok _ =>
    match call with
    | .put c items => outputs ++ [(c, items.map payloadBytes)]
    | .putIterable c values => outputs ++ [(c, values.items.map payloadBytes)]
    | .cleanup executionId =>
        outputs.filter (fun output => !decide (output.1.executionId = executionId))

structure Exact (spool : StageSpool) (outputs : Outputs) : Prop where
  bytes : spool.bytes = spool.retainedBytes
  bounded : spool.bytes ≤ spool.hardBytes
  held : ∀ output ∈ outputs, output.2 ≠ [] → spool.heldRows output.1 = output.2
  nothingElse : spool.retainedBytes = sealedBytes outputs

section Collect

variable {hardBytes room bytes : ℤ} {items : List QueryStreamItem}

theorem payloadBytes_of_ok {item : QueryStreamItem} {payload : Bytes}
    (h : payloadOf item = .ok payload) :
    payloadBytes item = payload := by
  rw [payloadBytes, h]
  rfl

theorem collect_ok {start : ℤ} (h : collect hardBytes room start items = .ok bytes) :
    (∀ item ∈ items, ∃ payload, payloadOf item = .ok payload) ∧
      bytes = start + sizeOf (items.map payloadBytes) ∧ (bytes ≤ room ∨ items = []) := by
  induction items generalizing start with
  | nil =>
    refine ⟨List.forall_mem_nil _, ?_, .inr rfl⟩
    rw [← Except.ok.inj h]
    simp [sizeOf]
  | cons item items ih =>
    rw [collect] at h
    split at h
    · cases h
    · rename_i payload hpayload
      split at h
      · cases h
      · rename_i hroom
        obtain ⟨hall, hbytes, hbound⟩ := ih h
        have hsize : sizeOf ((item :: items).map payloadBytes) =
            payload.length + sizeOf (items.map payloadBytes) := by
          rw [List.map_cons, payloadBytes_of_ok hpayload]
          rfl
        refine ⟨List.forall_mem_cons.mpr ⟨⟨payload, hpayload⟩, hall⟩, ?_, .inl ?_⟩
        · rw [hbytes, hsize]
          push_cast
          ring
        · rcases hbound with hbound | rfl
          · exact hbound
          · have hzero : sizeOf (([] : List QueryStreamItem).map payloadBytes) = 0 := rfl
            rw [hbytes, hzero]
            push_cast
            omega

def Refused (room : ℤ) (values : Values) : Prop :=
  values.throws = true ∨ (∃ item ∈ values.items, ∀ payload, payloadOf item ≠ .ok payload) ∨
    room < sizeOf (values.items.map payloadBytes)

theorem collected_of_consumed {values : Values} (h : consumed hardBytes room values = .ok bytes) :
    collect hardBytes room 0 values.items = .ok bytes ∧ values.throws = false := by
  obtain ⟨collected, hcollect, hrest⟩ := ExceptOk.bind_eq_ok h
  cases hthrows : values.throws with
  | true =>
    rw [hthrows] at hrest
    cases hrest
  | false =>
    rw [hthrows] at hrest
    obtain rfl := Except.ok.inj hrest
    exact ⟨hcollect, rfl⟩

theorem consumed_payloads {values : Values} (h : consumed hardBytes room values = .ok bytes) :
    ∀ item ∈ values.items, HasPayload item := (collect_ok (collected_of_consumed h).1).1

theorem consumed_ok {values : Values} (hroom : 0 ≤ room)
    (h : consumed hardBytes room values = .ok bytes) :
    bytes = sizeOf (values.items.map payloadBytes) ∧ bytes ≤ room ∧ ¬ Refused room values := by
  obtain ⟨hcollect, hends⟩ := collected_of_consumed h
  obtain ⟨hall, hbytes, hbound⟩ := collect_ok hcollect
  rw [zero_add] at hbytes
  have hle : bytes ≤ room := by
    rcases hbound with hbound | hnil
    · exact hbound
    · rw [hbytes, hnil]
      exact hroom
  refine ⟨hbytes, hle, ?_⟩
  rintro (hthrow | ⟨item, hitem, hnone⟩ | hover)
  · rw [hends] at hthrow
    cases hthrow
  · obtain ⟨payload, hpayload⟩ := hall item hitem
    exact hnone payload hpayload
  · rw [← hbytes] at hover
    exact absurd hle (not_le.mpr hover)

end Collect

section Members

variable [Sha256] [LocaleCompare] {hardBytes room bytes : ℤ} {tree : MerkleRadixSet}
  {item : QueryStreamItem}
  {items : List QueryStreamItem} {values : Values}

def memberTree (items : List QueryStreamItem) : Except SpoolError MerkleRadixSet :=
  items.foldlM setMember .empty

theorem setMember_succeeds (tree : MerkleRadixSet) (h : HasPayload item) :
    ∃ next, setMember tree item = .ok next := by
  obtain ⟨key, hkey⟩ := memberKey_succeeds item
  obtain ⟨logical, hlogical⟩ := memberDigest_succeeds h
  obtain ⟨next, hnext⟩ := ValueDigest.set_sha256Text tree key logical
  exact ⟨next,
    by rw [setMember, hkey, hlogical]; exact congrArg (Except.mapError SpoolError.radix) hnext⟩

theorem collectMembers_error {start : ℤ} {fault : SpoolError}
    (h : collect hardBytes room start items = .error fault) :
    collectMembers hardBytes room start tree items = .error fault := by
  induction items generalizing start tree with
  | nil => cases h
  | cons item items ih =>
    rw [collect] at h
    rw [collectMembers]
    cases hpayload : payloadOf item with
    | error encoding =>
      rw [hpayload] at h
      exact congrArg Except.error (Except.error.inj h)
    | ok payload =>
      rw [hpayload] at h
      dsimp only at h ⊢
      by_cases hover : room < start + payload.length
      · rw [if_pos hover] at h ⊢
        exact congrArg Except.error (Except.error.inj h)
      · rw [if_neg hover] at h ⊢
        obtain ⟨next, hnext⟩ := setMember_succeeds tree ⟨payload, hpayload⟩
        rw [hnext]
        exact ih h

theorem collectMembers_ok {start : ℤ} (h : collect hardBytes room start items = .ok bytes) :
    ∃ next, items.foldlM setMember tree = .ok next ∧
      collectMembers hardBytes room start tree items = .ok (bytes, next) := by
  induction items generalizing start tree with
  | nil => exact ⟨tree, rfl, congrArg (fun bytes => Except.ok (bytes, tree)) (Except.ok.inj h)⟩
  | cons item items ih =>
    rw [collect] at h
    split at h
    · cases h
    · rename_i payload hpayload
      split at h
      · cases h
      · rename_i hroom
        obtain ⟨middle, hmiddle⟩ := setMember_succeeds tree ⟨payload, hpayload⟩
        obtain ⟨next, hfold, hnext⟩ := @ih middle _ h
        refine ⟨next, ?_, ?_⟩
        · rw [List.foldlM_cons, hmiddle]
          exact hfold
        · rw [collectMembers, hpayload]
          dsimp only
          rw [if_neg hroom, hmiddle]
          exact hnext

theorem consumedMembers_error {fault : SpoolError}
    (h : consumed hardBytes room values = .error fault) :
    consumedMembers hardBytes room values = .error fault := by
  rw [consumed] at h
  rw [consumedMembers]
  cases hcollect : collect hardBytes room 0 values.items with
  | error first =>
    rw [hcollect] at h
    rw [collectMembers_error hcollect]
    exact congrArg Except.error (Except.error.inj h)
  | ok bytes =>
    obtain ⟨tree, -, hmembers⟩ := @collectMembers_ok _ _ _ _ _ .empty _ _ hcollect
    rw [hcollect] at h
    rw [hmembers]
    cases hthrows : values.throws with
    | true =>
      rw [hthrows] at h
      exact congrArg Except.error (Except.error.inj h)
    | false =>
      rw [hthrows] at h
      cases h

theorem consumedMembers_ok (h : consumed hardBytes room values = .ok bytes) :
    ∃ tree, memberTree values.items = .ok tree ∧ consumedMembers hardBytes room values =
      .ok (bytes, tree) := by
  obtain ⟨hcollect, hends⟩ := collected_of_consumed h
  obtain ⟨tree, htree, hmembers⟩ := @collectMembers_ok _ _ _ _ _ .empty _ _ hcollect
  exact ⟨tree, htree, by rw [consumedMembers, hmembers, hends]; rfl⟩

theorem consumed_of_members {collected : ℤ × MerkleRadixSet}
    (h : consumedMembers hardBytes room values = .ok collected) :
    consumed hardBytes room values = .ok collected.1 := by
  cases hconsumed : consumed hardBytes room values with
  | error fault =>
    rw [consumedMembers_error hconsumed] at h
    cases h
  | ok bytes =>
    obtain ⟨tree, -, hmembers⟩ := consumedMembers_ok hconsumed
    rw [hmembers] at h
    rw [← Except.ok.inj h]

end Members

namespace MemoryStageSpool

variable {spool : MemoryStageSpool} {outputs : Outputs} {c : Coordinates} {values : Values}

def stored (rows : List (Text × List QueryStreamItem)) : List (Text × Bytes) :=
  tagged id (rows.map (fun entry => (entry.1, entry.2.map payloadBytes)))

structure Sound (spool : MemoryStageSpool) (outputs : Outputs) : Prop where
  nodup : (spool.rows.map Prod.fst).Nodup
  ledger : Ledger keyOf (stored spool.rows) outputs
  used : spool.used = (total List.length (stored spool.rows) : ℕ)
  bounded : spool.used ≤ spool.limits.hardBytes

theorem stored_cons (key : Text) (items : List QueryStreamItem)
    (rows : List (Text × List QueryStreamItem)) :
    stored ((key, items) :: rows) = block id key (items.map payloadBytes) ++ stored rows := rfl

theorem total_stored (rows : List (Text × List QueryStreamItem)) :
    total List.length (stored rows) = (rows.map (fun entry => (entry.2.map itemSize).sum)).sum := by
  induction rows with
  | nil => rfl
  | cons entry rows ih =>
    rw [stored_cons, total_append, total_block, ih, List.map_map, List.map_cons, List.sum_cons]
    rfl

theorem get_cons (entry : Text × List QueryStreamItem) (rows : List (Text × List QueryStreamItem))
    (key : Text) :
    AssocMap.get (entry :: rows) key = if key = entry.1 then some entry.2
      else AssocMap.get rows key := by
  by_cases hkey : key = entry.1
  · simp [AssocMap.get, List.lookup, hkey]
  · simp only [AssocMap.get, List.lookup]
    split
    · rename_i hbeq
      exact absurd (eq_of_beq hbeq) hkey
    · rw [if_neg hkey]

theorem heldAt_stored {rows : List (Text × List QueryStreamItem)} (h : (rows.map Prod.fst).Nodup)
    (key : Text) :
    heldAt (stored rows) key = ((AssocMap.get rows key).getD []).map payloadBytes := by
  induction rows with
  | nil => rfl
  | cons entry rows ih =>
    obtain ⟨hnew, hrest⟩ := List.nodup_cons.mp h
    rw [stored_cons, heldAt_append, ih hrest]
    rw [get_cons]
    by_cases hkey : key = entry.1
    · subst hkey
      have hnone : AssocMap.get rows entry.1 = none :=
        (AssocMap.get_eq_none_iff rows entry.1).mpr hnew
      rw [hnone, if_pos rfl]
      exact (List.append_nil _).trans heldAt_block_self
    · have hne : id entry.1 ≠ key := Ne.symm hkey
      rw [if_neg hkey, heldAt_block_ne hne, List.nil_append]

theorem stored_filter (rows : List (Text × List QueryStreamItem)) (drops : Text → Bool) :
    stored (rows.filter (fun entry => !drops entry.1)) =
      (stored rows).filter (fun row => !drops row.1) := by
  rw [stored, stored, tagged_filter (fun _ _ _ => rfl), List.filter_map]
  rfl

theorem Sound.exact (h : Sound spool outputs) : Exact (.memory spool) outputs := by
  have hretained : StageSpool.retainedBytes (.memory spool) =
      total List.length (stored spool.rows) :=
    (total_stored spool.rows).symm
  refine ⟨?_, h.bounded, fun output houtput hne => ?_, ?_⟩
  · rw [hretained]
    exact h.used
  · exact (heldAt_stored h.nodup _).symm.trans (h.ledger.held output houtput hne)
  · rw [hretained, total_perm h.ledger.perm, total_tagged]
    rfl

theorem stored_insert {rows : List (Text × List QueryStreamItem)} {key : Text}
    (items : List QueryStreamItem)
    (hfresh : heldAt (stored rows) key = []) :
    stored (AssocMap.insert rows key items) =
      block id key (items.map payloadBytes) ++ stored rows := by
  have hkept : stored (rows.filter (fun entry => !decide (entry.1 = key))) = stored rows := by
    rw [stored_filter rows (fun k => decide (k = key)), List.filter_eq_self]
    intro row hrow
    rw [heldAt, List.map_eq_nil_iff, List.filter_eq_nil_iff] at hfresh
    have hne := hfresh row hrow
    simpa using hne
  have hinsert : AssocMap.insert rows key items =
      (key, items) :: rows.filter (fun entry => !decide (entry.1 = key)) := by
    unfold AssocMap.insert
    simp
  rw [hinsert, stored_cons, hkept]

theorem Sound.putIterable [Sha256] [LocaleCompare] (h : Sound spool outputs)
    (hcalm : StageSpool.heldRows c (.memory spool) = [] ∨
      Refused (spool.limits.hardBytes - spool.used) values) :
    (∃ fault, spool.putIterable c values = (spool, .error fault)) ∨
      ∃ next handle, spool.putIterable c values = (next, .ok handle) ∧
        Sound next (outputs ++ [(c, values.items.map payloadBytes)]) := by
  have hroom : 0 ≤ spool.limits.hardBytes - spool.used := by have := h.bounded; omega
  cases hrun : consumed spool.limits.hardBytes (spool.limits.hardBytes - spool.used) values with
  | error fault => exact .inl ⟨fault, by rw [MemoryStageSpool.putIterable, hrun]⟩
  | ok bytes =>
    obtain ⟨hbytes, hle, haccepted⟩ := consumed_ok hroom hrun
    obtain ⟨root, hhandle⟩ := stageSetHandle_succeeds (consumed_payloads hrun) c .declared
    have hfresh : heldAt (stored spool.rows) (keyOf c) = [] :=
      (heldAt_stored h.nodup _).trans (hcalm.resolve_right haccepted)
    have hstored := stored_insert values.items hfresh
    refine .inr ⟨_, _, by rw [MemoryStageSpool.putIterable, hrun, hhandle]; rfl,
      AssocMap.nodup_insert h.nodup _ _, ?_, ?_, ?_⟩
    · exact h.ledger.seal_rows hfresh (.inl hstored)
    · change spool.used + bytes = _
      rw [hstored, total_append, total_block, hbytes, h.used, Nat.cast_add, add_comm]
      rfl
    · change spool.used + bytes ≤ spool.limits.hardBytes
      omega

theorem releases_keyOf (c : Coordinates) : releases c.executionId (keyOf c) = true := by
  rw [releases, List.isPrefixOf_iff_prefix]
  exact ⟨c.stageId ++ 0 :: c.output, by simp [keyOf]⟩

theorem Sound.cleanup (h : Sound spool outputs) {executionId : Text}
    (hcalm : ∀ output ∈ outputs, output.2 ≠ [] → releases executionId (keyOf output.1) = true →
      output.1.executionId = executionId) :
    Sound (spool.cleanup executionId)
      (outputs.filter (fun output => !decide (output.1.executionId = executionId))) := by
  let released : Coordinates → Bool := fun c => decide (c.executionId = executionId)
  have hdrops : ∀ output ∈ outputs, output.2 ≠ [] → releases executionId (keyOf output.1) =
      released output.1 := by
    intro output houtput hne
    by_cases hown : output.1.executionId = executionId
    · refine Eq.trans ?_ (decide_eq_true hown).symm
      rw [← hown]
      exact releases_keyOf output.1
    · refine Eq.trans ?_ (decide_eq_false hown).symm
      exact Bool.eq_false_iff.mpr (fun hreleases => hown (hcalm output houtput hne hreleases))
  have hledger := h.ledger.release hdrops
  have hkept : stored (spool.cleanup executionId).rows =
      (stored spool.rows).filter (fun row => !releases executionId row.1) :=
        stored_filter spool.rows _
  have hreleased : ((spool.rows.filter (fun entry => releases executionId entry.1)).map
      (fun entry => (entry.2.map itemSize).sum)).sum =
      total List.length ((stored spool.rows).filter (fun row => releases executionId row.1)) := by
    have hdropped := stored_filter spool.rows (fun key => !releases executionId key)
    simp only [Bool.not_not] at hdropped
    rw [← total_stored, hdropped]
  have hsplit : total List.length (stored spool.rows) =
      total List.length ((stored spool.rows).filter (fun row => releases executionId row.1)) +
        total List.length ((stored spool.rows).filter (fun row => !releases executionId row.1)) :=
          total_filter _
  have hused : (spool.cleanup executionId).used =
      (total List.length (stored (spool.cleanup executionId).rows) : ℕ) := by
    change spool.used - _ = _
    rw [hkept, h.used, hreleased, hsplit]
    push_cast
    ring
  refine ⟨?_, ?_, hused, ?_⟩
  · exact h.nodup.sublist (List.filter_sublist.map Prod.fst)
  · rw [hkept]
    exact hledger
  · have hle : (spool.cleanup executionId).used ≤ spool.used := sub_le_self _ (Int.natCast_nonneg _)
    exact hle.trans h.bounded

end MemoryStageSpool

namespace SqliteStageSpool

variable {spool : SqliteStageSpool} {outputs : Outputs} {c : Coordinates} {values : Values}
  {database : Database}

def stored (rows : List Row) : List (StoredKey × Bytes) :=
  rows.map (fun row => (rowKey row, row.payload))

def Begun (rows : List Row) : Prop :=
  ∀ row ∈ rows, ∃ first ∈ rows, rowKey first = rowKey row ∧ first.ordinal = 0

structure Sound (spool : SqliteStageSpool) (outputs : Outputs) : Prop where
  begun : Begun spool.rows
  ledger : Ledger storedKey (stored spool.rows) outputs
  used : spool.used = (total List.length (stored spool.rows) : ℕ)
  bounded : spool.used ≤ spool.limits.hardBytes

theorem heldAt_stored (rows : List Row) (c : Coordinates) : heldAt (stored rows) (storedKey c) =
    (rows.filter (fun row => decide (rowKey row = storedKey c))).map Row.payload := by
  rw [heldAt, stored, List.filter_map, List.map_map]
  rfl

theorem total_stored (rows : List Row) :
    total List.length (stored rows) = (rows.map (fun row => row.payload.length)).sum := by
  rw [total, stored, List.map_map]
  rfl

theorem Sound.exact (h : Sound spool outputs) : Exact (.sqlite spool) outputs := by
  have hretained : StageSpool.retainedBytes (.sqlite spool) =
      total List.length (stored spool.rows) :=
    (total_stored spool.rows).symm
  refine ⟨?_, h.bounded, fun output houtput hne => ?_, ?_⟩
  · rw [hretained]
    exact h.used
  · exact (heldAt_stored _ _).symm.trans (h.ledger.held output houtput hne)
  · rw [hretained, total_perm h.ledger.perm, total_tagged]
    rfl

theorem rowKey_rowsFrom {ordinal : ℕ} {items : List QueryStreamItem} :
    ∀ row ∈ rowsFrom c ordinal items, rowKey row = storedKey c ∧ ordinal ≤ row.ordinal := by
  induction items generalizing ordinal with
  | nil => exact List.forall_mem_nil _
  | cons item items ih =>
    refine List.forall_mem_cons.mpr ⟨⟨rfl, le_refl _⟩, fun row hrow => ?_⟩
    obtain ⟨hkey, hordinal⟩ := ih row hrow
    exact ⟨hkey, (Nat.le_succ _).trans hordinal⟩

theorem stored_rowsFrom (ordinal : ℕ) (items : List QueryStreamItem) :
    stored (rowsFrom c ordinal items) = block storedKey c (items.map payloadBytes) := by
  induction items generalizing ordinal with
  | nil => rfl
  | cons item items ih => exact congrArg₂ List.cons rfl (ih (ordinal + 1))

theorem insertRows_ok {rows : List Row} {ordinal : ℕ} {items : List QueryStreamItem}
    (hfree : ∀ row ∈ rows, rowKey row = storedKey c → row.ordinal < ordinal) :
    insertRows rows (rowsFrom c ordinal items) = .ok (rows ++ rowsFrom c ordinal items) := by
  induction items generalizing rows ordinal with
  | nil => rw [rowsFrom, insertRows, List.append_nil]
  | cons item items ih =>
    have hclear : conflicts rows (rowOf c ordinal item) = false := by
      rw [conflicts, List.any_eq_false]
      intro row hrow hsame
      obtain ⟨hkey, hordinal⟩ := of_decide_eq_true hsame
      have hlt := hfree row hrow hkey
      rw [hordinal] at hlt
      exact lt_irrefl _ hlt
    have hfree' : ∀ row ∈ rows ++ [rowOf c ordinal item], rowKey row = storedKey c →
        row.ordinal < ordinal + 1 := by
      intro row hrow hkey
      rcases List.mem_append.mp hrow with hold | hnew
      · exact (hfree row hold hkey).trans (Nat.lt_succ_self _)
      · rw [List.mem_singleton.mp hnew]
        exact Nat.lt_succ_self _
    rw [rowsFrom, insertRows, hclear, if_neg Bool.false_ne_true, ih hfree', List.append_assoc]
    rfl

theorem deleteStage_eq {rows : List Row} (hfresh : heldAt (stored rows) (storedKey c) = []) :
    deleteStage rows c = rows := by
  rw [heldAt_stored, List.map_eq_nil_iff, List.filter_eq_nil_iff] at hfresh
  rw [deleteStage, List.filter_eq_self]
  intro row hrow
  have hne := hfresh row hrow
  simpa using hne

theorem no_row_of_fresh {rows : List Row} (hfresh : heldAt (stored rows) (storedKey c) = []) :
    ∀ row ∈ rows, rowKey row ≠ storedKey c := by
  rw [heldAt_stored, List.map_eq_nil_iff, List.filter_eq_nil_iff] at hfresh
  intro row hrow heq
  exact hfresh row hrow (decide_eq_true heq)

theorem fresh_of_insert {rows inserted : List Row} {items : List QueryStreamItem}
    (hbegun : Begun rows)
    (hitems : items ≠ []) (hrun : insertRows rows (rowsFrom c 0 items) = .ok inserted) :
    heldAt (stored rows) (storedKey c) = [] := by
  rw [heldAt_stored, List.map_eq_nil_iff, List.filter_eq_nil_iff]
  intro row hrow hkey
  obtain ⟨first, hfirst, hsame, hzero⟩ := hbegun row hrow
  cases items with
  | nil => exact hitems rfl
  | cons item items =>
    rw [rowsFrom, insertRows] at hrun
    have hconflict : conflicts rows (rowOf c 0 item) = true :=
      List.any_eq_true.mpr ⟨first, hfirst,
        decide_eq_true ⟨hsame.trans (of_decide_eq_true hkey), hzero⟩⟩
    rw [hconflict, if_pos rfl] at hrun
    cases hrun

theorem begun_append {rows : List Row} (hbegun : Begun rows) (items : List QueryStreamItem) :
    Begun (rows ++ rowsFrom c 0 items) := by
  intro row hrow
  rcases List.mem_append.mp hrow with hold | hnew
  · obtain ⟨first, hfirst, hsame⟩ := hbegun row hold
    exact ⟨first, List.mem_append_left _ hfirst, hsame⟩
  · have hkey := (rowKey_rowsFrom row hnew).1
    cases items with
    | nil => cases hnew
    | cons item items =>
      exact ⟨rowOf c 0 item, List.mem_append_right _ List.mem_cons_self, hkey.symm, rfl⟩

def EmptyPut (values : Values) (database : Database) : Prop :=
  values.items = [] ∧ values.throws = false ∧ database.transactionFails = false

theorem Sound.accepts [Sha256] [LocaleCompare] (h : Sound spool outputs) {rows : List Row}
    {bytes : ℤ}
    {tree : MerkleRadixSet} (hcalm : heldAt (stored spool.rows) (storedKey c) = [] ∨
      values.items = [])
    (hrun : spool.transaction c values database = .ok (rows, bytes, tree)) :
    Sound { spool with rows, used := spool.used + bytes }
      (outputs ++ [(c, values.items.map payloadBytes)]) := by
  have hroom : 0 ≤ spool.limits.hardBytes - spool.used := by have := h.bounded; omega
  obtain ⟨collected, hcollected, hrest⟩ := ExceptOk.bind_eq_ok hrun
  obtain ⟨inserted, hinserted, hlast⟩ := ExceptOk.bind_eq_ok hrest
  obtain ⟨hbytes, hle, -⟩ := consumed_ok hroom (consumed_of_members hcollected)
  have hresult : inserted = rows ∧ collected = (bytes, tree) := by
    split at hlast
    · cases hlast
    · exact Prod.mk.inj (Except.ok.inj hlast)
  obtain ⟨rfl, rfl⟩ := hresult
  dsimp only at hbytes hle
  have happended : inserted = spool.rows ++ rowsFrom c 0 values.items := by
    rcases hcalm with hfresh | hempty
    · have hfree : ∀ row ∈ spool.rows, rowKey row = storedKey c → row.ordinal < 0 :=
        fun row hrow hkey => absurd hkey (no_row_of_fresh hfresh row hrow)
      exact (Except.ok.inj ((insertRows_ok hfree).symm.trans hinserted)).symm
    · rw [hempty] at hinserted ⊢
      rw [rowsFrom, List.append_nil]
      exact (Except.ok.inj hinserted).symm
  have hstored : stored inserted = stored spool.rows ++ block storedKey c
      (values.items.map payloadBytes) := by
    rw [happended, stored, List.map_append, ← stored_rowsFrom 0]
    rfl
  refine ⟨?_, ?_, ?_, ?_⟩
  · change Begun inserted
    rw [happended]
    exact begun_append h.begun _
  · change Ledger storedKey (stored inserted) _
    rcases hcalm with hfresh | hempty
    · exact h.ledger.seal_rows hfresh (.inr hstored)
    · rw [hstored, hempty, List.map_nil, block, List.map_nil, List.append_nil]
      exact h.ledger.seal_nothing
  · change spool.used + bytes = (total List.length (stored inserted) : ℕ)
    rw [hstored, total_append, total_block, hbytes, h.used, Nat.cast_add]
    rfl
  · change spool.used + bytes ≤ spool.limits.hardBytes
    omega

theorem Sound.putIterable [Sha256] [LocaleCompare] (h : Sound spool outputs)
    (hcalm : StageSpool.heldRows c (.sqlite spool) = [] ∨ database.deleteFails = true ∨
      EmptyPut values database) :
    (∃ fault, spool.putIterable c values database = (spool, .error fault)) ∨
      ∃ next handle, spool.putIterable c values database = (next, .ok handle) ∧
        Sound next (outputs ++ [(c, values.items.map payloadBytes)]) := by
  have hheld : StageSpool.heldRows c (.sqlite spool) = heldAt (stored spool.rows) (storedKey c) :=
    (heldAt_stored spool.rows c).symm
  rw [hheld] at hcalm
  cases hrun : spool.transaction c values database with
  | error fault =>
    left
    refine ⟨fault, ?_⟩
    rw [SqliteStageSpool.putIterable, hrun]
    dsimp only
    rcases hcalm with hfresh | hfails | ⟨hempty, hends, hcommits⟩
    · rw [deleteStage_eq hfresh, ite_self]
    · rw [hfails, if_pos rfl]
    · rw [transaction, consumedMembers, hempty, hends, hcommits] at hrun
      cases hrun
  | ok result =>
    obtain ⟨rows, bytes, tree⟩ := result
    refine .inr ⟨_, _, by rw [SqliteStageSpool.putIterable, hrun], h.accepts ?_ hrun⟩
    rcases hcalm with hfresh | - | ⟨hempty, -⟩
    · exact .inl hfresh
    · by_cases hempty : values.items = []
      · exact .inr hempty
      · obtain ⟨_, -, hrest⟩ := ExceptOk.bind_eq_ok hrun
        obtain ⟨_, hinserted, -⟩ := ExceptOk.bind_eq_ok hrest
        exact .inl (fresh_of_insert h.begun hempty hinserted)
    · exact .inr hempty

theorem Sound.cleanup (h : Sound spool outputs) {executionId : Text}
    (hcalm : database.deleteFails = true ∨ ∀ output ∈ outputs, output.2 ≠ [] →
      output.1.executionId = executionId) :
    (∃ fault, spool.cleanup executionId database = (spool, .error fault)) ∨
      ∃ next, spool.cleanup executionId database = (next, .ok ()) ∧
        Sound next (outputs.filter (fun output =>
          !decide (output.1.executionId = executionId))) := by
  cases hfails : database.deleteFails with
  | true => exact .inl ⟨.database, by rw [SqliteStageSpool.cleanup, hfails, if_pos rfl]⟩
  | false =>
    have hown : ∀ output ∈ outputs, output.2 ≠ [] → output.1.executionId = executionId := by
      rcases hcalm with hfail | hown
      · rw [hfails] at hfail
        cases hfail
      · exact hown
    let released : Coordinates → Bool := fun c => decide (c.executionId = executionId)
    let drops : StoredKey → Bool := fun key => decide (key.1 = encodeUtf8 executionId)
    have hdrops : ∀ output ∈ outputs, output.2 ≠ [] →
        drops (storedKey output.1) = released output.1 := by
      intro output houtput hne
      have hexecution := hown output houtput hne
      exact (decide_eq_true (congrArg encodeUtf8 hexecution)).trans (decide_eq_true hexecution).symm
    have hledger := h.ledger.release hdrops
    have hkept :
        stored (spool.rows.filter (fun row => !decide (row.executionId = encodeUtf8 executionId))) =
        (stored spool.rows).filter (fun row => !drops row.1) := by
      rw [stored, stored, List.filter_map]
      rfl
    have hnone : tagged storedKey (outputs.filter (fun output => !released output.1)) = [] := by
      refine List.flatMap_eq_nil_iff.mpr (fun output houtput => ?_)
      obtain ⟨hmem, hother⟩ := List.mem_filter.mp houtput
      have hempty : output.2 = [] := by
        by_contra hne
        have hreleased : released output.1 = true := decide_eq_true (hown output hmem hne)
        rw [hreleased] at hother
        cases hother
      rw [block, hempty, List.map_nil]
    have htotal : total List.length ((stored spool.rows).filter (fun row => !drops row.1)) = 0 := by
      rw [total_perm hledger.perm, hnone]
      rfl
    refine .inr
      ⟨_, by rw [SqliteStageSpool.cleanup, hfails, if_neg Bool.false_ne_true], ?_, ?_, ?_, ?_⟩
    · intro row hrow
      obtain ⟨hmem, hkeptRow⟩ := List.mem_filter.mp hrow
      obtain ⟨first, hfirst, hsame, hzero⟩ := h.begun row hmem
      have hexecution : first.executionId = row.executionId := congrArg Prod.fst hsame
      exact ⟨first, List.mem_filter.mpr ⟨hfirst, by rw [hexecution]; exact hkeptRow⟩, hsame, hzero⟩
    · change Ledger storedKey (stored (spool.rows.filter _)) _
      rw [hkept]
      exact hledger
    · change (0 : ℤ) = (total List.length (stored (spool.rows.filter _)) : ℕ)
      rw [hkept, htotal]
      rfl
    · have hnonneg : 0 ≤ spool.used := h.used ▸ Int.natCast_nonneg _
      exact hnonneg.trans h.bounded

end SqliteStageSpool

namespace StageSpool

variable {spool after next : StageSpool} {outputs sealedOutputs : Outputs} {call : Call}
  {database : Database}

def PutAccountable (c : Coordinates) (values : Values) (database : Database) : StageSpool → Prop
  | .memory spool => heldRows c (.memory spool) = [] ∨
    Refused (spool.limits.hardBytes - spool.used) values
  | .sqlite spool => heldRows c (.sqlite spool) = [] ∨ database.deleteFails = true ∨
      SqliteStageSpool.EmptyPut values database

def CleanupAccountable (outputs : Outputs) (executionId : Text) (database : Database) :
    StageSpool → Prop
  | .memory _ => ∀ output ∈ outputs, output.2 ≠ [] →
      MemoryStageSpool.releases executionId (MemoryStageSpool.keyOf output.1) = true →
        output.1.executionId = executionId
  | .sqlite _ => database.deleteFails = true ∨
      ∀ output ∈ outputs, output.2 ≠ [] → output.1.executionId = executionId

def Accountable (outputs : Outputs) (spool : StageSpool) (database : Database) : Call → Prop
  | .put c items => spool.PutAccountable c ⟨items, false⟩ database
  | .putIterable c values => spool.PutAccountable c values database
  | .cleanup executionId => spool.CleanupAccountable outputs executionId database

def Sound (outputs : Outputs) : StageSpool → Prop
  | .memory spool => MemoryStageSpool.Sound spool outputs
  | .sqlite spool => SqliteStageSpool.Sound spool outputs

theorem Sound.exact (h : spool.Sound outputs) : Exact spool outputs := by
  cases spool with
  | memory spool => exact MemoryStageSpool.Sound.exact h
  | sqlite spool => exact SqliteStageSpool.Sound.exact h

section Steps

variable [Sha256] [LocaleCompare] {answer : Option StageSetHandle}

structure Kept (spool : StageSpool) (outputs : Outputs) (call : Call) (database : Database) :
    Prop where
  failed : ∀ fault, (spool.step call database).2 = .error fault →
    (spool.step call database).1 = spool
  sound : (spool.step call database).1.Sound (sealAfter outputs call (spool.step call database).2)

theorem kept_of_failed {fault : SpoolError} (h : spool.Sound outputs)
    (hstep : spool.step call database = (spool, .error fault)) :
    Kept spool outputs call database := by
  refine ⟨fun _ _ => congrArg Prod.fst hstep, ?_⟩
  rw [hstep]
  exact h

theorem kept_of_ok (hstep : spool.step call database = (next, .ok answer))
    (h : next.Sound (sealAfter outputs call (.ok answer))) : Kept spool outputs call database := by
  refine ⟨fun fault hfault => ?_, ?_⟩
  · rw [hstep] at hfault
    cases hfault
  · rw [hstep]
    exact h

theorem kept_memory_put {spool : MemoryStageSpool} {c : Coordinates} {values : Values}
    (h : MemoryStageSpool.Sound spool outputs)
    (hcalm : PutAccountable c values database (.memory spool))
    (hstep : (StageSpool.memory spool).step call database =
      (spool.putIterable c values).map .memory (Except.map some))
    (hseal : ∀ answer, sealAfter outputs call (.ok answer) =
      outputs ++ [(c, values.items.map payloadBytes)]) :
    Kept (.memory spool) outputs call database := by
  rcases h.putIterable hcalm with ⟨fault, hput⟩ | ⟨next, handle, hput, hnext⟩
  · rw [hput] at hstep
    exact @kept_of_failed (.memory spool) _ _ _ _ _ _ h hstep
  · rw [hput] at hstep
    refine kept_of_ok hstep ?_
    rw [hseal]
    exact hnext

theorem kept_sqlite_put {spool : SqliteStageSpool} {c : Coordinates} {values : Values}
    (h : SqliteStageSpool.Sound spool outputs)
    (hcalm : PutAccountable c values database (.sqlite spool))
    (hstep : (StageSpool.sqlite spool).step call database =
      (spool.putIterable c values database).map .sqlite (Except.map some))
    (hseal : ∀ answer, sealAfter outputs call (.ok answer) =
      outputs ++ [(c, values.items.map payloadBytes)]) :
    Kept (.sqlite spool) outputs call database := by
  rcases h.putIterable hcalm with ⟨fault, hput⟩ | ⟨next, handle, hput, hnext⟩
  · rw [hput] at hstep
    exact @kept_of_failed (.sqlite spool) _ _ _ _ _ _ h hstep
  · rw [hput] at hstep
    refine kept_of_ok hstep ?_
    rw [hseal]
    exact hnext

theorem Sound.step (h : spool.Sound outputs) (hcalm : Accountable outputs spool database call) :
    Kept spool outputs call database := by
  cases spool with
  | memory spool =>
    cases call with
    | put c items => exact kept_memory_put h hcalm rfl (fun _ => rfl)
    | putIterable c values => exact kept_memory_put h hcalm rfl (fun _ => rfl)
    | cleanup executionId => exact kept_of_ok rfl (MemoryStageSpool.Sound.cleanup h hcalm)
  | sqlite spool =>
    cases call with
    | put c items => exact kept_sqlite_put h hcalm rfl (fun _ => rfl)
    | putIterable c values => exact kept_sqlite_put h hcalm rfl (fun _ => rfl)
    | cleanup executionId =>
      have hstep : (StageSpool.sqlite spool).step (.cleanup executionId) database =
          (spool.cleanup executionId database).map .sqlite (Except.map (fun _ => none)) := rfl
      rcases SqliteStageSpool.Sound.cleanup h hcalm with ⟨fault, hcleanup⟩ | ⟨next, hcleanup, hnext⟩
      · rw [hcleanup] at hstep
        exact @kept_of_failed (.sqlite spool) _ _ _ _ _ _ h hstep
      · rw [hcleanup] at hstep
        exact kept_of_ok hstep hnext

end Steps

structure Untouched (outputs : Outputs) (executionId : Text) (next : StageSpool) : Prop where
  held : ∀ output ∈ outputs, output.1.executionId ≠ executionId → output.2 ≠ [] →
    next.heldRows output.1 = output.2
  bytes : next.bytes =
    sealedBytes (outputs.filter (fun output => !decide (output.1.executionId = executionId)))

theorem untouched_of_exact {executionId : Text}
    (h : Exact next (outputs.filter (fun output => !decide (output.1.executionId = executionId)))) :
    Untouched outputs executionId next := by
  refine ⟨fun output houtput hother hne => h.held output ?_ hne, ?_⟩
  · refine List.mem_filter.mpr ⟨houtput, ?_⟩
    rw [decide_eq_false hother]
    rfl
  · rw [h.bytes, h.nothingElse]

section Runs

variable [Sha256] [LocaleCompare]

def run (spool : StageSpool) (outputs : Outputs) : List (Call × Database) → StageSpool × Outputs
  | [] => (spool, outputs)
  | (call, database) :: calls =>
    run (spool.step call database).1 (sealAfter outputs call (spool.step call database).2) calls

def AllAccountable (spool : StageSpool) (outputs : Outputs) : List (Call × Database) → Prop
  | [] => True
  | (call, database) :: calls => Accountable outputs spool database call ∧
      AllAccountable (spool.step call database).1
        (sealAfter outputs call (spool.step call database).2) calls

theorem Sound.run (h : spool.Sound outputs) {calls : List (Call × Database)}
    (hcalls : AllAccountable spool outputs calls)
    (hrun : spool.run outputs calls = (after, sealedOutputs)) : after.Sound sealedOutputs := by
  induction calls generalizing spool outputs with
  | nil =>
    obtain ⟨rfl, rfl⟩ := Prod.mk.inj hrun
    exact h
  | cons entry calls ih =>
    obtain ⟨call, database⟩ := entry
    obtain ⟨hcalm, hrest⟩ := hcalls
    exact ih (h.step hcalm).sound hrest hrun

end Runs

theorem checkedLimits_nonneg {limits : StageSpoolLimits} {checked : Limits}
    (h : checkedLimits limits = .ok checked) :
    0 ≤ checked.hardBytes := by
  unfold checkedLimits at h
  extract_lets _ hard effectiveSpill at h
  clear_value hard effectiveSpill
  split at h
  · cases h
  · rename_i hvalid
    rw [← Except.ok.inj h]
    simp only [Bool.or_eq_true, decide_eq_true_eq, not_or, not_le, not_lt] at hvalid
    exact hvalid.1.1.2.le.trans hvalid.2

theorem sound_opened {limits : StageSpoolLimits}
    (h : openMemory limits = .ok spool ∨ openSqlite limits = .ok spool) :
    spool.Sound [] := by
  rcases h with h | h
  · obtain ⟨checked, hchecked, hspool⟩ := ExceptOk.bind_eq_ok h
    obtain rfl := Except.ok.inj hspool
    exact ⟨List.nodup_nil, Ledger.nil, rfl, checkedLimits_nonneg hchecked⟩
  · obtain ⟨checked, hchecked, hspool⟩ := ExceptOk.bind_eq_ok h
    obtain rfl := Except.ok.inj hspool
    exact ⟨List.forall_mem_nil _, Ledger.nil, rfl, checkedLimits_nonneg hchecked⟩

theorem spool_accounting_exact [Sha256] [LocaleCompare] {limits : StageSpoolLimits}
    {calls : List (Call × Database)}
    (hopen : openMemory limits = .ok spool ∨ openSqlite limits = .ok spool)
    (hcalls : AllAccountable spool [] calls)
    (hrun : spool.run [] calls = (after, sealedOutputs)) :
    Exact after sealedOutputs ∧ ∀ call database, Accountable sealedOutputs after database call →
      (∀ fault, (after.step call database).2 = .error fault →
        (after.step call database).1 = after) ∧
      (∀ executionId, call = .cleanup executionId → (after.step call database).2 = .ok none →
        Untouched sealedOutputs executionId (after.step call database).1) := by
  have hsound := (sound_opened hopen).run hcalls hrun
  refine ⟨hsound.exact, fun call database hcalm => ?_⟩
  have hkept := hsound.step hcalm
  refine ⟨hkept.failed, fun executionId hcleanup hok => ?_⟩
  have hexact := hkept.sound.exact
  rw [hok, hcleanup] at hexact
  rw [hcleanup]
  exact untouched_of_exact hexact

def sampleLimits : StageSpoolLimits := ⟨some 100, some 1000⟩

def sampleMemory : StageSpool := .memory ⟨[], ⟨100, 1000⟩, 0⟩

def sampleSqlite : StageSpool := .sqlite ⟨[], ⟨100, 1000⟩, 0⟩

def sampleItem : QueryStreamItem := ⟨.bool true, propertyName "a", []⟩

def sampleStage (executionId : String) : Coordinates :=
  ⟨propertyName executionId, propertyName "s", propertyName "o"⟩

def working : Database := ⟨false, false⟩

def samplePut (executionId : String) : Call × Database :=
  (.put (sampleStage executionId) [sampleItem], working)

def sampleThrow (executionId : String) : Call × Database :=
  (.putIterable (sampleStage executionId) ⟨[sampleItem], true⟩, working)

def sampleCleanup (executionId : String) : Call × Database :=
  (.cleanup (propertyName executionId), working)

abbrev fixedDigest : Sha256 := ⟨fun _ => zero⟩

abbrev codeUnitOrder : LocaleCompare :=
  ⟨fun left right => if left < right then .lt else if right < left then .gt else .eq⟩

theorem spool_accounting_exact_sample :
    let _ : Sha256 := fixedDigest
    let _ : LocaleCompare := codeUnitOrder
    Exact (sampleMemory.run [] [samplePut "a", sampleThrow "a"]).1
      [(sampleStage "a", [payloadBytes sampleItem])] := by
  intro _ _
  have hfresh : sampleMemory.heldRows (sampleStage "a") = [] := by decide +kernel
  have hcalls : AllAccountable sampleMemory [] [samplePut "a", sampleThrow "a"] :=
    ⟨.inl hfresh, .inr (.inl rfl), trivial⟩
  have hrun : (sampleMemory.run [] [samplePut "a", sampleThrow "a"]).2 =
      [(sampleStage "a", [payloadBytes sampleItem])] := by
    decide +kernel
  rw [← hrun]
  exact (@spool_accounting_exact _ _ _ _ _ sampleLimits _ (.inl rfl) hcalls rfl).1

theorem spool_accounting_drifts :
    let _ : Sha256 := fixedDigest
    let _ : LocaleCompare := codeUnitOrder
    openMemory sampleLimits = .ok sampleMemory ∧ openSqlite sampleLimits = .ok sampleSqlite ∧
    (sampleMemory.run [] [samplePut "a", samplePut "a"]).1.bytes ≠
      (sampleMemory.run [] [samplePut "a", samplePut "a"]).1.retainedBytes ∧
    (sampleSqlite.run [] [samplePut "a", samplePut "b", sampleCleanup "a"]).1.bytes ≠
      (sampleSqlite.run [] [samplePut "a", samplePut "b", sampleCleanup "a"]).1.retainedBytes ∧
    (sampleSqlite.run [] [samplePut "a", sampleThrow "a"]).1.heldRows (sampleStage "a") ≠
      (sampleSqlite.run [] [samplePut "a"]).1.heldRows (sampleStage "a") := by
  intro _ _
  refine ⟨rfl, rfl, ?_, ?_, ?_⟩ <;> decide +kernel

end StageSpool

end Spool

end Engine
