import Urdira.Engine.SpoolAgreement
import Urdira.NativeCore.DigestFraming

open ByteOrder Canonical MerkleBucket TextCodec Utf16

namespace Engine

namespace Spool

inductive Kind where
  | memory
  | sqlite

abbrev SealedSets := List (Coordinates × List QueryStreamItem)

namespace StageSpool

def kind : StageSpool → Kind
  | .memory _ => .memory
  | .sqlite _ => .sqlite

section Handles

variable [Sha256] [LocaleCompare]

def putIterable (spool : StageSpool) (c : Coordinates) (values : Values) (database : Database) :
    StageSpool × Except SpoolError StageSetHandle :=
  match spool with
  | .memory spool => (spool.putIterable c values).map .memory id
  | .sqlite spool => (spool.putIterable c values database).map .sqlite id

def iterate (spool : StageSpool) (handle : StageSetHandle) : Yields :=
  match handle.source, spool with
  | .copied items, _ => ⟨items.map QueryStreamItem.canonical, none⟩
  | .paged, .sqlite spool => (spool.iterate handle.coordinates (spool.rows.length + 1)).getD
      ⟨[], none⟩
  | .paged, .memory _ => ⟨[], none⟩

def handleOf (kind : Kind) (c : Coordinates) (items : List QueryStreamItem) : StageSetHandle :=
  match kind with
  | .memory =>
    stageSetHandleMetadata c items.length ((setRoot items).toOption.getD []) .declared
      (.copied items)
  | .sqlite =>
    stageSetHandleMetadata c items.length ((memberRoot items).toOption.getD []) .declared .paged

end Handles

def yieldsOf (kind : Kind) (c : Coordinates) (items : List QueryStreamItem) : Yields :=
  match kind with
  | .memory => ⟨items.map QueryStreamItem.canonical, none⟩
  | .sqlite => decodeRows (SqliteStageSpool.rowsFrom c 0 items)

def Stored (executionId : Text) (sets : SealedSets) : StageSpool → Prop
  | .memory _ => True
  | .sqlite spool =>
      spool.rows.filter (fun row => decide (row.executionId = encodeUtf8 executionId)) =
      sets.flatMap (fun set => SqliteStageSpool.rowsFrom set.1 0 set.2)

def Distinct (sets : SealedSets) : Prop :=
  (sets.map (fun set => SqliteStageSpool.storedKey set.1)).Nodup

def Sealable (values : Values) : Prop :=
  values.throws = false ∧ ∀ item ∈ values.items, HasPayload item

def valuesSize (values : Values) : ℕ := sizeOf (values.items.map payloadBytes)

section Consuming

variable {hardBytes room bytes : ℤ} {values : Values}

theorem collect_fits {start : ℤ} {items : List QueryStreamItem}
    (hall : ∀ item ∈ items, HasPayload item)
    (hroom : start + sizeOf (items.map payloadBytes) ≤ room) :
    collect hardBytes room start items = .ok (start + sizeOf (items.map payloadBytes)) := by
  induction items generalizing start with
  | nil =>
    have hzero : (sizeOf (([] : List QueryStreamItem).map payloadBytes) : ℤ) = 0 := rfl
    rw [collect, hzero, add_zero]
  | cons item items ih =>
    obtain ⟨⟨payload, hpayload⟩, hrest⟩ := List.forall_mem_cons.mp hall
    have hsize : (sizeOf ((item :: items).map payloadBytes) : ℤ) =
        payload.length + sizeOf (items.map payloadBytes) := by
      rw [List.map_cons, payloadBytes_of_ok hpayload]
      exact Nat.cast_add _ _
    rw [hsize, ← add_assoc] at hroom ⊢
    rw [collect, hpayload]
    dsimp only
    rw [if_neg (by omega)]
    exact ih hrest hroom

theorem consumed_iff (hroom : 0 ≤ room) : consumed hardBytes room values = .ok bytes ↔
    Sealable values ∧ bytes = valuesSize values ∧ (valuesSize values : ℤ) ≤ room := by
  constructor
  · intro h
    obtain ⟨hbytes, hle, haccepted⟩ := consumed_ok hroom h
    exact ⟨⟨(collected_of_consumed h).2, consumed_payloads h⟩, hbytes, hbytes ▸ hle⟩
  · rintro ⟨⟨hends, hall⟩, rfl, hle⟩
    have hcollect : collect hardBytes room 0 values.items = .ok (0 + (valuesSize values : ℤ)) :=
      collect_fits hall (by rw [zero_add]; exact hle)
    rw [zero_add] at hcollect
    rw [consumed, hcollect, hends]
    rfl

end Consuming

section Puts

variable [Sha256] [LocaleCompare] {spool next : StageSpool} {c : Coordinates} {values : Values}
  {database : Database}
  {sets : SealedSets} {handle : StageSetHandle}

structure Grown (spool next : StageSpool) (size : ℕ) : Prop where
  kind : next.kind = spool.kind
  hardBytes : next.hardBytes = spool.hardBytes
  bytes : next.bytes = spool.bytes + size
  bounded : next.bytes ≤ next.hardBytes

omit [Sha256] [LocaleCompare] in
theorem insertRows_eq {rows more inserted : List Row}
    (h : SqliteStageSpool.insertRows rows more = .ok inserted) :
    inserted = rows ++ more := by
  induction more generalizing rows with
  | nil =>
    rw [SqliteStageSpool.insertRows] at h
    simpa using (Except.ok.inj h).symm
  | cons row more ih =>
    rw [SqliteStageSpool.insertRows] at h
    split at h
    · cases h
    · simpa using ih h

omit [Sha256] [LocaleCompare] in
theorem Stored.append {spool : SqliteStageSpool} {used : ℤ}
    (h : (StageSpool.sqlite spool).Stored c.executionId sets)
    (items : List QueryStreamItem) :
    (StageSpool.sqlite
      { spool with rows := spool.rows ++ SqliteStageSpool.rowsFrom c 0 items, used }).Stored
      c.executionId (sets ++ [(c, items)]) := by
  have hnew : (SqliteStageSpool.rowsFrom c 0 items).filter
      (fun row => decide (row.executionId = encodeUtf8 c.executionId)) =
        SqliteStageSpool.rowsFrom c 0 items := by
    rw [List.filter_eq_self]
    intro row hrow
    exact decide_eq_true (congrArg Prod.fst (SqliteStageSpool.rowKey_rowsFrom row hrow).1)
  rw [Stored] at h ⊢
  simp [List.filter_append, h, hnew]

theorem put_memory {spool : MemoryStageSpool} {bytes : ℤ}
    (h : consumed spool.limits.hardBytes (spool.limits.hardBytes - spool.used) values = .ok bytes) :
    (StageSpool.memory spool).putIterable c values database =
      (.memory { spool with
          rows := AssocMap.insert spool.rows (MemoryStageSpool.keyOf c) values.items
          used := spool.used + bytes },
        .ok (handleOf .memory c values.items)) := by
  obtain ⟨root, hroot⟩ := setRoot_succeeds (consumed_payloads h)
  rw [putIterable, MemoryStageSpool.putIterable, h, stageSetHandle, handleOf, hroot]
  rfl

theorem put_sqlite {spool : SqliteStageSpool} {bytes : ℤ} {inserted : List Row}
    (h : consumed spool.limits.hardBytes (spool.limits.hardBytes - spool.used) values = .ok bytes)
    (hinserted : SqliteStageSpool.insertRows spool.rows
      (SqliteStageSpool.rowsFrom c 0 values.items) = .ok inserted)
    (hcommits : database.transactionFails = false) :
    (StageSpool.sqlite spool).putIterable c values database =
      (.sqlite { spool with rows := inserted, used := spool.used + bytes },
        .ok (handleOf .sqlite c values.items)) := by
  obtain ⟨tree, htree, hmembers⟩ := consumedMembers_ok h
  have hrun : spool.transaction c values database = .ok (inserted, bytes, tree) := by
    rw [SqliteStageSpool.transaction, hmembers, hcommits]
    simp only [bind, Except.bind, hinserted]
    rfl
  rw [putIterable, SqliteStageSpool.putIterable, hrun, handleOf, memberRoot, htree]
  rfl

theorem put_ok (hstored : spool.Stored c.executionId sets)
    (hbounded : spool.bytes ≤ spool.hardBytes)
    (h : spool.putIterable c values database = (next, .ok handle)) :
    Sealable values ∧ handle = handleOf spool.kind c values.items ∧
      Grown spool next (valuesSize values) ∧
      next.Stored c.executionId (sets ++ [(c, values.items)]) := by
  cases spool with
  | memory spool =>
    have hroom : 0 ≤ spool.limits.hardBytes - spool.used := sub_nonneg.mpr hbounded
    cases hrun : consumed spool.limits.hardBytes (spool.limits.hardBytes - spool.used) values with
    | error fault =>
      rw [putIterable, MemoryStageSpool.putIterable, hrun] at h
      cases (Prod.mk.inj h).2
    | ok bytes =>
      obtain ⟨hsealable, hbytes, hle⟩ := (consumed_iff hroom).mp hrun
      rw [put_memory hrun] at h
      obtain ⟨rfl, hhandle⟩ := Prod.mk.inj h
      refine ⟨hsealable, (Except.ok.inj hhandle).symm,
        ⟨rfl, rfl, congrArg (spool.used + ·) hbytes, ?_⟩, trivial⟩
      change spool.used + bytes ≤ spool.limits.hardBytes
      omega
  | sqlite spool =>
    have hroom : 0 ≤ spool.limits.hardBytes - spool.used := sub_nonneg.mpr hbounded
    cases hrun : spool.transaction c values database with
    | error fault =>
      rw [putIterable, SqliteStageSpool.putIterable, hrun] at h
      cases (Prod.mk.inj h).2
    | ok result =>
      obtain ⟨collected, hcollected, hrest⟩ := ExceptOk.bind_eq_ok hrun
      obtain ⟨inserted, hinserted, hlast⟩ := ExceptOk.bind_eq_ok hrest
      have hconsumed := consumed_of_members hcollected
      obtain ⟨hsealable, hbytes, hle⟩ := (consumed_iff hroom).mp hconsumed
      cases hcommits : database.transactionFails with
      | true =>
        rw [hcommits] at hlast
        cases hlast
      | false =>
        rw [put_sqlite hconsumed hinserted hcommits] at h
        obtain ⟨rfl, hhandle⟩ := Prod.mk.inj h
        refine ⟨hsealable, (Except.ok.inj hhandle).symm,
          ⟨rfl, rfl, congrArg (spool.used + ·) hbytes, ?_⟩, ?_⟩
        · change spool.used + collected.1 ≤ spool.limits.hardBytes
          omega
        · rw [insertRows_eq hinserted]
          exact Stored.append hstored values.items

theorem put_succeeds (hstored : spool.Stored c.executionId sets)
    (hapart : ∀ set ∈ sets, SqliteStageSpool.storedKey set.1 ≠ SqliteStageSpool.storedKey c)
    (hsealable : Sealable values) (hroom : spool.bytes + valuesSize values ≤ spool.hardBytes)
    (hcommits : database.transactionFails = false) :
    ∃ next handle, spool.putIterable c values database = (next, .ok handle) := by
  cases spool with
  | memory spool =>
    have hfits : spool.used + valuesSize values ≤ spool.limits.hardBytes := hroom
    have hrun : consumed spool.limits.hardBytes (spool.limits.hardBytes - spool.used) values =
        .ok (valuesSize values : ℤ) := (consumed_iff (by omega)).mpr ⟨hsealable, rfl, by omega⟩
    exact ⟨_, _, put_memory hrun⟩
  | sqlite spool =>
    have hfits : spool.used + valuesSize values ≤ spool.limits.hardBytes := hroom
    have hrun : consumed spool.limits.hardBytes (spool.limits.hardBytes - spool.used) values =
        .ok (valuesSize values : ℤ) := (consumed_iff (by omega)).mpr ⟨hsealable, rfl, by omega⟩
    have hfree : ∀ row ∈ spool.rows,
        SqliteStageSpool.rowKey row = SqliteStageSpool.storedKey c → row.ordinal < 0 := by
      intro row hrow hkey
      have hown : row ∈ spool.rows.filter
          (fun row => decide (row.executionId = encodeUtf8 c.executionId)) :=
        List.mem_filter.mpr ⟨hrow, decide_eq_true (congrArg Prod.fst hkey)⟩
      have hsets :
          spool.rows.filter (fun row => decide (row.executionId = encodeUtf8 c.executionId)) = _ :=
            hstored
      rw [hsets] at hown
      obtain ⟨set, hset, hrowset⟩ := List.mem_flatMap.mp hown
      exact absurd ((SqliteStageSpool.rowKey_rowsFrom row hrowset).1.symm.trans hkey)
        (hapart set hset)
    exact ⟨_, _, put_sqlite hrun (SqliteStageSpool.insertRows_ok hfree) hcommits⟩

omit [Sha256] [LocaleCompare] in
theorem filter_sets (h : Distinct sets) {items : List QueryStreamItem} (hmem : (c, items) ∈ sets) :
    (sets.flatMap (fun set => SqliteStageSpool.rowsFrom set.1 0 set.2)).filter
      (fun row => decide (SqliteStageSpool.rowKey row = SqliteStageSpool.storedKey c)) =
      SqliteStageSpool.rowsFrom c 0 items := by
  induction sets with
  | nil => cases hmem
  | cons set sets ih =>
    obtain ⟨hnew, hrest⟩ := List.nodup_cons.mp h
    rw [List.flatMap_cons, List.filter_append]
    rcases List.mem_cons.mp hmem with rfl | hmem
    · have hself : (SqliteStageSpool.rowsFrom c 0 items).filter
          (fun row => decide (SqliteStageSpool.rowKey row = SqliteStageSpool.storedKey c)) =
          SqliteStageSpool.rowsFrom c 0 items :=
        List.filter_eq_self.mpr (fun row hrow =>
          decide_eq_true (SqliteStageSpool.rowKey_rowsFrom row hrow).1)
      have hothers : (sets.flatMap (fun set => SqliteStageSpool.rowsFrom set.1 0 set.2)).filter
          (fun row => decide (SqliteStageSpool.rowKey row = SqliteStageSpool.storedKey c)) =
            [] := by
        refine List.filter_eq_nil_iff.mpr (fun row hrow hkey => ?_)
        obtain ⟨other, hother, hrow⟩ := List.mem_flatMap.mp hrow
        have hsame :=
          (SqliteStageSpool.rowKey_rowsFrom row hrow).1.symm.trans (of_decide_eq_true hkey)
        exact hnew (List.mem_map.mpr ⟨other, hother, hsame⟩)
      rw [hself, hothers, List.append_nil]
    · have hnone : (SqliteStageSpool.rowsFrom set.1 0 set.2).filter
          (fun row => decide (SqliteStageSpool.rowKey row = SqliteStageSpool.storedKey c)) =
            [] := by
        refine List.filter_eq_nil_iff.mpr (fun row hrow hkey => ?_)
        have hsame :=
          (SqliteStageSpool.rowKey_rowsFrom row hrow).1.symm.trans (of_decide_eq_true hkey)
        exact hnew (List.mem_map.mpr ⟨(c, items), hmem, hsame.symm⟩)
      rw [hnone, ih hrest hmem, List.nil_append]

theorem iterate_stored (hstored : spool.Stored c.executionId sets) (hdistinct : Distinct sets)
    {items : List QueryStreamItem} (hmem : (c, items) ∈ sets) :
    spool.iterate (handleOf spool.kind c items) = yieldsOf spool.kind c items := by
  cases spool with
  | memory spool => rfl
  | sqlite spool =>
    have hsets :
        spool.rows.filter (fun row => decide (row.executionId = encodeUtf8 c.executionId)) = _ :=
          hstored
    have hstage : SqliteStageSpool.stageRows spool.rows c =
        SqliteStageSpool.rowsFrom c 0 items := by
      rw [← filter_sets hdistinct hmem, ← hsets, List.filter_filter]
      refine List.filter_congr (fun row _ => ?_)
      by_cases hkey : SqliteStageSpool.rowKey row = SqliteStageSpool.storedKey c
      · have hown : row.executionId = encodeUtf8 c.executionId := congrArg Prod.fst hkey
        rw [decide_eq_true hkey, decide_eq_true hown]
        rfl
      · rw [decide_eq_false hkey]
        rfl
    have hread : spool.iterate c (spool.rows.length + 1) =
        some (decodeRows (SqliteStageSpool.rowsFrom c 0 items)) := by
      have hordered := SqliteStageSpool.rowsFrom_ordered (c := c) items
      have hlength : (SqliteStageSpool.stageRows spool.rows c).length < spool.rows.length + 1 :=
        Nat.lt_succ_of_le (List.length_filter_le _ _)
      rw [← hstage] at hordered ⊢
      exact SqliteStageSpool.iterate_ordered hordered hlength
    change (spool.iterate c (spool.rows.length + 1)).getD ⟨[], none⟩ = _
    rw [hread]
    rfl

end Puts

end StageSpool

end Spool

end Engine
