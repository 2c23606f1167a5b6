import Urdira.IndexingWorker.DiffSpec
import Urdira.StructuralStore.IdentityRun

open ByteOrder KeyedSet MerkleBucket StructuralStore

namespace IndexingWorker

structure OwnerUpdate where
  owner : ℕ
  next : List RecordRow

structure OwnerUpdate.KernelCold (update : OwnerUpdate) : Prop where
  owned : ∀ row ∈ update.next, row.ownerArtifact = update.owner
  cold : ∀ row ∈ update.next, row.previousRecordId = zero ∧ row.validTo = 0

def identityKeyDigests (rows : List RecordRow) : List Digest32 :=
  rows.map (fun row => row.identityKeyDigest)

def EachOwnerDistinct (updates : List OwnerUpdate) : Prop :=
  ∀ update ∈ updates, (identityKeyDigests update.next).Nodup

def OwnersDistinct (updates : List OwnerUpdate) : Prop :=
  (identityKeyDigests (updates.flatMap OwnerUpdate.next)).Nodup

structure InjectiveIds (rows : List RecordRow) : Prop where
  ids : ∀ a ∈ rows, ∀ b ∈ rows, a.recordId = b.recordId →
    a.recordDigest = b.recordDigest ∧ a.previousRecordId = b.previousRecordId
  digests : ∀ a ∈ rows, ∀ b ∈ rows, a.recordDigest = b.recordDigest →
    a.identityKeyDigest = b.identityKeyDigest
  ids_ne_zero : ∀ a ∈ rows, a.recordId ≠ zero

section Definitions

variable [Sha256]

def ownerDiff (reader : StoreReader) (generation : ℕ) (update : OwnerUpdate) : OwnerDiff :=
  diffOwner (reader.byOwner update.owner (generation - 1)) update.next reader generation

structure DiffsOwners (input : DeltaInput) (reader : StoreReader) (updates : List OwnerUpdate) :
    Prop where
  newer : reader.generation < input.generation
  owners : (updates.map OwnerUpdate.owner).Nodup
  cold : ∀ update ∈ updates, update.KernelCold
  opened :
    input.opened = updates.flatMap (fun update => (ownerDiff reader input.generation update).opened)
  closures : input.closures =
    updates.flatMap (fun update => (ownerDiff reader input.generation update).recordClosures)

structure Generation where
  before : Disk
  updates : List OwnerUpdate
  input : DeltaInput
  after : Disk

inductive DiffRun (distinct : List OwnerUpdate → Prop) : Disk → List RecordRow →
      List Generation → Prop
  | base {disk disk' : Disk} {input : BaseInput} {roots : Roots}
      (cold : ∀ row ∈ input.rows, row.previousRecordId = zero ∧ row.validTo = 0 ∧
        row.validFrom ≤ input.generation)
      (ids : (input.rows.map (fun row => row.recordId)).Nodup)
      (identities : (identityKeyDigests input.rows).Nodup)
      (write : writeBaseWithPending disk input = .ok (disk', roots)) :
      DiffRun distinct disk' input.rows []
  | generation {disk disk' : Disk} {opened : List RecordRow} {generations : List Generation}
      {reader : StoreReader} {updates : List OwnerUpdate} {input : DeltaInput} {roots : Roots}
      (before : DiffRun distinct disk opened generations)
      (opens : StoreReader.open disk = .ok reader) (diffs : DiffsOwners input reader updates)
      (admitted : distinct updates)
      (write : writeDeltaWithReaderAndPending disk reader input = .ok (disk', roots)) :
      DiffRun distinct disk' (opened ++ input.opened)
        (generations ++ [⟨disk, updates, input, disk'⟩])

end Definitions

structure Generation.WellFormed (step : Generation) : Prop where
  closes : ∃ reader, StoreReader.open step.before = .ok reader ∧
    ∀ c ∈ step.input.closures, ∃ row ∈ reader.visible, row.recordId = c.1
  shows : ∃ reader, StoreReader.open step.after = .ok reader ∧
    (reader.visible.map (fun row => row.identityKeyDigest)).Nodup ∧
    ∀ update ∈ step.updates, ∀ pair : Digest32 × Digest32,
      (∃ row ∈ reader.byOwner update.owner step.input.generation,
        (row.identityKeyDigest, row.recordDigest) = pair) ↔
      ∃ row ∈ update.next, (row.identityKeyDigest, row.recordDigest) = pair

structure Chained (reader : StoreReader) : Prop where
  ids_ne_zero : ∀ row ∈ reader.rows, row.recordId ≠ zero
  chain : ∀ row ∈ reader.rows, row.previousRecordId = zero ∨ ∃ pred ∈ reader.rows,
    row.previousRecordId = pred.recordId ∧ pred.identityKeyDigest = row.identityKeyDigest ∧
      pred.validFrom < row.validFrom ∧ AssocMap.get reader.recordClosures pred.recordId ≠ none

structure Filed (reader : StoreReader) : Prop where
  ids : reader.IdsUnique
  rows_valid : ∀ row ∈ reader.rows, row.validFrom ≤ reader.generation ∧ row.validTo = 0
  closures_valid : ∀ c ∈ reader.recordClosures, 0 < c.2 ∧ c.2 ≤ reader.generation
  closures_rows : ∀ c ∈ reader.recordClosures, ∃ row ∈ reader.rows, row.recordId = c.1
  deltas_le : ∀ g ∈ reader.manifest.deltas, g ≤ reader.generation

structure Recorded (reader : StoreReader) (opened : List RecordRow) :
    Prop extends Filed reader where
  rows_perm : (reader.rows.map StoredRow.toRecordFields).Perm (opened.map RecordRow.toRecordFields)
  chained : Chained reader
  last : ∀ shown ∈ reader.visible, ∀ row ∈ reader.rows,
    row.identityKeyDigest = shown.identityKeyDigest → row = shown ∨ row.validFrom < shown.validFrom

namespace Filed

variable {reader : StoreReader}

theorem isVisible_iff (h : Filed reader) {row : StoredRow} (hrow : row ∈ reader.rows)
    {generation : ℕ} (hg : reader.generation ≤ generation) :
    reader.isVisible row generation = true ↔
      AssocMap.get reader.recordClosures row.recordId = none := by
  obtain ⟨hvf, hvt⟩ := h.rows_valid row hrow
  unfold StoreReader.isVisible StoreReader.effectiveValidTo
  cases hget : AssocMap.get reader.recordClosures row.recordId with
  | none => simpa [hvt] using isVisibleAt_zero (hvf.trans hg)
  | some c =>
    obtain ⟨hpos, hle⟩ := h.closures_valid _ (AssocMap.mem_of_get hget)
    simp [isVisibleAt_closed hpos (hle.trans hg)]

theorem mem_visible_iff (h : Filed reader) {row : StoredRow} :
    row ∈ reader.visible ↔ row ∈ reader.rows ∧ AssocMap.get reader.recordClosures row.recordId =
      none := by
  unfold StoreReader.visible
  rw [List.mem_filter]
  exact and_congr_right (fun hrow => h.isVisible_iff hrow le_rfl)

theorem mem_visible (h : Filed reader) {row : StoredRow} {generation : ℕ}
    (hg : reader.generation ≤ generation) :
    row ∈ reader.visible ↔ row ∈ reader.rows ∧ reader.isVisible row generation = true := by
  rw [h.mem_visible_iff]
  exact and_congr_right (fun hrow => (h.isVisible_iff hrow hg).symm)

theorem mem_byOwner (h : Filed reader) {owner generation : ℕ} {row : StoredRow}
    (hg : reader.generation ≤ generation) :
    row ∈ reader.byOwner owner generation ↔ row ∈ reader.visible ∧ row.ownerArtifact = owner := by
  rw [(reader.byOwner_perm owner generation).mem_iff, List.mem_filter, Bool.and_eq_true,
    decide_eq_true_eq, h.mem_visible hg]
  tauto

end Filed

namespace Recorded

variable {reader : StoreReader} {opened : List RecordRow}

theorem visible_eq_of_identity (h : Recorded reader opened) {a b : StoredRow}
    (ha : a ∈ reader.visible)
    (hb : b ∈ reader.visible) (hid : a.identityKeyDigest = b.identityKeyDigest) : a = b := by
  rcases h.last b hb a (List.mem_filter.mp ha).1 hid with heq | hlt
  · exact heq
  · rcases h.last a ha b (List.mem_filter.mp hb).1 hid.symm with heq | hlt'
    · exact heq.symm
    · omega

theorem visible_identities_nodup (h : Recorded reader opened) :
    (reader.visible.map (fun row => row.identityKeyDigest)).Nodup := by
  have hrows : reader.visible.Nodup := (List.Nodup.of_map _ h.ids).filter _
  rw [List.nodup_map_iff_inj_on hrows]
  intro a ha b hb hab
  exact h.visible_eq_of_identity ha hb hab

theorem opened_nodup (h : Recorded reader opened) :
    (opened.map (fun row => row.recordId)).Nodup := by
  have hperm := h.rows_perm.map RecordFields.recordId
  rw [List.map_map, List.map_map] at hperm
  exact hperm.nodup_iff.mp h.ids

theorem mem_opened (h : Recorded reader opened) {row : StoredRow} (hrow : row ∈ reader.rows) :
    ∃ orig ∈ opened, row.toRecordFields = orig.toRecordFields := by
  obtain ⟨orig, horig, heq⟩ := List.mem_map.mp (h.rows_perm.mem_iff.mp (List.mem_map_of_mem hrow))
  exact ⟨orig, horig, heq.symm⟩

end Recorded

structure Supersedes (reader : StoreReader) (input : DeltaInput) (pred : StoredRow)
    (row : RecordRow) :
    Prop where
  stored : pred ∈ reader.rows
  previous : row.previousRecordId = pred.recordId
  identity : pred.identityKeyDigest = row.identityKeyDigest
  superseded : (pred ∈ reader.visible ∧ pred.recordId ∈ input.closures.map Prod.fst) ∨
    (pred ∉ reader.visible ∧ ∀ old ∈ reader.rows,
      old.identityKeyDigest = pred.identityKeyDigest → old.validFrom ≤ pred.validFrom)

section Step

variable [Sha256] {reader : StoreReader} {opened : List RecordRow} {input : DeltaInput}
  {updates : List OwnerUpdate}

theorem DiffsOwners.mem_opened (hd : DiffsOwners input reader updates) {row : RecordRow} :
    row ∈ input.opened ↔ ∃ update ∈ updates, ∃ next ∈ update.next,
      row ∈ (outcomeOf (reader.byOwner update.owner (input.generation - 1)) reader input.generation
        next).opened next input.generation := by
  rw [hd.opened, List.mem_flatMap]
  simp only [ownerDiff, diffOwner, List.mem_flatMap]

theorem DiffsOwners.mem_closures (hd : DiffsOwners input reader updates) {c : Digest32 × ℕ} :
    c ∈ input.closures ↔ c.2 = input.generation ∧ ∃ update ∈ updates,
      ∃ view ∈ closedRows (reader.byOwner update.owner (input.generation - 1)) update.next reader
        input.generation, view.recordId = c.1 := by
  rw [hd.closures, List.mem_flatMap]
  simp only [ownerDiff, diffOwner, List.mem_map]
  constructor
  · rintro ⟨update, hupdate, view, hview, rfl⟩
    exact ⟨rfl, update, hupdate, view, hview, rfl⟩
  · rintro ⟨hgen, update, hupdate, view, hview, hid⟩
    exact ⟨update, hupdate, view, hview, Prod.ext hid hgen.symm⟩

theorem DiffsOwners.mem_closed_ids (hd : DiffsOwners input reader updates) {id : Digest32} :
    id ∈ input.closures.map Prod.fst ↔ ∃ update ∈ updates,
      ∃ view ∈ closedRows (reader.byOwner update.owner (input.generation - 1)) update.next reader
        input.generation, view.recordId = id := by
  rw [List.mem_map]
  constructor
  · rintro ⟨c, hc, rfl⟩
    exact (hd.mem_closures.mp hc).2
  · intro h
    exact ⟨(id, input.generation), hd.mem_closures.mpr ⟨rfl, h⟩, rfl⟩

theorem DiffsOwners.opened_next (hd : DiffsOwners input reader updates) {row : RecordRow}
    (h : row ∈ input.opened) : ∃ update ∈ updates, ∃ next ∈ update.next,
      row.identityKeyDigest = next.identityKeyDigest ∧ row.recordDigest = next.recordDigest ∧
        row.ownerArtifact = update.owner ∧ row.validFrom = input.generation ∧ row.validTo = 0 := by
  obtain ⟨update, hupdate, next, hnext, hopened⟩ := hd.mem_opened.mp h
  obtain ⟨hdigest, hidentity, -, -, hfrom, hto, howner, -⟩ := opened_fields hopened
  have hcold := hd.cold update hupdate
  exact ⟨update, hupdate, next, hnext, hidentity, hdigest, howner.trans (hcold.owned next hnext),
    hfrom,
    hto.trans (hcold.cold next hnext).2⟩

theorem DiffsOwners.opened_identities_nodup (hd : DiffsOwners input reader updates)
    (hdist : OwnersDistinct updates) : (identityKeyDigests input.opened).Nodup := by
  refine List.Nodup.sublist ?_ hdist
  unfold identityKeyDigests
  rw [hd.opened, List.map_flatMap, List.map_flatMap]
  refine List.Sublist.flatMap_right _ (fun update _ => ?_)
  simp only [ownerDiff, diffOwner, List.map_flatMap]
  rw [← List.flatMap_singleton' (List.map _ update.next), List.flatMap_map]
  refine List.Sublist.flatMap_right _ (fun row _ => ?_)
  cases outcomeOf (reader.byOwner update.owner (input.generation - 1)) reader
    input.generation row <;>
    simp [Outcome.opened, chainRow]

variable (hr : Recorded reader opened) (hd : DiffsOwners input reader updates)

include hr hd

theorem mem_prev {update : OwnerUpdate} {view : StoredRow} :
    view ∈ reader.byOwner update.owner (input.generation - 1) ↔
      view ∈ reader.visible ∧ view.ownerArtifact = update.owner :=
  hr.mem_byOwner (Nat.le_sub_one_of_lt hd.newer)

theorem mem_visible_of_last {last : StoredRow} {key : Digest32}
    (hlast : reader.byIdentityLast key = some last) :
    last ∈ reader.visible ↔ reader.isVisible last (input.generation - 1) = true := by
  rw [hr.mem_visible (Nat.le_sub_one_of_lt hd.newer)]
  exact and_iff_right (reader.byIdentityLast_some hlast).1

theorem closedRows_visible {update : OwnerUpdate} {view : StoredRow}
    (hview : view ∈ closedRows (reader.byOwner update.owner (input.generation - 1))
      update.next reader
      input.generation) : view ∈ reader.visible := by
  rcases mem_closedRows hview with hprev | ⟨row, -, hout⟩
  · exact ((mem_prev hr hd).mp hprev).1
  · have hdesc := outcomeOf_describes (reader.byOwner update.owner (input.generation - 1)) reader
      input.generation row
    rw [hout] at hdesc
    obtain ⟨-, hlast, hvis⟩ := hdesc
    exact (mem_visible_of_last hr hd hlast).mpr hvis

theorem closures_visible : ∀ c ∈ input.closures, ∃ row ∈ reader.visible, row.recordId = c.1 := by
  intro c hc
  obtain ⟨-, update, -, view, hview, hid⟩ := hd.mem_closures.mp hc
  exact ⟨view, closedRows_visible hr hd hview, hid⟩

theorem opened_supersedes {row : RecordRow} (h : row ∈ input.opened) :
    (row.previousRecordId = zero ∧
      ∀ old ∈ reader.rows, old.identityKeyDigest ≠ row.identityKeyDigest) ∨
      ∃ pred, Supersedes reader input pred row := by
  obtain ⟨update, hupdate, next, hnext, hopened⟩ := hd.mem_opened.mp h
  have hdesc := outcomeOf_describes (reader.byOwner update.owner (input.generation - 1)) reader
    input.generation next
  have hclose : ∀ view ∈ (outcomeOf (reader.byOwner update.owner (input.generation - 1)) reader
      input.generation next).closed, view.recordId ∈ input.closures.map Prod.fst := by
    intro view hview
    refine hd.mem_closed_ids.mpr ⟨update, hupdate, view, ?_, rfl⟩
    exact List.mem_append_left _ (List.mem_flatMap.mpr ⟨next, hnext, hview⟩)
  cases hout : outcomeOf (reader.byOwner update.owner (input.generation - 1)) reader
    input.generation
      next with
  | unchanged view => simp [hout, Outcome.opened] at hopened
  | replacement view =>
    rw [hout] at hdesc hopened hclose
    obtain rfl := List.mem_singleton.mp hopened
    have hvis := ((mem_prev hr hd).mp hdesc.1).1
    exact Or.inr ⟨view, (List.mem_filter.mp hvis).1, rfl, hdesc.2.1,
      Or.inl ⟨hvis, hclose view (List.mem_singleton.mpr rfl)⟩⟩
  | migration last =>
    rw [hout] at hdesc hopened hclose
    obtain rfl := List.mem_singleton.mp hopened
    obtain ⟨hrow, hkey, -⟩ := reader.byIdentityLast_some hdesc.2.1
    have hvis := (mem_visible_of_last hr hd hdesc.2.1).mpr hdesc.2.2
    exact Or.inr ⟨last, hrow, rfl, hkey, Or.inl ⟨hvis, hclose last (List.mem_singleton.mpr rfl)⟩⟩
  | reopen last =>
    rw [hout] at hdesc hopened
    obtain rfl := List.mem_singleton.mp hopened
    obtain ⟨hrow, hkey, hmax⟩ := reader.byIdentityLast_some hdesc.2.1
    refine Or.inr ⟨last, hrow, rfl, hkey, Or.inr ⟨fun hvis => ?_, fun old hold hid => ?_⟩⟩
    · have hshown := (mem_visible_of_last hr hd hdesc.2.1).mp hvis
      rw [hdesc.2.2] at hshown
      cases hshown
    · exact hmax old hold (hid.trans hkey)
  | firstOccurrence =>
    rw [hout] at hdesc hopened
    obtain rfl := List.mem_singleton.mp hopened
    exact Or.inl ⟨((hd.cold update hupdate).cold next hnext).1, reader.byIdentityLast_none hdesc.2⟩

theorem opened_ids_fresh (hinj : InjectiveIds (opened ++ input.opened)) : ∀ row ∈ input.opened,
    ∀ old ∈ reader.rows, old.recordId ≠ row.recordId := by
  intro row hrow old hold hid
  obtain ⟨orig, horig, heq⟩ := hr.mem_opened hold
  have hmem : orig ∈ opened ++ input.opened := List.mem_append_left _ horig
  have hmem' : row ∈ opened ++ input.opened := List.mem_append_right _ hrow
  rw [heq] at hid
  obtain ⟨hdigest, hprevious⟩ := hinj.ids orig hmem row hmem' hid
  have hsame : old.identityKeyDigest = row.identityKeyDigest := by
    rw [heq]
    exact hinj.digests orig hmem row hmem' hdigest
  rcases opened_supersedes hr hd hrow with ⟨-, hnone⟩ | ⟨pred, hp⟩
  · exact hnone old hold hsame
  · have hpred : old.previousRecordId = pred.recordId := by
      rw [heq]
      exact hprevious.trans hp.previous
    rcases hr.chained.chain old hold with hzero | ⟨pred', hpred', hid', -, hlt, hclosed⟩
    · exact hr.chained.ids_ne_zero pred hp.stored (hpred.symm.trans hzero)
    obtain rfl : pred' = pred :=
      List.inj_on_of_nodup_map hr.ids hpred' hp.stored (hid'.symm.trans hpred)
    rcases hp.superseded with ⟨hvis, -⟩ | ⟨-, hmax⟩
    · exact hclosed ((hr.isVisible_iff hp.stored le_rfl).mp (List.mem_filter.mp hvis).2)
    · have hle := hmax old hold (hsame.trans hp.identity.symm)
      omega

omit hr in
theorem opened_ids_nodup (hdist : OwnersDistinct updates)
    (hinj : InjectiveIds (opened ++ input.opened)) :
    (input.opened.map (fun row => row.recordId)).Nodup := by
  have hidentities := hd.opened_identities_nodup hdist
  rw [List.nodup_map_iff_inj_on (List.Nodup.of_map _ hidentities)]
  intro a ha b hb hab
  have ha' : a ∈ opened ++ input.opened := List.mem_append_right _ ha
  have hb' : b ∈ opened ++ input.opened := List.mem_append_right _ hb
  have hdigest := (hinj.ids a ha' b hb' hab).1
  exact List.inj_on_of_nodup_map hidentities ha hb (hinj.digests a ha' b hb' hdigest)

end Step

section Written

variable [Sha256] {reader : StoreReader} {opened : List RecordRow} {input : DeltaInput}
  {updates : List OwnerUpdate} {manifest : Manifest} {seg : Segment}
  (hr : Recorded reader opened) (hd : DiffsOwners input reader updates)
  (hdist : OwnersDistinct updates) (hinj : InjectiveIds (opened ++ input.opened))
  (hbuilt : input.Built reader manifest seg)

include hd hbuilt in
theorem closures_get_closed {id : Digest32} (hid : id ∈ input.closures.map Prod.fst) :
    AssocMap.get (reader.extend manifest seg).recordClosures id = some input.generation :=
  AssocMap.get_insertAll_of_const _ _ ((hbuilt.closures_perm.map _).mem_iff.mpr hid)
    (fun _ hc => (hd.mem_closures.mp (hbuilt.closures_perm.mem_iff.mp hc)).1)

include hr hd hdist hinj

theorem freshIds : input.FreshIds reader :=
  ⟨opened_ids_nodup hd hdist hinj, opened_ids_fresh hr hd hinj⟩

include hbuilt

theorem filed_extend : Filed (reader.extend manifest seg) where
  ids := (freshIds hr hd hdist hinj).idsUnique hbuilt hr.ids
  rows_valid := by
    intro row hrow
    rw [StoreReader.extend_rows, List.mem_append] at hrow
    rw [StoreReader.extend_generation, hbuilt.manifest_generation]
    rcases hrow with hnew | hold
    · obtain ⟨orig, horig, heq⟩ := hbuilt.mem_rows hnew
      obtain ⟨-, -, -, -, -, -, -, hvf, hvt⟩ := hd.opened_next horig
      rw [heq]
      exact ⟨hvf.le, hvt⟩
    · obtain ⟨hvf, hvt⟩ := hr.rows_valid row hold
      exact ⟨hvf.trans hd.newer.le, hvt⟩
  closures_valid := by
    have hgen := hd.newer
    rw [StoreReader.extend_generation, hbuilt.manifest_generation]
    refine AssocMap.values_insertAll (P := fun closedAt => 0 < closedAt ∧
      closedAt ≤ input.generation)
      (fun c hc => ?_) (fun c hc => ?_)
    · obtain ⟨hpos, hle⟩ := hr.closures_valid c hc
      omega
    · have hat := (hd.mem_closures.mp (hbuilt.closures_perm.mem_iff.mp hc)).1
      omega
  closures_rows := by
    intro c hc
    have hlift : ∀ row ∈ reader.rows, row ∈ (reader.extend manifest seg).rows := by
      intro row hrow
      rw [StoreReader.extend_rows]
      exact List.mem_append_right _ hrow
    rcases (AssocMap.mem_keys_insertAll _ _ _).mp (List.mem_map_of_mem hc) with hold | hnew
    · obtain ⟨c', hc', hkey⟩ := List.mem_map.mp hold
      obtain ⟨row, hrow, hid⟩ := hr.closures_rows c' hc'
      exact ⟨row, hlift row hrow, hid.trans hkey⟩
    · obtain ⟨c', hc', hkey⟩ := List.mem_map.mp hnew
      obtain ⟨row, hrow, hid⟩ := closures_visible hr hd c' (hbuilt.closures_perm.mem_iff.mp hc')
      exact ⟨row, hlift row (List.mem_filter.mp hrow).1, hid.trans hkey⟩
  deltas_le := by
    intro g hg
    have hlist : (reader.extend manifest seg).manifest.deltas =
        reader.manifest.deltas ++ [input.generation] := hbuilt.manifest_deltas
    rw [StoreReader.extend_generation, hbuilt.manifest_generation]
    rw [hlist, List.mem_append, List.mem_singleton] at hg
    rcases hg with hold | rfl
    · exact (hr.deltas_le g hold).trans hd.newer.le
    · exact le_rfl

omit hdist in
theorem opened_get_none {row : RecordRow} (hrow : row ∈ input.opened) :
    AssocMap.get (reader.extend manifest seg).recordClosures row.recordId = none := by
  have hfresh := opened_ids_fresh hr hd hinj row hrow
  have hopen : row.recordId ∉ input.closures.map Prod.fst := by
    intro hmem
    obtain ⟨c, hc, hid⟩ := List.mem_map.mp hmem
    obtain ⟨old, hold, hid'⟩ := closures_visible hr hd c hc
    exact hfresh old (List.mem_filter.mp hold).1 (hid'.trans hid)
  rw [hbuilt.closures_get_old _ hopen, AssocMap.get_eq_none_iff]
  intro hmem
  obtain ⟨c, hc, hid⟩ := List.mem_map.mp hmem
  obtain ⟨old, hold, hid'⟩ := hr.closures_rows c hc
  exact hfresh old hold (hid'.trans hid)

theorem mem_visible_extend {row : StoredRow} :
    row ∈ (reader.extend manifest seg).visible ↔
      row ∈ seg.rows ∨ (row ∈ reader.visible ∧ row.recordId ∉ input.closures.map Prod.fst) := by
  rw [(filed_extend hr hd hdist hinj hbuilt).mem_visible_iff, StoreReader.extend_rows,
    List.mem_append,
    or_and_right, hr.mem_visible_iff, and_assoc]
  refine or_congr (and_iff_left_of_imp (fun hnew => ?_)) (and_congr_right (fun _ => ?_))
  · obtain ⟨orig, horig, heq⟩ := hbuilt.mem_rows hnew
    rw [heq]
    exact opened_get_none hr hd hinj hbuilt horig
  · by_cases hmem : row.recordId ∈ input.closures.map Prod.fst
    · rw [closures_get_closed hd hbuilt hmem]
      simp [hmem]
    · rw [hbuilt.closures_get_old _ hmem]
      simp [hmem]

theorem mem_visible_extend_of_opened {row : RecordRow} (hrow : row ∈ input.opened) :
    ∃ stored ∈ (reader.extend manifest seg).visible, stored.toRecordFields =
      row.toRecordFields := by
  have hperm := hbuilt.map_rows id
  obtain ⟨stored, hstored, heq⟩ := List.mem_map.mp (hperm.mem_iff.mpr (List.mem_map_of_mem hrow))
  exact ⟨stored, (mem_visible_extend hr hd hdist hinj hbuilt).mpr (Or.inl hstored), heq⟩

omit hdist in
theorem chained_extend : Chained (reader.extend manifest seg) := by
  have hclosed : ∀ pred : StoredRow, pred.recordId ∈ input.closures.map Prod.fst ∨
      AssocMap.get reader.recordClosures pred.recordId ≠ none →
      AssocMap.get (reader.extend manifest seg).recordClosures pred.recordId ≠ none := by
    intro pred hor
    by_cases hmem : pred.recordId ∈ input.closures.map Prod.fst
    · rw [closures_get_closed hd hbuilt hmem]
      simp
    · rw [hbuilt.closures_get_old _ hmem]
      exact hor.resolve_left hmem
  have hlift : ∀ row ∈ reader.rows, row ∈ (reader.extend manifest seg).rows := by
    intro row hrow
    rw [StoreReader.extend_rows]
    exact List.mem_append_right _ hrow
  refine ⟨?_, ?_⟩
  · intro row hrow
    rw [StoreReader.extend_rows, List.mem_append] at hrow
    rcases hrow with hnew | hold
    · obtain ⟨orig, horig, heq⟩ := hbuilt.mem_rows hnew
      rw [heq]
      exact hinj.ids_ne_zero orig (List.mem_append_right _ horig)
    · exact hr.chained.ids_ne_zero row hold
  · intro row hrow
    rw [StoreReader.extend_rows, List.mem_append] at hrow
    rcases hrow with hnew | hold
    · obtain ⟨orig, horig, heq⟩ := hbuilt.mem_rows hnew
      rw [heq]
      rcases opened_supersedes hr hd horig with ⟨hzero, -⟩ | ⟨pred, hp⟩
      · exact Or.inl hzero
      · have hfrom := (hr.rows_valid pred hp.stored).1
        have hnewer := hd.newer
        obtain ⟨-, -, -, -, -, -, -, horigFrom, -⟩ := hd.opened_next horig
        refine Or.inr ⟨pred, hlift pred hp.stored, hp.previous, hp.identity,
          by omega, hclosed pred ?_⟩
        rcases hp.superseded with ⟨-, hmem⟩ | ⟨hinvisible, -⟩
        · exact Or.inl hmem
        · refine Or.inr (fun hnone => hinvisible ?_)
          exact hr.mem_visible_iff.mpr ⟨hp.stored, hnone⟩
    · rcases hr.chained.chain row hold with hzero | ⟨pred, hpred, hprevious, hid, hlt, hnone⟩
      · exact Or.inl hzero
      · exact Or.inr ⟨pred, hlift pred hpred, hprevious, hid, hlt, hclosed pred (Or.inr hnone)⟩

theorem last_extend : ∀ shown ∈ (reader.extend manifest seg).visible,
    ∀ row ∈ (reader.extend manifest seg).rows, row.identityKeyDigest = shown.identityKeyDigest →
      row = shown ∨ row.validFrom < shown.validFrom := by
  intro shown hshown row hrow hid
  have hnewer := hd.newer
  have hunique := (filed_extend hr hd hdist hinj hbuilt).ids
  have hstored : shown ∈ (reader.extend manifest seg).rows := (List.mem_filter.mp hshown).1
  rw [StoreReader.extend_rows, List.mem_append] at hrow
  rcases (mem_visible_extend hr hd hdist hinj hbuilt).mp hshown with hnew | ⟨hvis, hopen⟩
  · obtain ⟨orig, horig, heq⟩ := hbuilt.mem_rows hnew
    obtain ⟨-, -, -, -, -, -, -, horigFrom, -⟩ := hd.opened_next horig
    have hfrom : shown.validFrom = input.generation := by
      rw [heq]
      exact horigFrom
    rcases hrow with hrowNew | hrowOld
    · obtain ⟨orig', horig', heq'⟩ := hbuilt.mem_rows hrowNew
      rw [heq, heq'] at hid
      obtain rfl := List.inj_on_of_nodup_map (hd.opened_identities_nodup hdist) horig' horig hid
      refine Or.inl (List.inj_on_of_nodup_map hunique ?_ hstored ?_)
      · rw [StoreReader.extend_rows]
        exact List.mem_append_left _ hrowNew
      · exact congrArg RecordFields.recordId (heq'.trans heq.symm)
    · have hle := (hr.rows_valid row hrowOld).1
      exact Or.inr (by omega)
  · rcases hrow with hrowNew | hrowOld
    · -- an identity opened again supersedes the row that shows it, so that row is closed here
      obtain ⟨orig, horig, heq⟩ := hbuilt.mem_rows hrowNew
      have hsame : shown.identityKeyDigest = orig.identityKeyDigest := by
        rw [← hid, heq]
      rcases opened_supersedes hr hd horig with ⟨-, hnone⟩ | ⟨pred, hp⟩
      · exact absurd hsame (hnone shown (List.mem_filter.mp hvis).1)
      · have hpred : pred.identityKeyDigest = shown.identityKeyDigest :=
          hp.identity.trans hsame.symm
        rcases hp.superseded with ⟨hpredVis, hclosed⟩ | ⟨hhidden, hmax⟩
        · obtain rfl := hr.visible_eq_of_identity hpredVis hvis hpred
          exact absurd hclosed hopen
        · rcases hr.last shown hvis pred hp.stored hpred with rfl | hlt
          · exact absurd hvis hhidden
          · have hle := hmax shown (List.mem_filter.mp hvis).1 hpred.symm
            omega
    · exact hr.last shown hvis row hrowOld hid

theorem recorded_extend : Recorded (reader.extend manifest seg) (opened ++ input.opened) where
  toFiled := filed_extend hr hd hdist hinj hbuilt
  rows_perm := by
    rw [StoreReader.extend_rows, List.map_append, List.map_append]
    exact ((hbuilt.map_rows id).append hr.rows_perm).trans List.perm_append_comm
  chained := chained_extend hr hd hinj hbuilt
  last := last_extend hr hd hdist hinj hbuilt

omit hinj hbuilt in
theorem unchanged_stays_open {update : OwnerUpdate} (hupdate : update ∈ updates) {next : RecordRow}
    (hnext : next ∈ update.next) {view : StoredRow}
    (hout : outcomeOf (reader.byOwner update.owner (input.generation - 1)) reader
      input.generation next =
      .unchanged view) : view.recordId ∉ input.closures.map Prod.fst := by
  have hdesc := outcomeOf_describes (reader.byOwner update.owner (input.generation - 1)) reader
    input.generation next
  rw [hout] at hdesc
  obtain ⟨hprev, hidentity, -⟩ := hdesc
  obtain ⟨hvis, howner⟩ := (mem_prev hr hd).mp hprev
  intro hmem
  obtain ⟨update', hupdate', view', hclosed, hid⟩ := hd.mem_closed_ids.mp hmem
  have hvis' := closedRows_visible hr hd hclosed
  obtain rfl : view' = view :=
    List.inj_on_of_nodup_map hr.ids (List.mem_filter.mp hvis').1 (List.mem_filter.mp hvis).1 hid
  have hsame : update'.owner = update.owner → update' = update :=
    List.inj_on_of_nodup_map hd.owners hupdate' hupdate
  rcases List.mem_append.mp hclosed with hsuperseded | hunmatched
  · obtain ⟨next', hnext', hclosed'⟩ := List.mem_flatMap.mp hsuperseded
    obtain rfl : next' = next :=
      List.inj_on_of_nodup_map hdist (List.mem_flatMap.mpr ⟨update', hupdate', hnext'⟩)
        (List.mem_flatMap.mpr ⟨update, hupdate, hnext⟩)
        ((closed_identity hclosed').symm.trans hidentity)
    obtain rfl := hsame (((hd.cold update' hupdate').owned next' hnext').symm.trans
      ((hd.cold update hupdate).owned next' hnext))
    simp [hout, Outcome.closed] at hclosed'
  · obtain ⟨hprev', hmatched⟩ := List.mem_filter.mp hunmatched
    obtain rfl := hsame (((mem_prev hr hd).mp hprev').2.symm.trans howner)
    refine of_decide_eq_true hmatched (List.mem_flatMap.mpr ⟨next, hnext, ?_⟩)
    rw [hout]
    exact List.mem_singleton.mpr rfl

omit hinj hbuilt hdist in
theorem open_row_unchanged {update : OwnerUpdate} (hupdate : update ∈ updates) {view : StoredRow}
    (hview : view ∈ reader.visible) (howner : view.ownerArtifact = update.owner)
    (hopen : view.recordId ∉ input.closures.map Prod.fst) :
    ∃ next ∈ update.next, next.identityKeyDigest = view.identityKeyDigest ∧
      next.recordDigest = view.recordDigest := by
  have hprev := (mem_prev hr hd).mpr ⟨hview, howner⟩
  have hnotClosed : view ∉ closedRows (reader.byOwner update.owner (input.generation - 1))
      update.next
      reader input.generation :=
    fun hclosed => hopen (hd.mem_closed_ids.mpr ⟨update, hupdate, view, hclosed, rfl⟩)
  have hmatched : view.recordId ∈ update.next.flatMap (fun row =>
      (outcomeOf (reader.byOwner update.owner (input.generation - 1)) reader input.generation
        row).matched) := by
    by_contra hnot
    exact hnotClosed (List.mem_append_right _ (List.mem_filter.mpr ⟨hprev, decide_eq_true hnot⟩))
  obtain ⟨next, hnext, hid⟩ := List.mem_flatMap.mp hmatched
  have hdesc := outcomeOf_describes (reader.byOwner update.owner (input.generation - 1)) reader
    input.generation next
  have hrow : ∀ v ∈ reader.byOwner update.owner (input.generation - 1), view.recordId = v.recordId →
      view = v := by
    intro v hv heq
    have hvis := ((mem_prev hr hd).mp hv).1
    exact List.inj_on_of_nodup_map hr.ids (List.mem_filter.mp hview).1
      (List.mem_filter.mp hvis).1 heq
  cases hout : outcomeOf (reader.byOwner update.owner (input.generation - 1)) reader
    input.generation
      next with
  | unchanged v =>
    rw [hout] at hdesc hid
    obtain rfl := hrow v hdesc.1 (List.mem_singleton.mp hid)
    exact ⟨next, hnext, hdesc.2.1.symm, hdesc.2.2.symm⟩
  | replacement v =>
    rw [hout] at hdesc hid
    obtain rfl := hrow v hdesc.1 (List.mem_singleton.mp hid)
    refine absurd (List.mem_append_left _ (List.mem_flatMap.mpr ⟨next, hnext, ?_⟩)) hnotClosed
    rw [hout]
    exact List.mem_singleton.mpr rfl
  | migration last => simp [hout, Outcome.matched] at hid
  | reopen last => simp [hout, Outcome.matched] at hid
  | firstOccurrence => simp [hout, Outcome.matched] at hid

theorem owner_shows_next {update : OwnerUpdate} (hupdate : update ∈ updates)
    (pair : Digest32 × Digest32) :
    (∃ row ∈ (reader.extend manifest seg).byOwner update.owner input.generation,
      (row.identityKeyDigest, row.recordDigest) = pair) ↔
      ∃ row ∈ update.next, (row.identityKeyDigest, row.recordDigest) = pair := by
  have hgeneration : (reader.extend manifest seg).generation ≤ input.generation :=
    hbuilt.manifest_generation.le
  have hcold := hd.cold update hupdate
  simp only [(filed_extend hr hd hdist hinj hbuilt).mem_byOwner hgeneration]
  constructor
  · rintro ⟨row, ⟨hvis, howner⟩, rfl⟩
    rcases (mem_visible_extend hr hd hdist hinj hbuilt).mp hvis with hnew | ⟨hold, hopen⟩
    · obtain ⟨orig, horig, heq⟩ := hbuilt.mem_rows hnew
      obtain ⟨update', hupdate', next, hnext, hidentity, hdigest, howner', -⟩ :=
        hd.opened_next horig
      obtain rfl := List.inj_on_of_nodup_map hd.owners hupdate' hupdate
        (howner'.symm.trans ((congrArg RecordFields.ownerArtifact heq).symm.trans howner))
      refine ⟨next, hnext, ?_⟩
      rw [heq]
      exact Prod.ext hidentity.symm hdigest.symm
    · obtain ⟨next, hnext, hidentity, hdigest⟩ := open_row_unchanged hr hd hupdate hold howner hopen
      exact ⟨next, hnext, Prod.ext hidentity hdigest⟩
  · rintro ⟨next, hnext, rfl⟩
    by_cases hopened : ∃ view, outcomeOf (reader.byOwner update.owner (input.generation - 1)) reader
        input.generation next = .unchanged view
    · obtain ⟨view, hout⟩ := hopened
      have hdesc := outcomeOf_describes (reader.byOwner update.owner (input.generation - 1)) reader
        input.generation next
      rw [hout] at hdesc
      obtain ⟨hvis, howner⟩ := (mem_prev hr hd).mp hdesc.1
      have hopen := unchanged_stays_open hr hd hdist hupdate hnext hout
      exact ⟨view, ⟨(mem_visible_extend hr hd hdist hinj hbuilt).mpr (Or.inr ⟨hvis, hopen⟩),
        howner⟩,
        Prod.ext hdesc.2.1 hdesc.2.2⟩
    · obtain ⟨row, hrow⟩ := opened_of_not_unchanged hopened
      obtain ⟨hdigest, hidentity, -, -, -, -, howner, -⟩ := opened_fields hrow
      obtain ⟨stored, hstored, heq⟩ := mem_visible_extend_of_opened hr hd hdist hinj hbuilt
        (hd.mem_opened.mpr ⟨update, hupdate, next, hnext, hrow⟩)
      refine ⟨stored, ⟨hstored, ?_⟩, ?_⟩
      · rw [heq]
        exact howner.trans (hcold.owned next hnext)
      · rw [heq]
        exact Prod.ext hidentity hdigest

end Written

end IndexingWorker
