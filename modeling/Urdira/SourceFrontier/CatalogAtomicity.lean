import Urdira.SourceFrontier.Catalog

open Chunks MerkleBucket

namespace SourceFrontier

variable {α β : Type} {P Q : Frontier → Prop}

def Settles (P : Frontier → Prop) (view : α → Frontier) : Except Failure α → Prop
  | .ok a => P (view a)
  | .error failure => P failure.frontier

namespace Settles

theorem mono {view : α → Frontier} {r : Except Failure α} (h : Settles P view r)
    (hPQ : ∀ f, P f → Q f) : Settles Q view r := by
  cases r with
  | ok a => exact hPQ _ h
  | error failure => exact hPQ _ h

theorem bind {view : α → Frontier} {view' : β → Frontier} {r : Except Failure α}
    {g : α → Except Failure β} (h : Settles P view r) (hg : ∀ a, P (view a) → Settles Q view' (g a))
    (hPQ : ∀ f, P f → Q f) : Settles Q view' (r >>= g) := by
  cases r with
  | ok a => exact hg a h
  | error failure => exact hPQ _ h

theorem foldlM {step : Transaction → β → Except Failure Transaction}
    (hstep : ∀ t b, P t.frontier → Settles P Transaction.frontier (step t b)) (xs : List β)
    {t : Transaction} (h : P t.frontier) : Settles P Transaction.frontier (xs.foldlM step t) := by
  induction xs generalizing t with
  | nil => exact h
  | cons b xs ih =>
    rw [List.foldlM_cons]
    exact (hstep t b h).bind (fun t' ht' => ih ht') (fun _ hf => hf)

theorem executeAll {t : Transaction} (h : P t.frontier) (result : Except Fault Database) :
    Settles P Transaction.frontier (t.executeAll result) := by
  cases result with
  | ok db => exact h
  | error error => exact h

theorem update (t : Transaction) {result : Except Failure Frontier} (h : Settles P id result) :
    Settles P Transaction.frontier (t.update result) := by
  cases result with
  | ok f => exact h
  | error failure => exact h

end Settles

section Updates

variable [Sha256]

namespace Frontier

def SameMaps (f f' : Frontier) : Prop :=
  f'.nextOrdinal = f.nextOrdinal ∧ f'.present = f.present ∧ f'.absent = f.absent

theorem changePresent_maps (f : Frontier) (change : Change) :
    Settles f.SameMaps id (f.changePresent change) := by
  unfold changePresent
  cases applyBucketChange f.presentTree f.presentBucketIndex change with
  | mk index result =>
    cases result with
    | ok tree => exact ⟨rfl, rfl, rfl⟩
    | error error => exact ⟨rfl, rfl, rfl⟩

theorem changeAbsent_maps (f : Frontier) (change : Change) :
    Settles f.SameMaps id (f.changeAbsent change) := by
  unfold changeAbsent
  cases applyBucketChange f.absentTree f.absentBucketIndex change with
  | mk index result =>
    cases result with
    | ok tree => exact ⟨rfl, rfl, rfl⟩
    | error error => exact ⟨rfl, rfl, rfl⟩

theorem setPresent_nextOrdinal (f : Frontier) (uri : String) (entry : FrontierEntry) :
    Settles (fun f' => f'.nextOrdinal = f.nextOrdinal) id (f.setPresent uri entry) := by
  unfold setPresent
  cases decodeSha256Hex entry.contentHash with
  | error error => exact rfl
  | ok logical =>
    refine (changePresent_maps _ _).bind ?_ (fun f' hf' => hf'.1)
    intro f' hf'
    split
    · exact (changeAbsent_maps _ _).mono (fun f'' hf'' => hf''.1.trans hf'.1)
    · exact hf'.1

theorem setAbsent_nextOrdinal (f : Frontier) (uri : String) (tombstone : TombstoneEntry) :
    Settles (fun f' => f'.nextOrdinal = f.nextOrdinal) id (f.setAbsent uri tombstone) := by
  unfold setAbsent
  refine (changeAbsent_maps _ _).bind ?_ (fun f' hf' => hf'.1)
  intro f' hf'
  split
  · exact (changePresent_maps _ _).mono (fun f'' hf'' => hf''.1.trans hf'.1)
  · exact hf'.1

theorem setAbsent_gone (f : Frontier) (uri gone : String) (tombstone : TombstoneEntry)
    (h : AssocMap.get f.present gone = none) :
    Settles (fun f' => AssocMap.get f'.present gone = none) id (f.setAbsent uri tombstone) := by
  unfold setAbsent
  have hkept : ∀ f' : Frontier, f'.present = f.present → AssocMap.get f'.present gone = none :=
    fun f' hf' => hf' ▸ h
  refine (changeAbsent_maps _ _).bind ?_ (fun f' hf' => hkept f' hf'.2.1)
  intro f' hf'
  split
  · refine (changePresent_maps _ _).mono (fun f'' hf'' => ?_)
    rw [hf''.2.1, AssocMap.get_eq_none_iff, AssocMap.mem_keys_erase]
    exact fun hmem => (AssocMap.get_eq_none_iff _ _).mp (hkept f' hf'.2.1) hmem.1
  · exact hkept f' hf'.2.1

omit [Sha256] in
theorem get_refresh (f : Frontier) (uri metadataDigest other : String) :
    AssocMap.get (f.refresh uri metadataDigest).present other =
      if other = uri then (AssocMap.get f.present other).map (fun e => { e with metadataDigest })
      else AssocMap.get f.present other := by
  unfold refresh AssocMap.get
  induction f.present with
  | nil => simp
  | cons e present ih =>
    obtain ⟨key, entry⟩ := e
    rw [List.map_cons]
    by_cases hother : other = key
    · subst hother
      by_cases huri : other = uri <;> simp [huri]
    · have hbeq : (other == key) = false := by simpa using hother
      split
      · rw [List.lookup_cons, List.lookup_cons, hbeq]
        exact ih
      · rw [List.lookup_cons, List.lookup_cons, hbeq]
        exact ih

end Frontier

structure Persists (P : Frontier → Prop) : Prop where
  setAbsent : ∀ f uri tombstone, P f → Settles P id (Frontier.setAbsent f uri tombstone)
  refresh : ∀ f uri metadataDigest, P f → P (Frontier.refresh f uri metadataDigest)

theorem persists_above (n : ℕ) : Persists (fun f => n < f.nextOrdinal) where
  setAbsent f uri tombstone h :=
    (f.setAbsent_nextOrdinal uri tombstone).mono (fun _ hf' => hf'.symm ▸ h)
  refresh _ _ _ h := h

theorem persists_gone (uri : String) : Persists (fun f => AssocMap.get f.present uri = none) where
  setAbsent f other tombstone h := f.setAbsent_gone other uri tombstone h
  refresh f other metadataDigest h := by
    simp only [Frontier.get_refresh, h, Option.map_none, ite_self]

section Runs

variable {sql : Sqlite} {workspaceId batchId : String} {generation : ℤ}

namespace Persists

theorem applyDeleted (hP : Persists P) (t : Transaction) (uri : String) (h : P t.frontier) :
    Settles P Transaction.frontier (applyDeleted sql batchId generation t uri) := by
  unfold SourceFrontier.applyDeleted
  cases AssocMap.get t.frontier.present uri with
  | none => exact h
  | some prior =>
    exact (Settles.executeAll h _).bind
      (fun t' ht' => Settles.update t' (hP.setAbsent _ _ _ ht')) (fun _ hf => hf)

theorem applyMetadataRefresh (hP : Persists P) (refreshed : List (String × String))
    (t : Transaction)
    (h : P t.frontier) : Settles P Transaction.frontier (applyMetadataRefresh sql t refreshed) := by
  induction refreshed generalizing t with
  | nil => exact h
  | cons pair refreshed ih =>
    obtain ⟨uri, metadataDigest⟩ := pair
    rw [SourceFrontier.applyMetadataRefresh]
    cases AssocMap.get t.frontier.present uri with
    | none => exact ih t h
    | some entry =>
      exact (Settles.executeAll h _).bind (fun t' ht' => ih _ (hP.refresh _ _ _ ht'))
        (fun _ hf => hf)

theorem deletedAndRefreshed (hP : Persists P) (t : Transaction) (deleted : List String)
    (refreshed : List (String × String)) (h : P t.frontier) :
    Settles P Transaction.frontier
      (deleted.foldlM (fun t uri => SourceFrontier.applyDeleted sql batchId generation t uri) t >>=
        fun t => SourceFrontier.applyMetadataRefresh sql t refreshed) :=
  (Settles.foldlM (fun t uri ht => hP.applyDeleted t uri ht) deleted h).bind
    (fun t' ht' => hP.applyMetadataRefresh refreshed t' ht') (fun _ hf => hf)

end Persists

theorem closing_settles (t : Transaction) (h : P t.frontier) :
    Settles P (fun r => r.1.frontier) (closing sql workspaceId generation t) := by
  simp only [closing]
  split
  · exact h
  · exact h

theorem recordPresent_above (f : Frontier) (artifactId : String) (o : Observation) :
    Settles (fun f' => f.nextOrdinal < f'.nextOrdinal) id
      (recordPresent batchId generation f artifactId o) :=
  (Frontier.setPresent_nextOrdinal _ _ _).mono (fun _ hf' => hf'.symm ▸ Nat.lt_succ_self _)

theorem recordAdded_above {n : ℕ} (observations : List Observation) (f : Frontier)
    (h : n < f.nextOrdinal) :
    Settles (fun f' => n < f'.nextOrdinal) id
      (recordAdded workspaceId batchId generation f observations) := by
  induction observations generalizing f with
  | nil => exact h
  | cons o observations ih =>
    exact (recordPresent_above f _ o).bind (fun f' hf' => ih f' (h.trans hf'))
      (fun _ hf => h.trans hf)

theorem recordAdded_beyond (o : Observation) (observations : List Observation) (f : Frontier) :
    Settles (fun f' => f.nextOrdinal < f'.nextOrdinal) id
      (recordAdded workspaceId batchId generation f (o :: observations)) :=
  (recordPresent_above f _ o).bind (fun f' hf' => recordAdded_above observations f' hf')
    (fun _ hf => hf)

theorem insertAddedBatch_above {n : ℕ} (t : Transaction) (observations : List Observation)
    (h : n < t.frontier.nextOrdinal) :
    Settles (fun f => n < f.nextOrdinal) Transaction.frontier
      (insertAddedBatch sql workspaceId batchId generation t observations) := by
  unfold insertAddedBatch
  split
  · exact h
  · exact (Settles.executeAll (P := fun f => n < f.nextOrdinal) h _).bind
      (fun t' ht' => Settles.update t' (recordAdded_above observations t'.frontier ht'))
        (fun _ hf => hf)

theorem applyChanged_above {n : ℕ} (t : Transaction) (o : Observation)
    (h : n < t.frontier.nextOrdinal) :
    Settles (fun f => n < f.nextOrdinal) Transaction.frontier
      (applyChanged sql batchId generation t o) := by
  unfold applyChanged
  cases priorOf t.frontier o.normalizedUri with
  | none => exact h
  | some prior =>
    refine (Settles.executeAll (P := fun f => n < f.nextOrdinal) h _).bind ?_ (fun _ hf => hf)
    intro t' ht'
    exact Settles.update t' ((recordPresent_above t'.frontier _ o).mono (fun _ hf => ht'.trans hf))

end Runs

end Updates

def Untouched (f f' : Frontier) : Prop :=
  (∀ uri, AssocMap.get f'.present uri = AssocMap.get f.present uri) ∧
    (∀ uri, AssocMap.get f'.absent uri = AssocMap.get f.absent uri) ∧
    f'.presentTree = f.presentTree ∧ f'.absentTree = f.absentTree ∧ f'.nextOrdinal = f.nextOrdinal

theorem Untouched.refl (f : Frontier) : Untouched f f := ⟨fun _ => rfl, fun _ => rfl, rfl, rfl, rfl⟩

def Fails (result : Except Fault α) : Prop := ∃ fault, result = .error fault

def executedRefreshes (sql : Sqlite) (present : List (String × FrontierEntry)) (db : Database) :
    List (String × String) → List (String × String)
  | [] => []
  | (uri, metadataDigest) :: rest =>
    match AssocMap.get present uri with
    | none => executedRefreshes sql present db rest
    | some entry =>
      match sql.execute db (.refreshMetadata entry.artifactVersionId metadataDigest) with
      | .ok db => (uri, metadataDigest) :: executedRefreshes sql present db rest
      | .error _ => []

section Condition

variable [Sha256] (sql : Sqlite) (workspaceId batchId : String) (generation : ℤ)

def DeletionFails (db : Database) (f : Frontier) (uri : String) (prior : FrontierEntry) : Prop :=
  let tombstone : TombstoneEntry :=
    ⟨prior.artifactId, artifactTombstoneId prior.artifactId batchId "deleted"⟩
  Fails (deletedRows sql batchId generation db prior) ∨
    AssocMap.get f.absent uri = some tombstone ∧
      Fails (applyBucketChange f.absentTree f.absentBucketIndex
        (.set (sha256Bytes uri) (sha256Bytes tombstone.artifactTombstoneId))).2

def FirstUpdateFails (db : Database) (f : Frontier) (delta : Delta) : Prop :=
  match delta.added, delta.changed, delta.deleted with
  | o :: rest, _, _ =>
    Fails (addedRows sql workspaceId batchId generation db ((o :: rest).take addedBatchRows))
  | [], o :: _, _ => ∀ artifactId present tombstone,
    priorOf f o.normalizedUri = some (artifactId, present, tombstone) →
      Fails (changedRows sql batchId generation db artifactId present tombstone o)
  | [], [], uri :: _ => ∀ prior, AssocMap.get f.present uri = some prior →
    DeletionFails sql batchId generation db f uri prior
  | [], [], [] => ∀ uri entry metadataDigest, AssocMap.get f.present uri = some entry →
    AssocMap.get (executedRefreshes sql f.present db delta.metadataRefreshed).reverse uri =
      some metadataDigest → metadataDigest = entry.metadataDigest

def FailsBeforeUpdate (db : Database) (frontier : Frontier) (delta : Delta) : Prop :=
  let batchId := observationBatchId workspaceId generation
  match opening sql batchId db delta with
  | .error _ => True
  | .ok db => FirstUpdateFails sql workspaceId batchId generation db frontier delta

end Condition

section FirstUpdate

variable [Sha256] {sql : Sqlite} {workspaceId batchId : String} {generation : ℤ}

omit [Sha256] in
theorem not_untouched_of_above {f f' : Frontier} (h : f.nextOrdinal < f'.nextOrdinal) :
    ¬ Untouched f f' :=
  fun hsame => absurd hsame.2.2.2.2 (Nat.ne_of_gt h)

omit [Sha256] in
theorem ok_of_not_fails {result : Except Fault α} (h : ¬ Fails result) : ∃ a, result = .ok a := by
  cases result with
  | ok a => exact ⟨a, rfl⟩
  | error fault => exact absurd ⟨fault, rfl⟩ h

theorem changed_deleted_above {n : ℕ} (t : Transaction) (changed : List Observation)
    (deleted : List String) (refreshed : List (String × String)) (h : n < t.frontier.nextOrdinal) :
    Settles (fun f => n < f.nextOrdinal) Transaction.frontier
      (changed.foldlM (fun t o => applyChanged sql batchId generation t o) t >>= fun t =>
        deleted.foldlM (fun t uri => applyDeleted sql batchId generation t uri) t >>= fun t =>
          applyMetadataRefresh sql t refreshed) :=
  (Settles.foldlM (P := fun f => n < f.nextOrdinal) (fun t o ht => applyChanged_above t o ht)
    changed h).bind
    (fun t' ht' => (persists_above n).deletedAndRefreshed t' deleted refreshed ht') (fun _ hf => hf)

theorem added_fails {db : Database} {f : Frontier} {delta : Delta} {o : Observation}
    {rest : List Observation} (hadded : delta.added = o :: rest)
    (h :
      Fails (addedRows sql workspaceId batchId generation db ((o :: rest).take addedBatchRows))) :
    Settles (Untouched f) Transaction.frontier
      (Delta.applyUris sql workspaceId batchId generation ⟨db, f⟩ delta) := by
  obtain ⟨fault, hfault⟩ := h
  obtain ⟨later, hchunks⟩ := chunks_cons 299 o rest
  unfold Delta.applyUris
  rw [hadded, show chunks addedBatchRows (o :: rest) = _ from hchunks, List.foldlM_cons,
    insertAddedBatch,
    if_neg (by simp)]
  rw [show addedBatchRows = 299 + 1 from rfl] at hfault
  rw [hfault]
  exact Untouched.refl f

theorem added_updates {db : Database} {f : Frontier} {delta : Delta} {o : Observation}
    {rest : List Observation} (hadded : delta.added = o :: rest)
    (h :
      ¬ Fails (addedRows sql workspaceId batchId generation db ((o :: rest).take addedBatchRows))) :
    Settles (fun f' => ¬ Untouched f f') Transaction.frontier
      (Delta.applyUris sql workspaceId batchId generation ⟨db, f⟩ delta) := by
  obtain ⟨db', hdb'⟩ := ok_of_not_fails h
  obtain ⟨later, hchunks⟩ := chunks_cons 299 o rest
  have hfirst : Settles (fun f' => f.nextOrdinal < f'.nextOrdinal) Transaction.frontier
      (insertAddedBatch sql workspaceId batchId generation ⟨db, f⟩
        ((o :: rest).take addedBatchRows)) := by
    rw [insertAddedBatch, if_neg (by simp [addedBatchRows]), hdb']
    exact Settles.update ⟨db', f⟩ (recordAdded_beyond o (rest.take 299) f)
  unfold Delta.applyUris
  rw [hadded, show chunks addedBatchRows (o :: rest) = _ from hchunks, List.foldlM_cons, bind_assoc]
  refine Settles.mono (hfirst.bind (fun t ht => ?_) (fun _ hf => hf))
    (fun f' (hf' : f.nextOrdinal < f'.nextOrdinal) => not_untouched_of_above hf')
  refine (Settles.foldlM (P := fun f' => f.nextOrdinal < f'.nextOrdinal) ?_ later ht).bind
    (fun t' ht' => ?_) (fun _ hf => hf)
  · exact fun t' batch ht' => insertAddedBatch_above t' batch ht'
  · exact changed_deleted_above t' delta.changed delta.deleted delta.metadataRefreshed ht'

theorem applyUris_of_added_nil (t : Transaction) {delta : Delta} (hadded : delta.added = []) :
    Delta.applyUris sql workspaceId batchId generation t delta =
      delta.changed.foldlM (fun t o => applyChanged sql batchId generation t o) t >>= fun t =>
        delta.deleted.foldlM (fun t uri => applyDeleted sql batchId generation t uri) t >>= fun t =>
          applyMetadataRefresh sql t delta.metadataRefreshed := by
  rw [Delta.applyUris, hadded]
  rfl

theorem changed_fails {db : Database} {f : Frontier} {delta : Delta} {o : Observation}
    {rest : List Observation} (hadded : delta.added = []) (hchanged : delta.changed = o :: rest)
    (h : ∀ artifactId present tombstone, priorOf f o.normalizedUri =
      some (artifactId, present, tombstone) →
      Fails (changedRows sql batchId generation db artifactId present tombstone o)) :
    Settles (Untouched f) Transaction.frontier
      (Delta.applyUris sql workspaceId batchId generation ⟨db, f⟩ delta) := by
  rw [applyUris_of_added_nil _ hadded, hchanged, List.foldlM_cons, applyChanged]
  cases hprior : priorOf f o.normalizedUri with
  | none => exact Untouched.refl f
  | some prior =>
    obtain ⟨artifactId, present, tombstone⟩ := prior
    obtain ⟨fault, hfault⟩ := h artifactId present tombstone hprior
    simp only [hfault]
    exact Untouched.refl f

theorem changed_updates {db : Database} {f : Frontier} {delta : Delta} {o : Observation}
    {rest : List Observation} (hadded : delta.added = []) (hchanged : delta.changed = o :: rest)
    (h : ¬ ∀ artifactId present tombstone, priorOf f o.normalizedUri =
      some (artifactId, present, tombstone) →
      Fails (changedRows sql batchId generation db artifactId present tombstone o)) :
    Settles (fun f' => ¬ Untouched f f') Transaction.frontier
      (Delta.applyUris sql workspaceId batchId generation ⟨db, f⟩ delta) := by
  push Not at h
  obtain ⟨artifactId, present, tombstone, hprior, hrows⟩ := h
  obtain ⟨db', hdb'⟩ := ok_of_not_fails hrows
  have hfirst : Settles (fun f' => f.nextOrdinal < f'.nextOrdinal) Transaction.frontier
      (applyChanged sql batchId generation ⟨db, f⟩ o) := by
    simp only [applyChanged, hprior, hdb']
    exact Settles.update ⟨db', f⟩ (recordPresent_above f artifactId o)
  rw [applyUris_of_added_nil _ hadded, hchanged, List.foldlM_cons, bind_assoc]
  refine Settles.mono (hfirst.bind (fun t ht => ?_) (fun _ hf => hf))
    (fun f' (hf' : f.nextOrdinal < f'.nextOrdinal) => not_untouched_of_above hf')
  exact changed_deleted_above t rest delta.deleted delta.metadataRefreshed ht

theorem setAbsent_refused {f : Frontier} {uri : String} (tombstone : TombstoneEntry)
    (h : Fails (applyBucketChange f.absentTree f.absentBucketIndex
      (.set (sha256Bytes uri) (sha256Bytes tombstone.artifactTombstoneId))).2) :
    ∃ fault f', f.setAbsent uri tombstone = .error ⟨fault, f'⟩ ∧
      f'.present = f.present ∧ f'.absent = AssocMap.insert f.absent uri tombstone ∧
      f'.presentTree = f.presentTree ∧ f'.absentTree = f.absentTree ∧ f'.nextOrdinal =
        f.nextOrdinal := by
  obtain ⟨fault, hfault⟩ := h
  simp only [Frontier.setAbsent, Frontier.changeAbsent, hfault]
  exact ⟨fault, _, rfl, rfl, rfl, rfl, rfl, rfl⟩

theorem setAbsent_removes {f : Frontier} {uri : String} (tombstone : TombstoneEntry)
    (h : ¬ Fails (applyBucketChange f.absentTree f.absentBucketIndex
      (.set (sha256Bytes uri) (sha256Bytes tombstone.artifactTombstoneId))).2) :
    Settles (fun f' => AssocMap.get f'.present uri = none) id (f.setAbsent uri tombstone) := by
  obtain ⟨tree, htree⟩ := ok_of_not_fails h
  simp only [Frontier.setAbsent, Frontier.changeAbsent, htree]
  change Settles _ _ (ite _ _ _)
  split
  · refine (Frontier.changePresent_maps _ _).mono (fun f' hf' => ?_)
    rw [hf'.2.1]
    exact AssocMap.get_erase_self _ _
  · next hpresent =>
    have hnone : AssocMap.get f.present uri = none := by simpa using hpresent
    exact hnone

theorem deleted_fails {db : Database} {f : Frontier} {delta : Delta} {uri : String}
    {rest : List String}
    (hadded : delta.added = []) (hchanged : delta.changed = [])
    (hdeleted : delta.deleted = uri :: rest)
    (h : ∀ prior, AssocMap.get f.present uri = some prior →
      DeletionFails sql batchId generation db f uri prior) :
    Settles (Untouched f) Transaction.frontier
      (Delta.applyUris sql workspaceId batchId generation ⟨db, f⟩ delta) := by
  rw [applyUris_of_added_nil _ hadded, hchanged, List.foldlM_nil, pure_bind, hdeleted,
    List.foldlM_cons,
    applyDeleted]
  cases hprior : AssocMap.get f.present uri with
  | none => exact Untouched.refl f
  | some prior =>
    by_cases hrows : Fails (deletedRows sql batchId generation db prior)
    · obtain ⟨fault, hfault⟩ := hrows
      simp only [hfault]
      exact Untouched.refl f
    · obtain ⟨hrecorded, hrefused⟩ := (h prior hprior).resolve_left hrows
      obtain ⟨db', hdb'⟩ := ok_of_not_fails hrows
      obtain ⟨fault, f', hset, hpresent, habsent, hpresentTree, habsentTree, hordinal⟩ :=
        setAbsent_refused _ hrefused
      have hupdate : Transaction.update ⟨db', f⟩ (f.setAbsent uri
          ⟨prior.artifactId, artifactTombstoneId prior.artifactId batchId "deleted"⟩) =
          .error ⟨fault, f'⟩ := by
        rw [hset]
        rfl
      simp only [hdb']
      change Settles _ _ ((Transaction.update _ _ >>= _) >>= _)
      rw [hupdate]
      refine ⟨fun u => by rw [hpresent], fun u => ?_, hpresentTree, habsentTree, hordinal⟩
      rw [habsent]
      by_cases hu : u = uri
      · rw [hu, AssocMap.get_insert_self, hrecorded]
      · exact AssocMap.get_insert_ne _ _ hu

theorem deleted_updates {db : Database} {f : Frontier} {delta : Delta} {uri : String}
    {rest : List String}
    (hadded : delta.added = []) (hchanged : delta.changed = [])
    (hdeleted : delta.deleted = uri :: rest)
    (h : ¬ ∀ prior, AssocMap.get f.present uri = some prior →
      DeletionFails sql batchId generation db f uri prior) :
    Settles (fun f' => ¬ Untouched f f') Transaction.frontier
      (Delta.applyUris sql workspaceId batchId generation ⟨db, f⟩ delta) := by
  push Not at h
  obtain ⟨prior, hprior, hfails⟩ := h
  obtain ⟨hrows, hset⟩ := not_or.mp hfails
  obtain ⟨db', hdb'⟩ := ok_of_not_fails hrows
  rw [applyUris_of_added_nil _ hadded, hchanged, List.foldlM_nil, pure_bind, hdeleted,
    List.foldlM_cons,
    bind_assoc]
  have hfirst : applyDeleted sql batchId generation ⟨db, f⟩ uri = Transaction.update ⟨db', f⟩
      (f.setAbsent uri ⟨prior.artifactId,
        artifactTombstoneId prior.artifactId batchId "deleted"⟩) := by
    simp only [applyDeleted, hprior, hdb']
    rfl
  rw [hfirst]
  by_cases hrefused : Fails (applyBucketChange f.absentTree f.absentBucketIndex
      (.set (sha256Bytes uri) (sha256Bytes
        (artifactTombstoneId prior.artifactId batchId "deleted")))).2
  · obtain ⟨fault, f', heq, -, habsent, -⟩ := setAbsent_refused
      ⟨prior.artifactId, artifactTombstoneId prior.artifactId batchId "deleted"⟩ hrefused
    rw [heq]
    intro hsame
    refine hset ⟨?_, hrefused⟩
    rw [← hsame.2.1 uri, habsent, AssocMap.get_insert_self]
  · have hgone := Settles.update ⟨db', f⟩ (setAbsent_removes
      ⟨prior.artifactId, artifactTombstoneId prior.artifactId batchId "deleted"⟩ hrefused)
    refine Settles.mono (hgone.bind (fun t ht => ?_) (fun _ hf => hf))
      (fun f' (hf' : AssocMap.get f'.present uri = none) hsame => ?_)
    · exact (persists_gone uri).deletedAndRefreshed t rest delta.metadataRefreshed ht
    · rw [hsame.1 uri, hprior] at hf'
      cases hf'

omit [Sha256] in
theorem get_refreshes (f : Frontier) (refreshed : List (String × String)) (uri : String) :
    AssocMap.get (refreshed.foldl (fun f r => f.refresh r.1 r.2) f).present uri =
      (AssocMap.get refreshed.reverse uri).elim (AssocMap.get f.present uri) (fun metadataDigest =>
        (AssocMap.get f.present uri).map (fun e => { e with metadataDigest })) := by
  induction refreshed using List.reverseRecOn with
  | nil => rfl
  | append_singleton refreshed r ih =>
    obtain ⟨key, metadataDigest⟩ := r
    rw [List.foldl_append, List.foldl_cons, List.foldl_nil, Frontier.get_refresh, ih,
      List.reverse_append,
      List.reverse_singleton, List.singleton_append]
    by_cases huri : uri = key
    · subst huri
      have hfirst : AssocMap.get ((uri, metadataDigest) :: refreshed.reverse) uri =
          some metadataDigest := by
        simp [AssocMap.get]
      rw [if_pos rfl, hfirst]
      cases AssocMap.get refreshed.reverse uri with
      | none => rfl
      | some earlier => cases AssocMap.get f.present uri <;> rfl
    · have hbeq : (uri == key) = false := by simpa using huri
      have hrest : AssocMap.get ((key, metadataDigest) :: refreshed.reverse) uri =
          AssocMap.get refreshed.reverse uri := by
        simp [AssocMap.get, List.lookup_cons, hbeq]
      rw [if_neg huri, hrest]

omit [Sha256] in
theorem refresh_keeps (f : Frontier) (refreshed : List (String × String)) :
    let f' := refreshed.foldl (fun f r => f.refresh r.1 r.2) f
    f'.absent = f.absent ∧ f'.presentTree = f.presentTree ∧ f'.absentTree = f.absentTree ∧
      f'.nextOrdinal = f.nextOrdinal := by
  induction refreshed generalizing f with
  | nil => exact ⟨rfl, rfl, rfl, rfl⟩
  | cons r refreshed ih => exact ih (f.refresh r.1 r.2)

omit [Sha256] in
theorem untouched_refreshes_iff (f : Frontier) (refreshed : List (String × String)) :
    Untouched f (refreshed.foldl (fun f r => f.refresh r.1 r.2) f) ↔
      ∀ uri entry metadataDigest, AssocMap.get f.present uri = some entry →
        AssocMap.get refreshed.reverse uri = some metadataDigest →
          metadataDigest = entry.metadataDigest := by
  obtain ⟨habsent, hpresentTree, habsentTree, hordinal⟩ := refresh_keeps f refreshed
  constructor
  · intro hsame uri entry metadataDigest hentry hlast
    have hget := hsame.1 uri
    rw [get_refreshes, hlast, hentry] at hget
    exact congrArg FrontierEntry.metadataDigest (Option.some.inj hget)
  · intro hdigests
    refine ⟨fun uri => ?_, fun uri => by rw [habsent], hpresentTree, habsentTree, hordinal⟩
    rw [get_refreshes]
    cases hlast : AssocMap.get refreshed.reverse uri with
    | none => rfl
    | some metadataDigest =>
      cases hentry : AssocMap.get f.present uri with
      | none => rfl
      | some entry =>
        have hdigest := hdigests uri entry metadataDigest hentry hlast
        subst hdigest
        rfl

omit [Sha256] in
theorem get_refresh_isVersion (f : Frontier) (uri metadataDigest other : String) :
    (AssocMap.get (f.refresh uri metadataDigest).present other).map
      FrontierEntry.artifactVersionId =
      (AssocMap.get f.present other).map FrontierEntry.artifactVersionId := by
  rw [Frontier.get_refresh]
  split
  · cases AssocMap.get f.present other <;> rfl
  · rfl

omit [Sha256] in
theorem executedRefreshes_congr {present present' : List (String × FrontierEntry)}
    (h : ∀ uri, (AssocMap.get present' uri).map FrontierEntry.artifactVersionId =
      (AssocMap.get present uri).map FrontierEntry.artifactVersionId)
    (db : Database) (refreshed : List (String × String)) :
    executedRefreshes sql present' db refreshed = executedRefreshes sql present db refreshed := by
  induction refreshed generalizing db with
  | nil => rfl
  | cons r refreshed ih =>
    obtain ⟨uri, metadataDigest⟩ := r
    have huri := h uri
    rw [executedRefreshes, executedRefreshes]
    cases hentry : AssocMap.get present uri with
    | none =>
      rw [hentry, Option.map_none, Option.map_eq_none_iff] at huri
      simp only [huri]
      exact ih db
    | some entry =>
      rw [hentry, Option.map_some, Option.map_eq_some_iff] at huri
      obtain ⟨entry', hentry', hversion⟩ := huri
      simp only [hentry', hversion, ih]

omit [Sha256] in
theorem applyMetadataRefresh_executed (t : Transaction) (refreshed : List (String × String)) :
    Settles (fun f => f = (executedRefreshes sql t.frontier.present t.db refreshed).foldl
        (fun f r => f.refresh r.1 r.2) t.frontier) Transaction.frontier
      (applyMetadataRefresh sql t refreshed) := by
  induction refreshed generalizing t with
  | nil => rfl
  | cons r refreshed ih =>
    obtain ⟨uri, metadataDigest⟩ := r
    rw [applyMetadataRefresh, executedRefreshes]
    cases AssocMap.get t.frontier.present uri with
    | none => exact ih t
    | some entry =>
      cases hrow : sql.execute t.db (.refreshMetadata entry.artifactVersionId metadataDigest) with
      | error fault =>
        simp only [hrow]
        rfl
      | ok db =>
        simp only [hrow, List.foldl_cons]
        rw [← executedRefreshes_congr (fun other =>
          get_refresh_isVersion t.frontier uri metadataDigest other)]
        exact ih ⟨db, t.frontier.refresh uri metadataDigest⟩

theorem refreshed_settles {db : Database} {f : Frontier} {delta : Delta} (hadded : delta.added = [])
    (hchanged : delta.changed = []) (hdeleted : delta.deleted = []) :
    Settles (fun f' => f' = (executedRefreshes sql f.present db delta.metadataRefreshed).foldl
        (fun f r => f.refresh r.1 r.2) f) Transaction.frontier
      (Delta.applyUris sql workspaceId batchId generation ⟨db, f⟩ delta) := by
  rw [applyUris_of_added_nil _ hadded, hchanged, List.foldlM_nil, pure_bind, hdeleted,
    List.foldlM_nil,
    pure_bind]
  exact applyMetadataRefresh_executed ⟨db, f⟩ delta.metadataRefreshed

theorem applyUris_fails {db : Database} {f : Frontier} {delta : Delta}
    (h : FirstUpdateFails sql workspaceId batchId generation db f delta) :
    Settles (Untouched f) Transaction.frontier
      (Delta.applyUris sql workspaceId batchId generation ⟨db, f⟩ delta) := by
  unfold FirstUpdateFails at h
  cases hadded : delta.added with
  | cons o rest => exact added_fails hadded (by simpa only [hadded] using h)
  | nil =>
    cases hchanged : delta.changed with
    | cons o rest => exact changed_fails hadded hchanged (by simpa only [hadded, hchanged] using h)
    | nil =>
      cases hdeleted : delta.deleted with
      | cons uri rest =>
        exact deleted_fails hadded hchanged hdeleted
          (by simpa only [hadded, hchanged, hdeleted] using h)
      | nil =>
        simp only [hadded, hchanged, hdeleted] at h
        refine (refreshed_settles hadded hchanged hdeleted).mono (fun f' hf' => ?_)
        rw [hf', untouched_refreshes_iff]
        exact h

theorem applyUris_updates {db : Database} {f : Frontier} {delta : Delta}
    (h : ¬ FirstUpdateFails sql workspaceId batchId generation db f delta) :
    Settles (fun f' => ¬ Untouched f f') Transaction.frontier
      (Delta.applyUris sql workspaceId batchId generation ⟨db, f⟩ delta) := by
  unfold FirstUpdateFails at h
  cases hadded : delta.added with
  | cons o rest => exact added_updates hadded (by simpa only [hadded] using h)
  | nil =>
    cases hchanged : delta.changed with
    | cons o rest =>
      exact changed_updates hadded hchanged (by simpa only [hadded, hchanged] using h)
    | nil =>
      cases hdeleted : delta.deleted with
      | cons uri rest =>
        exact deleted_updates hadded hchanged hdeleted
          (by simpa only [hadded, hchanged, hdeleted] using h)
      | nil =>
        simp only [hadded, hchanged, hdeleted] at h
        refine (refreshed_settles hadded hchanged hdeleted).mono (fun f' hf' => ?_)
        rw [hf', untouched_refreshes_iff]
        exact h

end FirstUpdate

theorem failed_apply_leaves_frontier_iff [Sha256] (sql : Sqlite) (db : Database)
    (workspaceId : String)
    (frontier : Frontier) (delta : Delta) (generation : ℤ) (failure : Failure)
    (h : Catalog.apply sql db workspaceId frontier delta generation = .error failure) :
    Untouched frontier failure.frontier ↔
      FailsBeforeUpdate sql workspaceId generation db frontier delta := by
  unfold Catalog.apply at h
  simp only [FailsBeforeUpdate]
  cases hopen : opening sql (observationBatchId workspaceId generation) db delta with
  | error fault =>
    simp only [hopen] at h
    cases h
    exact iff_of_true (Untouched.refl frontier) trivial
  | ok db' =>
    simp only [hopen] at h
    change (Delta.applyUris sql workspaceId _ generation ⟨db', frontier⟩ delta >>= _) = _ at h
    have hclosed : ∀ P : Frontier → Prop, Settles P Transaction.frontier
        (Delta.applyUris sql workspaceId (observationBatchId workspaceId generation) generation
          ⟨db', frontier⟩ delta) → P failure.frontier := by
      intro P hP
      have hwhole : Settles P (fun r : Transaction × AppliedCatalog => r.1.frontier)
          (.error failure) := by
        rw [← h]
        refine hP.bind (fun t ht => ?_) (fun _ hf => hf)
        exact (closing_settles t ht).bind (fun r hr => hr) (fun _ hf => hf)
      exact hwhole
    constructor
    · intro hsame
      by_contra hcondition
      exact hclosed _ (applyUris_updates hcondition) hsame
    · intro hcondition
      exact hclosed _ (applyUris_fails hcondition)

abbrev refusing (statement : Statement → Bool) (message : String) : Sqlite where
  refuses _ issued := if statement issued then some message else none

abbrev oneAdded : Delta where
  added :=
    [⟨"src/a.ts", "sha256:e3b0c44298fc1c149afbf4c8996fb92427ae41e4649b934ca495991b7852b855", 0,
      "m"⟩]
  changed := []
  deleted := []
  metadataRefreshed := []
  equivalentCount := 0

theorem failed_apply_leaves_frontier_iff_locked :
    let _ : Sha256 := ⟨fun _ => zero⟩
    let locked := refusing (fun s => s matches .begin) "database is locked"
    Catalog.apply locked .empty "w" .empty oneAdded 1 =
        .error ⟨.error "source catalog SQL error: database is locked", .empty⟩ ∧
      (Untouched .empty .empty ↔ FailsBeforeUpdate locked "w" 1 .empty .empty oneAdded) := by
  intro _ locked
  exact ⟨rfl, failed_apply_leaves_frontier_iff locked .empty "w" .empty oneAdded 1 _ rfl⟩

theorem refused_commit_keeps_added_uri :
    let _ : Sha256 := ⟨fun _ => zero⟩
    let full := refusing (fun s => s matches .commit) "database or disk is full"
    ∃ failure, Catalog.apply full .empty "w" .empty oneAdded 1 = .error failure ∧
      ¬ Untouched .empty failure.frontier := by
  intro _ full
  have hrun : (match Catalog.apply full .empty "w" .empty oneAdded 1 with
      | .ok _ => none
      | .error failure => some failure.frontier.nextOrdinal) = some 1 := by decide +kernel
  cases happly : Catalog.apply full .empty "w" .empty oneAdded 1 with
  | ok applied =>
    rw [happly] at hrun
    cases hrun
  | error failure =>
    rw [happly] at hrun
    have hordinal : failure.frontier.nextOrdinal = 1 := Option.some.inj hrun
    refine ⟨failure, rfl, not_untouched_of_above ?_⟩
    rw [hordinal]
    exact Nat.zero_lt_one

end SourceFrontier
