import Urdira.StructuralStore.Reopen

open ByteOrder KeyedSet MerkleBucket

namespace StructuralStore

inductive Publication where
  | base (generation : ℕ)
  | delta (generation : ℕ)
  deriving DecidableEq

namespace Publication

def deltas (published : List ℕ) : Publication → List ℕ
  | .base _ => []
  | .delta generation => published ++ [generation]

def ListedIn (manifest : Manifest) : Publication → Prop
  | .base generation => generation = manifest.base
  | .delta generation => generation ∈ manifest.deltas

instance (manifest : Manifest) (publication : Publication) :
    Decidable (publication.ListedIn manifest) :=
  match publication with
  | .base generation => inferInstanceAs (Decidable (generation = manifest.base))
  | .delta generation => inferInstanceAs (Decidable (generation ∈ manifest.deltas))

end Publication

def StoreInner.toReader (inner : StoreInner) : StoreReader where
  manifest := inner.manifest
  segments := inner.segments.map OpenSegment.toSegment
  dicts := inner.dicts
  recordClosures := inner.recordClosures
  depClosures := inner.depClosures.flatMap (fun e => e.2.map (fun closedAt => (e.1, closedAt)))
  pendingClosures :=
    inner.pendingClosures.flatMap (fun e => e.2.map (fun closedAt => (e.1, closedAt)))

section Publish

variable [Sha256]

inductive Publishes : Disk → Disk → Publication → Prop
  | base {disk disk' : Disk} {input : BaseInput} {roots : Roots}
      (write : writeBaseWithPending disk input = .ok (disk', roots)) :
      Publishes disk disk' (.base input.generation)
  | partitioned {disk disk' : Disk} {partitions : Partitions} {deps : List DependencyRow}
      {dicts : Dictionaries} {generation : ℕ} {pendingSites : List PendingSiteRow} {roots : Roots}
      (write : writeBasePartitionedWithPending disk partitions deps dicts generation pendingSites =
        .ok (disk', roots)) : Publishes disk disk' (.base generation)
  | compact {disk disk' : Disk} {newGeneration : ℕ} {roots : Roots}
      (write : compact disk newGeneration = .ok (disk', roots)) :
      Publishes disk disk' (.base newGeneration)
  | delta {disk disk' : Disk} {reader : StoreReader} {input : DeltaInput} {roots : Roots}
      (opened : StoreReader.open disk = .ok reader)
      (write : writeDeltaWithReaderAndPending disk reader input = .ok (disk', roots)) :
      Publishes disk disk' (.delta input.generation)

structure Stored (disk : Disk) (manifest : Manifest) (base : Segment) (deltas : List Segment) :
    Prop where
  base_eq : disk.bases manifest.base = some base
  deltas_eq : List.Forall₂ (fun g seg => disk.deltas g = some (some seg)) manifest.deltas deltas

structure Published (disk disk' : Disk) (published : List ℕ) (publication : Publication) :
    Prop where
  opens : ∃ manifest base deltas, Opens disk' manifest base deltas ∧
    manifest.deltas = publication.deltas published
  kept : ∀ manifest base deltas, ¬ publication.ListedIn manifest →
    Stored disk manifest base deltas → Stored disk' manifest base deltas

variable {disk disk' : Disk} {published : List ℕ} {publication : Publication}

theorem publishBase_published (published : List ℕ) {input : BaseInput} {sections : SegmentInput}
    {roots : Roots} (h : publishBase disk input sections = .ok (disk', roots)) :
    Published disk disk' published (.base input.generation) := by
  unfold publishBase at h
  obtain ⟨seg, hseg, h⟩ := ExceptOk.bind_eq_ok h
  obtain ⟨recordsSet, hr, h⟩ := ExceptOk.bind_eq_ok h
  obtain ⟨depSet, hd, h⟩ := ExceptOk.bind_eq_ok h
  cases h
  refine ⟨⟨_, seg, [], ⟨rfl, Function.update_self _ _ _, List.Forall₂.nil⟩, rfl⟩, ?_⟩
  intro manifest base deltas hlisted hstored
  refine ⟨?_, hstored.deltas_eq⟩
  rw [← hstored.base_eq]
  exact Function.update_of_ne (fun heq => hlisted heq.symm) _ _

theorem writeDelta_published {reader : StoreReader} {input : DeltaInput} {roots : Roots}
    {base : Segment} {deltas : List Segment} (hopen : Opens disk reader.manifest base deltas)
    (hlist : reader.manifest.deltas = published)
    (h : writeDeltaWithReaderAndPending disk reader input = .ok (disk', roots)) :
    Published disk disk' published (.delta input.generation) := by
  obtain ⟨seg, -, hmanifest, hbases, hdeltas⟩ := writeDelta_frame h
  have hother : ∀ g, g ≠ input.generation → disk'.deltas g = disk.deltas g := by
    intro g hg
    rw [hdeltas]
    exact Function.update_of_ne hg _ _
  refine ⟨?_, ?_⟩
  · -- a generation already in the list is rewritten in place, so its old segment is replaced too
    have hopened : ∀ gs segs, List.Forall₂ (fun g seg => disk.deltas g = some (some seg)) gs segs →
        ∃ segs', List.Forall₂ (fun g seg => disk'.deltas g = some (some seg)) gs segs' := by
      intro gs segs hall
      induction hall with
      | nil => exact ⟨[], List.Forall₂.nil⟩
      | @cons g old gs segs hg hall ih =>
        obtain ⟨segs', hsegs'⟩ := ih
        by_cases heq : g = input.generation
        · refine ⟨seg :: segs', List.Forall₂.cons ?_ hsegs'⟩
          rw [hdeltas, heq]
          exact Function.update_self _ _ _
        · exact ⟨old :: segs', List.Forall₂.cons ((hother g heq).trans hg) hsegs'⟩
    obtain ⟨segs', hsegs'⟩ := hopened _ _ hopen.deltas_eq
    have hnew : disk'.deltas input.generation = some (some seg) := by
      rw [hdeltas]
      exact Function.update_self _ _ _
    refine ⟨_, base, segs' ++ [seg], ⟨hmanifest, ?_, ?_⟩, ?_⟩
    · rw [hbases]
      exact hopen.base_eq
    · exact List.rel_append hsegs' (List.Forall₂.cons hnew List.Forall₂.nil)
    · change reader.manifest.deltas ++ [input.generation] = published ++ [input.generation]
      rw [hlist]
  · intro manifest base' deltas' hlisted hstored
    refine ⟨?_, deltas_congr hstored.deltas_eq (fun g hg => hother g ?_)⟩
    · rw [hbases]
      exact hstored.base_eq
    · rintro rfl
      exact hlisted hg

theorem Publishes.toPublished {manifest : Manifest} {base : Segment} {deltas : List Segment}
    (h : Publishes disk disk' publication) (hopen : Opens disk manifest base deltas)
    (hlist : manifest.deltas = published) : Published disk disk' published publication := by
  cases h with
  | base write => exact publishBase_published published write
  | partitioned write => exact publishBase_published published write
  | compact write =>
    obtain ⟨reader, hreader, write⟩ := ExceptOk.bind_eq_ok write
    exact publishBase_published published write
  | delta opened write =>
    obtain ⟨manifest', base', deltas', hopen', rfl⟩ := open_ok_iff.mp opened
    obtain rfl := Option.some.inj (hopen.manifest_eq.symm.trans hopen'.manifest_eq)
    exact writeDelta_published hopen' hlist write

end Publish

section Session

variable [Sha256]

def StoreInner.appended (current fresh : Manifest) : Option (List ℕ) :=
  (StoreInner.newDeltaSuffix current fresh).filter (fun names => !names.isEmpty)

inductive Phase where
  | idle (reader : Option StoreInner)
  | loading (reader : Option StoreInner)
  | reading (reader : Option StoreInner) (manifest : Manifest)
  | opening (reader : Option StoreInner) (manifest : Manifest) (manifestMtime : ℕ)
  | changed (reader : StoreInner) (mtime : ℕ)
  | extending (reader : StoreInner) (mtime : ℕ) (freshManifest : Manifest) (newDeltaNames : List ℕ)

namespace Phase

def held : Phase → Option StoreInner
  | .idle reader => reader
  | .loading reader => reader
  | .reading reader _ => reader
  | .opening reader _ _ => reader
  | .changed reader _ => some reader
  | .extending reader _ _ _ => some reader

def statted : Phase → Option ℕ
  | .opening _ _ manifestMtime => some manifestMtime
  | .changed _ mtime => some mtime
  | .extending _ mtime _ _ => some mtime
  | _ => none

end Phase

inductive Session : Directory → Phase → List ℕ → Prop
  | created {disk : Disk} {dir : Directory} {generation : ℕ}
      (publish : Publishes disk dir.disk (.base generation)) : Session dir (.idle none) []
  | published {dir dir' : Directory} {phase : Phase} {listed : List ℕ} {publication : Publication}
      (before : Session dir phase listed) (publish : Publishes dir.disk dir'.disk publication)
      (later : dir.manifestMtime ≤ dir'.manifestMtime) :
      Session dir' phase (publication.deltas listed)
  | opens {dir : Directory} {listed : List ℕ} (before : Session dir (.idle none) listed) :
      Session dir (.loading none) listed
  | read {dir : Directory} {reader : Option StoreInner} {manifest : Manifest} {listed : List ℕ}
      (before : Session dir (.loading reader) listed) (read : dir.disk.manifest = some manifest) :
      Session dir (.reading reader manifest) listed
  | stat {dir : Directory} {reader : Option StoreInner} {manifest : Manifest} {listed : List ℕ}
      (before : Session dir (.reading reader manifest) listed) :
      Session dir (.opening reader manifest dir.manifestMtime) listed
  | loaded {dir : Directory} {reader : Option StoreInner} {manifest : Manifest} {manifestMtime : ℕ}
      {inner : StoreInner} {listed : List ℕ}
      (before : Session dir (.opening reader manifest manifestMtime) listed)
      (load : StoreInner.loadSegments manifest manifestMtime dir.disk = .ok inner) :
      Session dir (.idle (some inner)) listed
  | loadFailed {dir : Directory} {reader : Option StoreInner} {manifest : Manifest}
      {manifestMtime : ℕ} {fault : Fault} {listed : List ℕ}
      (before : Session dir (.opening reader manifest manifestMtime) listed)
      (load : StoreInner.loadSegments manifest manifestMtime dir.disk = .error fault) :
      Session dir (.idle reader) listed
  | changed {dir : Directory} {inner : StoreInner} {listed : List ℕ}
      (before : Session dir (.idle (some inner)) listed)
      (newer : inner.manifestMtime < dir.manifestMtime) :
      Session dir (.changed inner dir.manifestMtime) listed
  | compared {dir : Directory} {inner : StoreInner} {mtime : ℕ} {freshManifest : Manifest}
      {newDeltaNames : List ℕ} {listed : List ℕ}
        (before : Session dir (.changed inner mtime) listed)
      (read : dir.disk.manifest = some freshManifest)
      (appended : StoreInner.appended inner.manifest freshManifest = some newDeltaNames) :
      Session dir (.extending inner mtime freshManifest newDeltaNames) listed
  | replaced {dir : Directory} {inner : StoreInner} {mtime : ℕ} {freshManifest : Manifest}
      {listed : List ℕ} (before : Session dir (.changed inner mtime) listed)
      (read : dir.disk.manifest = some freshManifest)
      (appended : StoreInner.appended inner.manifest freshManifest = none) :
      Session dir (.loading (some inner)) listed
  | extended {dir : Directory} {inner inner' : StoreInner} {mtime : ℕ} {freshManifest : Manifest}
      {newDeltaNames : List ℕ} {listed : List ℕ}
      (before : Session dir (.extending inner mtime freshManifest newDeltaNames) listed)
      (extend : inner.extend dir.disk freshManifest mtime newDeltaNames = .ok inner') :
      Session dir (.idle (some inner')) listed
  | extendFailed {dir : Directory} {inner : StoreInner} {mtime : ℕ} {freshManifest : Manifest}
      {newDeltaNames : List ℕ} {fault : Fault} {listed : List ℕ}
      (before : Session dir (.extending inner mtime freshManifest newDeltaNames) listed)
      (extend : inner.extend dir.disk freshManifest mtime newDeltaNames = .error fault) :
      Session dir (.idle (some inner)) listed
  | written {dir dir' : Directory} {inner : StoreInner} {listed : List ℕ} {input : DeltaInput}
      {roots : Roots} (before : Session dir (.idle (some inner)) listed)
      (current : dir.disk.manifest = some inner.manifest)
      (write : writeDeltaWithReaderAndPending dir.disk inner.toReader input =
        .ok (dir'.disk, roots))
      (later : dir.manifestMtime ≤ dir'.manifestMtime) :
      Session dir' (.idle (some inner)) (listed ++ [input.generation])

structure StoreInner.Kept (inner : StoreInner) (disk : Disk) : Prop where
  stored : ∃ base deltas, Stored disk inner.manifest base deltas ∧
    inner.segments.map OpenSegment.toSegment = (base :: deltas).reverse

structure StoreInner.SeesPublishes (inner : StoreInner) (dir : Directory) : Prop where
  newer : dir.disk.manifest = some inner.manifest ∨ inner.manifestMtime < dir.manifestMtime
  kept : (inner.manifestMtime < dir.manifestMtime ∧
    ∃ fresh ∈ dir.disk.manifest, StoreInner.appended inner.manifest fresh = none) ∨
      inner.Kept dir.disk

structure UpToDate (dir : Directory) (listed : List ℕ) (inner : StoreInner) : Prop where
  manifest : dir.disk.manifest = some inner.manifest
  kept : inner.Kept dir.disk
  answers : ∃ cold, StoreInner.load dir = .ok cold ∧ inner.Answers cold
  write : ∀ input disk' roots,
    writeDeltaWithReaderAndPending dir.disk inner.toReader input = .ok (disk', roots) →
      ∃ manifest', disk'.manifest = some manifest' ∧ manifest'.deltas = listed ++ [input.generation]

end Session

section Reopened

variable {dir dir' : Directory} {disk disk' : Disk} {inner inner' : StoreInner}
  {publication : Publication} {listed : List ℕ} {manifest freshManifest : Manifest} {base : Segment}
  {deltas : List Segment}

def StoreInner.Assembled (inner : StoreInner) : Prop :=
  ∃ base deltas, inner.Same (StoreInner.assemble inner.manifest base deltas inner.manifestMtime)

theorem newDeltaSuffix_some {current fresh : Manifest} {names : List ℕ}
    (h : StoreInner.newDeltaSuffix current fresh = some names) :
    current.base = fresh.base ∧ fresh.deltas = current.deltas ++ names := by
  unfold StoreInner.newDeltaSuffix at h
  split at h
  · cases h
  · rename_i hbase
    split at h
    · cases h
    · split at h
      · cases h
      · rename_i htake
        obtain rfl := Option.some.inj h
        refine ⟨not_not.mp hbase, ?_⟩
        conv_lhs => rw [← List.take_append_drop current.deltas.length fresh.deltas]
        rw [not_not.mp htake]

theorem assembled_of_same {mtime : ℕ}
    (h : inner.Same (StoreInner.assemble manifest base deltas mtime)) :
    inner.Assembled ∧ inner.manifest = manifest ∧ inner.manifestMtime = mtime := by
  have hmanifest : inner.manifest = manifest := h.manifest
  have hmtime : inner.manifestMtime = mtime := h.query StoreInner.manifestMtime (fun _ _ _ => rfl)
  refine ⟨⟨base, deltas, ?_⟩, hmanifest, hmtime⟩
  rw [hmanifest, hmtime]
  exact h

theorem StoreInner.assemble_toSegment (manifest : Manifest) (base : Segment) (deltas : List Segment)
    (mtime : ℕ) : (StoreInner.assemble manifest base deltas mtime).segments.map
      OpenSegment.toSegment = (base :: deltas).reverse := by
  unfold StoreInner.assemble
  dsimp only
  rw [List.map_reverse, List.map_map]
  congr 1
  exact List.map_id _

theorem kept_of_same {mtime : ℕ} (hstored : Stored disk manifest base deltas)
    (h : inner.Same (StoreInner.assemble manifest base deltas mtime)) : inner.Kept disk := by
  have hmanifest : inner.manifest = manifest := h.manifest
  refine ⟨base, deltas, hmanifest ▸ hstored, ?_⟩
  rw [h.segments]
  exact StoreInner.assemble_toSegment manifest base deltas mtime

theorem StoreInner.Kept.same (h : inner.Kept disk) (hassembled : inner.Assembled) :
    ∃ base deltas, Stored disk inner.manifest base deltas ∧
      inner.Same (StoreInner.assemble inner.manifest base deltas inner.manifestMtime) := by
  obtain ⟨base, deltas, hstored, hsegments⟩ := h.stored
  obtain ⟨base', deltas', hsame⟩ := hassembled
  rw [hsame.segments, StoreInner.assemble_toSegment, List.reverse_inj] at hsegments
  obtain ⟨rfl, rfl⟩ := List.cons.inj hsegments
  exact ⟨base', deltas', hstored, hsame⟩

theorem StoreInner.Kept.publish (h : inner.Kept disk)
    (hpub : Published disk disk' listed publication)
    (hunlisted : ¬ publication.ListedIn inner.manifest) : inner.Kept disk' := by
  obtain ⟨base, deltas, hstored, hsegments⟩ := h.stored
  exact ⟨base, deltas, hpub.kept _ _ _ hunlisted hstored, hsegments⟩

theorem Opens.stored (h : Opens disk manifest base deltas) : Stored disk manifest base deltas :=
  ⟨h.base_eq, h.deltas_eq⟩

theorem Opens.eq_stored {base' : Segment} {deltas' : List Segment}
    (h : Opens disk manifest base deltas) (hstored : Stored disk manifest base' deltas') :
    base' = base ∧ deltas' = deltas :=
  ⟨Option.some.inj (hstored.base_eq.symm.trans h.base_eq),
    Except.ok.inj ((mapM_openDelta_ok.mpr hstored.deltas_eq).symm.trans
      (mapM_openDelta_ok.mpr h.deltas_eq))⟩

theorem reopen_unchanged (h : dir.manifestMtime ≤ inner.manifestMtime) :
    inner.reopenIfChanged dir = .ok (inner, false) := by
  unfold StoreInner.reopenIfChanged
  split
  · rfl
  · rw [if_pos h]

theorem reopen_replaced (hopen : Opens dir.disk manifest base deltas)
    (hnewer : inner.manifestMtime < dir.manifestMtime)
    (happended : StoreInner.appended inner.manifest manifest = none) :
    inner.reopenIfChanged dir =
      .ok (StoreInner.assemble manifest base deltas dir.manifestMtime, true) := by
  have hload := load_ok_iff.mpr ⟨_, _, _, hopen, rfl⟩
  unfold StoreInner.reopenIfChanged
  rw [hopen.manifest_eq]
  dsimp only
  rw [if_neg hnewer.not_ge]
  unfold StoreInner.appended at happended
  cases hsuffix : StoreInner.newDeltaSuffix inner.manifest manifest with
  | none =>
    dsimp only
    rw [hload]
    rfl
  | some names =>
    rw [hsuffix] at happended
    have hempty : names.isEmpty = true := by simpa [Option.filter] using happended
    dsimp only
    rw [if_pos hempty, hload]
    rfl

theorem reopen_extended {names : List ℕ} {new : List Segment}
    (hread : dir.disk.manifest = some manifest)
    (hnewer : inner.manifestMtime < dir.manifestMtime)
    (happended : StoreInner.appended inner.manifest manifest = some names)
    (hnew : List.Forall₂ (fun g seg => dir.disk.deltas g = some (some seg)) names new) :
    inner.reopenIfChanged dir = .ok (inner.extendWith manifest dir.manifestMtime new, true) := by
  obtain ⟨hsuffix, hempty⟩ := Option.filter_eq_some_iff.mp happended
  unfold StoreInner.reopenIfChanged
  rw [hread]
  dsimp only
  rw [if_neg hnewer.not_ge, hsuffix]
  dsimp only
  rw [if_neg (by simpa using hempty), extend_ok_iff.mpr ⟨new, hnew, rfl⟩]
  rfl

theorem extended_kept_iff {names : List ℕ} {new : List Segment}
    (hopen : Opens dir.disk manifest base deltas) (hassembled : inner.Assembled)
    (happended : StoreInner.appended inner.manifest manifest = some names)
    (hnew : List.Forall₂ (fun g seg => dir.disk.deltas g = some (some seg)) names new) :
    (inner.extendWith manifest dir.manifestMtime new).Kept dir.disk ↔ inner.Kept dir.disk := by
  obtain ⟨hbase, hnames⟩ := newDeltaSuffix_some (Option.filter_eq_some_iff.mp happended).1
  constructor
  · intro h
    obtain ⟨base', deltas', hstored, hsegments⟩ := h.stored
    obtain ⟨rfl, rfl⟩ := hopen.eq_stored hstored
    obtain ⟨old, olds, hsame⟩ := hassembled
    have hextended := StoreInner.extendWith_same hsame manifest dir.manifestMtime new
    rw [hextended.segments, StoreInner.assemble_toSegment, List.reverse_inj] at hsegments
    obtain ⟨rfl, rfl⟩ := List.cons.inj hsegments
    have hall := hopen.deltas_eq
    rw [hnames] at hall
    have hold : List.Forall₂ (fun g seg => dir.disk.deltas g = some (some seg))
        inner.manifest.deltas olds := by
      have htake := List.forall₂_take inner.manifest.deltas.length hall
      have hlength : (inner.manifest.deltas ++ names).length = (olds ++ new).length :=
        hall.length_eq
      have hlen : olds.length = inner.manifest.deltas.length := by
        rw [List.length_append, List.length_append, hnew.length_eq] at hlength
        omega
      rw [List.take_left' rfl, List.take_left' hlen] at htake
      exact htake
    refine ⟨old, olds, ⟨?_, hold⟩, ?_⟩
    · rw [hbase]
      exact hopen.base_eq
    · rw [hsame.segments]
      exact StoreInner.assemble_toSegment _ _ _ _
  · intro h
    obtain ⟨old, olds, hstored, hsame⟩ := h.same hassembled
    refine kept_of_same ⟨?_, ?_⟩
      (StoreInner.extendWith_same hsame manifest dir.manifestMtime new)
    · rw [← hbase]
      exact hstored.base_eq
    · rw [hnames]
      exact List.rel_append hstored.deltas_eq hnew

variable [Sha256]

theorem upToDate_of_kept (hopen : Opens dir.disk manifest base deltas)
    (hlist : manifest.deltas = listed) (hassembled : inner.Assembled)
    (hmanifest : inner.manifest = manifest) (hmtime : inner.manifestMtime = dir.manifestMtime)
    (hkept : inner.Kept dir.disk) : UpToDate dir listed inner := by
  obtain ⟨base', deltas', hstored, hsame⟩ := hkept.same hassembled
  refine ⟨hmanifest ▸ hopen.manifest_eq, hkept, ?_, ?_⟩
  · rw [hmanifest] at hstored
    obtain ⟨rfl, rfl⟩ := hopen.eq_stored hstored
    rw [hmanifest, hmtime] at hsame
    exact ⟨_, load_ok_iff.mpr ⟨_, _, _, hopen, rfl⟩, hsame.answers⟩
  · intro input disk' roots hwrite
    obtain ⟨seg, -, hmanifest', -, -⟩ := writeDelta_frame hwrite
    refine ⟨_, hmanifest', ?_⟩
    change inner.manifest.deltas ++ [input.generation] = listed ++ [input.generation]
    rw [hmanifest, hlist]

theorem reopen_upToDate_iff (hopen : Opens dir.disk manifest base deltas)
    (hlist : manifest.deltas = listed) (hassembled : inner.Assembled)
    (hle : inner.manifestMtime ≤ dir.manifestMtime) :
    ∃ inner' changed, inner.reopenIfChanged dir = .ok (inner', changed) ∧
      (UpToDate dir listed inner' ↔ inner.SeesPublishes dir) := by
  by_cases hnewer : inner.manifestMtime < dir.manifestMtime
  · cases happended : StoreInner.appended inner.manifest manifest with
    | none =>
      refine ⟨_, true, reopen_replaced hopen hnewer happended, fun _ => ?_, fun _ => ?_⟩
      · exact ⟨Or.inr hnewer, Or.inl ⟨hnewer, manifest, hopen.manifest_eq, happended⟩⟩
      · have hsame := StoreInner.Same.refl
          (StoreInner.assemble manifest base deltas dir.manifestMtime)
        exact upToDate_of_kept hopen hlist (assembled_of_same hsame).1 rfl rfl
          (kept_of_same hopen.stored hsame)
    | some names =>
      obtain ⟨hbase, hnames⟩ := newDeltaSuffix_some (Option.filter_eq_some_iff.mp happended).1
      have hall := hopen.deltas_eq
      rw [hnames] at hall
      have hnew := (List.forall₂_drop_append _ _ _ hall.flip).flip
      have hkept := extended_kept_iff hopen hassembled happended hnew
      refine ⟨_, true, reopen_extended hopen.manifest_eq hnewer happended hnew, fun h => ?_,
        fun h => ?_⟩
      · exact ⟨Or.inr hnewer, Or.inr (hkept.mp h.kept)⟩
      · obtain ⟨-, fresh, hfresh, hnone⟩ | hold := h.kept
        · obtain rfl := Option.some.inj (hopen.manifest_eq.symm.trans hfresh)
          rw [happended] at hnone
          cases hnone
        · obtain ⟨old, olds, hsame⟩ := hassembled
          have hextended := StoreInner.extendWith_same hsame manifest dir.manifestMtime
            (deltas.drop inner.manifest.deltas.length)
          exact upToDate_of_kept hopen hlist (assembled_of_same hextended).1 rfl rfl
            (hkept.mpr hold)
  · refine ⟨inner, false, reopen_unchanged (not_lt.mp hnewer), fun h => ?_, fun h => ?_⟩
    · exact ⟨Or.inl h.manifest, Or.inr h.kept⟩
    · have hmanifest : dir.disk.manifest = some inner.manifest := h.newer.resolve_right hnewer
      have hkept : inner.Kept dir.disk := h.kept.resolve_left (fun hreload => hnewer hreload.1)
      exact upToDate_of_kept hopen hlist hassembled
        (Option.some.inj (hmanifest.symm.trans hopen.manifest_eq))
        (hle.antisymm (not_lt.mp hnewer)) hkept

end Reopened

section Run

variable [Sha256] {dir dir' : Directory} {inner inner' : StoreInner} {listed : List ℕ}
  {phase : Phase}

structure SessionOk (dir : Directory) (phase : Phase) (listed : List ℕ) : Prop where
  opens : ∃ manifest base deltas, Opens dir.disk manifest base deltas ∧ manifest.deltas = listed
  held : ∀ inner ∈ phase.held, inner.Assembled ∧ inner.manifestMtime ≤ dir.manifestMtime
  statted : ∀ mtime ∈ phase.statted, mtime ≤ dir.manifestMtime

omit [Sha256] in
theorem SessionOk.same {mtime : ℕ} {manifest : Manifest} {base : Segment} {deltas : List Segment}
    (h : SessionOk dir phase listed) (hmtime : mtime ∈ phase.statted)
    (hsame : inner.Same (StoreInner.assemble manifest base deltas mtime)) :
    SessionOk dir (.idle (some inner)) listed := by
  obtain ⟨hassembled, -, heq⟩ := assembled_of_same hsame
  refine ⟨h.opens, fun inner' hinner => ?_, by simp [Phase.statted]⟩
  obtain rfl := Option.some.inj hinner
  exact ⟨hassembled, heq ▸ h.statted mtime hmtime⟩

theorem Session.ok (h : Session dir phase listed) : SessionOk dir phase listed := by
  induction h with
  | created publish =>
    refine ⟨?_, by simp [Phase.held], by simp [Phase.statted]⟩
    cases publish with
    | base write => exact (publishBase_published [] write).opens
    | partitioned write => exact (publishBase_published [] write).opens
    | compact write =>
      obtain ⟨reader, hreader, write⟩ := ExceptOk.bind_eq_ok write
      exact (publishBase_published [] write).opens
  | published before publish later ih =>
    obtain ⟨manifest, base, deltas, hopen, hlist⟩ := ih.opens
    exact ⟨(publish.toPublished hopen hlist).opens,
      fun inner hinner => (ih.held inner hinner).imp_right later.trans',
      fun mtime hmtime => (ih.statted mtime hmtime).trans later⟩
  | opens before ih => exact ⟨ih.opens, ih.held, ih.statted⟩
  | read before read ih => exact ⟨ih.opens, ih.held, ih.statted⟩
  | stat before ih =>
    refine ⟨ih.opens, ih.held, fun mtime hmtime => ?_⟩
    exact (Option.some.inj hmtime).ge
  | loaded before load ih =>
    obtain ⟨base, deltas, -, -, rfl⟩ := loadSegments_ok_iff.mp load
    exact ih.same rfl (StoreInner.Same.refl _)
  | loadFailed before load ih => exact ⟨ih.opens, ih.held, by simp [Phase.statted]⟩
  | changed before newer ih =>
    refine ⟨ih.opens, ih.held, fun mtime hmtime => ?_⟩
    exact (Option.some.inj hmtime).ge
  | compared before read appended ih => exact ⟨ih.opens, ih.held, ih.statted⟩
  | replaced before read appended ih => exact ⟨ih.opens, ih.held, by simp [Phase.statted]⟩
  | @extended dir inner inner' mtime freshManifest newDeltaNames listed before extend ih =>
    let statted : Directory := ⟨dir.disk, mtime⟩
    have hextend : inner.extend statted.disk freshManifest statted.manifestMtime newDeltaNames =
        .ok inner' :=
      extend
    obtain ⟨new, -, rfl⟩ := extend_ok_iff.mp hextend
    obtain ⟨base, deltas, hsame⟩ := (ih.held inner rfl).1
    exact ih.same rfl (StoreInner.extendWith_same hsame freshManifest mtime new)
  | extendFailed before extend ih => exact ⟨ih.opens, ih.held, by simp [Phase.statted]⟩
  | @written dir dir' inner listed input roots before current write later ih =>
    obtain ⟨manifest, base, deltas, hopen, hlist⟩ := ih.opens
    obtain rfl := Option.some.inj (current.symm.trans hopen.manifest_eq)
    refine ⟨(writeDelta_published hopen hlist write).opens,
      fun inner' hinner => (ih.held inner' hinner).imp_right later.trans', by simp [Phase.statted]⟩

theorem Session.load {reader : Option StoreInner} (h : Session dir (.loading reader) listed)
    (hload : StoreInner.load dir = .ok inner) : Session dir (.idle (some inner)) listed := by
  obtain ⟨manifest, base, deltas, hopen, rfl⟩ := load_ok_iff.mp hload
  exact (h.read hopen.manifest_eq).stat.loaded
    (loadSegments_ok_iff.mpr ⟨base, deltas, hopen.base_eq, hopen.deltas_eq, rfl⟩)

theorem Session.reopenIfChanged {changed : Bool} (h : Session dir (.idle (some inner)) listed)
    (hreopen : inner.reopenIfChanged dir = .ok (inner', changed)) :
    Session dir (.idle (some inner')) listed := by
  obtain ⟨manifest, base, deltas, hopen, -⟩ := h.ok.opens
  by_cases hnewer : inner.manifestMtime < dir.manifestMtime
  · have hchanged := Session.changed h hnewer
    cases happended : StoreInner.appended inner.manifest manifest with
    | none =>
      rw [reopen_replaced hopen hnewer happended] at hreopen
      cases hreopen
      exact (Session.replaced hchanged hopen.manifest_eq happended).load
        (load_ok_iff.mpr ⟨_, _, _, hopen, rfl⟩)
    | some names =>
      have hall := hopen.deltas_eq
      rw [(newDeltaSuffix_some (Option.filter_eq_some_iff.mp happended).1).2] at hall
      have hnew := (List.forall₂_drop_append _ _ _ hall.flip).flip
      rw [reopen_extended hopen.manifest_eq hnewer happended hnew] at hreopen
      cases hreopen
      exact (Session.compared hchanged hopen.manifest_eq happended).extended
        (extend_ok_iff.mpr ⟨_, hnew, rfl⟩)
  · rw [reopen_unchanged (not_lt.mp hnewer)] at hreopen
    cases hreopen
    exact h

theorem reopened_reader_up_to_date (h : Session dir (.idle (some inner)) listed) :
    ∃ inner' changed, inner.reopenIfChanged dir = .ok (inner', changed) ∧
      Session dir (.idle (some inner')) listed ∧
      (UpToDate dir listed inner' ↔ inner.SeesPublishes dir) := by
  obtain ⟨manifest, base, deltas, hopen, hlist⟩ := h.ok.opens
  obtain ⟨hassembled, hle⟩ := h.ok.held inner rfl
  obtain ⟨inner', changed, hreopen, hiff⟩ := reopen_upToDate_iff hopen hlist hassembled hle
  exact ⟨inner', changed, hreopen, h.reopenIfChanged hreopen, hiff⟩

end Run

section Instances

def emptyDelta (generation : ℕ) : DeltaInput := dependencyDelta [] [] generation

variable [Sha256]

def publishDelta (disk : Disk) (generation : ℕ) : Except Fault (Disk × Roots) := do
  let reader ← StoreReader.open disk
  writeDeltaWithReaderAndPending disk reader (emptyDelta generation)

theorem publishDelta_publishes {disk disk' : Disk} {generation : ℕ} {roots : Roots}
    (h : publishDelta disk generation = .ok (disk', roots)) :
    Publishes disk disk' (.delta generation) := by
  obtain ⟨reader, hopen, hwrite⟩ := ExceptOk.bind_eq_ok h
  exact .delta hopen hwrite

def publishDuringLoad : Except Fault (Directory × StoreInner) := do
  let (disk, _) ← writeBaseWithPending Disk.empty (dependencyBase [])
  let (disk', _) ← publishDelta disk 2
  match disk.manifest with
  | none => .error (.error "read manifest")
  | some manifest => do
    let inner ← StoreInner.loadSegments manifest 1 disk'
    let (disk'', _) ← publishDelta disk' 3
    if (Publication.delta 3).ListedIn manifest then .error (.error "segment listed")
    else .ok (⟨disk'', 2⟩, inner)

theorem publishDuringLoad_session {dir : Directory} {inner : StoreInner}
    (h : publishDuringLoad = .ok (dir, inner)) :
    Session dir (.idle (some inner)) [2, 3] ∧ inner.manifestMtime < dir.manifestMtime ∧
      inner.Kept dir.disk := by
  unfold publishDuringLoad at h
  obtain ⟨⟨disk, roots⟩, hbase, h⟩ := ExceptOk.bind_eq_ok h
  obtain ⟨⟨disk', roots'⟩, hsecond, h⟩ := ExceptOk.bind_eq_ok h
  have hcreated : Session ⟨disk, 0⟩ (.idle none) [] := .created (.base hbase)
  cases hread : disk.manifest with
  | none =>
    simp only [hread] at h
    cases h
  | some manifest =>
    simp only [hread] at h
    obtain ⟨loaded, hload, h⟩ := ExceptOk.bind_eq_ok h
    obtain ⟨⟨disk'', roots''⟩, hthird, h⟩ := ExceptOk.bind_eq_ok h
    split at h
    · cases h
    · rename_i hunlisted
      cases h
      have hreading : Session ⟨disk', 1⟩ (.reading none manifest) [2] :=
        .published (hcreated.opens.read hread) (publishDelta_publishes hsecond) (Nat.zero_le 1)
      have hheld := hreading.stat.loaded hload
      have hthird := publishDelta_publishes hthird
      obtain ⟨base, deltas, hstoredBase, hstoredDeltas, rfl⟩ := loadSegments_ok_iff.mp hload
      obtain ⟨current, base', deltas', hopen, hlist⟩ := hheld.ok.opens
      have hkept := kept_of_same ⟨hstoredBase, hstoredDeltas⟩ (StoreInner.Same.refl
        (StoreInner.assemble manifest base deltas 1))
      have hnext : Session ⟨disk'', 2⟩ _ (Publication.deltas [2] (.delta 3)) :=
        hheld.published hthird (Nat.le_succ 1)
      exact ⟨hnext, Nat.lt_succ_self 1,
        hkept.publish (hthird.toPublished hopen hlist) hunlisted⟩

omit [Sha256] in
theorem reopened_reader_up_to_date_later_tick :
    ∃ dir inner', @UpToDate fixedDigest dir [2, 3] inner' := by
  let _ := fixedDigest
  have hrun : publishDuringLoad.map (fun state => state.1.manifestMtime) = .ok 2 := by
    decide +kernel
  obtain ⟨⟨dir, inner⟩, hstate, -⟩ := ExceptOk.map_eq_ok hrun
  obtain ⟨hsession, hnewer, hkept⟩ := publishDuringLoad_session hstate
  obtain ⟨inner', changed, -, -, hiff⟩ := reopened_reader_up_to_date hsession
  exact ⟨dir, inner', hiff.mpr ⟨Or.inr hnewer, Or.inr hkept⟩⟩

def publishWithinTick : Except Fault (Directory × StoreInner) := do
  let (disk, _) ← writeBaseWithPending Disk.empty (dependencyBase [])
  let inner ← StoreInner.load ⟨disk, 0⟩
  let (disk', _) ← publishDelta disk 2
  .ok (⟨disk', 0⟩, inner)

theorem publishWithinTick_session {dir : Directory} {inner : StoreInner}
    (h : publishWithinTick = .ok (dir, inner)) : Session dir (.idle (some inner)) [2] := by
  unfold publishWithinTick at h
  obtain ⟨⟨disk, roots⟩, hbase, h⟩ := ExceptOk.bind_eq_ok h
  obtain ⟨first, hload, h⟩ := ExceptOk.bind_eq_ok h
  obtain ⟨⟨disk', roots'⟩, hsecond, h⟩ := ExceptOk.bind_eq_ok h
  cases h
  have hcreated : Session ⟨disk, 0⟩ (.idle none) [] := .created (.base hbase)
  exact (hcreated.opens.load hload).published (publishDelta_publishes hsecond) (Nat.le_refl 0)

def writeAfterReopen (dir : Directory) (inner : StoreInner) :
    Except Fault (StoreInner × Disk × Roots) := do
  let (inner', _) ← inner.reopenIfChanged dir
  let (disk', roots) ←
    writeDeltaWithReaderAndPending dir.disk inner'.toReader (emptyDelta 3)
  .ok (inner', disk', roots)

omit [Sha256] in
theorem repeated_mtime_drops_delta :
    ¬ ∀ (_ : Sha256) (dir : Directory) (inner : StoreInner) (listed : List ℕ),
      Session dir (.idle (some inner)) listed →
      ∀ inner' changed, inner.reopenIfChanged dir = .ok (inner', changed) →
        UpToDate dir listed inner' := by
  intro hall
  let _ := fixedDigest
  have hrun : (do
      let (dir, inner) ← publishWithinTick
      let (_, disk', _) ← writeAfterReopen dir inner
      .ok (disk'.manifest.map Manifest.deltas)) = (.ok (some [3]) : Except Fault _) := by
    decide +kernel
  obtain ⟨⟨dir, inner⟩, hstate, hrun⟩ := ExceptOk.bind_eq_ok hrun
  obtain ⟨⟨inner', disk', roots⟩, hafter, hrun⟩ := ExceptOk.bind_eq_ok hrun
  obtain ⟨⟨next, changed⟩, hreopen, hafter⟩ := ExceptOk.bind_eq_ok hafter
  obtain ⟨⟨disk'', roots'⟩, hwrite, hafter⟩ := ExceptOk.bind_eq_ok hafter
  cases hafter
  obtain ⟨manifest', hmanifest', hdeltas⟩ := (hall fixedDigest dir inner [2]
    (publishWithinTick_session hstate) inner' changed hreopen).write _ _ _ hwrite
  have hdropped : disk'.manifest.map Manifest.deltas = some [3] := Except.ok.inj hrun
  rw [hmanifest', Option.map_some, hdeltas] at hdropped
  cases hdropped

end Instances

end StructuralStore
