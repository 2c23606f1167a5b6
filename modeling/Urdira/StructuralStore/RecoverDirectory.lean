import Urdira.StructuralStore.CrashRun
import Urdira.StructuralStore.SegmentReclaim

open MerkleBucket

namespace StructuralStore

namespace Recovery

structure ManifestFile where
  generation : ℕ
  base : String
  deltas : List String
  deriving DecidableEq

def ManifestFile.names (manifest : ManifestFile) : List String := manifest.base :: manifest.deltas

-- A regular file carries the manifest it parses to, none where it is not one of format 6; other is
-- neither, and leads to no manifest either (a link to one is outside the model).
inductive DirEntry where
  | directory
  | file (manifest : Option ManifestFile)
  | other
  deriving DecidableEq

structure StoreDirectory where
  entries : List (String × DirEntry)
  distinct : (entries.map Prod.fst).Nodup

namespace StoreDirectory

def get (dir : StoreDirectory) (name : String) : Option DirEntry := AssocMap.get dir.entries name

def keep (dir : StoreDirectory) (kept : String × DirEntry → Bool) : StoreDirectory where
  entries := dir.entries.filter kept
  distinct := dir.distinct.sublist (List.filter_sublist.map _)

def remove (dir : StoreDirectory) (name : String) : StoreDirectory :=
  dir.keep (fun e => decide (e.1 ≠ name))

end StoreDirectory

def isBaseName (name : String) : Bool := "base-".toList.isPrefixOf name.toList

def isDeltaName (name : String) : Bool :=
  "delta-".toList.isPrefixOf name.toList && ".seg".toList.isSuffixOf name.toList

def isSegment : String × DirEntry → Bool
  | (name, .directory) => isBaseName name
  | (name, .file _) => isDeltaName name
  | (_, .other) => false

def readManifest (dir : StoreDirectory) (name : String) : Except Fault (Option ManifestFile) :=
  match dir.get name with
  | none => .ok none
  | some (.file (some manifest)) => .ok (some manifest)
  | some _ => .error (.error "read manifest")

def removeUnpublished (dir : StoreDirectory) (manifest next : ManifestFile) : StoreDirectory :=
  (next.names.filter (fun name => !manifest.names.contains name)).foldl StoreDirectory.remove dir

def clearNext (dir : StoreDirectory) (manifest : ManifestFile) :
    Option ManifestFile → StoreDirectory
  | none => dir
  | some next =>
    let dir :=
      if next.generation ≠ manifest.generation then removeUnpublished dir manifest next else dir
    dir.remove "MANIFEST.next"

def removeOrphans (dir : StoreDirectory) (manifest : ManifestFile) : StoreDirectory :=
  dir.keep (fun e => !(isSegment e && !manifest.names.contains e.1))

def recover (dir : StoreDirectory) : Except Fault StoreDirectory := do
  match ← readManifest dir "MANIFEST" with
  | none => .ok dir
  | some manifest => do
    let next ← readManifest dir "MANIFEST.next"
    .ok (removeOrphans (clearNext dir manifest next) manifest)

section Directory

variable {dir : StoreDirectory} {kept kept' : String × DirEntry → Bool} {name : String}
  {entry : DirEntry}

theorem get_eq_some : dir.get name = some entry ↔ (name, entry) ∈ dir.entries :=
  ⟨AssocMap.mem_of_get, AssocMap.get_of_mem dir.distinct⟩

theorem ext_entries {dir' : StoreDirectory} (h : dir.entries = dir'.entries) : dir = dir' := by
  cases dir
  cases dir'
  cases h
  rfl

theorem get_keep : (dir.keep kept).get name = some entry ↔ dir.get name = some entry ∧
      kept (name, entry) = true := by
  rw [get_eq_some, get_eq_some]
  exact List.mem_filter

theorem get_keep_eq (h : ∀ entry, dir.get name = some entry → kept (name, entry) = true) :
    (dir.keep kept).get name = dir.get name := by
  refine Option.ext fun entry => ?_
  rw [get_keep]
  exact and_iff_left_of_imp (h entry)

theorem keep_keep : (dir.keep kept).keep kept' = dir.keep (fun e => kept e && kept' e) := by
  refine ext_entries ?_
  change (dir.entries.filter kept).filter kept' = _
  rw [List.filter_filter]
  exact List.filter_congr fun e _ => Bool.and_comm _ _

theorem keep_eq_self (h : ∀ e ∈ dir.entries, kept e = true) : dir.keep kept = dir :=
  ext_entries (List.filter_eq_self.mpr h)

theorem foldl_remove (names : List String) (dir : StoreDirectory) :
    names.foldl StoreDirectory.remove dir = dir.keep (fun e => !names.contains e.1) := by
  induction names generalizing dir with
  | nil => exact (keep_eq_self fun e _ => rfl).symm
  | cons name names ih =>
    rw [List.foldl_cons, ih, StoreDirectory.remove, keep_keep]
    refine congrArg dir.keep (funext fun e => ?_)
    by_cases h : e.1 = name <;> simp [h]

end Directory

section Recover

variable {dir : StoreDirectory} {manifest : ManifestFile}

def unpublishedNames (manifest : ManifestFile) : Option ManifestFile → List String
  | none => []
  | some next =>
    if next.generation ≠ manifest.generation then next.names.filter
      (fun name => !manifest.names.contains name)
    else []

def survives (manifest : ManifestFile) (next : Option ManifestFile) (e : String × DirEntry) :
    Bool :=
  !(unpublishedNames manifest next).contains e.1 && decide (next.isSome → e.1 ≠ "MANIFEST.next") &&
    !(isSegment e && !manifest.names.contains e.1)

theorem recover_eq {next : Option ManifestFile}
    (hm : readManifest dir "MANIFEST" = .ok (some manifest))
    (hnext : readManifest dir "MANIFEST.next" = .ok next) :
    recover dir = .ok (dir.keep (survives manifest next)) := by
  have hcleared : removeOrphans (clearNext dir manifest next) manifest =
      dir.keep (survives manifest next) := by
    cases next with
    | none =>
      refine congrArg dir.keep (funext fun e => ?_)
      simp [survives, unpublishedNames]
    | some next =>
      have hremoved :
          (if next.generation ≠ manifest.generation then removeUnpublished dir manifest
            next else dir) =
          dir.keep (fun e => !(unpublishedNames manifest (some next)).contains e.1) := by
        rw [unpublishedNames]
        split_ifs with hgeneration
        · exact foldl_remove _ dir
        · exact (keep_eq_self fun e _ => rfl).symm
      rw [clearNext, removeOrphans, hremoved, StoreDirectory.remove, keep_keep, keep_keep]
      refine congrArg dir.keep (funext fun e => ?_)
      simp [survives, Bool.and_assoc]
  rw [recover, hm]
  change (do
    let next ← readManifest dir "MANIFEST.next"
    Except.ok (removeOrphans (clearNext dir manifest next) manifest)) = _
  rw [hnext]
  exact congrArg Except.ok hcleared

def IsSegmentName (name : String) : Prop := isBaseName name = true ∨ isDeltaName name = true

def SegmentAt (dir : StoreDirectory) (name : String) : Prop :=
  ∃ entry, dir.get name = some entry ∧ isSegment (name, entry) = true

structure Published (dir : StoreDirectory) (manifest : ManifestFile) : Prop where
  stored : dir.get "MANIFEST" = some (.file (some manifest))
  named : ∀ name ∈ manifest.names, IsSegmentName name

structure Leftover (dir : StoreDirectory) (next : Option ManifestFile) : Prop where
  stored : dir.get "MANIFEST.next" = next.map (fun next => .file (some next))
  named : ∀ manifest ∈ next, ∀ name ∈ manifest.names, IsSegmentName name

structure Recovered (dir dir' : StoreDirectory) (manifest : ManifestFile) : Prop where
  segments : ∀ name, SegmentAt dir' name ↔ SegmentAt dir name ∧ name ∈ manifest.names
  published : ∀ name ∈ manifest.names, dir'.get name = dir.get name
  manifest : dir'.get "MANIFEST" = dir.get "MANIFEST"
  next : dir'.get "MANIFEST.next" = none
  others : ∀ name, ¬ IsSegmentName name → name ≠ "MANIFEST.next" → dir'.get name = dir.get name
  stable : recover dir' = .ok dir'

theorem not_isSegmentName_manifest :
    ¬ IsSegmentName "MANIFEST" ∧ ¬ IsSegmentName "MANIFEST.next" := by
  unfold IsSegmentName
  decide +kernel

theorem readManifest_published (h : Published dir manifest) :
    readManifest dir "MANIFEST" = .ok (some manifest) := by
  rw [readManifest, h.stored]

theorem readManifest_leftover {next : Option ManifestFile} (h : Leftover dir next) :
    readManifest dir "MANIFEST.next" = .ok next := by
  rw [readManifest, h.stored]
  cases next <;> rfl

theorem isSegmentName_of_unpublished {next : Option ManifestFile} (h : Leftover dir next)
    {name : String}
    (hname : name ∈ unpublishedNames manifest next) :
    IsSegmentName name ∧ name ∉ manifest.names := by
  cases next with
  | none => cases hname
  | some next =>
    rw [unpublishedNames] at hname
    split_ifs at hname
    obtain ⟨hmem, hnot⟩ := List.mem_filter.mp hname
    · exact ⟨h.named next rfl name hmem, by simpa using hnot⟩
    · cases hname

theorem isSegmentName_of_isSegment {e : String × DirEntry} (h : isSegment e = true) :
    IsSegmentName e.1 := by
  obtain ⟨name, entry⟩ := e
  cases entry with
  | directory => exact .inl h
  | file manifest => exact .inr h
  | other => cases h

theorem survives_iff {next : Option ManifestFile} {e : String × DirEntry} :
    survives manifest next e = true ↔ e.1 ∉ unpublishedNames manifest next ∧
      (next.isSome → e.1 ≠ "MANIFEST.next") ∧ (isSegment e = true → e.1 ∈ manifest.names) := by
  simp only [survives, Bool.and_eq_true, Bool.not_eq_true', decide_eq_true_eq, and_assoc]
  refine and_congr (by simp) (and_congr_right fun _ => ?_)
  cases isSegment e <;> simp

theorem recover_leftover {next : Option ManifestFile} (hm : Published dir manifest)
    (hnext : Leftover dir next) :
    ∃ dir', recover dir = .ok dir' ∧ Recovered dir dir' manifest := by
  obtain ⟨hnotManifest, hnotNext⟩ := not_isSegmentName_manifest
  have hkeptNamed : ∀ name ∈ manifest.names, ∀ entry,
      survives manifest next (name, entry) = true := by
    intro name hname entry
    refine survives_iff.mpr ⟨fun hmem => (isSegmentName_of_unpublished hnext hmem).2 hname,
      fun _ heq => ?_,
      fun _ => hname⟩
    exact hnotNext (heq ▸ hm.named name hname)
  have hkeptOther : ∀ name, ¬ IsSegmentName name → name ≠ "MANIFEST.next" → ∀ entry,
      survives manifest next (name, entry) = true := by
    intro name hname hne entry
    refine survives_iff.mpr ⟨fun hmem => hname (isSegmentName_of_unpublished hnext hmem).1,
      fun _ => hne, fun hseg => ?_⟩
    exact absurd (isSegmentName_of_isSegment hseg) hname
  have hmanifest : (dir.keep (survives manifest next)).get "MANIFEST" = dir.get "MANIFEST" :=
    get_keep_eq fun entry _ => hkeptOther _ hnotManifest (by decide) entry
  have hgone : (dir.keep (survives manifest next)).get "MANIFEST.next" = none := by
    refine Option.eq_none_iff_forall_ne_some.mpr fun entry hget => ?_
    obtain ⟨hstored, hkept⟩ := get_keep.mp hget
    rw [hnext.stored] at hstored
    obtain ⟨file, hfile, -⟩ := Option.map_eq_some_iff.mp hstored
    exact (survives_iff.mp hkept).2.1 (by rw [hfile]; rfl) rfl
  refine ⟨_, recover_eq (readManifest_published hm) (readManifest_leftover hnext), ?_, ?_,
    hmanifest, hgone, ?_, ?_⟩
  · intro name
    constructor
    · rintro ⟨entry, hget, hseg⟩
      obtain ⟨hstored, hkept⟩ := get_keep.mp hget
      exact ⟨⟨entry, hstored, hseg⟩, (survives_iff.mp hkept).2.2 hseg⟩
    · rintro ⟨⟨entry, hget, hseg⟩, hname⟩
      exact ⟨entry, get_keep.mpr ⟨hget, hkeptNamed name hname entry⟩, hseg⟩
  · exact fun name hname => get_keep_eq fun entry _ => hkeptNamed name hname entry
  · exact fun name hname hne => get_keep_eq fun entry _ => hkeptOther name hname hne entry
  · have hread : readManifest (dir.keep (survives manifest next)) "MANIFEST" =
        .ok (some manifest) := by
      rw [readManifest, hmanifest, hm.stored]
    have hreadNext : readManifest (dir.keep (survives manifest next)) "MANIFEST.next" =
        .ok none := by
      rw [readManifest, hgone]
    rw [recover_eq hread hreadNext]
    refine congrArg Except.ok (keep_eq_self fun e he => survives_iff.mpr ⟨List.not_mem_nil, ?_, ?_⟩)
    · intro h
      cases h
    · exact (survives_iff.mp (List.mem_filter.mp he).2).2.2

theorem recover_unreadable (hm : Published dir manifest) {entry : DirEntry}
    (hentry : dir.get "MANIFEST.next" = some entry) (hbad : ∀ next, entry ≠ .file (some next)) :
    ∃ fault, recover dir = .error fault := by
  have hread : ∃ fault, readManifest dir "MANIFEST.next" = .error fault := by
    rw [readManifest, hentry]
    split
    · rename_i h
      cases h
    · rename_i next h
      exact absurd (Option.some.inj h) (hbad next)
    · exact ⟨_, rfl⟩
  obtain ⟨fault, hread⟩ := hread
  rw [recover, readManifest_published hm]
  change ∃ fault, (do
    let next ← readManifest dir "MANIFEST.next"
    Except.ok (removeOrphans (clearNext dir manifest next) manifest)) = .error fault
  rw [hread]
  exact ⟨fault, rfl⟩

theorem recover_leaves_published (hm : Published dir manifest) :
    (∀ next, Leftover dir next → ∃ dir', recover dir = .ok dir' ∧ Recovered dir dir' manifest) ∧
      ∀ entry, dir.get "MANIFEST.next" = some entry → (∀ next, entry ≠ .file (some next)) →
        ∃ fault, recover dir = .error fault :=
  ⟨fun _ => recover_leftover hm, fun _ => recover_unreadable hm⟩

def compactedFiles : StoreDirectory where
  entries :=
    [(".readers", .directory), ("base-1", .directory), ("base-2", .directory),
      ("delta-2.seg", .file none),
    ("MANIFEST", .file (some ⟨2, "base-2", []⟩))]
  distinct := by decide

theorem recover_leaves_published_compacted :
    ∃ dir', recover compactedFiles = .ok dir' ∧
      Recovered compactedFiles dir' ⟨2, "base-2", []⟩ := by
  have hnamed : ∀ name ∈ (⟨2, "base-2", []⟩ : ManifestFile).names, IsSegmentName name :=
    List.forall_mem_singleton.mpr (.inl (by decide +kernel))
  exact (recover_leaves_published ⟨by decide +kernel, hnamed⟩).1 none
    ⟨by decide +kernel, fun _ h => by cases h⟩

theorem pinned_base_removed :
    ∃ dir', recover compactedFiles = .ok dir' ∧
      Pinned compactor.alive [("8-0-0", some ["base-1"])] "base-1" ∧
      SegmentAt compactedFiles "base-1" ∧ ¬ SegmentAt dir' "base-1" := by
  have hnamed : ∀ name ∈ (⟨2, "base-2", []⟩ : ManifestFile).names, IsSegmentName name :=
    List.forall_mem_singleton.mpr (.inl (by decide +kernel))
  obtain ⟨dir', hrecover, hspec⟩ := @recover_leftover compactedFiles _ none
    ⟨by decide +kernel, hnamed⟩ ⟨by decide +kernel, fun _ h => by cases h⟩
  have hpid : markerPid "8-0-0" = some 8 := by decide +kernel
  refine ⟨dir', hrecover, ⟨_, List.mem_singleton_self _, 8, hpid, rfl, _, rfl,
    List.mem_singleton_self _⟩,
    ⟨.directory, by decide +kernel, by decide +kernel⟩, fun hseg => ?_⟩
  exact absurd ((hspec.segments "base-1").mp hseg).2 (by decide +kernel)

end Recover

section Refinement

theorem SegmentName.text_toList (name : SegmentName) : name.text.toList = match name with
    | .base generation => "base-".toList ++ Nat.toDigits 10 generation
    | .delta generation => "delta-".toList ++ Nat.toDigits 10 generation ++ ".seg".toList := by
  cases name <;> simp [SegmentName.text]

theorem text_inj {a b : SegmentName} : a.text = b.text ↔ a = b := by
  constructor
  · intro h
    have hlist := congrArg String.toList h
    rw [SegmentName.text_toList, SegmentName.text_toList] at hlist
    cases a with
    | base g =>
      cases b with
      | base g' =>
        have hdigits :=
          congrArg (fun digits => Nat.ofDigitChars 10 digits 0) (List.append_cancel_left hlist)
        simpa using hdigits
      | delta g' => simp at hlist
    | delta g =>
      cases b with
      | base g' => simp at hlist
      | delta g' =>
        have hdigits := congrArg (fun digits => Nat.ofDigitChars 10 digits 0)
          (List.append_cancel_left (List.append_cancel_right hlist))
        simpa using hdigits
  · exact congrArg SegmentName.text

theorem isSegmentName_text (name : SegmentName) : IsSegmentName name.text := by
  cases name with
  | base generation =>
    refine .inl ?_
    rw [isBaseName, SegmentName.text_toList, List.isPrefixOf_iff_prefix]
    exact List.prefix_append ..
  | delta generation =>
    refine .inr ?_
    rw [isDeltaName, SegmentName.text_toList, Bool.and_eq_true, List.isPrefixOf_iff_prefix,
      List.isSuffixOf_iff_suffix]
    exact ⟨(List.prefix_append ..).trans (List.prefix_append ..), List.suffix_append ..⟩

def manifestFile (manifest : Manifest) : ManifestFile :=
  ⟨manifest.generation, (SegmentName.base manifest.base).text,
    manifest.deltas.map (fun g => (SegmentName.delta g).text)⟩

theorem names_manifestFile (manifest : Manifest) :
    (manifestFile manifest).names = manifest.segmentNames.map SegmentName.text := by
  simp [manifestFile, ManifestFile.names, Manifest.segmentNames]

structure Shows (dir : StoreDirectory) (disk : Disk) : Prop where
  manifest : dir.get "MANIFEST" = disk.manifest.map (fun m => .file (some (manifestFile m)))
  next : dir.get "MANIFEST.next" = disk.manifestNext.map (fun m => .file (some (manifestFile m)))
  segments : ∀ name : SegmentName, SegmentAt dir name.text ↔ disk.present name = true

theorem present_recover {disk : Disk} {manifest : Manifest} (h : disk.manifest = some manifest)
    (name : SegmentName) :
    (StructuralStore.recover disk).present name = true ↔
      disk.present name = true ∧ name ∈ manifest.segmentNames := by
  have hmem : name ∈ manifest.segmentNames ↔ match name with
      | .base g => g = manifest.base
      | .delta g => g ∈ manifest.deltas := by
    cases name <;> simp [Manifest.segmentNames]
  rw [hmem]
  cases name with
  | base g =>
    simp only [StructuralStore.recover, h, StructuralStore.removeOrphans, Disk.present]
    cases disk.manifestNext with
    | none => by_cases hg : g = manifest.base <;> simp [hg]
    | some next =>
      by_cases hg : g = manifest.base
      · dsimp only
        split_ifs <;> simp [hg, removeSegments]
      · simp [hg]
  | delta g =>
    simp only [StructuralStore.recover, h, StructuralStore.removeOrphans, Disk.present]
    cases disk.manifestNext with
    | none => by_cases hg : g ∈ manifest.deltas <;> simp [hg]
    | some next =>
      by_cases hg : g ∈ manifest.deltas
      · dsimp only
        split_ifs <;> simp [hg, removeSegments]
      · simp [hg]

theorem recover_shows {dir : StoreDirectory} {disk : Disk} {manifest : Manifest}
    (hshows : Shows dir disk)
    (h : disk.manifest = some manifest) :
    ∃ dir', recover dir = .ok dir' ∧ Shows dir' (StructuralStore.recover disk) := by
  have hnamed : ∀ m : Manifest, ∀ name ∈ (manifestFile m).names, IsSegmentName name := by
    intro m name hname
    rw [names_manifestFile] at hname
    obtain ⟨segment, -, rfl⟩ := List.mem_map.mp hname
    exact isSegmentName_text segment
  have hpublished : Published dir (manifestFile manifest) := by
    refine ⟨?_, hnamed manifest⟩
    rw [hshows.manifest, h]
    rfl
  have hleftover : Leftover dir (disk.manifestNext.map manifestFile) := by
    refine ⟨?_, ?_⟩
    · rw [hshows.next, Option.map_map]
      rfl
    · intro file hfile
      obtain ⟨m, -, rfl⟩ := Option.map_eq_some_iff.mp hfile
      exact hnamed m
  obtain ⟨dir', hrecover, hspec⟩ := recover_leftover hpublished hleftover
  refine ⟨dir', hrecover, ?_, ?_, fun name => ?_⟩
  · rw [hspec.manifest, hshows.manifest, (recover_of_manifest h).1, h]
  · have hnext : (StructuralStore.recover disk).manifestNext = none := by
      simp only [StructuralStore.recover, h]
      cases hn : disk.manifestNext <;> simp [StructuralStore.removeOrphans, hn]
    rw [hspec.next, hnext]
    rfl
  · rw [hspec.segments, hshows.segments, present_recover h, names_manifestFile]
    refine and_congr_right fun _ => ?_
    constructor
    · intro hmem
      obtain ⟨segment, hsegment, heq⟩ := List.mem_map.mp hmem
      rw [← text_inj.mp heq]
      exact hsegment
    · exact List.mem_map_of_mem

end Refinement

end Recovery

end StructuralStore
