import Urdira.Engine.ExactSearch

open ExceptOk KeyedSort NativeCore TopK

namespace Engine

namespace Semantic

section Model

variable {H Ref Row I Q V D : Type} [DecidableEq H] [DecidableEq Ref] [LinearOrder I]
  [LinearOrder D]

inductive LaneFault where
  | native (error : ResidentVectorError)
  | malformedCount
  | malformedResult
  deriving DecidableEq

structure LaneEntry (Ref I : Type) where
  sourceVectors : Ref
  generationTag : ℕ
  ids : List I

structure LaneWorld (H Ref I V : Type) where
  residentLaneBufferCache : H → Option (LaneEntry Ref I)
  nextResidentLaneGenerationTag : ℕ
  registry : ResidentVectorRegistry H V

structure LaneSource (H Ref Row I V : Type) where
  lane : H → Ref → List Row
  idOf : H → Row → I
  float32View : Row → Option V
  dimensions : H → ℕ

def readMatches (ids : List I) : List ℕ → ℕ → List (D × ℕ) →
      Except LaneFault (List (ExactVectorMatch I))
  | _, _, [] => .ok []
  | seen, order, (_, index) :: matches_ =>
    match ids[index]? with
    | none => .error .malformedResult
    | some id =>
      if index ∈ seen then .error .malformedResult
      else do
        let found ← readMatches ids (index :: seen) (order + 1) matches_
        .ok (⟨id, order + 1⟩ :: found)

def packResidentLane (idOf : Row → I) (view : Row → Option V) (vectors : List Row) :
    Option (List V × List I) :=
  let ordered := sortBy idOf vectors
  match ordered.mapM view with
  | none => none
  | some rows => some (rows, ordered.map idOf)

def scanResident (kernel : ResidentKernel Q V D) (registry : ResidentVectorRegistry H V)
    (handle : H) (generationTag : ℕ)
    (ids : List I) (query : Q) (k : ℕ) : Except LaneFault (List (ExactVectorMatch I)) := do
  let matches_ ← (exactTopKContiguous kernel registry handle generationTag query
    (min k ids.length)).mapError .native
  if matches_.length ≠ min k ids.length then .error .malformedCount
  else readMatches ids [] 0 matches_

def residentExactVectorScan (kernel : ResidentKernel Q V D) (registry : ResidentVectorRegistry H V)
    (handle : H)
    (generationTag : ℕ) (register : Option (ResidentVectorBuffer V)) (ids : List I)
    (query : Q) (k : ℕ) :
    Except LaneFault (List (ExactVectorMatch I)) × ResidentVectorRegistry H V :=
  if ids = [] then (.ok [], registry)
  else
    match register with
    | none => (scanResident kernel registry handle generationTag ids query k, registry)
    | some buffer =>
      match registerVectorBuffer kernel registry handle buffer with
      | .error error => (.error (.native error), registry)
      | .ok registry => (scanResident kernel registry handle generationTag ids query k, registry)

def residentLaneScan (kernel : ResidentKernel Q V D) (source : LaneSource H Ref Row I V)
    (world : LaneWorld H Ref I V)
    (handle : H) (freshnessKey : Ref) (query : Q) (k : ℕ) :
    Except LaneFault (Option (List (ExactVectorMatch I))) × LaneWorld H Ref I V :=
  let laneVectors := source.lane handle freshnessKey
  if laneVectors = [] then (.ok none, world)
  else
    match (world.residentLaneBufferCache handle).filter
      (fun cached => decide (cached.sourceVectors = freshnessKey)) with
    | some cached =>
      let (found, registry) :=
        residentExactVectorScan kernel world.registry handle cached.generationTag none
          cached.ids query k
      (found.map some, { world with registry := registry })
    | none =>
      match packResidentLane (source.idOf handle) source.float32View laneVectors with
      | none => (.ok none, world)
      | some (rows, ids) =>
        let tag := world.nextResidentLaneGenerationTag
        let (found, registry) :=
          residentExactVectorScan kernel world.registry handle tag
            (some ⟨tag, source.dimensions handle, rows⟩) ids query k
        (found.map some,
          { residentLaneBufferCache := Function.update world.residentLaneBufferCache handle (some
            ⟨freshnessKey, tag, ids⟩)
            nextResidentLaneGenerationTag := tag + 1
            registry := registry })

inductive LaneOp (H Ref Q V : Type) where
  | scan (handle : H) (freshnessKey : Ref) (query : Q) (k : ℕ)
  | register (handle : H) (buffer : ResidentVectorBuffer V)
  | forget (handle : H)

def LaneWorld.step (kernel : ResidentKernel Q V D) (source : LaneSource H Ref Row I V)
    (world : LaneWorld H Ref I V) :
    LaneOp H Ref Q V → LaneWorld H Ref I V
  | .scan handle freshnessKey query k =>
    (residentLaneScan kernel source world handle freshnessKey query k).2
  | .register handle buffer =>
    match registerVectorBuffer kernel world.registry handle buffer with
    | .error _ => world
    | .ok registry => { world with registry := registry }
  | .forget handle => { world with registry := forgetVectorBuffer world.registry handle }

def LaneWorld.run (kernel : ResidentKernel Q V D) (source : LaneSource H Ref Row I V)
    (world : LaneWorld H Ref I V)
    (ops : List (LaneOp H Ref Q V)) : LaneWorld H Ref I V :=
  ops.foldl (fun world op => world.step kernel source op) world

def LaneWorld.start (registry : ResidentVectorRegistry H V) : LaneWorld H Ref I V :=
  ⟨fun _ => none, 1, registry⟩

end Model

section Coherence

variable {H Ref Row I Q V D : Type} [LinearOrder I] [LinearOrder D] {kernel : ResidentKernel Q V D}
  {source : LaneSource H Ref Row I V}

def SelectsNth (kernel : ResidentKernel Q V D) : Prop :=
  ∀ n (items : List (D × ℕ)), n < items.length →
    (kernel.selectNthUnstable n items).Perm items ∧
      Selects toLex n (kernel.selectNthUnstable n items)

def laneKey (idOf : Row → I) (d : Row → D) (row : Row) : D ×ₗ I := toLex (d row, idOf row)

def nearestRows (idOf : Row → I) (d : Row → D) (k : ℕ) (lane : List Row) :
    List (ExactVectorMatch I) := rankedMatches ((top (laneKey idOf d) k lane).map idOf)

def MeasuredBy (view : Row → Option V) (distanceAt : V → Except ResidentVectorError D) (d : Row → D)
    (lane : List Row) : Prop := ∀ row ∈ lane, ∃ v, view row = some v ∧ distanceAt v = .ok (d row)

def Measured (kernel : ResidentKernel Q V D) (view : Row → Option V) (query : Q) (d : Row → D)
    (lane : List Row) : Prop :=
  ∃ distanceAt, kernel.residentDistance query = .ok distanceAt ∧ MeasuredBy view distanceAt d lane

section Ranking

variable {ids : List I} {distances : List D} {k : ℕ}

omit [LinearOrder D] in
theorem zipIdx_keys (distances : List D) : (distances.zipIdx.map toLex).Nodup := by
  have hindexes : (distances.zipIdx.map Prod.snd).Nodup := by
    rw [List.zipIdx_map_snd]
    exact List.nodup_range'
  refine List.Nodup.of_map (fun key => (ofLex key).2) ?_
  rw [List.map_map]
  exact hindexes

theorem nearest_eq (hselect : SelectsNth kernel) (hk : 0 < k) (distances : List D) :
    nearest kernel k distances = top toLex k distances.zipIdx := by
  rw [nearest]
  split
  · rename_i hlt
    obtain ⟨hperm, hselects⟩ := hselect (k - 1) distances.zipIdx (by rw [List.length_zipIdx]; omega)
    have htake := sortBy_take_selected hperm hselects (zipIdx_keys distances)
    rw [Nat.sub_add_cancel hk] at htake
    exact htake
  · rename_i hge
    rw [top, List.take_of_length_le]
    rw [(sortBy_perm toLex _).length_eq, List.length_zipIdx]
    omega

omit [LinearOrder I] [LinearOrder D] in
theorem readMatches_eq {α : Type} {entries : List α} {index : α → ℕ} {distanceOf : α → D}
    {idOf : α → I} {seen : List ℕ} (hids : ∀ entry ∈ entries, ids[index entry]? = some (idOf entry))
    (hnodup : (entries.map index).Nodup) (hfresh : ∀ entry ∈ entries, index entry ∉ seen)
    (order : ℕ) :
    readMatches ids seen order (entries.map (fun entry => (distanceOf entry, index entry))) =
      .ok ((entries.map idOf).mapIdx (fun i id => ⟨id, order + i + 1⟩)) := by
  induction entries generalizing seen order with
  | nil => rfl
  | cons entry entries ih =>
    obtain ⟨hid, hrestIds⟩ := List.forall_mem_cons.mp hids
    obtain ⟨hnew, hrestNew⟩ := List.forall_mem_cons.mp hfresh
    rw [List.map_cons] at hnodup
    obtain ⟨hnot, hrest⟩ := List.nodup_cons.mp hnodup
    have htail : ∀ other ∈ entries, index other ∉ index entry :: seen := by
      intro other hother hseen
      rcases List.mem_cons.mp hseen with hsame | hseen
      · exact hnot (hsame ▸ List.mem_map_of_mem hother)
      · exact hrestNew other hother hseen
    have hshift : (fun i id => (⟨id, order + 1 + i + 1⟩ : ExactVectorMatch I)) =
        fun i id => ⟨id, order + (i + 1) + 1⟩ := by
      funext i id
      rw [Nat.add_right_comm order 1 i, Nat.add_assoc order i 1]
    rw [List.map_cons, readMatches, hid]
    dsimp only
    rw [if_neg hnew, ih hrestIds hrest htail, List.map_cons, List.mapIdx_cons, hshift]
    rfl

theorem length_views {view : Row → Option V} {ordered : List Row} {rows : List V}
    (h : ordered.mapM view = some rows) : rows.length = ordered.length := by
  induction ordered generalizing rows with
  | nil =>
    obtain rfl := Option.some.inj h
    rfl
  | cons row ordered ih =>
    rw [List.mapM_cons] at h
    obtain ⟨v, -, h⟩ := Option.bind_eq_some_iff.mp h
    obtain ⟨rest, hrest, h⟩ := Option.bind_eq_some_iff.mp h
    obtain rfl := Option.some.inj h
    rw [List.length_cons, List.length_cons, ih hrest]

omit [LinearOrder D] in
theorem exists_measuredBy [Nonempty D] {view : Row → Option V}
    {distanceAt : V → Except ResidentVectorError D} {ordered : List Row}
    (h : ∀ row ∈ ordered, ∃ distance v, view row = some v ∧ distanceAt v = .ok distance) :
    ∃ d, MeasuredBy view distanceAt d ordered := by
  choose! d hd using h
  exact ⟨d, hd⟩

omit [LinearOrder D] in
theorem mapM_views {view : Row → Option V} {distanceAt : V → Except ResidentVectorError D}
    {ordered : List Row} {rows : List V} (hrows : ordered.mapM view = some rows)
    (hdistances : rows.mapM distanceAt = .ok distances) :
    ∀ row ∈ ordered, ∃ distance v, view row = some v ∧ distanceAt v = .ok distance := by
  induction ordered generalizing rows distances with
  | nil => exact List.forall_mem_nil _
  | cons row ordered ih =>
    rw [List.mapM_cons] at hrows
    obtain ⟨v, hv, hrows⟩ := Option.bind_eq_some_iff.mp hrows
    obtain ⟨rest, hrest, hrows⟩ := Option.bind_eq_some_iff.mp hrows
    obtain rfl := Option.some.inj hrows
    rw [List.mapM_cons] at hdistances
    obtain ⟨distance, hdistance, hdistances⟩ := bind_eq_ok hdistances
    obtain ⟨more, hmore, -⟩ := bind_eq_ok hdistances
    exact List.forall_mem_cons.mpr ⟨⟨distance, v, hv, hdistance⟩, ih hrest hmore⟩

omit [LinearOrder D] in
theorem mapM_measured {view : Row → Option V} {distanceAt : V → Except ResidentVectorError D}
    {d : Row → D} {ordered : List Row} {rows : List V} (hrows : ordered.mapM view = some rows)
    (hmeasured : MeasuredBy view distanceAt d ordered) :
    rows.mapM distanceAt = .ok (ordered.map d) := by
  induction ordered generalizing rows with
  | nil =>
    obtain rfl := Option.some.inj hrows
    rfl
  | cons row ordered ih =>
    obtain ⟨⟨v, hv, hdistance⟩, hrest⟩ := List.forall_mem_cons.mp hmeasured
    rw [List.mapM_cons] at hrows
    obtain ⟨first, hfirst, hrows⟩ := Option.bind_eq_some_iff.mp hrows
    obtain rfl := Option.some.inj (hv.symm.trans hfirst)
    obtain ⟨rest, hviews, hrows⟩ := Option.bind_eq_some_iff.mp hrows
    obtain rfl := Option.some.inj hrows
    rw [List.mapM_cons, hdistance, ih hviews hrest]
    rfl

theorem sortBy_index_le {idOf : Row → I} {lane : List Row} (h : (lane.map idOf).Nodup) {i j : ℕ}
    {r s : Row} (hi : (sortBy idOf lane)[i]? = some r) (hj : (sortBy idOf lane)[j]? = some s) :
    i ≤ j ↔ idOf r ≤ idOf s := by
  have hnodup := ((sortBy_perm idOf lane).map idOf).nodup_iff.mpr h
  have hlt : ∀ {a b : ℕ} {x y : Row}, (sortBy idOf lane)[a]? = some x →
      (sortBy idOf lane)[b]? = some y → a < b → idOf x < idOf y := by
    intro a b x y ha hb hab
    obtain ⟨ha', rfl⟩ := List.getElem?_eq_some_iff.mp ha
    obtain ⟨hb', rfl⟩ := List.getElem?_eq_some_iff.mp hb
    have hle := List.pairwise_iff_getElem.mp (sortBy_pairwise idOf lane) a b ha' hb' hab
    refine lt_of_le_of_ne hle (fun heq => ?_)
    have hne := List.pairwise_iff_getElem.mp hnodup a b (by rwa [List.length_map])
      (by rwa [List.length_map]) hab
    rw [List.getElem_map, List.getElem_map] at hne
    exact hne heq
  constructor
  · intro hle
    rcases Nat.eq_or_lt_of_le hle with rfl | hlt'
    · rw [hi] at hj
      rw [Option.some.inj hj]
    · exact (hlt hi hj hlt').le
  · intro hle
    by_contra hgt
    exact absurd hle (not_le_of_gt (hlt hj hi (Nat.lt_of_not_le hgt)))

theorem readMatches_nearest {idOf : Row → I} {lane : List Row} (d : Row → D)
    (hdistinct : (lane.map idOf).Nodup) (k : ℕ) :
    readMatches ((sortBy idOf lane).map idOf) [] 0
      (top toLex k ((sortBy idOf lane).map d).zipIdx) = .ok (nearestRows idOf d k lane) := by
  set ordered := sortBy idOf lane with hordered
  let entries := ordered.zipIdx
  have hentry : ∀ entry ∈ entries, ordered[entry.2]? = some entry.1 :=
    fun entry hmem => List.mk_mem_zipIdx_iff_getElem?.mp hmem
  have hindexes : (entries.map Prod.snd).Nodup := by
    rw [List.zipIdx_map_snd]
    exact List.nodup_range'
  have hzip : (ordered.map d).zipIdx = entries.map (fun entry => (d entry.1, entry.2)) := by
    rw [List.zipIdx_map]
    rfl
  have hkeys : ∀ a ∈ entries, ∀ b ∈ entries, (toLex (d a.1, a.2) : D ×ₗ ℕ) ≤ toLex (d b.1, b.2) ↔
      laneKey idOf d a.1 ≤ laneKey idOf d b.1 := by
    intro a ha b hb
    have hindex := sortBy_index_le hdistinct (hentry a ha) (hentry b hb)
    rw [laneKey, laneKey, Prod.Lex.toLex_le_toLex, Prod.Lex.toLex_le_toLex]
    dsimp only
    rw [hindex]
  have hnearest : top toLex k (ordered.map d).zipIdx =
      (top (fun entry => laneKey idOf d entry.1) k entries).map
        (fun entry => (d entry.1, entry.2)) := by
    rw [hzip, ← top_congr k hkeys]
    exact top_map (fun _ => rfl) k entries
  have hchosen : ∀ entry ∈ top (fun entry => laneKey idOf d entry.1) k entries,
      (ordered.map idOf)[entry.2]? = some (idOf entry.1) := by
    intro entry hmem
    rw [List.getElem?_map, hentry entry (mem_of_top hmem)]
    rfl
  have hnodup : ((top (fun entry => laneKey idOf d entry.1) k entries).map Prod.snd).Nodup :=
    (((sortBy_perm _ entries).map _).nodup_iff.mpr hindexes).sublist ((top_sublist k entries).map _)
  have hsorted : (top (fun entry => laneKey idOf d entry.1) k entries).map Prod.fst =
      top (laneKey idOf d) k lane := by
    have hlaneKeys : (ordered.map (laneKey idOf d)).Nodup := by
      refine List.Nodup.of_map (fun key => (ofLex key).2) ?_
      rw [List.map_map]
      exact ((sortBy_perm idOf lane).map idOf).nodup_iff.mpr hdistinct
    rw [← top_map (fun _ => rfl), List.zipIdx_map_fst]
    exact top_perm k (sortBy_perm idOf lane) hlaneKeys
  have hfound : readMatches (ordered.map idOf) [] 0
      ((top (fun entry => laneKey idOf d entry.1) k entries).map
        (fun entry => (d entry.1, entry.2))) = _ :=
    readMatches_eq hchosen hnodup (fun _ _ => List.not_mem_nil) 0
  rw [hnearest, hfound, nearestRows, ← hsorted, List.map_map]
  simp only [Nat.zero_add]
  rfl

end Ranking

section Runs

variable {own : H → Prop} {world : LaneWorld H Ref I V} {handle : H} {freshnessKey : Ref}
  {query : Q} {k tag : ℕ}
  {rows : List V} {ids : List I} {registry : ResidentVectorRegistry H V}

theorem packResidentLane_eq {idOf : Row → I} {view : Row → Option V} {vectors : List Row}
    (h : packResidentLane idOf view vectors = some (rows, ids)) :
    (sortBy idOf vectors).mapM view = some rows ∧ ids = (sortBy idOf vectors).map idOf := by
  rw [packResidentLane] at h
  split at h
  · cases h
  · rename_i packed hpacked
    obtain ⟨rfl, rfl⟩ := Prod.mk.inj (Option.some.inj h)
    exact ⟨hpacked, rfl⟩

theorem exactTopKContiguous_ok {found : List (D × ℕ)}
    (h : exactTopKContiguous kernel registry handle tag query k = .ok found) :
    0 < k ∧ ∃ buffer, registry handle = some buffer ∧ buffer.generation = tag ∧
      (buffer.rows = [] ∨ ∃ distanceAt distances, kernel.residentDistance query = .ok distanceAt ∧
        buffer.rows.mapM distanceAt = .ok distances ∧
          found = nearest kernel (min k buffer.rows.length) distances) := by
  rw [exactTopKContiguous] at h
  split at h
  · cases h
  · rename_i hpositive
    split at h
    · cases h
    · split at h
      · cases h
      · rename_i buffer hbuffer
        split at h
        · cases h
        · rename_i hgeneration
          refine ⟨Nat.pos_of_ne_zero hpositive, buffer, hbuffer, not_not.mp hgeneration, ?_⟩
          split at h
          · cases h
          · split at h
            · rename_i hempty
              exact Or.inl hempty
            · obtain ⟨distanceAt, hprepared, h⟩ := bind_eq_ok h
              obtain ⟨distances, hdistances, h⟩ := bind_eq_ok h
              exact Or.inr ⟨distanceAt, distances, hprepared, hdistances, (Except.ok.inj h).symm⟩

omit [LinearOrder I] in
theorem scanResident_ok {found : List (ExactVectorMatch I)}
    (h : scanResident kernel registry handle tag ids query k = .ok found) :
    ∃ matches_, exactTopKContiguous kernel registry handle tag query (min k ids.length) =
      .ok matches_ ∧
      readMatches ids [] 0 matches_ = .ok found := by
  rw [scanResident] at h
  obtain ⟨matches_, hmatches, h⟩ := bind_eq_ok h
  refine ⟨matches_, ?_, ?_⟩
  · cases hcase : exactTopKContiguous kernel registry handle tag query (min k ids.length) with
    | error fault =>
      rw [hcase] at hmatches
      cases hmatches
    | ok answer =>
      rw [hcase] at hmatches
      exact congrArg Except.ok (Except.ok.inj hmatches)
  · split at h
    · cases h
    · exact h

def Registered (registry : ResidentVectorRegistry H V) (handle : H) (tag : ℕ) (rows : List V) :
    Prop :=
  ∀ buffer, registry handle = some buffer → buffer.generation = tag → buffer.rows = rows

omit [LinearOrder D] in
theorem exists_measured_of_packed {view : Row → Option V} {idOf : Row → I} {lane : List Row}
    {distanceAt : V → Except ResidentVectorError D} {distances : List D} (hnonempty : rows ≠ [])
    (hrows : (sortBy idOf lane).mapM view = some rows)
    (hdistances : rows.mapM distanceAt = .ok distances) :
    ∃ d, MeasuredBy view distanceAt d lane := by
  have hviews := mapM_views hrows hdistances
  have hlength := length_views hrows
  have hpositive := List.length_pos_of_ne_nil hnonempty
  obtain ⟨first, hfirst⟩ := List.exists_mem_of_length_pos (hlength ▸ hpositive)
  obtain ⟨distance, -, -, -⟩ := hviews first hfirst
  have : Nonempty D := ⟨distance⟩
  exact exists_measuredBy (fun row hrow => hviews row ((sortBy_perm _ _).mem_iff.mpr hrow))

theorem nearest_rows {view : Row → Option V} {idOf : Row → I} {lane : List Row}
    {distanceAt : V → Except ResidentVectorError D} {d : Row → D} (hselect : SelectsNth kernel)
    (hdistinct : (lane.map idOf).Nodup) (hrows : (sortBy idOf lane).mapM view = some rows)
    (hmeasured : MeasuredBy view distanceAt d lane) (hk : 0 < min k lane.length) :
    ∃ distances, rows.mapM distanceAt = .ok distances ∧ distances.length = lane.length ∧
      readMatches ((sortBy idOf lane).map idOf) [] 0
        (nearest kernel (min k lane.length) distances) =
        .ok (nearestRows idOf d k lane) := by
  have hordered : MeasuredBy view distanceAt d (sortBy idOf lane) :=
    fun row hrow => hmeasured row ((sortBy_perm _ _).mem_iff.mp hrow)
  refine ⟨_, mapM_measured hrows hordered, ?_, ?_⟩
  · rw [List.length_map, (sortBy_perm _ _).length_eq]
  · rw [nearest_eq hselect hk, readMatches_nearest d hdistinct, nearestRows, nearestRows, top_min]

theorem scanResident_nearest (hselect : SelectsNth kernel)
    (hdistinct : ((source.lane handle freshnessKey).map (source.idOf handle)).Nodup)
    (hpack : packResidentLane (source.idOf handle) source.float32View
      (source.lane handle freshnessKey) = some (rows, ids))
    (hregistered : Registered registry handle tag rows) {found : List (ExactVectorMatch I)}
    (h : scanResident kernel registry handle tag ids query k = .ok found) :
    ∃ d, Measured kernel source.float32View query d (source.lane handle freshnessKey) ∧
      found = nearestRows (source.idOf handle) d k (source.lane handle freshnessKey) := by
  obtain ⟨hrows, rfl⟩ := packResidentLane_eq hpack
  obtain ⟨matches_, hkernel, hread⟩ := scanResident_ok h
  obtain ⟨hpositive, buffer, hbuffer, hgeneration, hanswer⟩ := exactTopKContiguous_ok hkernel
  obtain rfl := hregistered buffer hbuffer hgeneration
  have hcount := (sortBy_perm (source.idOf handle) (source.lane handle freshnessKey)).length_eq
  have hrowCount := (length_views hrows).trans hcount
  rw [List.length_map, hcount] at hpositive hanswer
  have hnonempty : buffer.rows ≠ [] := by
    rw [← List.length_pos_iff, hrowCount]
    omega
  obtain ⟨distanceAt, distances, hprepared, hdistances, rfl⟩ := hanswer.resolve_left hnonempty
  obtain ⟨d, hmeasured⟩ := exists_measured_of_packed hnonempty hrows hdistances
  obtain ⟨distances', hdistances', -, hfound⟩ :=
    nearest_rows hselect hdistinct hrows hmeasured hpositive
  obtain rfl := Except.ok.inj (hdistances.symm.trans hdistances')
  rw [hrowCount, min_assoc, min_self, hfound] at hread
  exact ⟨d, ⟨distanceAt, hprepared, hmeasured⟩, (Except.ok.inj hread).symm⟩

variable [DecidableEq H] [DecidableEq Ref]

structure Coherent (source : LaneSource H Ref Row I V) (own : H → Prop)
    (world : LaneWorld H Ref I V) : Prop where
  fresh : ∀ handle, own handle → ∀ buffer, world.registry handle = some buffer →
    buffer.generation < world.nextResidentLaneGenerationTag
  entries : ∀ handle, own handle → ∀ cached, world.residentLaneBufferCache handle = some cached →
    ∃ rows, packResidentLane (source.idOf handle) source.float32View
      (source.lane handle cached.sourceVectors) =
      some (rows, cached.ids) ∧ Registered world.registry handle cached.generationTag rows

def Allowed (own : H → Prop) : LaneOp H Ref Q V → Prop
  | .register handle _ => ¬ own handle
  | _ => True

omit [LinearOrder D] in
theorem registerVectorBuffer_ok {buffer : ResidentVectorBuffer V}
    {registry' : ResidentVectorRegistry H V}
    (h : registerVectorBuffer kernel registry handle buffer = .ok registry') :
    registry' = Function.update registry handle (some buffer) := by
  rw [registerVectorBuffer] at h
  split at h
  · cases h
  · exact (Except.ok.inj (ite_eq_ok h).2).symm

omit [LinearOrder I] in
theorem residentExactVectorScan_registered (kernel : ResidentKernel Q V D)
    (registry : ResidentVectorRegistry H V)
    (handle : H) (tag : ℕ) (buffer : ResidentVectorBuffer V) (hids : ids ≠ []) (query : Q) (k : ℕ) :
    (∃ fault, registerVectorBuffer kernel registry handle buffer = .error fault ∧
        residentExactVectorScan kernel registry handle tag (some buffer) ids query k =
          (.error (.native fault), registry)) ∨
      residentExactVectorScan kernel registry handle tag (some buffer) ids query k =
        (scanResident kernel (Function.update registry handle (some buffer)) handle tag ids query k,
          Function.update registry handle (some buffer)) := by
  rw [residentExactVectorScan, if_neg hids]
  split
  · rename_i fault hregister
    exact Or.inl ⟨fault, hregister, rfl⟩
  · rename_i registry' hregister
    obtain rfl := registerVectorBuffer_ok hregister
    exact Or.inr rfl

theorem residentLaneScan_cases (kernel : ResidentKernel Q V D) (source : LaneSource H Ref Row I V)
    (world : LaneWorld H Ref I V) (handle : H) (freshnessKey : Ref) (query : Q) (k : ℕ) :
    residentLaneScan kernel source world handle freshnessKey query k = (.ok none, world) ∨
      (∃ cached, world.residentLaneBufferCache handle = some cached ∧ cached.sourceVectors =
        freshnessKey ∧
        source.lane handle freshnessKey ≠ [] ∧
        residentLaneScan kernel source world handle freshnessKey query k =
          (if cached.ids = [] then .ok (some [])
            else (scanResident kernel world.registry handle cached.generationTag cached.ids query
              k).map some, world)) ∨
      ∃ rows ids, packResidentLane (source.idOf handle) source.float32View
        (source.lane handle freshnessKey) =
          some (rows, ids) ∧ ids ≠ [] ∧
        ∃ outcome registry, residentLaneScan kernel source world handle freshnessKey query k =
            (outcome.map some, ⟨Function.update world.residentLaneBufferCache handle
              (some ⟨freshnessKey, world.nextResidentLaneGenerationTag, ids⟩),
              world.nextResidentLaneGenerationTag + 1, registry⟩) ∧
          ((∃ fault, registerVectorBuffer kernel world.registry handle
              ⟨world.nextResidentLaneGenerationTag, source.dimensions handle, rows⟩ = .error fault ∧
              outcome = .error (.native fault)) ∧ registry = world.registry ∨
            registry = Function.update world.registry handle
                (some ⟨world.nextResidentLaneGenerationTag, source.dimensions handle, rows⟩) ∧
              outcome = scanResident kernel registry handle world.nextResidentLaneGenerationTag ids
                query k) := by
  rw [residentLaneScan]
  dsimp only
  split
  · exact Or.inl rfl
  · rename_i hnonempty
    split
    · rename_i cached hcached
      obtain ⟨hentry, hfresh⟩ := Option.filter_eq_some_iff.mp hcached
      refine Or.inr (Or.inl ⟨cached, hentry, of_decide_eq_true hfresh, hnonempty, ?_⟩)
      rw [residentExactVectorScan]
      split <;> rfl
    · split
      · exact Or.inl rfl
      · rename_i rows ids hpack
        obtain ⟨-, rfl⟩ := packResidentLane_eq hpack
        have hids : (sortBy (source.idOf handle) (source.lane handle freshnessKey)).map
            (source.idOf handle) ≠ [] := by
          rw [ne_eq, List.map_eq_nil_iff]
          intro hnil
          have hlength :=
            (sortBy_perm (source.idOf handle) (source.lane handle freshnessKey)).length_eq
          rw [hnil] at hlength
          exact hnonempty (List.length_eq_zero_iff.mp hlength.symm)
        refine Or.inr (Or.inr ⟨rows, _, hpack, hids, _, _, rfl, ?_⟩)
        have hscan :=
          residentExactVectorScan_registered kernel world.registry handle
            world.nextResidentLaneGenerationTag
          ⟨world.nextResidentLaneGenerationTag, source.dimensions handle, rows⟩ hids query k
        rcases hscan with ⟨fault, hregister, hscan⟩ | hscan
        · rw [hscan]
          exact Or.inl ⟨⟨fault, hregister, rfl⟩, rfl⟩
        · rw [hscan]
          exact Or.inr ⟨rfl, rfl⟩

theorem Coherent.scan (h : Coherent source own world) (kernel : ResidentKernel Q V D) (handle : H)
    (freshnessKey : Ref)
    (query : Q) (k : ℕ) :
    Coherent source own (residentLaneScan kernel source world handle freshnessKey query k).2 := by
  rcases residentLaneScan_cases kernel source world handle freshnessKey query k with
    hscan | ⟨cached, -, -, -, hscan⟩ | ⟨rows, ids, hpack, -, outcome, registry, hscan, hregistry⟩
  · rw [hscan]
    exact h
  · rw [hscan]
    exact h
  · rw [hscan]
    constructor
    · intro other hown buffer hbuffer
      dsimp only at hbuffer ⊢
      rcases hregistry with ⟨-, rfl⟩ | ⟨rfl, -⟩
      · exact Nat.lt_succ_of_lt (h.fresh other hown buffer hbuffer)
      · rcases eq_or_ne other handle with rfl | hne
        · rw [Function.update_self] at hbuffer
          rw [← Option.some.inj hbuffer]
          exact Nat.lt_succ_self _
        · rw [Function.update_of_ne hne] at hbuffer
          exact Nat.lt_succ_of_lt (h.fresh other hown buffer hbuffer)
    · intro other hown cached hcached
      dsimp only at hcached ⊢
      rcases eq_or_ne other handle with rfl | hne
      · rw [Function.update_self] at hcached
        obtain rfl := Option.some.inj hcached
        refine ⟨rows, hpack, fun buffer hbuffer hgeneration => ?_⟩
        rcases hregistry with ⟨-, rfl⟩ | ⟨rfl, -⟩
        · exact absurd hgeneration (Nat.ne_of_lt (h.fresh other hown buffer hbuffer))
        · rw [Function.update_self] at hbuffer
          rw [← Option.some.inj hbuffer]
      · rw [Function.update_of_ne hne] at hcached
        obtain ⟨otherRows, hotherPack, hregistered⟩ := h.entries other hown cached hcached
        refine ⟨otherRows, hotherPack, fun buffer hbuffer hgeneration => ?_⟩
        rcases hregistry with ⟨-, rfl⟩ | ⟨rfl, -⟩
        · exact hregistered buffer hbuffer hgeneration
        · rw [Function.update_of_ne hne] at hbuffer
          exact hregistered buffer hbuffer hgeneration

theorem Coherent.step (h : Coherent source own world) (kernel : ResidentKernel Q V D)
    {op : LaneOp H Ref Q V}
    (hallowed : Allowed own op) : Coherent source own (world.step kernel source op) := by
  cases op with
  | scan handle freshnessKey query k => exact h.scan kernel handle freshnessKey query k
  | register handle buffer =>
    rw [LaneWorld.step]
    split
    · exact h
    · rename_i registry hregister
      obtain rfl := registerVectorBuffer_ok hregister
      have hsame : ∀ other, own other → Function.update world.registry handle (some buffer) other =
          world.registry other := by
        intro other hown
        refine Function.update_of_ne ?_ _ _
        rintro rfl
        exact hallowed hown
      refine ⟨fun other hown found hfound => ?_, fun other hown cached hcached => ?_⟩
      · exact h.fresh other hown found ((hsame other hown).symm.trans hfound)
      · obtain ⟨rows, hpack, hregistered⟩ := h.entries other hown cached hcached
        exact ⟨rows, hpack, fun found hfound =>
          hregistered found ((hsame other hown).symm.trans hfound)⟩
  | forget handle =>
    have hkept : ∀ other buffer, forgetVectorBuffer world.registry handle other = some buffer →
        world.registry other = some buffer := by
      intro other buffer hbuffer
      rcases eq_or_ne other handle with rfl | hne
      · rw [forgetVectorBuffer, Function.update_self] at hbuffer
        cases hbuffer
      · rwa [forgetVectorBuffer, Function.update_of_ne hne] at hbuffer
    refine ⟨fun other hown found hfound => h.fresh other hown found (hkept other found hfound),
      fun other hown cached hcached => ?_⟩
    obtain ⟨rows, hpack, hregistered⟩ := h.entries other hown cached hcached
    exact ⟨rows, hpack, fun found hfound => hregistered found (hkept other found hfound)⟩

theorem Coherent.run (h : Coherent source own world) (kernel : ResidentKernel Q V D)
    {ops : List (LaneOp H Ref Q V)}
    (hallowed : ∀ op ∈ ops, Allowed own op) :
    Coherent source own (world.run kernel source ops) := by
  induction ops generalizing world with
  | nil => exact h
  | cons op ops ih =>
    obtain ⟨hop, hops⟩ := List.forall_mem_cons.mp hallowed
    exact ih (h.step kernel hop) hops

omit [DecidableEq Ref] [DecidableEq H] in
theorem Coherent.start (hstart : ∀ handle, own handle → registry handle = none) :
    Coherent source own (LaneWorld.start registry) := by
  constructor
  · intro handle hown buffer hbuffer
    have hnone : (LaneWorld.start registry : LaneWorld H Ref I V).registry handle = none :=
      hstart handle hown
    rw [hnone] at hbuffer
    cases hbuffer
  · intro handle _ cached hcached
    cases hcached

theorem Coherent.scan_nearest (h : Coherent source own world) (hselect : SelectsNth kernel)
    (hdistinct : ((source.lane handle freshnessKey).map (source.idOf handle)).Nodup)
    (hown : own handle) {found : List (ExactVectorMatch I)}
    (hscan : (residentLaneScan kernel source world handle freshnessKey query k).1 =
      .ok (some found)) :
    ∃ d, Measured kernel source.float32View query d (source.lane handle freshnessKey) ∧
      found = nearestRows (source.idOf handle) d k (source.lane handle freshnessKey) := by
  rcases residentLaneScan_cases kernel source world handle freshnessKey query k with
    hcase | ⟨cached, hcached, rfl, hnonempty, hcase⟩ |
      ⟨rows, ids, hpack, -, outcome, registry, hcase, hregistry⟩
  · rw [hcase] at hscan
    cases hscan
  · rw [hcase] at hscan
    obtain ⟨rows, hpack, hregistered⟩ := h.entries handle hown cached hcached
    have hids : cached.ids ≠ [] := by
      obtain ⟨-, hids⟩ := packResidentLane_eq hpack
      intro hnil
      rw [hnil] at hids
      have hlength := (sortBy_perm (source.idOf handle)
        (source.lane handle cached.sourceVectors)).length_eq
      rw [List.map_eq_nil_iff.mp hids.symm] at hlength
      exact hnonempty (List.length_eq_zero_iff.mp hlength.symm)
    dsimp only at hscan
    rw [if_neg hids] at hscan
    obtain ⟨result, hresult, hsome⟩ := map_eq_ok hscan
    obtain rfl := Option.some.inj hsome
    exact scanResident_nearest hselect hdistinct hpack hregistered hresult
  · rw [hcase] at hscan
    obtain ⟨result, hresult, hsome⟩ := map_eq_ok hscan
    obtain rfl := Option.some.inj hsome
    rcases hregistry with ⟨⟨fault, -, rfl⟩, -⟩ | ⟨hregistry, houtcome⟩
    · cases hresult
    · rw [houtcome] at hresult
      refine scanResident_nearest hselect hdistinct hpack (fun buffer hbuffer _ => ?_) hresult
      rw [hregistry, Function.update_self] at hbuffer
      rw [← Option.some.inj hbuffer]

theorem residentLaneScan_exact (hselect : SelectsNth kernel)
    (hdistinct : ∀ handle freshnessKey,
      ((source.lane handle freshnessKey).map (source.idOf handle)).Nodup)
    (hstart : ∀ handle, own handle → registry handle = none) {ops : List (LaneOp H Ref Q V)}
    (hallowed : ∀ op ∈ ops, Allowed own op) (hown : own handle) (freshnessKey : Ref) (query : Q)
    (k : ℕ) {found : List (ExactVectorMatch I)}
    (hscan : (residentLaneScan kernel source ((LaneWorld.start registry).run kernel source ops)
      handle freshnessKey query k).1 = .ok (some found)) :
    ∃ d, Measured kernel source.float32View query d (source.lane handle freshnessKey) ∧
      found = nearestRows (source.idOf handle) d k (source.lane handle freshnessKey) :=
  ((Coherent.start hstart).run kernel hallowed).scan_nearest hselect
    (hdistinct handle freshnessKey) hown hscan

def Registrable (kernel : ResidentKernel Q V D) (source : LaneSource H Ref Row I V)
    (own : H → Prop) : Prop :=
  ∀ handle, own handle → source.dimensions handle ≠ 0 ∧ ∀ freshnessKey,
    ∀ row ∈ source.lane handle freshnessKey,
    ∀ v, source.float32View row = some v → kernel.finite v = true

structure Answerable (kernel : ResidentKernel Q V D) (source : LaneSource H Ref Row I V)
    (handle : H)
    (freshnessKey : Ref) (query : Q) : Prop where
  queryFinite : kernel.queryFinite query = true
  queryDimensions : kernel.queryDimensions query = source.dimensions handle
  distances : ∃ distanceAt, kernel.residentDistance query = .ok distanceAt ∧
    ∀ row ∈ source.lane handle freshnessKey, ∀ v, source.float32View row = some v →
      ∃ d, distanceAt v = .ok d

def Resident (source : LaneSource H Ref Row I V) (own : H → Prop) (world : LaneWorld H Ref I V) :
    Prop :=
  ∀ handle, own handle → ∀ cached, world.residentLaneBufferCache handle = some cached →
    ∃ rows, packResidentLane (source.idOf handle) source.float32View
      (source.lane handle cached.sourceVectors) =
      some (rows, cached.ids) ∧
      world.registry handle = some ⟨cached.generationTag, source.dimensions handle, rows⟩

def Kept (own : H → Prop) : LaneOp H Ref Q V → Prop
  | .scan _ _ _ _ => True
  | .register handle _ => ¬ own handle
  | .forget handle => ¬ own handle

omit [LinearOrder I] [LinearOrder D] [DecidableEq H] [DecidableEq Ref] in
theorem view_of_mem {view : Row → Option V} {ordered : List Row} (h : ordered.mapM view = some rows)
    {row : Row} (hmem : row ∈ ordered) : ∃ v, view row = some v := by
  induction ordered generalizing rows with
  | nil => cases hmem
  | cons first ordered ih =>
    rw [List.mapM_cons] at h
    obtain ⟨v, hv, h⟩ := Option.bind_eq_some_iff.mp h
    obtain ⟨rest, hrest, -⟩ := Option.bind_eq_some_iff.mp h
    rcases List.mem_cons.mp hmem with rfl | hmem
    · exact ⟨v, hv⟩
    · exact ih hrest hmem

omit [LinearOrder I] [LinearOrder D] [DecidableEq H] [DecidableEq Ref] in
theorem mem_views {view : Row → Option V} {ordered : List Row} (h : ordered.mapM view = some rows)
    {v : V}
    (hmem : v ∈ rows) : ∃ row ∈ ordered, view row = some v := by
  induction ordered generalizing rows with
  | nil =>
    obtain rfl := Option.some.inj h
    cases hmem
  | cons row ordered ih =>
    rw [List.mapM_cons] at h
    obtain ⟨first, hfirst, h⟩ := Option.bind_eq_some_iff.mp h
    obtain ⟨rest, hrest, h⟩ := Option.bind_eq_some_iff.mp h
    obtain rfl := Option.some.inj h
    rcases List.mem_cons.mp hmem with rfl | hmem
    · exact ⟨row, List.mem_cons_self, hfirst⟩
    · obtain ⟨other, hother, hview⟩ := ih hrest hmem
      exact ⟨other, List.mem_cons_of_mem _ hother, hview⟩

omit [LinearOrder D] [DecidableEq H] [DecidableEq Ref] in
theorem mem_lane_of_packed
    (h : packResidentLane (source.idOf handle) source.float32View
      (source.lane handle freshnessKey) = some (rows, ids))
    {v : V} (hmem : v ∈ rows) : ∃ row ∈ source.lane handle freshnessKey, source.float32View row =
      some v := by
  obtain ⟨row, hrow, hview⟩ := mem_views (packResidentLane_eq h).1 hmem
  exact ⟨row, (sortBy_perm _ _).mem_iff.mp hrow, hview⟩

omit [LinearOrder D] [DecidableEq Ref] in
theorem register_ne_error (hregistrable : Registrable kernel source own) (hown : own handle)
    (hpack : packResidentLane (source.idOf handle) source.float32View
      (source.lane handle freshnessKey) = some (rows, ids))
    (tag : ℕ) (fault : ResidentVectorError) :
    registerVectorBuffer kernel registry handle ⟨tag, source.dimensions handle, rows⟩ ≠
      .error fault := by
  obtain ⟨hdimensions, hfinite⟩ := hregistrable handle hown
  have hall : rows.all kernel.finite = true := by
    refine List.all_eq_true.mpr (fun v hv => ?_)
    obtain ⟨row, hrow, hview⟩ := mem_lane_of_packed hpack hv
    exact hfinite freshnessKey row hrow v hview
  rw [registerVectorBuffer, if_neg hdimensions, if_pos hall]
  exact fun h => nomatch h

theorem Resident.scan (h : Resident source own world) (hregistrable : Registrable kernel source own)
    (handle : H)
    (freshnessKey : Ref) (query : Q) (k : ℕ) :
    Resident source own (residentLaneScan kernel source world handle freshnessKey query k).2 := by
  rcases residentLaneScan_cases kernel source world handle freshnessKey query k with
    hscan | ⟨cached, -, -, -, hscan⟩ | ⟨rows, ids, hpack, -, outcome, registry, hscan, hregistry⟩
  · rw [hscan]
    exact h
  · rw [hscan]
    exact h
  · rw [hscan]
    intro other hown cached hcached
    dsimp only at hcached ⊢
    rcases hregistry with ⟨⟨fault, hfault, -⟩, rfl⟩ | ⟨rfl, -⟩
    · rcases eq_or_ne other handle with rfl | hne
      · exact absurd hfault (register_ne_error hregistrable hown hpack _ fault)
      · rw [Function.update_of_ne hne] at hcached
        exact h other hown cached hcached
    · rcases eq_or_ne other handle with rfl | hne
      · rw [Function.update_self] at hcached
        obtain rfl := Option.some.inj hcached
        exact ⟨rows, hpack, Function.update_self _ _ _⟩
      · rw [Function.update_of_ne hne] at hcached
        obtain ⟨otherRows, hotherPack, hbuffer⟩ := h other hown cached hcached
        exact ⟨otherRows, hotherPack, (Function.update_of_ne hne _ _).trans hbuffer⟩

theorem Resident.step (h : Resident source own world) (hregistrable : Registrable kernel source own)
    {op : LaneOp H Ref Q V} (hkept : Kept own op) :
    Resident source own (world.step kernel source op) := by
  have hsame : ∀ (handle : H) (value : Option (ResidentVectorBuffer V)), ¬ own handle → ∀ other,
      own other →
      Function.update world.registry handle value other = world.registry other := by
    intro handle value hnot other hown
    refine Function.update_of_ne ?_ _ _
    rintro rfl
    exact hnot hown
  cases op with
  | scan handle freshnessKey query k => exact h.scan hregistrable handle freshnessKey query k
  | register handle buffer =>
    rw [LaneWorld.step]
    split
    · exact h
    · rename_i registry hregister
      obtain rfl := registerVectorBuffer_ok hregister
      intro other hown cached hcached
      obtain ⟨rows, hpack, hbuffer⟩ := h other hown cached hcached
      exact ⟨rows, hpack, (hsame handle (some buffer) hkept other hown).trans hbuffer⟩
  | forget handle =>
    intro other hown cached hcached
    obtain ⟨rows, hpack, hbuffer⟩ := h other hown cached hcached
    exact ⟨rows, hpack, (hsame handle none hkept other hown).trans hbuffer⟩

theorem Resident.run (h : Resident source own world) (hregistrable : Registrable kernel source own)
    {ops : List (LaneOp H Ref Q V)} (hkept : ∀ op ∈ ops, Kept own op) :
    Resident source own (world.run kernel source ops) := by
  induction ops generalizing world with
  | nil => exact h
  | cons op ops ih =>
    obtain ⟨hop, hops⟩ := List.forall_mem_cons.mp hkept
    exact ih (h.step hregistrable hop) hops

omit [LinearOrder D] [DecidableEq H] [DecidableEq Ref] in
theorem Answerable.measuredBy (hanswerable : Answerable kernel source handle freshnessKey query)
    (hpack : packResidentLane (source.idOf handle) source.float32View
      (source.lane handle freshnessKey) = some (rows, ids))
    (hnonempty : source.lane handle freshnessKey ≠ []) :
    ∃ distanceAt d, kernel.residentDistance query = .ok distanceAt ∧
      MeasuredBy source.float32View distanceAt d (source.lane handle freshnessKey) := by
  obtain ⟨distanceAt, hprepared, hdefined⟩ := hanswerable.distances
  obtain ⟨hrows, -⟩ := packResidentLane_eq hpack
  have hviews : ∀ row ∈ source.lane handle freshnessKey, ∃ distance v,
      source.float32View row = some v ∧ distanceAt v = .ok distance := by
    intro row hrow
    obtain ⟨v, hv⟩ := view_of_mem hrows ((sortBy_perm _ _).mem_iff.mpr hrow)
    obtain ⟨distance, hdistance⟩ := hdefined row hrow v hv
    exact ⟨distance, v, hv, hdistance⟩
  obtain ⟨distance, -, -, -⟩ := hviews _ (List.head_mem hnonempty)
  have : Nonempty D := ⟨distance⟩
  obtain ⟨d, hd⟩ := exists_measuredBy hviews
  exact ⟨distanceAt, d, hprepared, hd⟩

omit [DecidableEq H] [DecidableEq Ref] in
theorem scanResident_answers (hselect : SelectsNth kernel)
    (hdistinct : ((source.lane handle freshnessKey).map (source.idOf handle)).Nodup)
    (hpack : packResidentLane (source.idOf handle) source.float32View
      (source.lane handle freshnessKey) = some (rows, ids))
    (hbuffer : registry handle = some ⟨tag, source.dimensions handle, rows⟩) (hids : ids ≠ [])
    (hk : 0 < k) (hanswerable : Answerable kernel source handle freshnessKey query) :
    ∃ found, scanResident kernel registry handle tag ids query k = .ok found := by
  obtain ⟨hrows, rfl⟩ := packResidentLane_eq hpack
  have hcount := (sortBy_perm (source.idOf handle) (source.lane handle freshnessKey)).length_eq
  have hrowCount := (length_views hrows).trans hcount
  have hpositive := List.length_pos_of_ne_nil hids
  rw [List.length_map, hcount] at hpositive
  obtain ⟨distanceAt, d, hprepared, hmeasured⟩ :=
    hanswerable.measuredBy hpack (List.length_pos_iff.mp hpositive)
  have hlimit := lt_min hk hpositive
  obtain ⟨distances, hdistances, hlength, hfound⟩ :=
    nearest_rows hselect hdistinct hrows hmeasured hlimit
  have hkernel : exactTopKContiguous kernel registry handle tag query
      (min k (source.lane handle freshnessKey).length) =
      .ok (nearest kernel (min k (source.lane handle freshnessKey).length) distances) := by
    have hquery : ¬ kernel.queryFinite query = false := by
      rw [hanswerable.queryFinite]
      exact Bool.true_eq_false_eq_False
    have hnonempty : rows ≠ [] := by
      rw [← List.length_pos_iff, hrowCount]
      exact hpositive
    rw [exactTopKContiguous, if_neg (Nat.ne_of_gt hlimit), if_neg hquery, hbuffer]
    dsimp only
    rw [if_neg (not_not_intro rfl), if_neg (not_not_intro hanswerable.queryDimensions),
      if_neg hnonempty, hprepared]
    change (rows.mapM distanceAt >>= _) = _
    rw [hdistances, hrowCount, min_assoc, min_self]
    rfl
  have hfoundLength : (nearest kernel (min k (source.lane handle freshnessKey).length)
      distances).length = min k (source.lane handle freshnessKey).length := by
    rw [nearest_eq hselect hlimit, length_top, List.length_zipIdx, hlength, min_assoc, min_self]
  refine ⟨nearestRows (source.idOf handle) d k (source.lane handle freshnessKey), ?_⟩
  rw [scanResident, List.length_map, hcount, hkernel]
  exact (if_neg (not_not_intro hfoundLength)).trans hfound

theorem Resident.scan_answers (h : Resident source own world) (hselect : SelectsNth kernel)
    (hdistinct : ((source.lane handle freshnessKey).map (source.idOf handle)).Nodup)
    (hregistrable : Registrable kernel source own) (hown : own handle) (hk : 0 < k)
    (hanswerable : Answerable kernel source handle freshnessKey query) :
    ∃ found, (residentLaneScan kernel source world handle freshnessKey query k).1 = .ok found := by
  rcases residentLaneScan_cases kernel source world handle freshnessKey query k with
    hcase | ⟨cached, hcached, rfl, -, hcase⟩ |
      ⟨rows, ids, hpack, hids, outcome, registry, hcase, hregistry⟩
  · exact ⟨none, by rw [hcase]⟩
  · obtain ⟨rows, hpack, hbuffer⟩ := h handle hown cached hcached
    rw [hcase]
    dsimp only
    split
    · exact ⟨some [], rfl⟩
    · rename_i hids
      obtain ⟨found, hfound⟩ :=
        scanResident_answers hselect hdistinct hpack hbuffer hids hk hanswerable
      exact ⟨some found, by rw [hfound]; rfl⟩
  · rw [hcase]
    rcases hregistry with ⟨⟨fault, hfault, -⟩, -⟩ | ⟨hregistry, houtcome⟩
    · exact absurd hfault (register_ne_error hregistrable hown hpack _ fault)
    · have hbuffer : registry handle =
          some ⟨world.nextResidentLaneGenerationTag, source.dimensions handle, rows⟩ := by
        rw [hregistry]
        exact Function.update_self _ _ _
      obtain ⟨found, hfound⟩ :=
        scanResident_answers hselect hdistinct hpack hbuffer hids hk hanswerable
      exact ⟨some found, by rw [houtcome, hfound]; rfl⟩

def absKernel : ResidentKernel ℕ ℕ ℕ where
  finite := fun _ => true
  queryFinite := fun _ => true
  queryDimensions := fun _ => 1
  residentDistance := fun query => .ok (fun v => .ok (v - query + (query - v)))
  selectNthUnstable := fun _ => sortBy toLex

def twoLanes : LaneSource ℕ ℕ (ℕ × ℕ) ℕ ℕ where
  lane := fun _ freshnessKey => if freshnessKey = 0 then [(5, 1), (3, 1), (4, 9)]
  else [(7, 2), (5, 4)]
  idOf := fun _ row => row.1
  float32View := fun row => some row.2
  dimensions := fun _ => 1

theorem selectsNth_absKernel : SelectsNth absKernel :=
  fun _ items h => ⟨sortBy_perm toLex items, selects_sortBy h⟩

theorem distinct_twoLanes (handle freshnessKey : ℕ) :
    ((twoLanes.lane handle freshnessKey).map (twoLanes.idOf handle)).Nodup := by
  change (List.map Prod.fst (if freshnessKey = 0 then _ else _)).Nodup
  split <;> decide

def laneOps : List (LaneOp ℕ ℕ ℕ ℕ) :=
  [.scan 0 0 1 2, .scan 0 0 8 1, .register 1 ⟨7, 1, [0]⟩, .scan 0 1 2 2, .forget 0]

theorem residentLaneScan_exact_back :
    ∃ d, Measured absKernel twoLanes.float32View 1 d (twoLanes.lane 0 0) ∧
      [⟨3, 1⟩, ⟨5, 2⟩] = nearestRows (twoLanes.idOf 0) d 2 (twoLanes.lane 0 0) := by
  have hallowed : ∀ op ∈ laneOps, Allowed (fun handle => handle = 0) op := by
    simp [laneOps, Allowed]
  have hscan : (residentLaneScan absKernel twoLanes ((LaneWorld.start (fun _ => none)).run absKernel
      twoLanes laneOps) 0 0 1 2).1 = .ok (some [⟨3, 1⟩, ⟨5, 2⟩]) := by decide
  exact residentLaneScan_exact selectsNth_absKernel distinct_twoLanes (fun _ _ => rfl) hallowed rfl
    0 1 2 hscan

theorem residentLaneScan_answers (hselect : SelectsNth kernel)
    (hdistinct : ∀ handle freshnessKey,
      ((source.lane handle freshnessKey).map (source.idOf handle)).Nodup)
    (hregistrable : Registrable kernel source own) {ops : List (LaneOp H Ref Q V)}
    (hkept : ∀ op ∈ ops, Kept own op) (hown : own handle) (hk : 0 < k)
    (hanswerable : Answerable kernel source handle freshnessKey query) :
    ∃ found, (residentLaneScan kernel source ((LaneWorld.start registry).run kernel source ops)
      handle freshnessKey query k).1 = .ok found := by
  have hstart : Resident source own (LaneWorld.start registry) :=
    fun _ _ _ hcached => nomatch hcached
  exact (hstart.run hregistrable hkept).scan_answers hselect (hdistinct handle freshnessKey)
    hregistrable hown hk hanswerable

theorem residentLaneScan_answers_kept :
    ∃ found, (residentLaneScan absKernel twoLanes ((LaneWorld.start (fun _ => none)).run absKernel
      twoLanes (laneOps.take 4)) 0 1 5 1).1 = .ok found := by
  have hkept : ∀ op ∈ laneOps.take 4, Kept (fun handle => handle = 0) op := by
    simp [laneOps, Kept]
  have hregistrable : Registrable absKernel twoLanes (fun handle => handle = 0) :=
    fun _ _ => ⟨Nat.one_ne_zero, fun _ _ _ _ _ => rfl⟩
  have hanswerable : Answerable absKernel twoLanes 0 1 5 :=
    ⟨rfl, rfl, _, rfl, fun _ _ _ _ => ⟨_, rfl⟩⟩
  exact residentLaneScan_answers selectsNth_absKernel distinct_twoLanes hregistrable hkept rfl
    Nat.one_pos hanswerable

end Runs

end Coherence

end Semantic

end Engine
