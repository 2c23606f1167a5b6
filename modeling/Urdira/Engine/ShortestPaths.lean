import Urdira.Engine.RelationExpansion

open Loop

namespace Engine

namespace Operators

section Trails

structure Hop where
  index : ℕ
  backward : Bool
  edge : RelationEdge
  deriving DecidableEq

structure Trail where
  start : String
  hops : List Hop

def Trail.subjects (p : Trail) : List String := p.start :: p.hops.map (fun h => h.edge.target)

def Trail.last (p : Trail) : String := p.subjects.getLastD ""

def Trail.snoc (p : Trail) (h : Hop) : Trail := ⟨p.start, p.hops ++ [h]⟩

def Chained : String → List Hop → Prop
  | _, [] => True
  | x, h :: hops => h.edge.source = x ∧ Chained h.edge.target hops

def Trail.path (p : Trail) : ShortestPath where
  subjects := p.subjects
  relationKinds := p.hops.map (fun h => h.edge.relationKind)
  classification :=
    if ∃ h ∈ p.hops, h.edge.classification = .possible then .possible
    else if ∃ h ∈ p.hops, h.edge.classification = .unclassified then .unclassified
    else .confirmed
  stableSortKey := String.intercalate "\x00" p.subjects

variable (edges : List RelationEdge) (direction : Direction) (relationKinds : List String)

def Hop.Valid (h : Hop) : Prop :=
  ∃ edge, edges[h.index]? = some edge ∧ Kept relationKinds edge ∧
    if h.backward then direction.backward = true ∧ h.edge = edge.flip
    else direction.forward = true ∧ h.edge = edge

variable (sources targets : List String) (maxDepth : ℕ)

structure Simple (p : Trail) : Prop where
  start : p.start ∈ sources
  valid : ∀ h ∈ p.hops, h.Valid edges direction relationKinds
  chained : Chained p.start p.hops
  nodup : p.subjects.Nodup

structure Reaching (p : Trail) : Prop where
  simple : Simple edges direction relationKinds sources p
  positive : 1 ≤ p.hops.length
  bounded : p.hops.length ≤ maxDepth
  target : p.last ∈ targets

def Shortest (p : Trail) : Prop :=
  Reaching edges direction relationKinds sources targets maxDepth p ∧
    ∀ q, Reaching edges direction relationKinds sources targets maxDepth q →
      p.hops.length ≤ q.hops.length

end Trails

section Hops

variable (edges : List RelationEdge) (direction : Direction) (relationKinds : List String)

def orientedHops (e : RelationEdge × ℕ) : List Hop :=
  if skipped relationKinds e.1 then []
  else
    (if direction.forward then [⟨e.2, false, e.1⟩] else []) ++
      if direction.backward && e.1.target != e.1.source then [⟨e.2, true, e.1.flip⟩] else []

def hops : List Hop := edges.zipIdx.flatMap (orientedHops direction relationKinds)

variable {edges direction relationKinds}

theorem map_edge_hops :
    (hops edges direction relationKinds).map Hop.edge = arcs edges direction relationKinds := by
  have hone : ∀ e : RelationEdge × ℕ, (orientedHops direction relationKinds e).map Hop.edge =
      oriented direction relationKinds e.1 := by
    intro e
    unfold orientedHops oriented
    split_ifs <;> rfl
  rw [hops, List.map_flatMap, arcs]
  simp only [hone]
  rw [← List.flatMap_map (fun e : RelationEdge × ℕ => e.1) (oriented direction relationKinds)]
  congr 1
  exact List.zipIdx_map_fst 0 edges

theorem mem_orientedHops {e : RelationEdge × ℕ} {h : Hop} :
    h ∈ orientedHops direction relationKinds e ↔
    Kept relationKinds e.1 ∧ (direction.forward = true ∧ h = ⟨e.2, false, e.1⟩ ∨
      direction.backward = true ∧ e.1.target ≠ e.1.source ∧ h = ⟨e.2, true, e.1.flip⟩) := by
  rw [kept_iff]
  unfold orientedHops
  split_ifs <;> simp_all

theorem mem_hops {h : Hop} : h ∈ hops edges direction relationKinds ↔
    h.Valid edges direction relationKinds ∧
      (h.backward = true → h.edge.source ≠ h.edge.target) := by
  rw [hops, List.mem_flatMap]
  constructor
  · rintro ⟨⟨edge, index⟩, hedge, hh⟩
    have hget : edges[index]? = some edge := List.mem_zipIdx_iff_getElem?.mp hedge
    obtain ⟨hkept, ⟨hdir, rfl⟩ | ⟨hdir, hloop, rfl⟩⟩ := mem_orientedHops.mp hh
    · exact ⟨⟨edge, hget, hkept, hdir, rfl⟩, fun hfalse => absurd hfalse Bool.false_ne_true⟩
    · exact ⟨⟨edge, hget, hkept, hdir, rfl⟩, fun _ => hloop⟩
  · rintro ⟨⟨edge, hget, hkept, hoption⟩, hloop⟩
    refine ⟨(edge, h.index), List.mem_zipIdx_iff_getElem?.mpr hget,
      mem_orientedHops.mpr ⟨hkept, ?_⟩⟩
    obtain ⟨index, backward, hopEdge⟩ := h
    cases backward with
    | false =>
      obtain ⟨hdir, rfl⟩ : direction.forward = true ∧ hopEdge = edge := hoption
      exact .inl ⟨hdir, rfl⟩
    | true =>
      obtain ⟨hdir, rfl⟩ : direction.backward = true ∧ hopEdge = edge.flip := hoption
      exact .inr ⟨hdir, hloop rfl, rfl⟩

theorem nodup_hops : (hops edges direction relationKinds).Nodup := by
  have hindices : (edges.zipIdx.map Prod.snd).Nodup := by
    rw [List.zipIdx_map_snd]
    exact List.nodup_range'
  refine List.nodup_flatMap.mpr ⟨fun e _ => ?_, ?_⟩
  · unfold orientedHops
    split_ifs <;> simp
  · refine (List.pairwise_map.mp hindices).imp (fun {e e'} hne h hh hh' => hne ?_)
    have hindex : ∀ {e : RelationEdge × ℕ}, h ∈ orientedHops direction relationKinds e →
        h.index = e.2 := by
      intro e hmem
      obtain ⟨-, ⟨-, rfl⟩ | ⟨-, -, rfl⟩⟩ := mem_orientedHops.mp hmem <;> rfl
    rw [← hindex hh, hindex hh']

end Hops

section Levels

variable (edges : List RelationEdge) (direction : Direction) (relationKinds sources : List String)

def extensions (p : Trail) : List Trail :=
  ((hops edges direction relationKinds).filter
    (fun h => decide (h.edge.source = p.last) && !p.subjects.contains h.edge.target)).map p.snoc

def level : ℕ → List Trail
  | 0 => sources.map (fun subject => ⟨subject, []⟩)
  | d + 1 => (level d).flatMap (extensions edges direction relationKinds)

variable {edges direction relationKinds sources}

theorem subjects_snoc (p : Trail) (h : Hop) :
    (p.snoc h).subjects = p.subjects ++ [h.edge.target] := by
  simp [Trail.subjects, Trail.snoc]

theorem length_subjects (p : Trail) : p.subjects.length = p.hops.length + 1 := by
  simp [Trail.subjects]

theorem chained_snoc {x : String} {hs : List Hop} {h : Hop} :
    Chained x (hs ++ [h]) ↔ Chained x hs ∧ h.edge.source = (⟨x, hs⟩ : Trail).last := by
  induction hs generalizing x with
  | nil => simp [Chained, Trail.last, Trail.subjects]
  | cons k hs ih =>
    have hlast : (⟨x, k :: hs⟩ : Trail).last = (⟨k.edge.target, hs⟩ : Trail).last := by
      simp [Trail.last, Trail.subjects]
    rw [List.cons_append, Chained, Chained, ih, hlast, and_assoc]

theorem simple_snoc {p : Trail} {h : Hop} :
    Simple edges direction relationKinds sources (p.snoc h) ↔
    Simple edges direction relationKinds sources p ∧ h.Valid edges direction relationKinds ∧
      h.edge.source = p.last ∧ h.edge.target ∉ p.subjects := by
  have hnodup : (p.snoc h).subjects.Nodup ↔ p.subjects.Nodup ∧ h.edge.target ∉ p.subjects := by
    rw [subjects_snoc, List.nodup_append]
    constructor
    · rintro ⟨hn, -, hdisjoint⟩
      exact ⟨hn, fun hmem => hdisjoint _ hmem _ (List.mem_singleton.mpr rfl) rfl⟩
    · rintro ⟨hn, hfresh⟩
      refine ⟨hn, List.nodup_singleton _, fun x hx y hy hxy => hfresh ?_⟩
      rwa [← List.mem_singleton.mp hy, ← hxy]
  constructor
  · rintro ⟨hstart, hvalid, hchained, hn⟩
    obtain ⟨hchain, hsource⟩ := chained_snoc.mp hchained
    obtain ⟨hn, hfresh⟩ := hnodup.mp hn
    have hall := List.forall_mem_append.mp hvalid
    exact ⟨⟨hstart, hall.1, hchain, hn⟩, hall.2 h (List.mem_singleton.mpr rfl), hsource, hfresh⟩
  · rintro ⟨⟨hstart, hvalid, hchained, hn⟩, hh, hsource, hfresh⟩
    exact ⟨hstart, List.forall_mem_append.mpr ⟨hvalid, List.forall_mem_singleton.mpr hh⟩,
      chained_snoc.mpr ⟨hchained, hsource⟩, hnodup.mpr ⟨hn, hfresh⟩⟩

theorem last_mem_subjects (p : Trail) : p.last ∈ p.subjects := by
  have hne : p.subjects ≠ [] := List.cons_ne_nil _ _
  rw [Trail.last, List.getLastD_eq_getLast?, List.getLast?_eq_some_getLast hne, Option.getD_some]
  exact List.getLast_mem hne

theorem mem_extensions {p q : Trail} (hp : Simple edges direction relationKinds sources p) :
    q ∈ extensions edges direction relationKinds p ↔
      ∃ h, q = p.snoc h ∧ Simple edges direction relationKinds sources q := by
  rw [extensions, List.mem_map]
  constructor
  · rintro ⟨h, hmem, rfl⟩
    obtain ⟨hhop, hcond⟩ := List.mem_filter.mp hmem
    obtain ⟨hsource, hfresh⟩ := Bool.and_eq_true_iff.mp hcond
    refine ⟨h, rfl, simple_snoc.mpr ⟨hp, (mem_hops.mp hhop).1, of_decide_eq_true hsource, ?_⟩⟩
    simpa using hfresh
  · rintro ⟨h, rfl, hq⟩
    obtain ⟨-, hvalid, hsource, hfresh⟩ := simple_snoc.mp hq
    refine ⟨h, List.mem_filter.mpr ⟨mem_hops.mpr ⟨hvalid, fun _ heq => ?_⟩, ?_⟩, rfl⟩
    · exact hfresh (heq ▸ hsource ▸ last_mem_subjects p)
    · simp [hsource, hfresh]

theorem mem_level {d : ℕ} {p : Trail} : p ∈ level edges direction relationKinds sources d ↔
    Simple edges direction relationKinds sources p ∧ p.hops.length = d := by
  induction d generalizing p with
  | zero =>
    rw [level, List.mem_map]
    constructor
    · rintro ⟨x, hx, rfl⟩
      exact ⟨⟨hx, List.forall_mem_nil _, trivial, List.nodup_singleton _⟩, rfl⟩
    · rintro ⟨hp, hlen⟩
      obtain ⟨start, hs⟩ := p
      obtain rfl := List.length_eq_zero_iff.mp hlen
      exact ⟨start, hp.start, rfl⟩
  | succ d ih =>
    rw [level, List.mem_flatMap]
    constructor
    · rintro ⟨q, hq, hp⟩
      obtain ⟨hsimple, hlen⟩ := ih.mp hq
      obtain ⟨h, rfl, hp⟩ := (mem_extensions hsimple).mp hp
      exact ⟨hp, by rw [Trail.snoc, List.length_append, hlen]; rfl⟩
    · rintro ⟨hp, hlen⟩
      obtain ⟨start, hs⟩ := p
      rcases List.eq_nil_or_concat hs with rfl | ⟨hs, h, rfl⟩
      · cases hlen
      · have hsnoc :
            Simple edges direction relationKinds sources ((⟨start, hs⟩ : Trail).snoc h) := by
          simpa [Trail.snoc] using hp
        have hq := (simple_snoc.mp hsnoc).1
        refine ⟨⟨start, hs⟩, ih.mpr ⟨hq, by simpa using hlen⟩,
          (mem_extensions hq).mpr ⟨h, by simp [Trail.snoc], hp⟩⟩

theorem nodup_level (hsources : sources.Nodup) (d : ℕ) :
    (level edges direction relationKinds sources d).Nodup := by
  induction d with
  | zero =>
    refine hsources.map (fun x y h => ?_)
    exact congrArg Trail.start h
  | succ d ih =>
    refine List.nodup_flatMap.mpr ⟨fun p _ => ?_, ih.imp (fun {p q} hne r hr hr' => hne ?_)⟩
    · refine (nodup_hops.filter _).map (fun h k heq => ?_)
      exact List.append_cancel_left (congrArg Trail.hops heq) |> List.singleton_inj.mp
    · obtain ⟨h, -, rfl⟩ := List.mem_map.mp hr
      obtain ⟨k, -, heq⟩ := List.mem_map.mp hr'
      obtain ⟨hstart, hhops⟩ := Trail.mk.inj heq
      have hinit := (List.append_inj' hhops rfl).1
      cases p
      cases q
      simp_all

end Levels

section Run

variable {edges : List RelationEdge} {direction : Direction} {relationKinds sources : List String}
variable {targetSet : List String} {maxDepth : ℕ} {allShortest : Bool}

def Finishes (bySubject : List (String × List RelationEdge)) (targetSet : List String)
    (maxDepth : ℕ)
    (allShortest : Bool) (pending : List PartialPath) (results : List ShortestPath)
    (shortest : Option ℕ)
    (final : List ShortestPath) : Prop :=
  ∀ s : Search, s.queue.drop s.queueIndex = pending → s.results = results → s.shortest = shortest →
    s.stopped = false →
    ∃ r, Ends (Search.step bySubject targetSet maxDepth allShortest) s r ∧ r.results = final

def PartialPath.depth (current : PartialPath) : ℕ := current.subjects.length - 1

def PartialPath.subject (current : PartialPath) : String := current.subjects.getLastD ""

section Steps

variable {bySubject : List (String × List RelationEdge)} {current : PartialPath}
  {rest : List PartialPath}
variable {results final : List ShortestPath} {shortest : Option ℕ}

theorem get_of_drop {s : Search} (h : s.queue.drop s.queueIndex = current :: rest) :
    s.queue[s.queueIndex]? = some current ∧ s.queueIndex < s.queue.length ∧
      s.queue.drop (s.queueIndex + 1) = rest := by
  have hget : s.queue[s.queueIndex]? = some current := by
    rw [← List.head?_drop, h]
    rfl
  refine ⟨hget, (List.getElem?_eq_some_iff.mp hget).1, ?_⟩
  rw [← List.drop_drop, h]
  rfl

theorem finishes_nil (results : List ShortestPath) (shortest : Option ℕ) :
    Finishes bySubject targetSet maxDepth allShortest [] results shortest results := by
  intro s hpending hresults _ hstopped
  have hnone : s.queue[s.queueIndex]? = none := by
    rw [← List.head?_drop, hpending]
    rfl
  exact ⟨s, .done (by simp [Search.step, hstopped, hnone]), hresults⟩

theorem finishes_skip {m : ℕ} (hm : m < current.depth)
    (h : Finishes bySubject targetSet maxDepth allShortest rest results (some m) final) :
    Finishes bySubject targetSet maxDepth allShortest (current :: rest) results (some m) final := by
  intro s hpending hresults hshortest hstopped
  obtain ⟨hget, -, hdrop⟩ := get_of_drop hpending
  obtain ⟨r, hends, hfinal⟩ :=
    h { s with queueIndex := s.queueIndex + 1 } hdrop hresults hshortest hstopped
  refine ⟨r, hends.next ?_, hfinal⟩
  have hdeep : (some m).any (· < current.subjects.length - 1) = true := decide_eq_true hm
  rw [Search.step, hstopped, hget]
  dsimp only
  rw [hshortest, if_pos hdeep]
  rfl

def Open (shortest : Option ℕ) (depth : ℕ) : Prop := shortest = none ∨ shortest = some depth

theorem Open.not_any {depth : ℕ} (h : Open shortest depth) : shortest.any (· < depth) = false := by
  rcases h with rfl | rfl
  · rfl
  · exact decide_eq_false (lt_irrefl depth)

theorem finishes_hit (hopen : Open shortest current.depth) (hpos : 0 < current.depth)
    (htarget : current.subject ∈ targetSet)
    (h : allShortest = true →
      Finishes bySubject targetSet maxDepth allShortest rest (results ++ [current.finished])
        (some current.depth) final)
    (hstop : allShortest = false → final = results ++ [current.finished]) :
    Finishes bySubject targetSet maxDepth allShortest (current :: rest) results shortest final := by
  intro s hpending hresults hshortest hstopped
  obtain ⟨hget, -, hdrop⟩ := get_of_drop hpending
  have hstep : Search.step bySubject targetSet maxDepth allShortest s =
      some { s with
        queueIndex := s.queueIndex + 1
        shortest := some current.depth
        results := s.results ++ [current.finished]
        stopped := !allShortest } := by
    rw [Search.step, hstopped, hget]
    dsimp only
    rw [hshortest]
    have hany : shortest.any (· < current.subjects.length - 1) = false := hopen.not_any
    have hcond : 0 < current.subjects.length - 1 ∧ current.subjects.getLastD "" ∈ targetSet :=
      ⟨hpos, htarget⟩
    rw [if_neg Bool.false_ne_true, hany, if_neg Bool.false_ne_true, if_pos hcond]
    rfl
  cases allShortest with
  | true =>
    obtain ⟨r, hends, hfinal⟩ := h rfl { s with
      queueIndex := s.queueIndex + 1
      shortest := some current.depth
      results := s.results ++ [current.finished] } hdrop (by rw [hresults]) rfl hstopped
    refine ⟨r, hends.next (hstep.trans ?_), hfinal⟩
    rw [hstopped]
    rfl
  | false =>
    refine ⟨_, .next hstep (.done ?_), ?_⟩
    · rw [Search.step]
      exact if_pos rfl
    · dsimp only
      rw [hresults, hstop rfl]

theorem finishes_miss (hopen : Open shortest current.depth)
    (hmiss : ¬ (0 < current.depth ∧ current.subject ∈ targetSet))
    (h : Finishes bySubject targetSet maxDepth allShortest
      (rest ++ if maxDepth ≤ current.depth then []
        else current.extensions bySubject current.subject)
      results shortest final) :
    Finishes bySubject targetSet maxDepth allShortest (current :: rest) results shortest final := by
  intro s hpending hresults hshortest hstopped
  obtain ⟨hget, hlt, hdrop⟩ := get_of_drop hpending
  have hany : shortest.any (· < current.subjects.length - 1) = false := hopen.not_any
  have hcond : ¬ (0 < current.subjects.length - 1 ∧ current.subjects.getLastD "" ∈ targetSet) :=
    hmiss
  by_cases hdeep : maxDepth ≤ current.depth
  · rw [if_pos hdeep, List.append_nil] at h
    obtain ⟨r, hends, hfinal⟩ :=
      h { s with queueIndex := s.queueIndex + 1 } hdrop hresults hshortest hstopped
    refine ⟨r, hends.next ?_, hfinal⟩
    have hdeep : maxDepth ≤ current.subjects.length - 1 := hdeep
    rw [Search.step, hstopped, hget]
    dsimp only
    rw [hshortest, if_neg Bool.false_ne_true, hany, if_neg Bool.false_ne_true, if_neg hcond,
      if_pos hdeep]
  · rw [if_neg hdeep] at h
    have hdrop' : (s.queue ++ current.extensions bySubject current.subject).drop
        (s.queueIndex + 1) =
        rest ++ current.extensions bySubject current.subject := by
      rw [List.drop_append_of_le_length (by omega), hdrop]
    obtain ⟨r, hends, hfinal⟩ := h { s with
      queueIndex := s.queueIndex + 1
      queue := s.queue ++ current.extensions bySubject current.subject } hdrop' hresults
        hshortest hstopped
    refine ⟨r, hends.next ?_, hfinal⟩
    have hdeep : ¬ maxDepth ≤ current.subjects.length - 1 := hdeep
    rw [Search.step, hstopped, hget]
    dsimp only
    rw [hshortest, if_neg Bool.false_ne_true, hany, if_neg Bool.false_ne_true, if_neg hcond,
      if_neg hdeep]
    rfl

end Steps

section Levels

def Trail.partialPath (p : Trail) : PartialPath :=
  ⟨p.subjects, p.hops.map (fun h => h.edge.relationKind),
    p.hops.map (fun h => h.edge.classification)⟩

theorem depth_partialPath (p : Trail) : p.partialPath.depth = p.hops.length := by
  rw [PartialPath.depth, Trail.partialPath, length_subjects, Nat.add_sub_cancel]

theorem finished_partialPath (p : Trail) : p.partialPath.finished = p.path := by
  have hmem : ∀ c, c ∈ p.hops.map (fun h => h.edge.classification) ↔ ∃ h ∈ p.hops,
      h.edge.classification = c :=
    fun c => List.mem_map
  simp only [PartialPath.finished, Trail.partialPath, Trail.path, classificationOf, hmem]

theorem extensions_partialPath (p : Trail) :
    p.partialPath.extensions (adjacency edges direction relationKinds) p.partialPath.subject =
      (extensions edges direction relationKinds p).map Trail.partialPath := by
  have hextend : ∀ h : Hop, p.partialPath.extend h.edge = (p.snoc h).partialPath := by
    intro h
    simp [PartialPath.extend, Trail.partialPath, Trail.snoc, Trail.subjects]
  rw [PartialPath.extensions, get_adjacency, ← map_edge_hops, List.filter_map, List.filter_map,
    List.map_map,
    extensions, List.map_map, List.filter_filter]
  refine congrArg₂ List.map (funext hextend) (List.filter_congr (fun h _ => ?_))
  rw [Bool.and_comm]
  rfl

def hit (targetSet : List String) (p : Trail) : Bool :=
  decide (0 < p.hops.length ∧ p.last ∈ targetSet)

abbrev SearchFinishes (edges : List RelationEdge) (direction : Direction)
    (relationKinds targetSet : List String)
    (maxDepth : ℕ) (allShortest : Bool) :=
  Finishes (adjacency edges direction relationKinds) targetSet maxDepth allShortest

def children (edges : List RelationEdge) (direction : Direction) (relationKinds : List String)
    (maxDepth d : ℕ)
    (ps : List Trail) : List PartialPath :=
  if maxDepth ≤ d then [] else (ps.flatMap (extensions edges direction relationKinds)).map
    Trail.partialPath

theorem depth_children {d : ℕ} {ps : List Trail} (hps : ∀ p ∈ ps, p.hops.length = d) :
    ∀ current ∈ children edges direction relationKinds maxDepth d ps, current.depth = d + 1 := by
  intro current hmem
  unfold children at hmem
  split at hmem
  · cases hmem
  · obtain ⟨q, hq, rfl⟩ := List.mem_map.mp hmem
    obtain ⟨p, hp, hq⟩ := List.mem_flatMap.mp hq
    obtain ⟨h, -, rfl⟩ := List.mem_map.mp hq
    rw [depth_partialPath, Trail.snoc, List.length_append, hps p hp]
    rfl

theorem children_cons {d : ℕ} (p : Trail) (ps : List Trail) :
    children edges direction relationKinds maxDepth d (p :: ps) =
      children edges direction relationKinds maxDepth d [p] ++
        children edges direction relationKinds maxDepth d ps := by
  unfold children
  split
  · rfl
  · simp

variable {d : ℕ} {results final : List ShortestPath} {shortest : Option ℕ} {next : List PartialPath}

theorem finishes_trail_miss {p : Trail} (hopen : Open shortest d) (hdepth : p.hops.length = d)
    (hmiss : hit targetSet p = false)
    (h : SearchFinishes edges direction relationKinds targetSet maxDepth allShortest
      (next ++ children edges direction relationKinds maxDepth d [p]) results shortest final) :
    SearchFinishes edges direction relationKinds targetSet maxDepth allShortest
    (p.partialPath :: next)
      results shortest final := by
  have hd : p.partialPath.depth = d := (depth_partialPath p).trans hdepth
  refine finishes_miss (hd.symm ▸ hopen) (fun hhit => ?_) ?_
  · rw [depth_partialPath] at hhit
    exact of_decide_eq_false hmiss hhit
  · rw [hd, extensions_partialPath]
    rwa [children, List.flatMap_singleton] at h

theorem finishes_misses {ps : List Trail} (hopen : Open shortest d)
    (hps : ∀ p ∈ ps, p.hops.length = d)
    (hmiss : ∀ p ∈ ps, hit targetSet p = false)
    (h : SearchFinishes edges direction relationKinds targetSet maxDepth allShortest
      (next ++ children edges direction relationKinds maxDepth d ps) results shortest final) :
    SearchFinishes edges direction relationKinds targetSet maxDepth allShortest
      (ps.map Trail.partialPath ++ next) results shortest final := by
  induction ps generalizing next with
  | nil =>
    have hnil : children edges direction relationKinds maxDepth d [] = [] := by
      unfold children
      split <;> rfl
    rwa [hnil, List.append_nil] at h
  | cons p ps ih =>
    obtain ⟨hp, hps⟩ := List.forall_mem_cons.mp hps
    obtain ⟨hpmiss, hmiss⟩ := List.forall_mem_cons.mp hmiss
    rw [children_cons, ← List.append_assoc] at h
    have hrest := ih hps hmiss h
    rw [← List.append_assoc] at hrest
    exact finishes_trail_miss hopen hp hpmiss hrest

theorem finishes_deeper {pending : List PartialPath}
    (hdeep : ∀ current ∈ pending, d < current.depth) :
    SearchFinishes edges direction relationKinds targetSet maxDepth allShortest pending results
      (some d) results := by
  induction pending with
  | nil => exact finishes_nil results (some d)
  | cons current pending ih =>
    obtain ⟨hcurrent, hrest⟩ := List.forall_mem_cons.mp hdeep
    exact finishes_skip hcurrent (ih hrest)

theorem finishes_all {ps : List Trail} (hopen : Open shortest d) (hps : ∀ p ∈ ps, p.hops.length = d)
    (hnext : ∀ current ∈ next, d < current.depth)
    (hfound : shortest = some d ∨ ∃ p ∈ ps, hit targetSet p = true) :
    SearchFinishes edges direction relationKinds targetSet maxDepth true
      (ps.map Trail.partialPath ++ next)
      results shortest (results ++ (ps.filter (hit targetSet)).map Trail.path) := by
  induction ps generalizing next results shortest with
  | nil =>
    obtain rfl := hfound.resolve_right (fun ⟨_, hp, _⟩ => absurd hp List.not_mem_nil)
    have hend : SearchFinishes edges direction relationKinds targetSet maxDepth true next results
        (some d) results :=
      finishes_deeper hnext
    simpa using hend
  | cons p ps ih =>
    obtain ⟨hp, hrest⟩ := List.forall_mem_cons.mp hps
    have hd : p.partialPath.depth = d := (depth_partialPath p).trans hp
    cases hhit : hit targetSet p with
    | true =>
      obtain ⟨hpos, htarget⟩ := of_decide_eq_true hhit
      have hresults : results ++ ((p :: ps).filter (hit targetSet)).map Trail.path =
          results ++ [p.path] ++ (ps.filter (hit targetSet)).map Trail.path := by
        rw [List.filter_cons_of_pos hhit, List.map_cons, List.append_assoc, List.singleton_append]
      rw [hresults]
      refine finishes_hit (hd.symm ▸ hopen) ((depth_partialPath p).symm ▸ hpos) htarget
        (fun _ => ?_)
        (fun hfalse => absurd hfalse (by decide))
      rw [hd, finished_partialPath]
      exact ih (.inr rfl) hrest hnext (.inl rfl)
    | false =>
      rw [List.filter_cons_of_neg (by rw [hhit]; exact Bool.false_ne_true)]
      have hnext' : ∀ current ∈ next ++ children edges direction relationKinds maxDepth d [p],
          d < current.depth := by
        intro current hcurrent
        rcases List.mem_append.mp hcurrent with hcurrent | hcurrent
        · exact hnext current hcurrent
        · have hchild := depth_children (List.forall_mem_singleton.mpr hp) current hcurrent
          omega
      have hfound' : shortest = some d ∨ ∃ q ∈ ps, hit targetSet q = true := by
        refine hfound.imp id ?_
        rintro ⟨q, hq, hqhit⟩
        rcases List.mem_cons.mp hq with rfl | hq
        · rw [hhit] at hqhit
          cases hqhit
        · exact ⟨q, hq, hqhit⟩
      have hcall : SearchFinishes edges direction relationKinds targetSet maxDepth true
          (ps.map Trail.partialPath ++ (next ++ children edges direction relationKinds maxDepth d
            [p])) results shortest
          (results ++ (ps.filter (hit targetSet)).map Trail.path) := ih hopen hrest hnext' hfound'
      rw [← List.append_assoc] at hcall
      exact finishes_trail_miss hopen hp hhit hcall

theorem finishes_one {ps : List Trail} (hopen : Open shortest d) (hps : ∀ p ∈ ps, p.hops.length = d)
    (hfound : ∃ p ∈ ps, hit targetSet p = true) :
    ∃ p ∈ ps, hit targetSet p = true ∧
      SearchFinishes edges direction relationKinds targetSet maxDepth false
        (ps.map Trail.partialPath ++ next)
        results shortest (results ++ [p.path]) := by
  induction ps generalizing next with
  | nil =>
    obtain ⟨_, hp, _⟩ := hfound
    cases hp
  | cons p ps ih =>
    obtain ⟨hp, hrest⟩ := List.forall_mem_cons.mp hps
    have hd : p.partialPath.depth = d := (depth_partialPath p).trans hp
    cases hhit : hit targetSet p with
    | true =>
      obtain ⟨hpos, htarget⟩ := of_decide_eq_true hhit
      refine ⟨p, List.mem_cons_self, hhit,
        finishes_hit (hd.symm ▸ hopen) ((depth_partialPath p).symm ▸ hpos) htarget
        (fun htrue => absurd htrue (by decide)) (fun _ => ?_)⟩
      rw [finished_partialPath]
    | false =>
      have hlater : ∃ q ∈ ps, hit targetSet q = true := by
        obtain ⟨q, hq, hqhit⟩ := hfound
        rcases List.mem_cons.mp hq with rfl | hq
        · rw [hhit] at hqhit
          cases hqhit
        · exact ⟨q, hq, hqhit⟩
      have hcall : ∃ q ∈ ps, hit targetSet q = true ∧
          SearchFinishes edges direction relationKinds targetSet maxDepth false
            (ps.map Trail.partialPath ++ (next ++ children edges direction relationKinds
              maxDepth d [p]))
            results shortest (results ++ [q.path]) := ih hrest hlater
      obtain ⟨q, hq, hqhit, hfinish⟩ := hcall
      rw [← List.append_assoc] at hfinish
      exact ⟨q, List.mem_cons_of_mem p hq, hqhit, finishes_trail_miss hopen hp hhit hfinish⟩

end Levels

def Answers (edges : List RelationEdge) (direction : Direction)
    (relationKinds sources targets : List String)
    (maxDepth : ℕ) (allShortest : Bool) (results : List ShortestPath) : Prop :=
  ∃ ps : List Trail, ps.Nodup ∧
    (∀ p, p ∈ ps ↔ Shortest edges direction relationKinds sources targets maxDepth p) ∧
    if allShortest then results.Perm (ps.map Trail.path)
    else ps = [] ∧ results = [] ∨ ∃ p ∈ ps, results = [p.path]

section Answers

variable {d : ℕ}

def Clear (edges : List RelationEdge) (direction : Direction)
    (relationKinds sources targetSet : List String)
    (d : ℕ) : Prop :=
  ∀ p, Simple edges direction relationKinds sources p → hit targetSet p = true → d ≤ p.hops.length

theorem reaching_iff {p : Trail} :
    Reaching edges direction relationKinds sources targetSet maxDepth p ↔
    Simple edges direction relationKinds sources p ∧ hit targetSet p = true ∧
      p.hops.length ≤ maxDepth := by
  rw [hit, decide_eq_true_eq]
  constructor
  · rintro ⟨hsimple, hpos, hle, htarget⟩
    exact ⟨hsimple, ⟨hpos, htarget⟩, hle⟩
  · rintro ⟨hsimple, ⟨hpos, htarget⟩, hle⟩
    exact ⟨hsimple, hpos, hle, htarget⟩

theorem Clear.succ (h : Clear edges direction relationKinds sources targetSet d)
    (hmiss : ∀ p ∈ level edges direction relationKinds sources d, hit targetSet p = false) :
    Clear edges direction relationKinds sources targetSet (d + 1) := by
  intro p hsimple hhit
  refine Nat.lt_of_le_of_ne (h p hsimple hhit) (fun heq => ?_)
  have hfalse := hmiss p (mem_level.mpr ⟨hsimple, heq.symm⟩)
  rw [hhit] at hfalse
  cases hfalse

theorem Clear.mem_filter_iff (h : Clear edges direction relationKinds sources targetSet d)
    (hle : d ≤ maxDepth)
    (hfound : ∃ p ∈ level edges direction relationKinds sources d, hit targetSet p = true)
    (p : Trail) :
    p ∈ (level edges direction relationKinds sources d).filter (hit targetSet) ↔
      Shortest edges direction relationKinds sources targetSet maxDepth p := by
  rw [List.mem_filter, mem_level]
  constructor
  · rintro ⟨⟨hsimple, hlen⟩, hhit⟩
    refine ⟨reaching_iff.mpr ⟨hsimple, hhit, by omega⟩, fun q hq => ?_⟩
    obtain ⟨hqsimple, hqhit, -⟩ := reaching_iff.mp hq
    have hq := h q hqsimple hqhit
    omega
  · rintro ⟨hp, hmin⟩
    obtain ⟨hsimple, hhit, -⟩ := reaching_iff.mp hp
    obtain ⟨q, hq, hqhit⟩ := hfound
    obtain ⟨hqsimple, hqlen⟩ := mem_level.mp hq
    have hle := hmin q (reaching_iff.mpr ⟨hqsimple, hqhit, by omega⟩)
    have hge := h p hsimple hhit
    exact ⟨⟨hsimple, by omega⟩, hhit⟩

theorem Clear.answers_found (h : Clear edges direction relationKinds sources targetSet d)
    (hle : d ≤ maxDepth)
    (hsources : sources.Nodup)
    (hfound : ∃ p ∈ level edges direction relationKinds sources d, hit targetSet p = true) :
    ∃ final, SearchFinishes edges direction relationKinds targetSet maxDepth allShortest
        ((level edges direction relationKinds sources d).map Trail.partialPath) [] none final ∧
      Answers edges direction relationKinds sources targetSet maxDepth allShortest final := by
  have hlen : ∀ p ∈ level edges direction relationKinds sources d, p.hops.length = d :=
    fun p hp => (mem_level.mp hp).2
  have hnodup : ((level edges direction relationKinds sources d).filter (hit targetSet)).Nodup :=
    (nodup_level hsources d).filter _
  cases allShortest with
  | true =>
    have hfinish : SearchFinishes edges direction relationKinds targetSet maxDepth true
        ((level edges direction relationKinds sources d).map Trail.partialPath ++ []) [] none _ :=
      finishes_all (.inl rfl) hlen (List.forall_mem_nil _) (.inr hfound)
    rw [List.append_nil] at hfinish
    exact ⟨_, hfinish, _, hnodup, h.mem_filter_iff hle hfound, List.Perm.refl _⟩
  | false =>
    have hone : ∃ p ∈ level edges direction relationKinds sources d, hit targetSet p = true ∧
        SearchFinishes edges direction relationKinds targetSet maxDepth false
          ((level edges direction relationKinds sources d).map Trail.partialPath ++ []) [] none
            ([] ++ [p.path]) :=
      finishes_one (.inl rfl) hlen hfound
    obtain ⟨p, hp, hhit, hfinish⟩ := hone
    rw [List.append_nil] at hfinish
    exact ⟨_, hfinish, _, hnodup, h.mem_filter_iff hle hfound,
      .inr ⟨p, List.mem_filter.mpr ⟨hp, hhit⟩, rfl⟩⟩

theorem Clear.answers_none
    (h : Clear edges direction relationKinds sources targetSet (maxDepth + 1)) :
    Answers edges direction relationKinds sources targetSet maxDepth allShortest [] := by
  refine ⟨[], List.nodup_nil, fun p => ?_, ?_⟩
  · refine ⟨fun hmem => absurd hmem List.not_mem_nil, fun hp => ?_⟩
    obtain ⟨hsimple, hhit, hle⟩ := reaching_iff.mp hp.1
    have hlt := h p hsimple hhit
    omega
  · split
    · exact List.Perm.nil
    · exact .inl ⟨rfl, rfl⟩

theorem Clear.finishes (hsources : sources.Nodup) {k : ℕ} (hk : d + k = maxDepth)
    (h : Clear edges direction relationKinds sources targetSet d) :
    ∃ final, SearchFinishes edges direction relationKinds targetSet maxDepth allShortest
        ((level edges direction relationKinds sources d).map Trail.partialPath) [] none final ∧
      Answers edges direction relationKinds sources targetSet maxDepth allShortest final := by
  induction k generalizing d with
  | zero =>
    by_cases hfound : ∃ p ∈ level edges direction relationKinds sources d, hit targetSet p = true
    · exact h.answers_found (by omega) hsources hfound
    · have hmiss : ∀ p ∈ level edges direction relationKinds sources d, hit targetSet p = false :=
        fun p hp => Bool.eq_false_iff.mpr (fun hhit => hfound ⟨p, hp, hhit⟩)
      have hclear := h.succ hmiss
      obtain rfl : d = maxDepth := hk
      refine ⟨[], ?_, hclear.answers_none⟩
      have hend : SearchFinishes edges direction relationKinds targetSet d allShortest
          ([] ++ children edges direction relationKinds d d
            (level edges direction relationKinds sources d)) [] none [] := by
        rw [children, if_pos le_rfl]
        exact finishes_nil [] none
      have hfinish := finishes_misses (.inl rfl) (fun p hp => (mem_level.mp hp).2) hmiss hend
      rwa [List.append_nil] at hfinish
  | succ k ih =>
    by_cases hfound : ∃ p ∈ level edges direction relationKinds sources d, hit targetSet p = true
    · exact h.answers_found (by omega) hsources hfound
    · have hmiss : ∀ p ∈ level edges direction relationKinds sources d, hit targetSet p = false :=
        fun p hp => Bool.eq_false_iff.mpr (fun hhit => hfound ⟨p, hp, hhit⟩)
      obtain ⟨final, hend, hanswers⟩ := ih (d := d + 1) (by omega) (h.succ hmiss)
      refine ⟨final, ?_, hanswers⟩
      have hchildren : [] ++ children edges direction relationKinds maxDepth d
          (level edges direction relationKinds sources d) =
          (level edges direction relationKinds sources (d + 1)).map Trail.partialPath := by
        rw [children, if_neg (by omega), level]
        rfl
      have hfinish :=
        finishes_misses (.inl rfl) (fun p hp => (mem_level.mp hp).2) hmiss (hchildren ▸ hend)
      rwa [List.append_nil] at hfinish

theorem Answers.sorted {le : ShortestPath → ShortestPath → Bool} {results : List ShortestPath}
    (h : Answers edges direction relationKinds sources targetSet maxDepth allShortest results) :
    Answers edges direction relationKinds sources targetSet maxDepth allShortest
      (results.mergeSort le) := by
  obtain ⟨ps, hnodup, hmem, hresults⟩ := h
  refine ⟨ps, hnodup, hmem, ?_⟩
  split at hresults
  · rename_i hall
    rw [if_pos hall]
    exact (List.mergeSort_perm results le).trans hresults
  · rename_i hall
    rw [if_neg hall]
    refine hresults.imp (And.imp_right ?_) (Exists.imp (fun p => And.imp_right ?_))
    · rintro rfl
      exact List.mergeSort_nil
    · rintro rfl
      exact List.mergeSort_singleton _

end Answers

end Run

theorem findShortestPaths_minimal (localeCompare : String → String → Ordering)
    (edges : List RelationEdge)
    {sources : List String} (targets : List String) (options : ShortestPathOptions) {maxDepth : ℕ}
    (hsources : sources.Nodup) (hmax : options.maxDepth = maxDepth)
    (hsafe : maxDepth ≤ 9007199254740991) :
    ∃ results, (∃ n, ∀ fuel, n ≤ fuel →
        findShortestPaths localeCompare fuel edges sources targets options = some (.ok results)) ∧
      Answers edges options.direction (options.relationKinds.getD []) sources targets maxDepth
        (options.allShortest.getD false) results := by
  have hclear : Clear edges options.direction (options.relationKinds.getD []) sources targets 0 :=
    fun p _ _ => Nat.zero_le _
  have hfinishes : ∃ final, SearchFinishes edges options.direction (options.relationKinds.getD [])
      targets maxDepth
      (options.allShortest.getD false)
      ((level edges options.direction (options.relationKinds.getD []) sources 0).map
        Trail.partialPath) [] none final ∧
      Answers edges options.direction (options.relationKinds.getD []) sources targets maxDepth
        (options.allShortest.getD false) final := hclear.finishes hsources (Nat.zero_add maxDepth)
  obtain ⟨final, hfinish, hanswers⟩ := hfinishes
  have hstart : (Search.start sources).queue.drop 0 =
      (level edges options.direction (options.relationKinds.getD []) sources 0).map
        Trail.partialPath := by
    rw [level, List.map_map]
    rfl
  obtain ⟨r, ⟨n, hrun⟩, rfl⟩ := hfinish (Search.start sources) hstart rfl rfl rfl
  refine ⟨r.results.mergeSort (fun left right =>
    localeCompare left.stableSortKey right.stableSortKey != .gt),
    ⟨n, fun fuel hfuel => ?_⟩, hanswers.sorted⟩
  have hvalid : (!isSafeInteger (maxDepth : ℤ) || decide ((maxDepth : ℤ) < 0)) = false := by
    simp [isSafeInteger]
    omega
  rw [findShortestPaths, hmax]
  dsimp only
  rw [hvalid, if_neg Bool.false_ne_true, Int.toNat_natCast, hrun fuel hfuel]
  rfl

theorem findShortestPaths_minimal_parallel :
    ∃ results, (∃ n, ∀ fuel, n ≤ fuel → findShortestPaths (fun _ _ => .eq) fuel
        [⟨"a", "b", "calls", .confirmed, none⟩, ⟨"a", "b", "calls", .possible, none⟩]
          ["a"] ["b", "a"]
        ⟨.outbound, 3, some true, none⟩ = some (.ok results)) ∧
      Answers [⟨"a", "b", "calls", .confirmed, none⟩, ⟨"a", "b", "calls", .possible, none⟩]
        .outbound [] ["a"]
        ["b", "a"] 3 true results :=
  findShortestPaths_minimal (fun _ _ => .eq) _ ["b", "a"] ⟨.outbound, 3, some true, none⟩
    (List.nodup_singleton "a") rfl (by decide)

end Operators

end Engine
