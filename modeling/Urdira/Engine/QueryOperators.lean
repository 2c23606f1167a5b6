import Urdira.Lib.Loop
import Urdira.Lib.MultiMap

namespace Engine

namespace Operators

inductive Classification where
  | confirmed
  | possible
  | unclassified
  deriving DecidableEq

structure RelationEdge where
  source : String
  target : String
  relationKind : String
  classification : Classification
  stableSortKey : Option String
  deriving DecidableEq

inductive Direction where
  | inbound
  | outbound
  | both
  deriving DecidableEq

def Direction.forward : Direction → Bool
  | inbound => false
  | outbound => true
  | both => true

def Direction.backward : Direction → Bool
  | inbound => true
  | outbound => false
  | both => true

def RelationEdge.flip (edge : RelationEdge) : RelationEdge :=
  { edge with source := edge.target, target := edge.source }

def skipped (relationKinds : List String) (edge : RelationEdge) : Bool :=
  !relationKinds.isEmpty && !relationKinds.contains edge.relationKind

def addEdge (direction : Direction) (relationKinds : List String)
    (bySubject : List (String × List RelationEdge)) (edge : RelationEdge) :
    List (String × List RelationEdge) :=
  if skipped relationKinds edge then bySubject
  else
    let bySubject :=
      if direction.forward then MultiMap.push bySubject edge.source edge else bySubject
    if direction.backward && edge.target != edge.source then
      MultiMap.push bySubject edge.target edge.flip
    else bySubject

def adjacency (edges : List RelationEdge) (direction : Direction) (relationKinds : List String) :
    List (String × List RelationEdge) :=
  edges.foldl (addEdge direction relationKinds) []

def isSafeInteger (n : ℤ) : Bool := decide (n.natAbs ≤ 9007199254740991)

section ExpandRelations

structure ExpandedRelation where
  subject : String
  depth : ℕ
  relationKind : String
  classification : Classification
  stableSortKey : String
  deriving DecidableEq

structure RelationExpansionOptions where
  direction : Direction
  minDepth : Option ℤ
  maxDepth : Option ℤ
  relationKinds : Option (List String)

structure Expansion where
  queue : List (String × ℕ)
  queueIndex : ℕ
  seen : List String
  result : List ExpandedRelation

def Expansion.start (roots : List String) : Expansion :=
  ⟨roots.map (fun subject => (subject, 0)), 0, roots, []⟩

def sortKey (depth : ℕ) (edge : RelationEdge) : String :=
  edge.stableSortKey.getD (toString depth ++ "\x00" ++ edge.target ++ "\x00" ++ edge.relationKind)

def Expansion.follow (minDepth depth : ℕ) (s : Expansion) (edge : RelationEdge) : Expansion :=
  if edge.target ∈ s.seen then s
  else
    { s with
      seen := edge.target :: s.seen
      queue := s.queue ++ [(edge.target, depth)]
      result :=
        if minDepth ≤ depth then
          s.result ++ [⟨edge.target, depth, edge.relationKind, edge.classification,
            sortKey depth edge⟩]
        else s.result }

def Expansion.step (bySubject : List (String × List RelationEdge)) (minDepth maxDepth : ℕ)
    (s : Expansion) :
    Option Expansion :=
  match s.queue[s.queueIndex]? with
  | none => none
  | some (subject, depth) =>
    let s := { s with queueIndex := s.queueIndex + 1 }
    if maxDepth ≤ depth then some s
    else some ((MultiMap.get bySubject subject).foldl (Expansion.follow minDepth (depth + 1)) s)

def expandRelations (fuel : ℕ) (edges : List RelationEdge) (roots : List String)
    (options : RelationExpansionOptions) : Option (Except String (List ExpandedRelation)) :=
  let minDepth := options.minDepth.getD 1
  let maxDepth := options.maxDepth.getD minDepth
  if !isSafeInteger minDepth || decide (minDepth < 0) || !isSafeInteger maxDepth ||
    decide (maxDepth < minDepth) then
    some (.error "core:budget_invalid: Relation depth bounds are invalid.")
  else
    let bySubject := adjacency edges options.direction (options.relationKinds.getD [])
    (Loop.run (Expansion.step bySubject minDepth.toNat maxDepth.toNat) fuel (.start roots)).map
      (fun s => .ok s.result)

end ExpandRelations

section FindShortestPaths

structure ShortestPath where
  subjects : List String
  relationKinds : List String
  classification : Classification
  stableSortKey : String
  deriving DecidableEq

structure ShortestPathOptions where
  direction : Direction
  maxDepth : ℤ
  allShortest : Option Bool
  relationKinds : Option (List String)

structure PartialPath where
  subjects : List String
  relations : List String
  classifications : List Classification

structure Search where
  queue : List PartialPath
  queueIndex : ℕ
  results : List ShortestPath
  shortest : Option ℕ
  stopped : Bool

def Search.start (sources : List String) : Search :=
  ⟨sources.map (fun subject => ⟨[subject], [], []⟩), 0, [], none, false⟩

def classificationOf (classifications : List Classification) : Classification :=
  if .possible ∈ classifications then .possible
  else if .unclassified ∈ classifications then .unclassified
  else .confirmed

def PartialPath.finished (current : PartialPath) : ShortestPath :=
  ⟨current.subjects, current.relations, classificationOf current.classifications,
    String.intercalate "\x00" current.subjects⟩

def PartialPath.extend (current : PartialPath) (edge : RelationEdge) : PartialPath :=
  ⟨current.subjects ++ [edge.target], current.relations ++ [edge.relationKind],
    current.classifications ++ [edge.classification]⟩

def PartialPath.extensions (bySubject : List (String × List RelationEdge)) (current : PartialPath)
    (subject : String) : List PartialPath :=
  ((MultiMap.get bySubject subject).filter (fun edge => !current.subjects.contains edge.target)).map
    current.extend

def Search.step (bySubject : List (String × List RelationEdge)) (targetSet : List String)
    (maxDepth : ℕ)
    (allShortest : Bool) (s : Search) : Option Search :=
  if s.stopped then none
  else match s.queue[s.queueIndex]? with
  | none => none
  | some current =>
    let s := { s with queueIndex := s.queueIndex + 1 }
    let depth := current.subjects.length - 1
    if s.shortest.any (· < depth) then some s
    else
      let subject := current.subjects.getLastD ""
      if 0 < depth ∧ subject ∈ targetSet then
        some { s with
          shortest := some depth
          results := s.results ++ [current.finished]
          stopped := !allShortest }
      else if maxDepth ≤ depth then some s
      else some { s with queue := s.queue ++ current.extensions bySubject subject }

def findShortestPaths (localeCompare : String → String → Ordering) (fuel : ℕ)
    (edges : List RelationEdge)
    (sources targets : List String) (options : ShortestPathOptions) :
    Option (Except String (List ShortestPath)) :=
  if !isSafeInteger options.maxDepth || decide (options.maxDepth < 0) then
    some (.error "core:budget_invalid: Maximum path depth must be a non-negative safe integer.")
  else
    let bySubject := adjacency edges options.direction (options.relationKinds.getD [])
    (Loop.run (Search.step bySubject targets options.maxDepth.toNat
      (options.allShortest.getD false)) fuel
      (.start sources)).map
      (fun s => .ok (s.results.mergeSort
        (fun left right => localeCompare left.stableSortKey right.stableSortKey != .gt)))

end FindShortestPaths

end Operators

end Engine
