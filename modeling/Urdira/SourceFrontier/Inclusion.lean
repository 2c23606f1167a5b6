import Mathlib.Data.List.Basic

namespace SourceFrontier

inductive RuleKind where
  | «include»
  | exclude
  deriving DecidableEq

structure InclusionRules (S : Type) where
  «include» : List S
  exclude : List S
  followSymlinks : Bool
  orderedRules : Option (List (RuleKind × S))

structure GitIgnoreRules (S : Type) where
  enabled : Bool
  patterns : List S

structure InclusionObservation (S : Type) where
  normalizedPath : S
  isSymlink : Bool
  isDirectory : Bool
  byteLength : ℕ
  mediaType : S
  outsideAllowedRoot : Bool
  symlinkCycle : Bool
  isSpecial : Bool

inductive ReasonCode where
  | externalRootForbidden
  | symlinkCycle
  | pathInvalid
  | symlinkForbidden
  | pathOutsideWorkspace
  | mandatoryExclusion
  | directoryNotArtifact
  | sizeExclusion
  | generatedOrBinaryDefault
  | workspaceExclusion
  | explicitInclude
  | gitignore
  | eligibleDefault
  deriving DecidableEq

structure InclusionResult (S : Type) where
  included : Bool
  reasonCode : ReasonCode
  matchedRule : Option S
  deriving DecidableEq

def excluded {S : Type} (reasonCode : ReasonCode) : InclusionResult S := ⟨false, reasonCode, none⟩

def excludedWith {S : Type} (reasonCode : ReasonCode) (matchedRule : S) : InclusionResult S :=
  ⟨false, reasonCode, some matchedRule⟩

def included {S : Type} (reasonCode : ReasonCode) : InclusionResult S := ⟨true, reasonCode, none⟩

def includedWith {S : Type} (reasonCode : ReasonCode) (matchedRule : S) : InclusionResult S :=
  ⟨true, reasonCode, some matchedRule⟩

inductive Token where
  | literal (expected : Char)
  | question
  | star
  | doubleStarSlash
  | doubleStarAny
  deriving DecidableEq

def normalizeSlashes (text : List Char) : List Char :=
  text.map (fun c => if c = '\\' then '/' else c)

def stripDotBang : List Char → List Char
  | '.' :: '!' :: '/' :: rest => rest
  | text => text

def compileTokens : List Char → List Token
  | [] => []
  | '*' :: '*' :: '/' :: rest => .doubleStarSlash :: compileTokens rest
  | '*' :: '*' :: rest => .doubleStarAny :: compileTokens rest
  | '*' :: rest => .star :: compileTokens rest
  | '?' :: rest => .question :: compileTokens rest
  | c :: rest => .literal c :: compileTokens rest

def compileGlob (pattern : List Char) : List Token × Bool :=
  let normalized := stripDotBang (normalizeSlashes pattern)
  (compileTokens normalized, decide ('/' ∈ normalized))

def starLoop (rest : List Char → Bool) (stops : Char → Bool) : List Char → Bool
  | [] => rest []
  | c :: text => rest (c :: text) || (!stops c && starLoop rest stops text)

def slashLoop (rest : List Char → Bool) : List Char → Bool
  | [] => false
  | c :: text => (decide (c = '/') && rest text) || slashLoop rest text

def matchTokens : List Token → List Char → Bool
  | [], text => text.isEmpty
  | .literal expected :: tokens, text =>
    match text with
    | [] => false
    | actual :: text => decide (actual = expected) && matchTokens tokens text
  | .question :: tokens, text =>
    match text with
    | [] => false
    | actual :: text => decide (actual ≠ '/') && matchTokens tokens text
  | .star :: tokens, text => starLoop (matchTokens tokens) (fun c => decide (c = '/')) text
  | .doubleStarAny :: tokens, text => starLoop (matchTokens tokens) (fun _ => false) text
  | .doubleStarSlash :: tokens, text =>
      matchTokens tokens text || slashLoop (matchTokens tokens) text

def lastSegment {α : Type} [BEq α] (separator : α) (path : List α) : List α :=
  (path.splitOn separator).getLast?.getD path

def globMatch (pattern value : List Char) : Bool :=
  let (tokens, hasSlash) := compileGlob pattern
  let target := if hasSlash then value else lastSegment '/' value
  matchTokens tokens target

def lastMatching (patterns : List (List Char)) (path : List Char) : Option (List Char) :=
  patterns.reverse.find? (fun pattern => globMatch pattern path)

def gitignoreMatch (patterns : List (List Char)) (path : List Char) : Option (Bool × List Char) :=
  patterns.foldl (fun decision pattern =>
    if pattern.isEmpty || decide (pattern.head? = some '#') then decision
    else
      let negated := decide (pattern.head? = some '!')
      let candidate := if negated then pattern.tail else pattern
      if globMatch candidate path then some (!negated, pattern) else decision) none

def nodeModules : List Char := ['n', 'o', 'd', 'e', '_', 'm', 'o', 'd', 'u', 'l', 'e', 's']

def dist : List Char := ['d', 'i', 's', 't']

def coverage : List Char := ['c', 'o', 'v', 'e', 'r', 'a', 'g', 'e']

def testResults : List Char := ['t', 'e', 's', 't', '-', 'r', 'e', 's', 'u', 'l', 't', 's']

def dotGit : List Char := ['.', 'g', 'i', 't']

def dotUrdira : List Char := ['.', 'u', 'r', 'd', 'i', 'r', 'a']

def octetStream : List Char :=
  ['a', 'p', 'p', 'l', 'i', 'c', 'a', 't', 'i', 'o', 'n', '/', 'o', 'c',
    't', 'e', 't', '-', 's', 't', 'r', 'e', 'a', 'm']

def binaryLikePath : List (List Char) := [nodeModules, dist, coverage, testResults, dotGit]

def hasGeneratedOrVcsSegment (path : List Char) : Bool :=
  let segments := path.splitOn '/'
  if segments.length < 2 then false
  else segments.dropLast.any (fun segment => decide (segment ∈ binaryLikePath))

def looksWindowsAbsolute : List Char → Bool
  | drive :: ':' :: '/' :: _ => decide ('A' ≤ drive ∧ drive ≤ 'Z' ∨ 'a' ≤ drive ∧ drive ≤ 'z')
  | _ => false

def lastRule (kind : RuleKind) (path : List Char) (decision : Option (RuleKind × List Char))
    (patterns : List (List Char)) : Option (RuleKind × List Char) :=
  patterns.foldl (fun decision pattern => if globMatch pattern path then some (kind, pattern)
    else decision) decision

def explicitDecision (rules : InclusionRules (List Char)) (path : List Char) :
    Option (RuleKind × List Char) :=
  match rules.orderedRules with
  | some ordered => ordered.foldl (fun decision rule => if globMatch rule.2 path then some rule
      else decision) none
  | none => lastRule .include path (lastRule .exclude path none rules.exclude) rules.include

def evaluateInclusion (observation : InclusionObservation (List Char))
    (rules : InclusionRules (List Char))
    (gitignore : GitIgnoreRules (List Char)) : InclusionResult (List Char) :=
  if observation.outsideAllowedRoot then excluded .externalRootForbidden
  else if observation.symlinkCycle then excluded .symlinkCycle
  else if observation.isSpecial then excluded .pathInvalid
  else if observation.isSymlink && !rules.followSymlinks then excluded .symlinkForbidden
  else
    let path := normalizeSlashes observation.normalizedPath
    if ['/'].isPrefixOf path || (path.splitOn '/').any
      (fun segment => decide (segment = ['.', '.'])) ||
        looksWindowsAbsolute path then excluded .pathOutsideWorkspace
    else if decide (path = dotGit) || (dotGit ++ ['/']).isPrefixOf path ||
      decide (path = dotUrdira) ||
        (dotUrdira ++ ['/']).isPrefixOf path then excluded .mandatoryExclusion
    else if observation.isDirectory then excluded .directoryNotArtifact
    else if 10 * 1024 * 1024 < observation.byteLength then excluded .sizeExclusion
    else if (octetStream.isPrefixOf observation.mediaType || hasGeneratedOrVcsSegment path) &&
        (lastMatching rules.include path).isNone then excluded .generatedOrBinaryDefault
    else
      match explicitDecision rules path with
      | some (.exclude, pattern) => excludedWith .workspaceExclusion pattern
      | some (.include, pattern) => includedWith .explicitInclude pattern
      | none =>
        match if gitignore.enabled then gitignoreMatch gitignore.patterns path else none with
        | some (true, rule) => excludedWith .gitignore rule
        | _ => included .eligibleDefault

end SourceFrontier
