import Urdira.Lib.Utf16
import Urdira.SourceFrontier.Inclusion

open SourceFrontier Utf16

namespace Security

abbrev JsString := List CodeUnit

inductive RegExpTerm where
  | anyDirectories
  | anyText
  | segmentText
  | segmentUnit
  | literal (unit : CodeUnit)
  deriving DecidableEq

-- The dot of an expression without the s flag.
def dot (unit : CodeUnit) : Bool := decide (unit ∉ ([10, 13, 8232, 8233] : List CodeUnit))

def notSlash (unit : CodeUnit) : Bool := decide (unit ≠ 47)

def repeatClass (unitClass : CodeUnit → Bool) (rest : JsString → Bool) : JsString → Bool
  | [] => rest []
  | unit :: text => (unitClass unit && repeatClass unitClass rest text) || rest (unit :: text)

def afterUnit (unitClass : CodeUnit → Bool) (rest : JsString → Bool) : JsString → Bool
  | [] => false
  | unit :: text => unitClass unit && rest text

def regExpTest : List RegExpTerm → JsString → Bool
  | [], text => text.isEmpty
  | .anyDirectories :: terms, text =>
    repeatClass dot (afterUnit (fun unit => decide (unit = 47)) (regExpTest terms)) text ||
      regExpTest terms text
  | .anyText :: terms, text => repeatClass dot (regExpTest terms) text
  | .segmentText :: terms, text => repeatClass notSlash (regExpTest terms) text
  | .segmentUnit :: terms, text => afterUnit notSlash (regExpTest terms) text
  | .literal expected :: terms, text =>
      afterUnit (fun unit => decide (unit = expected)) (regExpTest terms) text

def replaceBackslashes (text : JsString) : JsString :=
  text.map (fun unit => if unit = 92 then 47 else unit)

def dropDotBang (text : JsString) : JsString :=
  if ([46, 33, 47] : JsString).isPrefixOf text then text.drop 3 else text

def globExpression : JsString → List RegExpTerm
  | [] => []
  | unit :: rest =>
    if unit = 42 then
      match rest with
      | [] => [.segmentText]
      | second :: rest =>
        if second = 42 then
          match rest with
          | [] => [.anyText]
          | third :: rest =>
            if third = 47 then .anyDirectories :: globExpression rest
            else .anyText :: globExpression (third :: rest)
        else .segmentText :: globExpression (second :: rest)
    else if unit = 63 then .segmentUnit :: globExpression rest
    else .literal unit :: globExpression rest

def glob (pattern value : JsString) : Bool :=
  let normalized := dropDotBang (replaceBackslashes pattern)
  let target := if 47 ∈ normalized then value else lastSegment 47 value
  regExpTest (globExpression normalized) target

def matchesRule (patterns : List JsString) (path : JsString) : Option JsString :=
  patterns.reverse.find? (fun pattern => glob pattern path)

def gitIgnoreMatch (patterns : List JsString) (path : JsString) : Option (Bool × JsString) :=
  patterns.foldl (fun decision pattern =>
    if pattern.isEmpty || decide (pattern.head? = some 35) then decision
    else
      let negated := decide (pattern.head? = some 33)
      let candidate := if negated then pattern.tail else pattern
      if glob candidate path then some (!negated, pattern) else decision) none

-- /(?:^|\/)(?:node_modules|dist|coverage|test-results|\.git)\//
def generatedDirectory (path : JsString) : Bool :=
  binaryLikePath.any (fun name =>
    (encode (name ++ ['/'])).isPrefixOf path || path.tails.any (fun rest =>
      (encode ('/' :: name ++ ['/'])).isPrefixOf rest))

-- /^[A-Za-z]:\//u
def driveLetter : JsString → Bool
  | drive :: colon :: slash :: _ =>
    decide (65 ≤ drive ∧ drive ≤ 90 ∨ 97 ≤ drive ∧ drive ≤ 122) && decide (colon = 58) &&
      decide (slash = 47)
  | _ => false

def explicitRules (rules : InclusionRules JsString) : List (RuleKind × JsString) :=
  rules.orderedRules.getD (rules.exclude.map (RuleKind.exclude, ·) ++ rules.include.map
    (RuleKind.include, ·))

def explicitDecision (rules : InclusionRules JsString) (path : JsString) :
    Option (RuleKind × JsString) :=
  (explicitRules rules).foldl (fun decision rule => if glob rule.2 path then some rule
    else decision) none

-- A matched pattern counts only when it is truthy: the empty pattern does not.
def truthy (pattern : Option JsString) : Bool := pattern.any (fun pattern => !pattern.isEmpty)

def evaluateInclusion (observation : InclusionObservation JsString)
    (rules : InclusionRules JsString)
    (gitignore : GitIgnoreRules JsString) : InclusionResult JsString :=
  if observation.outsideAllowedRoot then excluded .externalRootForbidden
  else if observation.symlinkCycle then excluded .symlinkCycle
  else if observation.isSpecial then excluded .pathInvalid
  else if observation.isSymlink && !rules.followSymlinks then excluded .symlinkForbidden
  else
    let path := replaceBackslashes observation.normalizedPath
    if (encode ['/']).isPrefixOf path ||
      (path.splitOn 47).any (fun segment => decide (segment = encode ['.', '.'])) ||
        driveLetter path then excluded .pathOutsideWorkspace
    else if decide (path = encode dotGit) || (encode (dotGit ++ ['/'])).isPrefixOf path ||
        decide (path = encode dotUrdira) || (encode (dotUrdira ++ ['/'])).isPrefixOf path then
      excluded .mandatoryExclusion
    else if observation.isDirectory then excluded .directoryNotArtifact
    else if 10 * 1024 * 1024 < observation.byteLength then excluded .sizeExclusion
    else if ((encode octetStream).isPrefixOf observation.mediaType || generatedDirectory path) &&
        !truthy (matchesRule rules.include path) then excluded .generatedOrBinaryDefault
    else
      match explicitDecision rules path with
      | some (.exclude, pattern) => excludedWith .workspaceExclusion pattern
      | some (.include, pattern) => includedWith .explicitInclude pattern
      | none =>
        match if gitignore.enabled then gitIgnoreMatch gitignore.patterns path else none with
        | some (true, rule) => excludedWith .gitignore rule
        | _ => included .eligibleDefault

end Security
