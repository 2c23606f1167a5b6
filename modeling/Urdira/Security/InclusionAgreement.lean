import Mathlib.Data.List.Infix
import Urdira.Security.GlobAgreement

open Segments SourceFrontier Utf16

namespace Security

def encodeObservation (observation : InclusionObservation (List Char)) :
    InclusionObservation JsString :=
  { observation with
    normalizedPath := encode observation.normalizedPath
    mediaType := encode observation.mediaType }

def encodeRules (rules : InclusionRules (List Char)) : InclusionRules JsString where
  «include» := rules.include.map encode
  exclude := rules.exclude.map encode
  followSymlinks := rules.followSymlinks
  orderedRules := rules.orderedRules.map (List.map (fun rule => (rule.1, encode rule.2)))

def encodeGitignore (gitignore : GitIgnoreRules (List Char)) : GitIgnoreRules JsString :=
  ⟨gitignore.enabled, gitignore.patterns.map encode⟩

def encodeResult (result : InclusionResult (List Char)) : InclusionResult JsString :=
  ⟨result.included, result.reasonCode, result.matchedRule.map encode⟩

theorem isPrefixOf_encode (front path : List Char) :
    (encode front).isPrefixOf (encode path) = front.isPrefixOf path := by
  rw [Bool.eq_iff_iff, List.isPrefixOf_iff_prefix, List.isPrefixOf_iff_prefix, encode_prefix]

theorem eq_encode (left right : List Char) :
    decide (encode left = encode right) = decide (left = right) :=
  decide_eq_decide.mpr encode_inj

theorem dotdot_encode (path : List Char) :
    ((encode path).splitOn 47).any (fun segment => decide (segment = encode ['.', '.'])) =
      (path.splitOn '/').any (fun segment => decide (segment = ['.', '.'])) := by
  rw [splitOn_encode, List.any_map]
  exact congrArg (List.any _) (funext fun segment => eq_encode segment _)

theorem driveLetter_true {units : JsString} (h : driveLetter units = true) : ∃ drive rest,
    units = drive :: 58 :: 47 :: rest ∧ (65 ≤ drive ∧ drive ≤ 90 ∨ 97 ≤ drive ∧ drive ≤ 122) := by
  unfold driveLetter at h
  split at h
  · next drive colon slash rest =>
    rw [Bool.and_eq_true, Bool.and_eq_true, decide_eq_true_eq, decide_eq_true_eq,
      decide_eq_true_eq] at h
    obtain ⟨⟨hdrive, rfl⟩, rfl⟩ := h
    exact ⟨drive, rest, rfl, hdrive⟩
  · cases h

theorem looksWindowsAbsolute_true {path : List Char} (h : looksWindowsAbsolute path = true) :
    ∃ drive rest,
    path = drive :: ':' :: '/' :: rest ∧
      ('A' ≤ drive ∧ drive ≤ 'Z' ∨ 'a' ≤ drive ∧ drive ≤ 'z') := by
  unfold looksWindowsAbsolute at h
  split at h
  · next drive rest => exact ⟨drive, rest, rfl, of_decide_eq_true h⟩
  · cases h

theorem letter_iff (c : Char) : ('A' ≤ c ∧ c ≤ 'Z' ∨ 'a' ≤ c ∧ c ≤ 'z') ↔
    (65 ≤ c.toNat ∧ c.toNat ≤ 90 ∨ 97 ≤ c.toNat ∧ c.toNat ≤ 122) := by
  simp only [Char.le_def, UInt32.le_iff_toNat_le]
  rfl

theorem driveLetter_encode (path : List Char) :
    driveLetter (encode path) = looksWindowsAbsolute path := by
  rw [Bool.eq_iff_iff]
  constructor
  · intro h
    obtain ⟨drive, rest, henc, hletter⟩ := driveLetter_true h
    have hvals : 65 ≤ drive.val ∧ drive.val ≤ 90 ∨ 97 ≤ drive.val ∧ drive.val ≤ 122 := hletter
    cases path with
    | nil => cases henc
    | cons c path =>
      rcases Nat.lt_or_ge c.toNat 65536 with hplain | hsupplementary
      · rw [encode_cons, codeUnits_plain hplain] at henc
        obtain ⟨hunit, htail⟩ := List.cons.inj henc
        have hcolon : [':', '/'] <+: path := encode_prefix.mp ⟨rest, htail.symm⟩
        obtain ⟨tail, rfl⟩ := hcolon
        refine decide_eq_true ((letter_iff c).mpr ?_)
        have hval : c.toNat = drive.val := congrArg Fin.val hunit
        rwa [hval]
      · obtain ⟨high, low, hunits, hhigh, -⟩ := codeUnits_supplementary hsupplementary
        rw [encode_cons, hunits] at henc
        have hval : high.val = drive.val := congrArg Fin.val (List.cons.inj henc).1
        omega
  · intro h
    obtain ⟨c, rest, rfl, hletter⟩ := looksWindowsAbsolute_true h
    rw [letter_iff] at hletter
    rw [encode_cons, codeUnits_plain (by omega)]
    have hunit : (65 : CodeUnit) ≤ ⟨c.toNat, by omega⟩ ∧ (⟨c.toNat, by omega⟩ : CodeUnit) ≤ 90 ∨
        (97 : CodeUnit) ≤ ⟨c.toNat, by omega⟩ ∧ (⟨c.toNat, by omega⟩ : CodeUnit) ≤ 122 := hletter
    change (decide _ && true && true) = true
    rw [decide_eq_true hunit]
    rfl

theorem slash_free : ∀ name ∈ binaryLikePath, '/' ∉ name := by decide

theorem prefix_tails {α : Type} {front path : List α} : (∃ rest ∈ path.tails, front <+: rest) ↔
      front <:+: path := by
  constructor
  · rintro ⟨rest, hrest, hfront⟩
    exact hfront.isInfix.trans ((List.mem_tails _ _).mp hrest).isInfix
  · rintro ⟨before, after, rfl⟩
    refine ⟨front ++ after, (List.mem_tails _ _).mpr ⟨before, by rw [List.append_assoc]⟩,
      List.prefix_append _ _⟩

theorem generatedDirectory_encode (path : List Char) :
    generatedDirectory (encode path) = hasGeneratedOrVcsSegment path := by
  have hunits : ∀ name ∈ binaryLikePath, ((encode (name ++ ['/'])).isPrefixOf (encode path) ||
      (encode path).tails.any (fun rest => (encode ('/' :: name ++ ['/'])).isPrefixOf rest)) =
        decide (name ∈ (path.splitOn '/').dropLast) := by
    intro name hname
    have hfree : (47 : CodeUnit) ∉ encode name :=
      fun h => slash_free name hname ((slash_mem_encode name).mp h)
    have hdirectory := hasDirectory_iff hfree (encode path)
    rw [splitOn_encode, ← List.map_dropLast,
      List.mem_map_of_injective encode_injective] at hdirectory
    rw [Bool.eq_iff_iff, decide_eq_true_eq, ← hdirectory, HasDirectory, Bool.or_eq_true,
      List.isPrefixOf_iff_prefix,
      List.any_eq_true]
    simp only [List.isPrefixOf_iff_prefix, prefix_tails]
    have hname : encode (name ++ ['/']) = encode name ++ [47] := encode_append name ['/']
    have hdirs : encode ('/' :: name ++ ['/']) = 47 :: encode name ++ [47] :=
      congrArg (47 :: ·) hname
    rw [hname, hdirs]
  have hany : generatedDirectory (encode path) =
      binaryLikePath.any (fun name => decide (name ∈ (path.splitOn '/').dropLast)) := by
    rw [generatedDirectory, Bool.eq_iff_iff, List.any_eq_true, List.any_eq_true]
    refine exists_congr fun name => and_congr_right fun hname => ?_
    rw [hunits name hname]
  rw [hany, hasGeneratedOrVcsSegment, Bool.eq_iff_iff, List.any_eq_true]
  simp only [decide_eq_true_eq]
  split
  · next hshort =>
    have hnone : (path.splitOn '/').dropLast = [] := by
      rw [← List.length_eq_zero_iff, List.length_dropLast]
      omega
    simp [hnone]
  · rw [List.any_eq_true]
    simp only [decide_eq_true_eq]
    exact exists_congr fun name => and_comm

theorem isEmpty_encode (text : List Char) : (encode text).isEmpty = text.isEmpty := by
  cases text with
  | nil => rfl
  | cons c text =>
    obtain ⟨unit, rest, henc, -⟩ := encode_cons_head c text
    rw [henc]
    rfl

theorem head_encode (c : Char) (unit : CodeUnit) (hbound : unit.val < 55296)
    (hc : c.toNat = unit.val)
    (text : List Char) :
    decide ((encode text).head? = some unit) = decide (text.head? = some c) := by
  cases text with
  | nil => rfl
  | cons d text =>
    obtain ⟨first, rest, henc, hne⟩ := encode_cons_head d text
    rw [henc]
    refine decide_eq_decide.mpr ?_
    rw [List.head?_cons, List.head?_cons, Option.some.injEq, Option.some.injEq]
    constructor
    · exact fun h => Decidable.by_contra (fun hd => hne c unit hbound hc hd h)
    · rintro rfl
      rw [encode_cons, codeUnits_plain (by omega)] at henc
      exact (List.cons.inj henc).1.symm.trans (Fin.ext hc)

theorem tail_encode {text : List Char} {c : Char} (hplain : c.toNat < 65536)
    (h : text.head? = some c) :
    (encode text).tail = encode text.tail := by
  obtain ⟨rest, rfl⟩ := List.head?_eq_some_iff.mp h
  rw [encode_cons, codeUnits_plain hplain]
  rfl

theorem lastRule_eq (path : List Char) (kind : RuleKind) (patterns : List (List Char))
    (decision : Option (RuleKind × List Char)) :
    lastRule kind path decision patterns = (patterns.map (kind, ·)).foldl
      (fun decision rule => if globMatch rule.2 path then some rule else decision) decision := by
  rw [lastRule, List.foldl_map]

section Decisions

variable {path : List Char} (hglob : ∀ pattern, glob (encode pattern) (encode path) =
  globMatch pattern path)

include hglob

theorem matchesRule_encode (patterns : List (List Char)) :
    matchesRule (patterns.map encode) (encode path) = (lastMatching patterns path).map encode := by
  rw [matchesRule, lastMatching, ← List.map_reverse, List.find?_map]
  refine congrArg (Option.map encode)
    (congrArg (List.find? · _) (funext fun pattern => hglob pattern))

def encodeDecision (decision : Option (RuleKind × List Char)) : Option (RuleKind × JsString) :=
  decision.map (fun rule => (rule.1, encode rule.2))

theorem decisions_encode (rules : List (RuleKind × List Char))
    (decision : Option (RuleKind × List Char)) :
    (rules.map (fun rule => (rule.1, encode rule.2))).foldl
        (fun decision rule => if glob rule.2 (encode path) then some rule else decision)
          (encodeDecision decision) =
      encodeDecision (rules.foldl (fun decision rule => if globMatch rule.2 path then some rule
        else decision)
        decision) := by
  induction rules generalizing decision with
  | nil => rfl
  | cons rule rules ih =>
    rw [List.map_cons, List.foldl_cons, List.foldl_cons, ← ih, hglob]
    refine congrArg (List.foldl _ · _) ?_
    split
    · rfl
    · rfl

theorem explicitDecision_encode (rules : InclusionRules (List Char)) :
    explicitDecision (encodeRules rules) (encode path) =
      encodeDecision (SourceFrontier.explicitDecision rules path) := by
  rw [explicitDecision, explicitRules, SourceFrontier.explicitDecision, encodeRules]
  cases rules.orderedRules with
  | some ordered => exact decisions_encode hglob ordered none
  | none =>
    have hrules : ((rules.exclude.map encode).map (RuleKind.exclude, ·) ++
        (rules.include.map encode).map (RuleKind.include, ·)) =
        (rules.exclude.map (RuleKind.exclude, ·) ++ rules.include.map (RuleKind.include, ·)).map
          (fun rule => (rule.1, encode rule.2)) := by
      rw [List.map_append, List.map_map, List.map_map, List.map_map, List.map_map]
      rfl
    simp only [Option.map_none, Option.getD_none, hrules]
    rw [lastRule_eq, lastRule_eq, ← List.foldl_append]
    exact decisions_encode hglob _ none

theorem gitIgnoreMatch_encode (patterns : List (List Char)) :
    gitIgnoreMatch (patterns.map encode) (encode path) =
      (gitignoreMatch patterns path).map (fun rule => (rule.1, encode rule.2)) := by
  rw [gitIgnoreMatch, gitignoreMatch, List.foldl_map]
  refine @List.foldl_hom _ _ _ (Option.map (fun rule : Bool × List Char => (rule.1, encode rule.2)))
    _ _ patterns none ?_
  intro decision pattern
  have hhash := head_encode '#' 35 (by decide) (by decide) pattern
  have hbang := head_encode '!' 33 (by decide) (by decide) pattern
  simp only [isEmpty_encode, hhash, hbang, decide_eq_true_eq]
  split
  · rfl
  · by_cases hnegated : pattern.head? = some '!'
    · have htail := tail_encode (by decide) hnegated
      simp only [if_pos hnegated, htail, hglob]
      split
      · rfl
      · rfl
    · simp only [if_neg hnegated, hglob]
      split
      · rfl
      · rfl

end Decisions

def DecidedByPath (observation : InclusionObservation (List Char)) : Bool :=
  let path := normalizeSlashes observation.normalizedPath
  observation.outsideAllowedRoot || observation.symlinkCycle || observation.isSpecial ||
    (['/'].isPrefixOf path || (path.splitOn '/').any
      (fun segment => decide (segment = ['.', '.'])) ||
      looksWindowsAbsolute path) ||
    (decide (path = dotGit) || (dotGit ++ ['/']).isPrefixOf path || decide (path = dotUrdira) ||
      (dotUrdira ++ ['/']).isPrefixOf path) ||
    observation.isDirectory || decide (10 * 1024 * 1024 < observation.byteLength)

def binaryLike (observation : InclusionObservation (List Char)) : Bool :=
  octetStream.isPrefixOf observation.mediaType ||
    hasGeneratedOrVcsSegment (normalizeSlashes observation.normalizedPath)

def decideByRules (observation : InclusionObservation (List Char))
    (rules : InclusionRules (List Char))
    (gitignore : GitIgnoreRules (List Char)) : InclusionResult (List Char) :=
  let path := normalizeSlashes observation.normalizedPath
  if binaryLike observation && (lastMatching rules.include path).isNone then excluded
    .generatedOrBinaryDefault
  else
    match SourceFrontier.explicitDecision rules path with
    | some (.exclude, pattern) => excludedWith .workspaceExclusion pattern
    | some (.include, pattern) => includedWith .explicitInclude pattern
    | none =>
      match if gitignore.enabled then gitignoreMatch gitignore.patterns path else none with
      | some (true, rule) => excludedWith .gitignore rule
      | _ => included .eligibleDefault

theorem evaluateInclusion_eq (observation : InclusionObservation (List Char))
    (rules : InclusionRules (List Char))
    (gitignore : GitIgnoreRules (List Char)) (hpath : DecidedByPath observation = false)
    (hlinks : (observation.isSymlink && !rules.followSymlinks) = false) :
    SourceFrontier.evaluateInclusion observation rules gitignore =
      decideByRules observation rules gitignore := by
  simp only [DecidedByPath, Bool.or_eq_false_iff] at hpath
  simp only [SourceFrontier.evaluateInclusion, hpath, hlinks, Bool.or_false,
    Bool.false_eq_true, if_false]
  rw [if_neg (of_decide_eq_false hpath.2)]
  rfl

def decideByRulesTs (observation : InclusionObservation (List Char))
    (rules : InclusionRules (List Char))
    (gitignore : GitIgnoreRules (List Char)) : InclusionResult JsString :=
  let path := encode (normalizeSlashes observation.normalizedPath)
  if binaryLike observation && !truthy (matchesRule (rules.include.map encode) path) then
    excluded .generatedOrBinaryDefault
  else
    match explicitDecision (encodeRules rules) path with
    | some (.exclude, pattern) => excludedWith .workspaceExclusion pattern
    | some (.include, pattern) => includedWith .explicitInclude pattern
    | none =>
      match if gitignore.enabled then gitIgnoreMatch (gitignore.patterns.map encode) path
      else none with
      | some (true, rule) => excludedWith .gitignore rule
      | _ => included .eligibleDefault

theorem evaluateInclusion_ts (observation : InclusionObservation (List Char))
    (rules : InclusionRules (List Char))
    (gitignore : GitIgnoreRules (List Char)) (hpath : DecidedByPath observation = false)
    (hlinks : (observation.isSymlink && !rules.followSymlinks) = false) :
    evaluateInclusion (encodeObservation observation) (encodeRules rules)
      (encodeGitignore gitignore) =
      decideByRulesTs observation rules gitignore := by
  simp only [DecidedByPath, Bool.or_eq_false_iff] at hpath
  simp only [evaluateInclusion, encodeObservation, encodeRules, replaceBackslashes_encode,
    isPrefixOf_encode,
    dotdot_encode, driveLetter_encode, eq_encode, generatedDirectory_encode, hpath, hlinks,
      Bool.or_false,
    Bool.false_eq_true, if_false]
  rw [if_neg (of_decide_eq_false hpath.2)]
  rfl

theorem truthy_encode {pattern : Option (List Char)} (h : pattern ≠ some []) :
    (!truthy (pattern.map encode)) = pattern.isNone := by
  cases pattern with
  | none => rfl
  | some pattern =>
    cases pattern with
    | nil => exact absurd rfl h
    | cons c pattern =>
      rw [Option.map_some, truthy, Option.any_some, isEmpty_encode]
      rfl

theorem early_encode (observation : InclusionObservation (List Char))
    (rules : InclusionRules (List Char))
    (gitignore : GitIgnoreRules (List Char))
    (hearly : DecidedByPath observation = true ∨ (observation.isSymlink && !rules.followSymlinks) =
      true) :
    evaluateInclusion (encodeObservation observation) (encodeRules rules)
      (encodeGitignore gitignore) =
      encodeResult (SourceFrontier.evaluateInclusion observation rules gitignore) := by
  rw [evaluateInclusion, SourceFrontier.evaluateInclusion]
  simp only [encodeObservation, encodeRules, replaceBackslashes_encode, isPrefixOf_encode,
    dotdot_encode,
    driveLetter_encode, eq_encode, apply_ite encodeResult]
  refine ite_congr rfl (fun _ => rfl) (fun hroot => ?_)
  refine ite_congr rfl (fun _ => rfl) (fun hcycle => ?_)
  refine ite_congr rfl (fun _ => rfl) (fun hspecial => ?_)
  refine ite_congr rfl (fun _ => rfl) (fun hlink => ?_)
  refine ite_congr rfl (fun _ => rfl) (fun houtside => ?_)
  refine ite_congr rfl (fun _ => rfl) (fun hmandatory => ?_)
  refine ite_congr rfl (fun _ => rfl) (fun hdirectory => ?_)
  refine ite_congr rfl (fun _ => rfl) (fun hsize => ?_)
  exfalso
  rcases hearly with hpath | hsymlink
  · simp only [DecidedByPath, Bool.or_eq_true, decide_eq_true_eq] at hpath
    simp only [Bool.or_eq_true, decide_eq_true_eq] at houtside hmandatory
    rcases hpath with (((((h | h) | h) | h) | h) | h) | h
    · exact hroot h
    · exact hcycle h
    · exact hspecial h
    · exact houtside h
    · exact hmandatory h
    · exact hdirectory h
    · exact hsize h
  · exact hlink hsymlink

theorem decideByRules_encode (observation : InclusionObservation (List Char))
    (rules : InclusionRules (List Char))
    (gitignore : GitIgnoreRules (List Char))
    (hglob : ∀ pattern, glob (encode pattern)
      (encode (normalizeSlashes observation.normalizedPath)) =
      globMatch pattern (normalizeSlashes observation.normalizedPath))
    (hempty : binaryLike observation = true →
      lastMatching rules.include (normalizeSlashes observation.normalizedPath) ≠ some []) :
    decideByRulesTs observation rules gitignore = encodeResult
    (decideByRules observation rules gitignore) := by
  have hcondition : (binaryLike observation && !truthy (matchesRule (rules.include.map encode)
      (encode (normalizeSlashes observation.normalizedPath)))) = (binaryLike observation &&
        (lastMatching rules.include (normalizeSlashes observation.normalizedPath)).isNone) := by
    cases hbinary : binaryLike observation with
    | false => rfl
    | true => rw [matchesRule_encode hglob, truthy_encode (hempty hbinary)]
  rw [decideByRulesTs, decideByRules]
  simp only [hcondition, explicitDecision_encode hglob, gitIgnoreMatch_encode hglob,
    apply_ite encodeResult]
  refine ite_congr rfl (fun _ => rfl) (fun _ => ?_)
  cases SourceFrontier.explicitDecision rules (normalizeSlashes observation.normalizedPath) with
  | some rule =>
    obtain ⟨kind, pattern⟩ := rule
    cases kind with
    | «include» => rfl
    | exclude => rfl
  | none =>
    simp only [encodeDecision, Option.map_none]
    cases gitignore.enabled with
    | false => rfl
    | true =>
      simp only [if_true]
      cases gitignoreMatch gitignore.patterns (normalizeSlashes observation.normalizedPath) with
      | none => rfl
      | some rule =>
        obtain ⟨ignored, pattern⟩ := rule
        cases ignored with
        | false => rfl
        | true => rfl

def onlyInclude (pattern : List Char) : InclusionRules (List Char) := ⟨[pattern], [], true, none⟩

def noGitignore : GitIgnoreRules (List Char) := ⟨false, []⟩

theorem decideByRules_onlyInclude (observation : InclusionObservation (List Char))
    {pattern : List Char}
    (h : globMatch pattern (normalizeSlashes observation.normalizedPath) = true) :
    decideByRules observation (onlyInclude pattern) noGitignore =
      includedWith .explicitInclude pattern := by
  have hlast : lastMatching [pattern] (normalizeSlashes observation.normalizedPath) =
      some pattern := by
    rw [lastMatching, List.reverse_singleton, List.find?_cons, h]
  have hdecision : SourceFrontier.explicitDecision (onlyInclude pattern)
      (normalizeSlashes observation.normalizedPath) = some (.include, pattern) := if_pos h
  have hinclude : (onlyInclude pattern).include = [pattern] := rfl
  simp only [decideByRules, hdecision, hinclude, hlast, Option.isNone_some, Bool.and_false,
    Bool.false_eq_true,
    if_false]

theorem decideByRulesTs_onlyInclude (observation : InclusionObservation (List Char))
    {pattern : List Char}
    (h : glob (encode pattern) (encode (normalizeSlashes observation.normalizedPath)) = false ∨
      binaryLike observation = true ∧ pattern = []) :
    (decideByRulesTs observation (onlyInclude pattern) noGitignore).reasonCode ≠
      .explicitInclude := by
  rw [decideByRulesTs]
  rcases h with hglob | ⟨hbinary, rfl⟩
  · have hdecision : explicitDecision (encodeRules (onlyInclude pattern))
        (encode (normalizeSlashes observation.normalizedPath)) = none :=
          if_neg (Bool.eq_false_iff.mp hglob)
    simp only [hdecision, noGitignore, Bool.false_eq_true, if_false]
    split
    · decide
    · decide
  · have hfalsy : truthy (matchesRule [[]] (encode (normalizeSlashes observation.normalizedPath))) =
        false := by
      rw [matchesRule, List.reverse_singleton, List.find?_cons]
      split
      · rfl
      · rfl
    have hrules : (onlyInclude []).include.map encode = [[]] := rfl
    simp only [hrules, hbinary, hfalsy, Bool.not_false, Bool.and_true, if_true]
    decide

theorem includePattern_differs (observation : InclusionObservation (List Char))
    {pattern : List Char}
    (hpath : DecidedByPath observation = false)
    (hrust : globMatch pattern (normalizeSlashes observation.normalizedPath) = true)
    (hts : glob (encode pattern) (encode (normalizeSlashes observation.normalizedPath)) = false ∨
      binaryLike observation = true ∧ pattern = []) :
    evaluateInclusion (encodeObservation observation) (encodeRules (onlyInclude pattern))
      (encodeGitignore noGitignore) ≠
        encodeResult
        (SourceFrontier.evaluateInclusion observation (onlyInclude pattern) noGitignore) := by
  rw [evaluateInclusion_ts _ _ _ hpath (Bool.and_false _),
    evaluateInclusion_eq _ _ _ hpath (Bool.and_false _),
    decideByRules_onlyInclude observation hrust]
  exact fun heq => decideByRulesTs_onlyInclude observation hts
    (congrArg InclusionResult.reasonCode heq)

theorem empty_pattern_matches (path : List Char) : globMatch [] path = true ↔
      lastSegment '/' path = [] :=
  List.isEmpty_iff

theorem lastMatching_empty {patterns : List (List Char)} {path : List Char}
    (h : lastMatching patterns path = some []) : lastSegment '/' path = [] := by
  have hfound := List.find?_some h
  exact (empty_pattern_matches path).mp hfound

theorem glob_agrees_iff (value : List Char) :
    (∀ pattern, glob (encode pattern) (encode value) = globMatch pattern value) ↔ ∀ c ∈ value,
      Plain c := by
  constructor
  · intro hagree
    refine Classical.byContradiction (fun hplain => ?_)
    obtain ⟨pattern, hrust, hts⟩ := glob_differs hplain
    rw [hagree pattern, hrust] at hts
    cases hts
  · exact fun hplain pattern => glob_encode pattern hplain

theorem evaluators_agree_iff (observation : InclusionObservation (List Char)) :
    (∀ rules gitignore, evaluateInclusion (encodeObservation observation) (encodeRules rules)
      (encodeGitignore gitignore) = encodeResult
        (SourceFrontier.evaluateInclusion observation rules gitignore)) ↔
      DecidedByPath observation = true ∨
        (∀ c ∈ normalizeSlashes observation.normalizedPath, Plain c) ∧
          ¬ (binaryLike observation = true ∧ lastSegment '/'
            (normalizeSlashes observation.normalizedPath) = []) := by
  constructor
  · intro hagree
    cases hpath : DecidedByPath observation with
    | true => exact .inl rfl
    | false =>
      refine .inr ⟨?_, ?_⟩
      · refine Classical.byContradiction (fun hplain => ?_)
        obtain ⟨pattern, hrust, hts⟩ := glob_differs hplain
        exact includePattern_differs observation hpath hrust (.inl hts) (hagree _ _)
      · rintro ⟨hbinary, hlast⟩
        exact includePattern_differs observation hpath ((empty_pattern_matches _).mpr hlast)
          (.inr ⟨hbinary, rfl⟩)
          (hagree _ _)
  · intro hcondition rules gitignore
    by_cases hearly : DecidedByPath observation = true ∨
      (observation.isSymlink && !rules.followSymlinks) = true
    · exact early_encode observation rules gitignore hearly
    · obtain ⟨hpath, hlinks⟩ := not_or.mp hearly
      obtain ⟨hplain, hempty⟩ := hcondition.resolve_left hpath
      rw [evaluateInclusion_ts _ _ _ (Bool.eq_false_iff.mpr hpath) (Bool.eq_false_iff.mpr hlinks),
        evaluateInclusion_eq _ _ _ (Bool.eq_false_iff.mpr hpath) (Bool.eq_false_iff.mpr hlinks)]
      refine decideByRules_encode observation rules gitignore
        (fun pattern => glob_encode pattern hplain) ?_
      exact fun hbinary hlast => hempty ⟨hbinary, lastMatching_empty hlast⟩

theorem inclusion_agrees_iff (value : List Char) (observation : InclusionObservation (List Char)) :
    ((∀ pattern, glob (encode pattern) (encode value) = globMatch pattern value) ↔
      ∀ c ∈ value, Plain c) ∧
    ((∀ rules gitignore, evaluateInclusion (encodeObservation observation) (encodeRules rules)
        (encodeGitignore gitignore) = encodeResult
          (SourceFrontier.evaluateInclusion observation rules gitignore)) ↔
      DecidedByPath observation = true ∨
        (∀ c ∈ normalizeSlashes observation.normalizedPath, Plain c) ∧
          ¬ (binaryLike observation = true ∧
            lastSegment '/' (normalizeSlashes observation.normalizedPath) = [])) :=
  ⟨glob_agrees_iff value, evaluators_agree_iff observation⟩

theorem newline_path_differs :
    let observation : InclusionObservation (List Char) :=
      ⟨"src/a\nb.ts".toList, false, false, 10, "text/plain".toList, false, false, false⟩
    let rules : InclusionRules (List Char) := ⟨[], ["src/**".toList], false, none⟩
    SourceFrontier.evaluateInclusion observation rules noGitignore =
        excludedWith .workspaceExclusion "src/**".toList ∧
      evaluateInclusion (encodeObservation observation) (encodeRules rules)
        (encodeGitignore noGitignore) =
        included .eligibleDefault ∧
      evaluateInclusion (encodeObservation observation) (encodeRules rules)
        (encodeGitignore noGitignore) ≠
        encodeResult (SourceFrontier.evaluateInclusion observation rules noGitignore) := by
  decide +kernel

end Security
