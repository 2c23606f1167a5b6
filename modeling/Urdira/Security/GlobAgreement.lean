import Urdira.Lib.Segments
import Urdira.Security.Inclusion

open Segments SourceFrontier Utf16

namespace Security

theorem mem_codeUnits {unit : CodeUnit} (hunit : unit.val < 55296) (c : Char) :
    unit ∈ codeUnits c ↔ c.toNat = unit.val := by
  rcases Nat.lt_or_ge c.toNat 65536 with hplain | hsupplementary
  · rw [codeUnits_plain hplain, List.mem_singleton]
    exact ⟨fun h => (congrArg Fin.val h).symm, fun h => Fin.ext h.symm⟩
  · obtain ⟨high, low, hunits, hhigh, hlow, -, -⟩ := codeUnits_supplementary hsupplementary
    rw [hunits]
    simp only [List.mem_cons, List.not_mem_nil, or_false, Fin.ext_iff]
    omega

theorem mem_encode {unit : CodeUnit} (hunit : unit.val < 55296) (text : List Char) :
    unit ∈ encode text ↔ ∃ c ∈ text, c.toNat = unit.val := by
  rw [encode, List.mem_flatMap]
  exact exists_congr fun c => and_congr_right fun _ => mem_codeUnits hunit c

theorem mem_encode_char {c : Char} {unit : CodeUnit} (hunit : unit.val < 55296)
    (hc : c.toNat = unit.val)
    (text : List Char) : unit ∈ encode text ↔ c ∈ text := by
  rw [mem_encode hunit]
  constructor
  · rintro ⟨d, hd, hunits⟩
    rwa [Char.toNat_inj.mp (hc.trans hunits.symm)]
  · exact fun h => ⟨c, h, hc⟩

theorem slash_mem_encode (text : List Char) : 47 ∈ encode text ↔ '/' ∈ text :=
  mem_encode_char (by decide) (by decide) text

theorem replaceBackslashes_encode (text : List Char) :
    replaceBackslashes (encode text) = encode (normalizeSlashes text) := by
  induction text with
  | nil => rfl
  | cons c text ih =>
    have hhead : replaceBackslashes (codeUnits c) = codeUnits (if c = '\\' then '/' else c) := by
      by_cases hc : c = '\\'
      · subst hc
        decide
      · rw [if_neg hc, replaceBackslashes]
        refine (List.map_congr_left (fun unit hunit => if_neg (fun h => hc ?_))).trans
          (List.map_id _)
        rw [h, mem_codeUnits (by decide)] at hunit
        exact Char.toNat_inj.mp hunit
    rw [encode_cons, normalizeSlashes, List.map_cons, encode_cons, ← hhead]
    rw [replaceBackslashes, List.map_append]
    exact congrArg (_ ++ ·) ih

theorem dropDotBang_encode (text : List Char) :
    dropDotBang (encode text) = encode (stripDotBang text) := by
  have hfront : ([46, 33, 47] : JsString) = encode ['.', '!', '/'] := by decide
  have hiff : ([46, 33, 47] : JsString).isPrefixOf (encode text) = true ↔
      ['.', '!', '/'] <+: text := by
    rw [List.isPrefixOf_iff_prefix, hfront, encode_prefix]
  fun_cases stripDotBang text with
  | case1 rest =>
    rw [dropDotBang, if_pos (hiff.mpr ⟨rest, rfl⟩)]
    rfl
  | case2 _ hnot =>
    refine if_neg (fun h => ?_)
    obtain ⟨rest, hrest⟩ := hiff.mp h
    exact hnot rest hrest.symm

theorem splitOn_encode (text : List Char) :
    (encode text).splitOn 47 = (text.splitOn '/').map encode := by
  induction text with
  | nil => rfl
  | cons c text ih =>
    by_cases hc : c = '/'
    · subst hc
      have hunits : encode ('/' :: text) = 47 :: encode text := rfl
      rw [hunits, List.splitOn, List.splitOn, List.splitOnP_cons_eq_if_modifyHead,
        List.splitOnP_cons_eq_if_modifyHead, if_pos (beq_self_eq_true _),
          if_pos (beq_self_eq_true _), List.map_cons]
      exact congrArg ([] :: ·) ih
    · have hfree : (47 : CodeUnit) ∉ codeUnits c := by
        rw [mem_codeUnits (by decide)]
        exact fun h => hc (Char.toNat_inj.mp h)
      have hne : (c == '/') = false := beq_eq_false_iff_ne.mpr hc
      rw [encode_cons, splitOn_append hfree, ih]
      conv_rhs => rw [List.splitOn, List.splitOnP_cons_eq_if_modifyHead, hne]
      rw [← List.splitOn]
      cases text.splitOn '/' with
      | nil => rfl
      | cons head tail => rfl

theorem lastSegment_encode (text : List Char) :
    lastSegment 47 (encode text) = encode (lastSegment '/' text) := by
  rw [lastSegment, lastSegment, splitOn_encode, List.getLast?_map]
  cases (text.splitOn '/').getLast? with
  | none => rfl
  | some segment => rfl

def terms : Token → List RegExpTerm
  | .literal c => (codeUnits c).map .literal
  | .question => [.segmentUnit]
  | .star => [.segmentText]
  | .doubleStarSlash => [.anyDirectories]
  | .doubleStarAny => [.anyText]

theorem globExpression_literal {unit : CodeUnit} (hstar : unit ≠ 42) (hquestion : unit ≠ 63)
    (rest : JsString) :
    globExpression (unit :: rest) = .literal unit :: globExpression rest := by
  rw [globExpression.eq_def]
  simp only [if_neg hstar, if_neg hquestion]

theorem globExpression_literals {units : JsString} (h : ∀ unit ∈ units, unit ≠ 42 ∧ unit ≠ 63)
    (rest : JsString) :
    globExpression (units ++ rest) = units.map .literal ++ globExpression rest := by
  induction units with
  | nil => rfl
  | cons unit units ih =>
    obtain ⟨hstar, hquestion⟩ := h unit List.mem_cons_self
    rw [List.cons_append, globExpression_literal hstar hquestion,
      ih (fun u hu => h u (List.mem_cons_of_mem _ hu))]
    rfl

theorem encode_cons_head (c : Char) (text : List Char) :
    ∃ unit rest, encode (c :: text) = unit :: rest ∧
    ∀ (d : Char) (expected : CodeUnit), expected.val < 55296 → d.toNat = expected.val → c ≠ d →
      unit ≠ expected := by
  cases hunits : codeUnits c with
  | nil => exact absurd hunits (codeUnits_ne_nil c)
  | cons unit units =>
    refine ⟨unit, units ++ encode text, by rw [encode_cons, hunits]; rfl, ?_⟩
    rintro d expected hbound hd hne rfl
    have hmem : unit ∈ codeUnits c := hunits ▸ List.mem_cons_self
    rw [mem_codeUnits hbound] at hmem
    exact hne (Char.toNat_inj.mp (hmem.trans hd.symm))

theorem globExpression_encode (text : List Char) :
    globExpression (encode text) = (compileTokens text).flatMap terms := by
  fun_induction compileTokens text with
  | case1 => rfl
  | case2 rest ih =>
    have hunits : encode ('*' :: '*' :: '/' :: rest) = 42 :: 42 :: 47 :: encode rest := rfl
    rw [hunits, globExpression, List.flatMap_cons, ← ih]
    rfl
  | case3 rest hslash ih =>
    have hunits : encode ('*' :: '*' :: rest) = 42 :: 42 :: encode rest := rfl
    rw [hunits, List.flatMap_cons, ← ih]
    cases rest with
    | nil => rfl
    | cons c rest =>
      obtain ⟨unit, units, hhead, hne⟩ := encode_cons_head c rest
      have hthird : unit ≠ 47 := hne '/' 47 (by decide) (by decide) (fun h => hslash rest (h ▸ rfl))
      rw [hhead, globExpression]
      simp only [if_true, if_neg hthird]
      rfl
  | case4 rest hdouble hstar ih =>
    have hunits : encode ('*' :: rest) = 42 :: encode rest := rfl
    rw [hunits, List.flatMap_cons, ← ih]
    cases rest with
    | nil => rfl
    | cons c rest =>
      obtain ⟨unit, units, hhead, hne⟩ := encode_cons_head c rest
      have hsecond : unit ≠ 42 := hne '*' 42 (by decide) (by decide) (fun h => hstar rest (h ▸ rfl))
      rw [hhead, globExpression.eq_def]
      simp only [if_true, if_neg hsecond]
      rfl
  | case5 rest ih =>
    have hunits : encode ('?' :: rest) = 63 :: encode rest := rfl
    rw [hunits, List.flatMap_cons, ← ih, globExpression.eq_def]
    rfl
  | case6 c rest _ _ hstar hquestion ih =>
    rw [encode_cons, List.flatMap_cons, ← ih]
    refine globExpression_literals (fun unit hunit => ?_) (encode rest)
    have hne : ∀ (d : Char) (expected : CodeUnit), expected.val < 55296 →
        d.toNat = expected.val → c ≠ d →
        unit ≠ expected := by
      rintro d expected hbound hd hcd rfl
      rw [mem_codeUnits hbound] at hunit
      exact hcd (Char.toNat_inj.mp (hunit.trans hd.symm))
    exact ⟨hne '*' 42 (by decide) (by decide) hstar, hne '?' 63 (by decide) (by decide) hquestion⟩

def Plain (c : Char) : Prop := c.toNat < 65536 ∧ c.toNat ∉ [10, 13, 8232, 8233]

instance (c : Char) : Decidable (Plain c) := inferInstanceAs (Decidable (_ ∧ _))

theorem codeUnits_of_plain {c : Char} (h : Plain c) : ∃ unit : CodeUnit, codeUnits c = [unit] ∧
      unit.val = c.toNat ∧
    dot unit = true := by
  refine ⟨⟨c.toNat, h.1⟩, codeUnits_plain h.1, rfl, ?_⟩
  refine decide_eq_true (fun hmem => h.2 ?_)
  simp only [List.mem_cons, List.not_mem_nil, or_false, Fin.ext_iff] at hmem ⊢
  exact hmem

theorem unit_eq_iff {c d : Char} {unit expected : CodeUnit} (hunit : unit.val = c.toNat)
    (hexpected : expected.val = d.toNat) : unit = expected ↔ c = d := by
  rw [Fin.ext_iff, hunit, hexpected, Char.toNat_inj]

section Matching

variable {rest : JsString → Bool} {rest' : List Char → Bool}

theorem repeatClass_encode {unitClass : CodeUnit → Bool} {stops : Char → Bool} {text : List Char}
    (hplain : ∀ c ∈ text, Plain c)
    (hclass : ∀ c unit, Plain c → unit.val = c.toNat → unitClass unit = !stops c)
    (hrest : ∀ tail, (∀ c ∈ tail, Plain c) → rest (encode tail) = rest' tail) :
    repeatClass unitClass rest (encode text) = starLoop rest' stops text := by
  induction text with
  | nil => exact hrest [] hplain
  | cons c text ih =>
    have hc := hplain c List.mem_cons_self
    have htext : ∀ d ∈ text, Plain d := fun d hd => hplain d (List.mem_cons_of_mem c hd)
    obtain ⟨unit, hunits, hval, -⟩ := codeUnits_of_plain hc
    have hencode : encode (c :: text) = unit :: encode text := by rw [encode_cons, hunits]; rfl
    have hhere := hrest (c :: text) hplain
    rw [hencode] at hhere ⊢
    rw [repeatClass, starLoop, ih htext, hclass c unit hc hval, hhere, Bool.or_comm]

theorem afterSlash_encode {text : List Char} (hplain : ∀ c ∈ text, Plain c)
    (hrest : ∀ tail, (∀ c ∈ tail, Plain c) → rest (encode tail) = rest' tail) :
    repeatClass dot (afterUnit (fun unit => decide (unit = 47)) rest) (encode text) =
      slashLoop rest' text := by
  induction text with
  | nil => rfl
  | cons c text ih =>
    have htext : ∀ d ∈ text, Plain d := fun d hd => hplain d (List.mem_cons_of_mem c hd)
    obtain ⟨unit, hunits, hval, hdot⟩ := codeUnits_of_plain (hplain c List.mem_cons_self)
    have hencode : encode (c :: text) = unit :: encode text := by rw [encode_cons, hunits]; rfl
    have hslash : decide (unit = 47) = decide (c = '/') :=
      decide_eq_decide.mpr (unit_eq_iff hval (by decide))
    rw [hencode, repeatClass, slashLoop, ih htext, hdot, Bool.true_and, afterUnit, hslash,
      hrest text htext,
      Bool.or_comm]

end Matching

theorem literal_encode_nil (expected : Char) (tokens : List RegExpTerm) :
    regExpTest ((codeUnits expected).map .literal ++ tokens) [] = false := by
  cases hunits : codeUnits expected with
  | nil => exact absurd hunits (codeUnits_ne_nil expected)
  | cons unit units => rfl

theorem literal_encode_cons {c : Char} (hc : Plain c) (expected : Char) (tokens : List RegExpTerm)
    (text : List Char) :
    regExpTest ((codeUnits expected).map .literal ++ tokens) (encode (c :: text)) =
      (decide (c = expected) && regExpTest tokens (encode text)) := by
  obtain ⟨unit, hunits, hval, -⟩ := codeUnits_of_plain hc
  have hencode : encode (c :: text) = unit :: encode text := by rw [encode_cons, hunits]; rfl
  rw [hencode]
  rcases Nat.lt_or_ge expected.toNat 65536 with hsmall | hlarge
  · rw [codeUnits_plain hsmall]
    have heq : decide (unit = ⟨expected.toNat, hsmall⟩) = decide (c = expected) :=
      decide_eq_decide.mpr (unit_eq_iff hval rfl)
    rw [← heq]
    rfl
  · obtain ⟨high, low, hpair, hhigh, -, hbound, -⟩ := codeUnits_supplementary hlarge
    have hvalid := char_bound c
    have hsmall := hc.1
    have hne : unit ≠ high := fun h => by
      have hvals : unit.val = high.val := congrArg Fin.val h
      omega
    have hnec : c ≠ expected := fun h => by
      rw [h] at hsmall
      omega
    rw [hpair]
    simp only [List.map_cons, List.cons_append, regExpTest, afterUnit, decide_eq_false hne,
      decide_eq_false hnec,
      Bool.false_and]

theorem regExpTest_encode (tokens : List Token) {text : List Char} (hplain : ∀ c ∈ text, Plain c) :
    regExpTest (tokens.flatMap terms) (encode text) = matchTokens tokens text := by
  induction tokens generalizing text with
  | nil =>
    cases text with
    | nil => rfl
    | cons c text =>
      rw [encode_cons]
      cases hunits : codeUnits c with
      | nil => exact absurd hunits (codeUnits_ne_nil c)
      | cons unit units => rfl
  | cons token tokens ih =>
    rw [List.flatMap_cons]
    cases token with
    | literal expected =>
      rw [terms]
      cases text with
      | nil => exact literal_encode_nil expected _
      | cons c text =>
        rw [literal_encode_cons (hplain c List.mem_cons_self), matchTokens,
          ih (fun d hd => hplain d (List.mem_cons_of_mem c hd))]
    | question =>
      cases text with
      | nil => rfl
      | cons c text =>
        obtain ⟨unit, hunits, hval, -⟩ := codeUnits_of_plain (hplain c List.mem_cons_self)
        have hencode : encode (c :: text) = unit :: encode text := by rw [encode_cons, hunits]; rfl
        have hslash : notSlash unit = decide (c ≠ '/') :=
          decide_eq_decide.mpr (not_congr (unit_eq_iff hval (by decide)))
        rw [hencode, matchTokens, ← hslash, ← ih (fun d hd => hplain d (List.mem_cons_of_mem c hd))]
        rfl
    | star =>
      refine repeatClass_encode hplain (fun c unit _ hval => ?_) (fun tail htail => ih htail)
      rw [notSlash, decide_not, decide_eq_decide.mpr (unit_eq_iff (d := '/') hval (by decide))]
    | doubleStarSlash =>
      rw [terms, List.singleton_append, regExpTest, matchTokens, ih hplain,
        afterSlash_encode hplain (fun tail htail => ih htail), Bool.or_comm]
    | doubleStarAny =>
      refine repeatClass_encode hplain (fun c unit hc hval => ?_) (fun tail htail => ih htail)
      obtain ⟨unit', -, hval', hdot⟩ := codeUnits_of_plain hc
      rw [Fin.ext (hval.trans hval'.symm), hdot]
      rfl

theorem normalized_encode (pattern : List Char) :
    dropDotBang (replaceBackslashes (encode pattern)) =
    encode (stripDotBang (normalizeSlashes pattern)) := by
  rw [replaceBackslashes_encode, dropDotBang_encode]

theorem mem_lastSegment {c : Char} {value : List Char} (h : c ∈ lastSegment '/' value) :
    c ∈ value := by
  rw [lastSegment] at h
  cases hlast : (value.splitOn '/').getLast? with
  | none =>
    rw [hlast] at h
    exact h
  | some segment =>
    rw [hlast] at h
    exact mem_of_mem_splitOnP _ (List.mem_of_mem_getLast? hlast) h

theorem glob_encode (pattern : List Char) {value : List Char} (hplain : ∀ c ∈ value, Plain c) :
    glob (encode pattern) (encode value) = globMatch pattern value := by
  have hterms := globExpression_encode (stripDotBang (normalizeSlashes pattern))
  have hslash := slash_mem_encode (stripDotBang (normalizeSlashes pattern))
  rw [glob, globMatch, compileGlob]
  simp only [normalized_encode, hterms, hslash, decide_eq_true_eq]
  split
  · exact regExpTest_encode _ hplain
  · rw [lastSegment_encode]
    exact regExpTest_encode _ (fun c hc => hplain c (mem_lastSegment hc))

theorem matchTokens_anyText (text : List Char) : matchTokens [.doubleStarAny] text = true := by
  rw [matchTokens]
  induction text with
  | nil => rfl
  | cons c text ih => rw [starLoop, ih, Bool.not_false, Bool.true_and, Bool.or_true]

theorem regExpTest_anyText {units : JsString} (h : regExpTest [.anyText] units = true) :
    units.all dot = true := by
  rw [regExpTest] at h
  induction units with
  | nil => rfl
  | cons unit units ih =>
    rw [repeatClass, Bool.or_eq_true, Bool.and_eq_true] at h
    rcases h with ⟨hdot, hrest⟩ | hempty
    · rw [List.all_cons, hdot, ih hrest]
      rfl
    · cases hempty

theorem regExpTest_anyPath {units : JsString}
    (h : regExpTest [.anyDirectories, .anyText] units = true) :
    units.all dot = true := by
  rw [regExpTest, Bool.or_eq_true] at h
  rcases h with hdirectories | htext
  · induction units with
    | nil => rfl
    | cons unit units ih =>
      rw [repeatClass, Bool.or_eq_true, Bool.and_eq_true, afterUnit, Bool.and_eq_true,
        decide_eq_true_eq] at hdirectories
      rcases hdirectories with ⟨hdot, hrest⟩ | ⟨rfl, htext⟩
      · rw [List.all_cons, hdot, ih hrest]
        rfl
      · rw [List.all_cons, regExpTest_anyText htext]
        rfl
  · exact regExpTest_anyText htext

theorem terminator_differs {value : List Char} {c : Char} (hc : c ∈ value)
    (hterminator : c.toNat ∈ [10, 13, 8232, 8233]) :
    globMatch ['*', '*', '/', '*', '*'] value = true ∧
      glob (encode ['*', '*', '/', '*', '*']) (encode value) = false := by
  constructor
  · change (matchTokens [.doubleStarAny] value || _) = true
    rw [matchTokens_anyText, Bool.true_or]
  · rw [Bool.eq_false_iff]
    intro htest
    have hall : (encode value).all dot = true := regExpTest_anyPath htest
    have hmem : ∀ unit : CodeUnit, unit.val < 55296 → c.toNat = unit.val → dot unit = true := by
      intro unit hbound hval
      exact List.all_eq_true.mp hall unit ((mem_encode_char hbound hval value).mpr hc)
    simp only [List.mem_cons, List.not_mem_nil, or_false] at hterminator
    rcases hterminator with h | h | h | h
    · exact absurd (hmem 10 (by decide) h) (by decide)
    · exact absurd (hmem 13 (by decide) h) (by decide)
    · exact absurd (hmem 8232 (by decide) h) (by decide)
    · exact absurd (hmem 8233 (by decide) h) (by decide)

def mask (c : Char) : Char := if c = '/' then '/' else '?'

def maskToken (c : Char) : Token := if c = '/' then .literal '/' else .question

theorem compileTokens_mask (value : List Char) :
    compileTokens (value.map mask) = value.map maskToken := by
  induction value with
  | nil => rfl
  | cons c value ih =>
    rw [List.map_cons, List.map_cons, ← ih, mask, maskToken]
    split
    · rfl
    · rfl

theorem normalized_mask (value : List Char) :
    stripDotBang (normalizeSlashes (value.map mask)) = value.map mask := by
  have hslashes : normalizeSlashes (value.map mask) = value.map mask := by
    rw [normalizeSlashes, List.map_map]
    refine List.map_congr_left (fun c _ => ?_)
    simp only [Function.comp_apply, mask]
    split
    · rfl
    · rfl
  rw [hslashes]
  cases value with
  | nil => rfl
  | cons c value =>
    rw [List.map_cons, mask]
    split
    · rfl
    · rfl

theorem slash_mem_mask (value : List Char) : '/' ∈ value.map mask ↔ '/' ∈ value := by
  rw [List.mem_map]
  constructor
  · rintro ⟨c, hc, hmask⟩
    rw [mask] at hmask
    split at hmask
    · next heq => exact heq ▸ hc
    · exact absurd hmask (by decide)
  · exact fun h => ⟨'/', h, rfl⟩

theorem matchTokens_mask (value : List Char) : matchTokens (value.map maskToken) value = true := by
  induction value with
  | nil => rfl
  | cons c value ih =>
    rw [List.map_cons, maskToken]
    split
    · next heq => rw [matchTokens, ih, heq]; rfl
    · next hne => rw [matchTokens, ih, decide_eq_true hne]; rfl

theorem regExpTest_length {expression : List RegExpTerm}
    (hterms : ∀ term ∈ expression, term = .segmentUnit ∨ ∃ unit, term = .literal unit)
    {units : JsString}
    (h : regExpTest expression units = true) : units.length = expression.length := by
  induction expression generalizing units with
  | nil => exact congrArg List.length (List.isEmpty_iff.mp h)
  | cons term expression ih =>
    have hrest := fun t ht => hterms t (List.mem_cons_of_mem term ht)
    cases units with
    | nil =>
      rcases hterms term List.mem_cons_self with rfl | ⟨unit, rfl⟩
      · cases h
      · cases h
    | cons unit units =>
      have htail : regExpTest expression units = true := by
        rcases hterms term List.mem_cons_self with rfl | ⟨unit', rfl⟩
        · exact (Bool.and_eq_true _ _ ▸ h).2
        · exact (Bool.and_eq_true _ _ ▸ h).2
      rw [List.length_cons, List.length_cons, ih hrest htail]

theorem length_codeUnits_pos (c : Char) : 0 < (codeUnits c).length :=
  List.length_pos_iff.mpr (codeUnits_ne_nil c)

theorem length_le_encode (value : List Char) : value.length ≤ (encode value).length := by
  induction value with
  | nil => exact Nat.le_refl 0
  | cons c value ih =>
    have hpositive := length_codeUnits_pos c
    rw [encode_cons, List.length_append, List.length_cons]
    omega

theorem length_lt_encode {value : List Char} {c : Char} (hc : c ∈ value)
    (hsupplementary : 65536 ≤ c.toNat) :
    value.length < (encode value).length := by
  induction value with
  | nil => cases hc
  | cons d value ih =>
    have hpositive := length_codeUnits_pos d
    have hrest := length_le_encode value
    rw [encode_cons, List.length_append, List.length_cons]
    rcases List.mem_cons.mp hc with rfl | htail
    · obtain ⟨high, low, hunits, -⟩ := codeUnits_supplementary hsupplementary
      rw [hunits, List.length_cons, List.length_singleton]
      omega
    · have hlt := ih htail
      omega

theorem lastSegment_self {value : List Char} (h : '/' ∉ value) : lastSegment '/' value = value := by
  have hsplit := splitOn_append h []
  rw [List.append_nil] at hsplit
  rw [lastSegment, hsplit]
  simp [List.splitOn_nil]

theorem mask_target (value : List Char) :
    (if '/' ∈ value.map mask then value else lastSegment '/' value) = value := by
  by_cases h : '/' ∈ value
  · exact if_pos ((slash_mem_mask value).mpr h)
  · rw [if_neg (fun hmem => h ((slash_mem_mask value).mp hmem)), lastSegment_self h]

theorem maskTerms_length (value : List Char) :
    ((value.map maskToken).flatMap terms).length = value.length := by
  induction value with
  | nil => rfl
  | cons c value ih =>
    rw [List.map_cons, List.flatMap_cons, List.length_append, ih, List.length_cons, maskToken]
    split
    · exact Nat.add_comm 1 _
    · exact Nat.add_comm 1 _

theorem maskTerms_units (value : List Char) : ∀ term ∈ (value.map maskToken).flatMap terms,
    term = .segmentUnit ∨ ∃ unit, term = .literal unit := by
  intro term hterm
  obtain ⟨token, htoken, hmem⟩ := List.mem_flatMap.mp hterm
  obtain ⟨c, -, rfl⟩ := List.mem_map.mp htoken
  rw [maskToken] at hmem
  split at hmem
  · obtain ⟨unit, -, rfl⟩ := List.mem_map.mp hmem
    exact .inr ⟨unit, rfl⟩
  · exact .inl (List.mem_singleton.mp hmem)

theorem supplementary_differs {value : List Char} {c : Char} (hc : c ∈ value)
    (hsupplementary : 65536 ≤ c.toNat) :
    globMatch (value.map mask) value = true ∧ glob (encode (value.map mask)) (encode value) =
      false := by
  constructor
  · rw [globMatch, compileGlob]
    simp only [normalized_mask, compileTokens_mask, decide_eq_true_eq, mask_target]
    exact matchTokens_mask value
  · have htarget : (if '/' ∈ value.map mask then encode value else lastSegment 47 (encode value)) =
        encode value := by
      have hmask := congrArg encode (mask_target value)
      rwa [apply_ite encode, ← lastSegment_encode] at hmask
    have hslash := slash_mem_encode (value.map mask)
    rw [glob]
    simp only [normalized_encode, normalized_mask, globExpression_encode, compileTokens_mask,
      hslash, htarget]
    rw [Bool.eq_false_iff]
    intro htest
    have hlength := regExpTest_length (maskTerms_units value) htest
    have hlt := length_lt_encode hc hsupplementary
    rw [maskTerms_length] at hlength
    omega

theorem glob_differs {value : List Char} (h : ¬ ∀ c ∈ value, Plain c) :
    ∃ pattern, globMatch pattern value = true ∧ glob (encode pattern) (encode value) = false := by
  simp only [not_forall, exists_prop] at h
  obtain ⟨c, hc, hplain⟩ := h
  by_cases hterminator : c.toNat ∈ [10, 13, 8232, 8233]
  · exact ⟨_, terminator_differs hc hterminator⟩
  · have hsupplementary : 65536 ≤ c.toNat := Nat.le_of_not_lt (fun hlt => hplain ⟨hlt, hterminator⟩)
    exact ⟨_, supplementary_differs hc hsupplementary⟩

end Security
