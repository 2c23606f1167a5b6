import Urdira.Canonical.LogicalDigestWriter
import Urdira.Lib.AssocMap
import Urdira.Lib.Utf8
import Urdira.SourceFrontier.Digest

open Binary64 ByteOrder MerkleBucket PrefixCode
open NativeCore hiding negativeZero
open Canonical hiding digestLogicalValue

namespace SourceFrontier

section Numbers

theorem safeIntegral_eq (x : Double) : safeIntegral x = isSafeInteger x := by
  have hmax : (maxSafeInteger : ℚ) = 9007199254740991 := by norm_num [maxSafeInteger]
  rw [safeIntegral, isSafeInteger, hmax]
  congr 2
  exact decide_eq_decide.mpr fract_eq_zero

theorem formatTrunc_eq {x : Double} (hzero : x ≠ negativeZero) : formatTrunc x = numberText x := by
  rw [formatTrunc, numberText, natAbs_trunc]
  split_ifs with hneg hval hlt hval hlt
  · rcases value_eq_zero.mp hval with rfl | rfl
    · cases hneg
    · exact absurd rfl hzero
  · rfl
  · exact absurd ((value_neg_iff hval).mpr hneg) hlt
  · rw [hval]
    rfl
  · exact absurd ((value_neg_iff hval).mp hlt) hneg
  · exact String.empty_append

theorem formatTrunc_negativeZero : formatTrunc negativeZero ≠ numberText negativeZero := by
  have hzero : value negativeZero = 0 := value_eq_zero.mpr (.inr rfl)
  have hmag : |value negativeZero| = 0 := by rw [hzero, abs_zero]
  rw [formatTrunc, numberText, natAbs_trunc, hmag, if_pos hzero]
  decide

theorem formatTrunc_eq_iff {x : Double} : formatTrunc x = numberText x ↔ x ≠ negativeZero :=
  ⟨fun h hzero => formatTrunc_negativeZero (hzero ▸ h), formatTrunc_eq⟩

end Numbers

section KeyOrder

def mixed (a b : Char) : Bool := a == '_' && b.isDigit || a.isDigit && b == '_'

def clash : List Char → List Char → Bool
  | a :: left, b :: right => if a = b then clash left right else mixed a b
  | _, _ => false

def Clash (left right : String) : Prop := clash left.toList right.toList

instance : DecidableRel Clash := fun left right =>
  inferInstanceAs (Decidable (clash left.toList right.toList = true))

theorem isDigit_iff {c : Char} : c.isDigit ↔ 48 ≤ c.toNat ∧ c.toNat ≤ 57 := by
  simp [Char.isDigit, UInt32.le_iff_toNat_le]

theorem isLower_iff {c : Char} : c.isLower ↔ 97 ≤ c.toNat ∧ c.toNat ≤ 122 := by
  simp [Char.isLower, UInt32.le_iff_toNat_le, ← Char.toNat_val]

theorem underscore_iff {c : Char} : c = '_' ↔ c.toNat = 95 := Char.toNat_inj.symm

theorem isWordChar_iff {c : Char} :
    isWordChar c ↔ c.toNat = 95 ∨ (48 ≤ c.toNat ∧ c.toNat ≤ 57) ∨
      (97 ≤ c.toNat ∧ c.toNat ≤ 122) := by
  rw [isWordChar, Bool.or_eq_true, Bool.or_eq_true, beq_iff_eq, underscore_iff, isDigit_iff,
    isLower_iff,
    or_assoc]

theorem mixed_iff {a b : Char} : mixed a b ↔
    a.toNat = 95 ∧ (48 ≤ b.toNat ∧ b.toNat ≤ 57) ∨ (48 ≤ a.toNat ∧ a.toNat ≤ 57) ∧
      b.toNat = 95 := by
  rw [mixed, Bool.or_eq_true, Bool.and_eq_true, Bool.and_eq_true, beq_iff_eq, beq_iff_eq,
    underscore_iff,
    underscore_iff, isDigit_iff, isDigit_iff]

theorem rootWeight_eq (c : Char) : rootWeight c =
    if c.toNat = 95 then 0 else if 48 ≤ c.toNat ∧ c.toNat ≤ 57 then 1 + (c.toNat - 48)
    else 11 + (c.toNat - 97) := by
  have hzero : '0'.toNat = 48 := rfl
  have ha : 'a'.toNat = 97 := rfl
  simp only [rootWeight, underscore_iff, isDigit_iff, hzero, ha]

theorem weights_differ {a b : Char} (ha : isWordChar a) (hb : isWordChar b) (hne : a ≠ b) :
    rootWeight a ≠ rootWeight b := by
  have hcodes : a.toNat ≠ b.toNat := fun h => hne (Char.toNat_inj.mp h)
  rw [isWordChar_iff] at ha hb
  rw [rootWeight_eq, rootWeight_eq]
  split_ifs <;> omega

theorem code_lt_iff {a b : Char} (ha : isWordChar a) (hb : isWordChar b) (hne : a ≠ b) :
    a.toNat < b.toNat ↔ if mixed a b then rootWeight b < rootWeight a
      else rootWeight a < rootWeight b := by
  have hcodes : a.toNat ≠ b.toNat := fun h => hne (Char.toNat_inj.mp h)
  rw [isWordChar_iff] at ha hb
  rw [rootWeight_eq, rootWeight_eq]
  split_ifs with hmixed <;> rw [mixed_iff] at hmixed <;> omega

def codes (chars : List Char) : Bytes := chars.map (fun c => Fin.ofNat 256 c.toNat)

theorem code_bound {c : Char} (h : isWordChar c) : c.toNat < 128 := by
  rw [isWordChar_iff] at h
  omega

theorem utf8_word {text : String} (h : Word text) : utf8 text = codes text.toList :=
  Utf8.utf8_ascii (fun c hc => code_bound (h c hc))

theorem codes_lt_iff {left right : List Char} (hleft : ∀ c ∈ left, isWordChar c)
    (hright : ∀ c ∈ right, isWordChar c) :
    codes left < codes right ↔
      if clash left right then right.map rootWeight < left.map rootWeight
      else left.map rootWeight < right.map rootWeight := by
  induction left generalizing right with
  | nil => cases right <;> simp [codes, clash]
  | cons a left ih =>
    cases right with
    | nil => simp [codes, clash]
    | cons b right =>
      obtain ⟨ha, hleft⟩ := List.forall_mem_cons.mp hleft
      obtain ⟨hb, hright⟩ := List.forall_mem_cons.mp hright
      have hhead : (Fin.ofNat 256 a.toNat < Fin.ofNat 256 b.toNat) ↔ a.toNat < b.toNat := by
        have hba := code_bound ha
        have hbb := code_bound hb
        rw [Fin.lt_def, Fin.val_ofNat, Fin.val_ofNat, Nat.mod_eq_of_lt (by omega),
          Nat.mod_eq_of_lt (by omega)]
      have heq : Fin.ofNat 256 a.toNat = Fin.ofNat 256 b.toNat ↔ a = b := by
        have hba := code_bound ha
        have hbb := code_bound hb
        rw [Fin.ext_iff, Fin.val_ofNat, Fin.val_ofNat, Nat.mod_eq_of_lt (by omega),
          Nat.mod_eq_of_lt (by omega),
          Char.toNat_inj]
      have htail := ih hleft hright
      simp only [codes, List.map_cons, List.cons_lt_cons_iff, hhead, heq, clash] at htail ⊢
      by_cases hab : a = b
      · subst hab
        simpa [codes] using htail
      · have hdiff := weights_differ ha hb hab
        have hcode := code_lt_iff ha hb hab
        rw [if_neg hab]
        simp only [hab, false_and, or_false, hcode, hdiff, Ne.symm hdiff]

def weightLe (left right : String) : Bool := decide (weights left ≤ weights right)

def byteLe (left right : String) : Bool := decide (utf8 left ≤ utf8 right)

theorem clash_comm (left right : List Char) : clash left right = clash right left := by
  induction left generalizing right with
  | nil => cases right <;> rfl
  | cons a left ih =>
    cases right with
    | nil => rfl
    | cons b right =>
      rw [clash, clash, ih right]
      split_ifs with hab hba hba
      · rfl
      · exact absurd hab.symm hba
      · exact absurd hba.symm hab
      · rw [Bool.eq_iff_iff, mixed_iff, mixed_iff]
        omega

theorem clash_self (chars : List Char) : clash chars chars = false := by
  induction chars with
  | nil => rfl
  | cons c chars ih => rw [clash, if_pos rfl, ih]

theorem byteLe_of_not_clash {left right : String} (hleft : Word left) (hright : Word right)
    (h : ¬ Clash left right) : byteLe left right = weightLe left right := by
  have hflip : ¬ clash right.toList left.toList := clash_comm left.toList right.toList ▸ h
  have hlt := codes_lt_iff hright hleft
  rw [if_neg hflip, ← utf8_word hleft, ← utf8_word hright] at hlt
  exact decide_eq_decide.mpr (by rw [← not_lt, ← not_lt, hlt, weights, weights])

theorem weights_lt_of_clash {left right : String} (hleft : Word left) (hright : Word right)
    (h : Clash left right) (hlt : utf8 left < utf8 right) : weights right < weights left := by
  have hiff := codes_lt_iff hleft hright
  have hclash : clash left.toList right.toList := h
  rw [if_pos hclash, ← utf8_word hleft, ← utf8_word hright] at hiff
  exact hiff.mp hlt

theorem not_clash_of_ordered {left right : String} (hleft : Word left) (hright : Word right)
    (hbytes : byteLe left right) (hweights : weightLe left right) : ¬ Clash left right := by
  intro h
  have hle := of_decide_eq_true hbytes
  rcases hle.lt_or_eq with hlt | heq
  · exact absurd (weights_lt_of_clash hleft hright h hlt) (not_lt.mpr (of_decide_eq_true hweights))
  · obtain rfl := utf8_injective heq
    rw [Clash, clash_self] at h
    cases h

def PlainObject (keys : List String) : Prop := keys.Nodup ∧ ∀ key ∈ keys, Word key

def OrderKept (keys : List String) : Prop := keys.Pairwise (fun left right => ¬ Clash left right)

theorem sortKeys_pairwise (keys : List String) :
    (sortKeys keys).Pairwise (fun left right => byteLe left right) := by
  refine List.pairwise_mergeSort (fun a b c hab hbc => ?_) (fun a b => ?_) keys
  · exact decide_eq_true (le_trans (of_decide_eq_true hab) (of_decide_eq_true hbc))
  · simpa [byteLe] using le_total (utf8 a) (utf8 b)

theorem weightSort_pairwise (keys : List String) :
    (keys.mergeSort weightLe).Pairwise (fun left right => weightLe left right) := by
  refine List.pairwise_mergeSort (fun a b c hab hbc => ?_) (fun a b => ?_) keys
  · exact decide_eq_true (le_trans (of_decide_eq_true hab) (of_decide_eq_true hbc))
  · simpa [weightLe] using le_total (weights a) (weights b)

theorem sortKeys_eq_iff {keys : List String} (hwords : ∀ key ∈ keys, Word key) :
    sortKeys keys = keys.mergeSort weightLe ↔ OrderKept keys := by
  have hperm : (sortKeys keys).Perm keys := List.mergeSort_perm keys _
  constructor
  · intro heq
    have hweights := heq ▸ weightSort_pairwise keys
    have hboth := (sortKeys_pairwise keys).and hweights
    have hkept : OrderKept (sortKeys keys) := hboth.imp_of_mem (fun {left right} hl hr h =>
      not_clash_of_ordered (hwords left (hperm.mem_iff.mp hl))
        (hwords right (hperm.mem_iff.mp hr)) h.1 h.2)
    refine (hperm.pairwise_iff (fun {left right} h => ?_)).mp hkept
    rwa [Clash, clash_comm]
  · intro hkept
    have hall : ∀ left ∈ keys, ∀ right ∈ keys, ¬ Clash left right := by
      intro left hl right hr
      have hsymm : Std.Symm (fun left right => ¬ Clash left right) :=
        ⟨fun a b h => by rwa [Clash, clash_comm]⟩
      refine List.Pairwise.forall_of_forall (fun a _ => ?_) hkept hl hr
      rw [Clash, clash_self]
      exact Bool.false_ne_true
    have hsame : (keys.mergeSort byteLe).map id = (keys.map id).mergeSort weightLe :=
      List.map_mergeSort (fun left hl right hr =>
        byteLe_of_not_clash (hwords left hl) (hwords right hr) (hall left hl right hr))
    rwa [List.map_id, List.map_id] at hsame

theorem collation_le {collation : Collation} {left right : String} (hleft : Word left)
    (hright : Word right) :
    (collation.localeCompare left right != .gt) = weightLe left right := by
  have hgt : collation.localeCompare left right = .gt ↔ weights right < weights left := by
    rw [collation.root hleft hright, rootCompare]
    split_ifs with hlt hgt
    · simpa using hlt.le
    · simpa using hgt
    · simpa using hgt
  rw [weightLe, Bool.eq_iff_iff, bne_iff_ne, decide_eq_true_eq, ne_eq, hgt, not_lt]

end KeyOrder

section Streams

variable {collation : Collation}

def Plain : Json Double → Prop := Json.Everywhere (fun x => finite x) PlainObject

def Portable : Json Double → Prop := Json.Everywhere (fun x => x ≠ negativeZero) OrderKept

def stream (collation : Collation) (v : Json Double) : Bytes :=
  (LogicalDigestWriter.value collation v).toOption.getD []

structure Compared (collation : Collation) (v : Json Double) : Prop where
  written : LogicalDigestWriter.value collation v = .ok (stream collation v)
  aligned : ∀ r s, writeValue v ++ r = stream collation v ++ s ↔ Portable v ∧ r = s

theorem Compared.of_ok {v : Json Double} {bytes : Bytes}
    (hok : LogicalDigestWriter.value collation v = .ok bytes)
    (h : ∀ r s, writeValue v ++ r = bytes ++ s ↔ Portable v ∧ r = s) : Compared collation v := by
  have hstream : stream collation v = bytes := by rw [stream, hok]; rfl
  exact ⟨hstream ▸ hok, hstream ▸ h⟩

theorem writeText_append {a b : String} {r s : Bytes} :
    writeText a ++ r = writeText b ++ s ↔ a = b ∧ r = s := by
  refine ⟨fun h => writeText_prefixInjective h, ?_⟩
  rintro ⟨rfl, rfl⟩
  rfl

theorem entry_append {k k' : String} {a b r s : Bytes} :
    writeText k ++ [4, 1] ++ a ++ r = writeText k' ++ [4, 1] ++ b ++ s ↔
      k = k' ∧ a ++ r = b ++ s := by
  simp only [List.append_assoc, writeText_append, List.append_cancel_left_eq]

theorem compared_number {x : Double} (h : finite x) : Compared collation (.number x) := by
  have hportable : Portable (.number x) ↔ x ≠ negativeZero := Iff.rfl
  by_cases hsafe : isSafeInteger x
  · refine .of_ok (if_pos hsafe) (fun r s => ?_)
    have hwrite : writeValue (.number x) = 5 :: writeText (formatTrunc x) :=
      if_pos ((safeIntegral_eq x).trans hsafe)
    have hinteger : LogicalDigestWriter.integer x = 5 :: writeText (numberText x) := rfl
    rw [hwrite, hinteger, List.cons_append, List.cons_append, List.cons_eq_cons, writeText_append,
      formatTrunc_eq_iff, hportable]
    simp
  · have hzero : x ≠ negativeZero := by
      rintro rfl
      have hvalue : value negativeZero = 0 := value_eq_zero.mpr (.inr rfl)
      exact hsafe (by simp [isSafeInteger, hvalue, h])
    have hwrite : writeValue (.number x) = 6 :: toBeBytes x := if_neg ((safeIntegral_eq x) ▸ hsafe)
    have hvalue : LogicalDigestWriter.value collation (.number x) = .ok (6 :: toBeBytes x) :=
      (if_neg hsafe).trans (LogicalDigestWriter.real_ok h hzero)
    refine .of_ok hvalue (fun r s => ?_)
    rw [hwrite, hportable, List.append_cancel_left_eq]
    simp [hzero]

theorem items_aligned {items : List (Json Double)} (h : ∀ v ∈ items, Compared collation v)
    (r s : Bytes) :
    items.flatMap writeValue ++ r = items.flatMap (stream collation) ++ s ↔
      (∀ v ∈ items, Portable v) ∧ r = s := by
  induction items with
  | nil => simp
  | cons v items ih =>
    obtain ⟨hv, hitems⟩ := List.forall_mem_cons.mp h
    rw [List.flatMap_cons, List.flatMap_cons, List.append_assoc, List.append_assoc,
      hv.aligned, ih hitems,
      List.forall_mem_cons, and_assoc]

theorem compared_array {items : List (Json Double)} (h : ∀ v ∈ items, Compared collation v) :
    Compared collation (.array items) := by
  have hok : LogicalDigestWriter.value collation (.array items) =
      .ok (9 :: (varint items.length ++ items.flatMap (stream collation))) := by
    rw [LogicalDigestWriter.value, LogicalDigestWriter.sequenceEntries_ok
      (fun v hv => (h v hv).written)]
    rfl
  refine .of_ok hok (fun r s => ?_)
  rw [writeValue, writeItems_eq, List.cons_append, List.cons_append, List.append_assoc,
    List.append_assoc,
    List.cons_eq_cons, and_iff_right rfl, List.append_cancel_left_eq, items_aligned h, Portable,
    Json.everywhere_array]

theorem keys_aligned {A : String → Prop} {f g : String → Bytes} {ks ks' : List String}
    (hlen : ks.length = ks'.length) (h : ∀ k ∈ ks, ∀ r s, f k ++ r = g k ++ s ↔ A k ∧ r = s)
    (r s : Bytes) :
    ks.flatMap (fun k => writeText k ++ [4, 1] ++ f k) ++ r =
        ks'.flatMap (fun k => writeText k ++ [4, 1] ++ g k) ++ s ↔
      ks = ks' ∧ (∀ k ∈ ks, A k) ∧ r = s := by
  induction ks generalizing ks' with
  | nil =>
    cases ks' with
    | nil => simp
    | cons => simp at hlen
  | cons k ks ih =>
    cases ks' with
    | nil => simp at hlen
    | cons k' ks' =>
      obtain ⟨hk, hks⟩ := List.forall_mem_cons.mp h
      have htail := ih (Nat.succ.inj hlen) hks
      rw [List.flatMap_cons, List.flatMap_cons, List.append_assoc _ (ks.flatMap _),
        List.append_assoc _ (ks'.flatMap _), entry_append, List.forall_mem_cons, List.cons_eq_cons]
      constructor
      · rintro ⟨rfl, heq⟩
        obtain ⟨hA, hrest⟩ := (hk _ _).mp heq
        obtain ⟨rfl, hAs, hrs⟩ := htail.mp hrest
        exact ⟨⟨rfl, rfl⟩, ⟨hA, hAs⟩, hrs⟩
      · rintro ⟨⟨rfl, rfl⟩, ⟨hA, hAs⟩, hrs⟩
        exact ⟨rfl, (hk _ _).mpr ⟨hA, htail.mpr ⟨rfl, hAs, hrs⟩⟩⟩

def valueAt (fields : List (String × Json Double)) (key : String) : Json Double :=
  (AssocMap.get fields key).getD .null

theorem valueAt_of_mem {fields : List (String × Json Double)} (h : (fields.map Prod.fst).Nodup)
    {field : String × Json Double} (hfield : field ∈ fields) :
    valueAt fields field.1 = field.2 := by
  rw [valueAt, AssocMap.get_of_mem h hfield, Option.getD_some]

theorem writeFields_eq {fields : List (String × Json Double)} (h : (fields.map Prod.fst).Nodup) :
    writeFields (writtenFields fields) =
      10 :: (varint fields.length ++ (sortKeys (fields.map Prod.fst)).flatMap
        (fun key => writeText key ++ [4, 1] ++ writeValue (valueAt fields key))) := by
  have hkeys : (writtenFields fields).map Prod.fst = fields.map Prod.fst := by
    rw [writtenFields_eq, List.map_map]
    rfl
  have hlen : (sortKeys (fields.map Prod.fst)).length = fields.length := by
    rw [sortKeys, List.length_mergeSort, List.length_map]
  rw [writeFields, hkeys, hlen]
  congr 2
  refine List.flatMap_congr (fun key hkey => ?_)
  obtain ⟨field, hfield, rfl⟩ := List.mem_map.mp (List.mem_mergeSort.mp hkey)
  have hlookup : (writtenFields fields).lookup field.1 = some (writeValue field.2) := by
    rw [writtenFields_eq]
    refine (AssocMap.get_map_values writeValue fields field.1).trans ?_
    rw [AssocMap.get_of_mem h hfield, Option.map_some]
  rw [hlookup, valueAt_of_mem h hfield, Option.getD_some]

theorem object_ok {fields : List (String × Json Double)}
    (hplain : PlainObject (fields.map Prod.fst))
    (h : ∀ field ∈ fields, Compared collation field.2) :
    LogicalDigestWriter.value collation (.object fields) =
      .ok (10 :: (varint fields.length ++ ((fields.map Prod.fst).mergeSort weightLe).flatMap
        (fun key => writeText key ++ [4, 1] ++ stream collation (valueAt fields key)))) := by
  rw [LogicalDigestWriter.value, LogicalDigestWriter.entries_eq]
  generalize hes : (fields.map _).mergeSort _ = es
  have hmem : ∀ e ∈ es, ∃ field ∈ fields,
      e = (field.1, LogicalDigestWriter.value collation field.2) := by
    intro e he
    rw [← hes, List.mem_mergeSort] at he
    obtain ⟨field, hfield, rfl⟩ := List.mem_map.mp he
    exact ⟨field, hfield, rfl⟩
  have hlen : es.length = fields.length := by rw [← hes, List.length_mergeSort, List.length_map]
  have hkeys : es.map Prod.fst = (fields.map Prod.fst).mergeSort weightLe := by
    rw [← hes, List.map_mergeSort (s := weightLe), List.map_map]
    · rfl
    · intro a ha b hb
      obtain ⟨left, hl, rfl⟩ := List.mem_map.mp ha
      obtain ⟨right, hr, rfl⟩ := List.mem_map.mp hb
      exact collation_le (hplain.2 left.1 (List.mem_map_of_mem hl))
        (hplain.2 right.1 (List.mem_map_of_mem hr))
  have hfields : LogicalDigestWriter.fields es = .ok ((es.map Prod.fst).flatMap (fun key =>
      Canonical.LogicalDigestWriter.text key ++ [4, 1] ++ stream collation
        (valueAt fields key))) := by
    refine LogicalDigestWriter.fields_ok (fun e he => ?_)
    obtain ⟨field, hfield, rfl⟩ := hmem e he
    dsimp only
    rw [valueAt_of_mem hplain.1 hfield, (h field hfield).written]
  rw [hfields, hkeys, hlen]
  rfl

theorem compared_object {fields : List (String × Json Double)}
    (hplain : PlainObject (fields.map Prod.fst))
    (h : ∀ field ∈ fields, Compared collation field.2) : Compared collation (.object fields) := by
  refine .of_ok (object_ok hplain h) (fun r s => ?_)
  have hmem : ∀ key ∈ sortKeys (fields.map Prod.fst), ∃ field ∈ fields, field.1 = key := by
    intro key hkey
    exact List.mem_map.mp (List.mem_mergeSort.mp hkey)
  have hlen : (sortKeys (fields.map Prod.fst)).length =
      ((fields.map Prod.fst).mergeSort weightLe).length := by
    rw [sortKeys, List.length_mergeSort, List.length_mergeSort]
  have hvalues : ∀ key ∈ sortKeys (fields.map Prod.fst), ∀ r s,
      writeValue (valueAt fields key) ++ r = stream collation (valueAt fields key) ++ s ↔
        Portable (valueAt fields key) ∧ r = s := by
    intro key hkey
    obtain ⟨field, hfield, rfl⟩ := hmem key hkey
    rw [valueAt_of_mem hplain.1 hfield]
    exact (h field hfield).aligned
  have hall : (∀ key ∈ sortKeys (fields.map Prod.fst), Portable (valueAt fields key)) ↔
      ∀ field ∈ fields, Portable field.2 := by
    constructor
    · intro hkeys field hfield
      have hkey := hkeys field.1 (List.mem_mergeSort.mpr (List.mem_map_of_mem hfield))
      rwa [valueAt_of_mem hplain.1 hfield] at hkey
    · intro hfields key hkey
      obtain ⟨field, hfield, rfl⟩ := hmem key hkey
      rw [valueAt_of_mem hplain.1 hfield]
      exact hfields field hfield
  rw [writeValue, writeFields_eq hplain.1, List.cons_append, List.cons_append, List.append_assoc,
    List.append_assoc, List.cons_eq_cons, and_iff_right rfl, List.append_cancel_left_eq,
    keys_aligned hlen hvalues, sortKeys_eq_iff hplain.2, hall, ← and_assoc, Portable,
      Json.everywhere_object]

theorem compared_of_plain {v : Json Double} (h : Plain v) : Compared collation v := by
  induction v using Json.induct with
  | null => exact .of_ok rfl (fun r s => by simp [writeValue, Portable, Json.Everywhere])
  | bool flag => exact .of_ok rfl (fun r s => by
      simp [writeValue, Canonical.LogicalDigestWriter.boolean, Portable, Json.Everywhere])
  | number x => exact compared_number h
  | string text => exact .of_ok rfl (fun r s => by
      have htext : LogicalDigestWriter.text text = writeText text := rfl
      simp [writeValue, htext, Portable, Json.Everywhere])
  | array items ih =>
    have hitems := Json.everywhere_array.mp h
    exact compared_array (fun v hv => ih v hv (hitems v hv))
  | object fields ih =>
    obtain ⟨hplain, hfields⟩ := Json.everywhere_object.mp h
    exact compared_object hplain (fun field hfield => ih field hfield (hfields field hfield))

theorem writeValue_eq_stream_iff {v : Json Double} (h : Plain v) :
    writeValue v = stream collation v ↔ Portable v := by
  have hcompared : Compared collation v := compared_of_plain h
  simpa using hcompared.aligned [] []

theorem logicalStream_eq {v : Json Double} (h : Plain v) (domain : String) :
    logicalStream collation v domain = .ok (writeText domain ++ stream collation v) := by
  rw [logicalStream, (compared_of_plain h).written]
  rfl

theorem logical_streams_agree_iff (collation : Collation) (domain : String) {v : Json Double}
    (h : Plain v) :
    logicalStream collation v domain = .ok (logicalBytes v domain) ↔ Portable v := by
  rw [logicalStream_eq h, logicalBytes, Except.ok.injEq, List.append_cancel_left_eq, eq_comm]
  exact writeValue_eq_stream_iff h

def rootCollation : Collation := ⟨rootCompare, fun _ _ => rfl⟩

theorem logical_streams_agree_iff_record :
    logicalStream rootCollation (.object [("kind", .string "p"), ("file_id", .bool true)]) "d" =
      .ok (logicalBytes (.object [("kind", .string "p"), ("file_id", .bool true)]) "d") := by
  refine (logical_streams_agree_iff rootCollation "d" ?_).mpr ?_
  · exact Json.everywhere_object.mpr
      ⟨by simp [PlainObject, Word, isWordChar], by simp [Json.Everywhere]⟩
  · exact Json.everywhere_object.mpr ⟨by unfold OrderKept; decide, by simp [Json.Everywhere]⟩

theorem underscore_and_digit_split_streams :
    Plain (.object [("a1", .null), ("a_", .null)]) ∧
      ∀ collation domain, logicalStream collation (.object [("a1", .null), ("a_", .null)]) domain ≠
        .ok (logicalBytes (.object [("a1", .null), ("a_", .null)]) domain) := by
  have hplain : Plain (.object [("a1", .null), ("a_", .null)]) :=
    Json.everywhere_object.mpr ⟨by simp [PlainObject, Word, isWordChar], by simp [Json.Everywhere]⟩
  refine ⟨hplain, fun collation domain heq => ?_⟩
  rw [logicalStream_eq hplain, logicalBytes, Except.ok.injEq, List.append_cancel_left_eq] at heq
  have hkept := (Json.everywhere_object.mp ((writeValue_eq_stream_iff hplain).mp heq.symm)).1
  exact absurd hkept (by unfold OrderKept; decide)

end Streams

end SourceFrontier
