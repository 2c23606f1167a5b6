import Mathlib

namespace Utf16

abbrev CodeUnit := Fin 65536

instance unitValues : NeZero 65536 := ⟨by decide⟩

def codeUnits (c : Char) : List CodeUnit :=
  if h : c.toNat < 65536 then [⟨c.toNat, h⟩]
  else [Fin.ofNat 65536 (55296 + (c.toNat - 65536) / 1024),
    Fin.ofNat 65536 (56320 + (c.toNat - 65536) % 1024)]

def encode (text : List Char) : List CodeUnit := text.flatMap codeUnits

@[simp] theorem encode_cons (c : Char) (text : List Char) :
    encode (c :: text) = codeUnits c ++ encode text := rfl

@[simp] theorem encode_append (left right : List Char) :
    encode (left ++ right) = encode left ++ encode right :=
  List.flatMap_append

theorem char_bound (c : Char) : c.toNat < 55296 ∨ 57344 ≤ c.toNat ∧ c.toNat < 1114112 := by
  rcases c.valid with h | ⟨h, h'⟩
  · exact .inl h
  · exact .inr ⟨h, h'⟩

theorem codeUnits_plain {c : Char} (h : c.toNat < 65536) : codeUnits c = [⟨c.toNat, h⟩] := dif_pos h

theorem codeUnits_supplementary {c : Char} (h : 65536 ≤ c.toNat) :
    ∃ high low : CodeUnit, codeUnits c = [high, low] ∧ high.val = 55296 + (c.toNat - 65536) / 1024 ∧
      low.val = 56320 + (c.toNat - 65536) % 1024 ∧ high.val < 56320 ∧ low.val < 57344 := by
  have hbound := char_bound c
  refine ⟨_, _, dif_neg (Nat.not_lt.mpr h), ?_, ?_, ?_, ?_⟩ <;> simp only [Fin.val_ofNat] <;> omega

theorem codeUnits_ne_nil (c : Char) : codeUnits c ≠ [] := by
  unfold codeUnits
  split <;> simp

theorem codeUnits_append_inj {c d : Char} {left right : List CodeUnit}
    (h : codeUnits c ++ left = codeUnits d ++ right) : c = d ∧ left = right := by
  have hc := char_bound c
  have hd := char_bound d
  have heq : c.toNat = d.toNat → c = d := fun h => Char.toNat_inj.mp h
  rcases Nat.lt_or_ge c.toNat 65536 with hcp | hcs
  · rcases Nat.lt_or_ge d.toNat 65536 with hdp | hds
    · rw [codeUnits_plain hcp, codeUnits_plain hdp] at h
      obtain ⟨hhead, htail⟩ := List.cons.inj h
      exact ⟨heq (Fin.mk.inj hhead), htail⟩
    · obtain ⟨high, low, hunits, hhigh, -, hbound, -⟩ := codeUnits_supplementary hds
      rw [codeUnits_plain hcp, hunits] at h
      have hhead : c.toNat = high.val := congrArg Fin.val (List.cons.inj h).1
      omega
  · obtain ⟨high, low, hunits, hhigh, hlow, hbound, hlowb⟩ := codeUnits_supplementary hcs
    rcases Nat.lt_or_ge d.toNat 65536 with hdp | hds
    · rw [codeUnits_plain hdp, hunits] at h
      have hhead : high.val = d.toNat := congrArg Fin.val (List.cons.inj h).1
      omega
    · obtain ⟨high', low', hunits', hhigh', hlow', -, -⟩ := codeUnits_supplementary hds
      rw [hunits, hunits'] at h
      obtain ⟨hfirst, hrest⟩ := List.cons.inj h
      obtain ⟨hsecond, htail⟩ := List.cons.inj hrest
      have hhighs : high.val = high'.val := congrArg Fin.val hfirst
      have hlows : low.val = low'.val := congrArg Fin.val hsecond
      exact ⟨heq (by omega), htail⟩

theorem encode_injective : Function.Injective encode := by
  intro left
  induction left with
  | nil =>
    intro right h
    cases right with
    | nil => rfl
    | cons d right => exact absurd (List.append_eq_nil_iff.mp h.symm).1 (codeUnits_ne_nil d)
  | cons c left ih =>
    intro right h
    cases right with
    | nil => exact absurd (List.append_eq_nil_iff.mp h).1 (codeUnits_ne_nil c)
    | cons d right =>
      obtain ⟨rfl, htail⟩ := codeUnits_append_inj h
      rw [ih htail]

theorem encode_inj {left right : List Char} : encode left = encode right ↔ left = right :=
  encode_injective.eq_iff

theorem encode_prefix {left right : List Char} : encode left <+: encode right ↔ left <+: right := by
  constructor
  · intro h
    induction left generalizing right with
    | nil => exact List.nil_prefix
    | cons c left ih =>
      obtain ⟨rest, hrest⟩ := h
      cases right with
      | nil =>
        exact absurd (List.append_eq_nil_iff.mp (List.append_eq_nil_iff.mp hrest).1).1
          (codeUnits_ne_nil c)
      | cons d right =>
        rw [encode_cons, encode_cons, List.append_assoc] at hrest
        obtain ⟨rfl, htail⟩ := codeUnits_append_inj hrest
        exact List.cons_prefix_cons.mpr ⟨rfl, ih ⟨rest, htail⟩⟩
  · rintro ⟨rest, rfl⟩
    exact ⟨encode rest, (encode_append left rest).symm⟩

end Utf16
