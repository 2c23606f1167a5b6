import Urdira.Lib.ByteOrder

open ByteOrder

namespace PrefixCode

variable {α β γ : Type}

def PrefixDetermines (enc : α → List β) (key : α → γ) : Prop :=
  ∀ ⦃a b : α⦄ ⦃r s : List β⦄, enc a ++ r = enc b ++ s → key a = key b ∧ r = s

def PrefixInjective (enc : α → List β) : Prop :=
  ∀ ⦃a b : α⦄ ⦃r s : List β⦄, enc a ++ r = enc b ++ s → a = b ∧ r = s

theorem PrefixDetermines.flatMap {enc : α → List β} {key : α → γ} (h : PrefixDetermines enc key)
    (hne : ∀ a, enc a ≠ []) {as bs : List α} (heq : as.flatMap enc = bs.flatMap enc) :
    as.map key = bs.map key := by
  induction as generalizing bs with
  | nil =>
    cases bs with
    | nil => rfl
    | cons b bs =>
      have hnil : enc b = [] := (List.append_eq_nil_iff.mp heq.symm).1
      exact absurd hnil (hne b)
  | cons a as ih =>
    cases bs with
    | nil =>
      have hnil : enc a = [] := (List.append_eq_nil_iff.mp heq).1
      exact absurd hnil (hne a)
    | cons b bs =>
      obtain ⟨hkey, hrest⟩ := h heq
      rw [List.map_cons, List.map_cons, hkey, ih hrest]

theorem PrefixInjective.flatMap {enc : α → List β} (h : PrefixInjective enc)
    (hne : ∀ a, enc a ≠ []) :
    Function.Injective (List.flatMap enc) := by
  intro as bs heq
  have hkey : PrefixDetermines enc id := h
  simpa using hkey.flatMap hne heq

section Varint

def varintGo : ℕ → ℕ → Bytes
  | 0, _ => []
  | fuel + 1, n =>
    if n / 128 = 0 then [Fin.ofNat 256 (n % 128)]
    else Fin.ofNat 256 (n % 128 + 128) :: varintGo fuel (n / 128)

def varint (n : ℕ) : Bytes := varintGo (n + 1) n

theorem varintGo_congr {fuel fuel' n : ℕ} (h : n < fuel) (h' : n < fuel') :
    varintGo fuel n = varintGo fuel' n := by
  induction fuel generalizing fuel' n with
  | zero => omega
  | succ fuel ih =>
    cases fuel' with
    | zero => omega
    | succ fuel' =>
      rw [varintGo, varintGo]
      split_ifs with hdiv
      · rfl
      · have htail : varintGo fuel (n / 128) = varintGo fuel' (n / 128) := ih (by omega) (by omega)
        rw [htail]

theorem varint_of_lt {n : ℕ} (h : n < 128) : varint n = [Fin.ofNat 256 n] := by
  have hdiv : n / 128 = 0 := by omega
  rw [varint, varintGo, if_pos hdiv, Nat.mod_eq_of_lt h]

theorem varint_of_ge {n : ℕ} (h : 128 ≤ n) :
    varint n = Fin.ofNat 256 (n % 128 + 128) :: varint (n / 128) := by
  have hdiv : n / 128 ≠ 0 := by omega
  rw [varint, varintGo, if_neg hdiv, varint, varintGo_congr (by omega) (Nat.lt_succ_self _)]

theorem varint_ne_nil (n : ℕ) : varint n ≠ [] := by
  rcases Nat.lt_or_ge n 128 with h | h
  · simp [varint_of_lt h]
  · simp [varint_of_ge h]

theorem length_varint (n : ℕ) : (varint n).length = Nat.log 128 n + 1 := by
  induction n using Nat.strongRecOn with
  | ind n ih =>
    rcases Nat.lt_or_ge n 128 with hlt | hge
    · rw [varint_of_lt hlt, Nat.log_of_lt hlt]
      rfl
    · rw [varint_of_ge hge, List.length_cons, ih (n / 128) (by omega),
        Nat.log_of_one_lt_of_le (by decide) hge]

theorem varint_prefixInjective : PrefixInjective varint := by
  intro m
  induction m using Nat.strongRecOn with
  | ind m ih =>
    intro n r s heq
    rcases Nat.lt_or_ge m 128 with hm | hm <;> rcases Nat.lt_or_ge n 128 with hn | hn
    · rw [varint_of_lt hm, varint_of_lt hn] at heq
      simp only [List.singleton_append, List.cons.injEq, Fin.ext_iff, Fin.val_ofNat] at heq
      exact ⟨by omega, heq.2⟩
    · rw [varint_of_lt hm, varint_of_ge hn] at heq
      simp only [List.cons_append, List.cons.injEq, Fin.ext_iff, Fin.val_ofNat] at heq
      omega
    · rw [varint_of_ge hm, varint_of_lt hn] at heq
      simp only [List.cons_append, List.cons.injEq, Fin.ext_iff, Fin.val_ofNat] at heq
      omega
    · rw [varint_of_ge hm, varint_of_ge hn] at heq
      simp only [List.cons_append, List.cons.injEq, Fin.ext_iff, Fin.val_ofNat] at heq
      obtain ⟨hdiv, hrest⟩ := ih (m / 128) (by omega) heq.2
      exact ⟨by omega, hrest⟩

theorem lengthPrefixed_prefixInjective :
    PrefixInjective (fun bs : Bytes => varint bs.length ++ bs) := by
  intro as bs r s heq
  simp only [List.append_assoc] at heq
  obtain ⟨hlen, hrest⟩ := varint_prefixInjective heq
  exact List.append_inj hrest hlen

end Varint

end PrefixCode
