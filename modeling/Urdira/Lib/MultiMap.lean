import Urdira.Lib.AssocMap

namespace MultiMap

variable {K V : Type} [DecidableEq K]

def get (m : List (K × List V)) (k : K) : List V := (AssocMap.get m k).getD []

def push (m : List (K × List V)) (k : K) (v : V) : List (K × List V) :=
  AssocMap.insert m k (get m k ++ [v])

def pushAll (m : List (K × List V)) (entries : List (K × V)) : List (K × List V) :=
  entries.foldl (fun m e => push m e.1 e.2) m

def mapValues (f : V → V) (m : List (K × List V)) : List (K × List V) :=
  m.map (fun e => (e.1, e.2.map f))

def values (m : List (K × List V)) : List V := m.flatMap Prod.snd

theorem get_push (m : List (K × List V)) (k k' : K) (v : V) :
    get (push m k v) k' = get m k' ++ if k = k' then [v] else [] := by
  unfold push
  by_cases hk : k = k'
  · subst hk
    rw [get, AssocMap.get_insert_self, if_pos rfl]
    rfl
  · rw [get, AssocMap.get_insert_ne _ _ (Ne.symm hk), if_neg hk, List.append_nil]
    rfl

theorem get_pushAll (m : List (K × List V)) (entries : List (K × V)) (k : K) :
    get (pushAll m entries) k =
      get m k ++ (entries.filter (fun e => decide (e.1 = k))).map Prod.snd := by
  induction entries generalizing m with
  | nil => simp [pushAll]
  | cons e entries ih =>
    change get (pushAll (push m e.1 e.2) entries) k = _
    rw [ih, get_push, List.append_assoc]
    by_cases hk : e.1 = k
    · simp [hk]
    · simp [hk]

theorem get_mapValues (f : V → V) (m : List (K × List V)) (k : K) :
    get (mapValues f m) k = (get m k).map f := by
  unfold get mapValues
  rw [AssocMap.get_map_values]
  cases AssocMap.get m k <;> rfl

theorem pushAll_append (m : List (K × List V)) (xs ys : List (K × V)) :
    pushAll m (xs ++ ys) = pushAll (pushAll m xs) ys :=
  List.foldl_append

theorem nodup_push {m : List (K × List V)} (h : (m.map Prod.fst).Nodup) (k : K) (v : V) :
    ((push m k v).map Prod.fst).Nodup :=
  AssocMap.nodup_insert h k _

theorem values_split {m : List (K × List V)} (h : (m.map Prod.fst).Nodup) (k : K) :
    (values m).Perm (get m k ++ values (AssocMap.erase m k)) := by
  induction m with
  | nil => exact List.Perm.refl _
  | cons e m ih =>
    obtain ⟨hnot, hnodup⟩ := List.nodup_cons.mp h
    by_cases hk : e.1 = k
    · subst hk
      have hget : get (e :: m) e.1 = e.2 := by
        unfold get
        rw [AssocMap.get_of_mem h (List.mem_cons_self ..)]
        rfl
      have herase : AssocMap.erase (e :: m) e.1 = m := by
        rw [AssocMap.erase, List.filter_cons_of_neg (by simp)]
        exact AssocMap.erase_of_notMem hnot
      rw [hget, herase]
      exact List.Perm.refl _
    · have hget : get (e :: m) k = get m k := by
        obtain ⟨k', vs⟩ := e
        have hbeq : (k == k') = false := by simpa using Ne.symm hk
        simp only [get, AssocMap.get, List.lookup_cons, hbeq]
      have herase : AssocMap.erase (e :: m) k = e :: AssocMap.erase m k := by
        rw [AssocMap.erase, List.filter_cons_of_pos (by simpa using hk)]
        rfl
      rw [hget, herase]
      change (e.2 ++ values m).Perm (get m k ++ (e.2 ++ values (AssocMap.erase m k)))
      refine ((ih hnodup).append_left e.2).trans ?_
      rw [← List.append_assoc, ← List.append_assoc]
      exact List.perm_append_comm.append_right _

theorem values_pushAll {m : List (K × List V)} (h : (m.map Prod.fst).Nodup)
    (entries : List (K × V)) :
    (values (pushAll m entries)).Perm (values m ++ entries.map Prod.snd) := by
  induction entries generalizing m with
  | nil =>
    rw [List.map_nil, List.append_nil]
    exact List.Perm.refl _
  | cons e entries ih =>
    have hpush : (values (push m e.1 e.2)).Perm (values m ++ [e.2]) := by
      have hmid : (get m e.1 ++ ([e.2] ++ values (AssocMap.erase m e.1))).Perm
          (get m e.1 ++ (values (AssocMap.erase m e.1) ++ [e.2])) :=
        List.perm_append_comm.append_left _
      change ((get m e.1 ++ [e.2]) ++ values (AssocMap.erase m e.1)).Perm _
      rw [List.append_assoc]
      refine hmid.trans ?_
      rw [← List.append_assoc]
      exact (values_split h e.1).symm.append_right _
    refine (ih (nodup_push h e.1 e.2)).trans ?_
    rw [List.map_cons]
    have hcons : values m ++ [e.2] ++ entries.map Prod.snd =
        values m ++ e.2 :: entries.map Prod.snd := by
      simp
    rw [← hcons]
    exact hpush.append_right _

end MultiMap
