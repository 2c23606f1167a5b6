import Urdira.Engine.WatcherManager

namespace Engine

namespace Watchers

theorem countP_le_one {α : Type} {l : List α} {p : α → Bool}
    (h : ∀ (i j : ℕ) (a b : α), l[i]? = some a → l[j]? = some b → p a = true → p b = true → i = j) :
    l.countP p ≤ 1 := by
  induction l with
  | nil => exact Nat.zero_le 1
  | cons a l ih =>
    have hrest : l.countP p ≤ 1 := by
      refine ih (fun i j b c hb hc hpb hpc => ?_)
      exact Nat.succ_injective (h (i + 1) (j + 1) b c hb hc hpb hpc)
    cases ha : p a with
    | false =>
      rw [List.countP_cons_of_neg (by rw [ha]; exact Bool.false_ne_true)]
      exact hrest
    | true =>
      have hnone : l.countP p = 0 := by
        rw [List.countP_eq_zero]
        intro b hb hpb
        obtain ⟨i, hi⟩ := List.mem_iff_getElem?.mp hb
        cases h 0 (i + 1) a b rfl hi ha hpb
      rw [List.countP_cons_of_pos ha, hnone]

namespace WorkspaceWatcherManager

variable {W : Type} [DecidableEq W] {s next : WorkspaceWatcherManager W} {i j id : ℕ} {w w' : W}
  {todo : List (Op W)}
  {stage : Stage W} {sub : Subscription W}

def Subscribing (s : WorkspaceWatcherManager W) (i : ℕ) (w : W) : Prop :=
  ∃ task, s.tasks[i]? = some task ∧ task.stage = .subscribing w

structure Sound (s : WorkspaceWatcherManager W) : Prop where
  recorded : ∀ id sub, s.obtained[id]? = some sub → sub.unsubscribed = false →
    s.recorded sub.workspace = some id
  alone : ∀ i j w, s.Subscribing i w → s.Subscribing j w → i = j
  fresh : ∀ i w, s.Subscribing i w → s.recorded w = none
  once : (s.pending.map Prod.snd ++ s.delivered).Nodup
  bounded : ∀ batch ∈ s.pending.map Prod.snd ++ s.delivered, batch < s.batches

theorem Sound.initial : Sound ({} : WorkspaceWatcherManager W) where
  recorded _ _ h := by cases h
  alone _ _ _ h := by obtain ⟨_, h, _⟩ := h; cases h
  fresh _ _ h := by obtain ⟨_, h, _⟩ := h; cases h
  once := List.nodup_nil
  bounded _ h := absurd h List.not_mem_nil

theorem Sound.moved (h : s.Sound) (hobtained : next.obtained = s.obtained)
    (hsubscriptions : next.subscriptions = s.subscriptions) (hpending : next.pending = s.pending)
    (hdelivered : next.delivered = s.delivered) (hbatches : next.batches = s.batches)
    (hsubscribing : ∀ i w, next.Subscribing i w → s.Subscribing i w) : next.Sound := by
  have hrecorded : next.recorded = s.recorded := by
    funext w
    rw [WorkspaceWatcherManager.recorded, hsubscriptions, WorkspaceWatcherManager.recorded]
  refine ⟨?_, fun i j w hi hj => h.alone i j w (hsubscribing i w hi) (hsubscribing j w hj),
    ?_, ?_, ?_⟩
  · rw [hobtained, hrecorded]
    exact h.recorded
  · rw [hrecorded]
    exact fun i w hi => h.fresh i w (hsubscribing i w hi)
  · rw [hpending, hdelivered]
    exact h.once
  · rw [hpending, hdelivered, hbatches]
    exact h.bounded

omit [DecidableEq W] in
theorem subscribing_set (h : (s.setTask i todo stage).Subscribing j w) :
    j = i ∧ stage = .subscribing w ∨ j ≠ i ∧ s.Subscribing j w := by
  obtain ⟨task, htask, hstage⟩ := h
  by_cases hj : j = i
  · subst hj
    rw [setTask, List.getElem?_set] at htask
    split at htask
    · split at htask
      · obtain rfl := Option.some.inj htask
        exact .inl ⟨rfl, hstage⟩
      · cases htask
    · rename_i hne
      exact absurd rfl hne
  · rw [setTask, List.getElem?_set_ne (Ne.symm hj)] at htask
    exact .inr ⟨hj, task, htask, hstage⟩

omit [DecidableEq W] in
theorem subscribing_of_set (hstage : ∀ w, stage ≠ .subscribing w)
    (h : (s.setTask i todo stage).Subscribing j w) :
    j ≠ i ∧ s.Subscribing j w := (subscribing_set h).resolve_left (fun hset => hstage w hset.2)

theorem Sound.setTask (h : s.Sound) (hstage : ∀ w, stage ≠ .subscribing w) :
    (s.setTask i todo stage).Sound :=
  h.moved rfl rfl rfl rfl rfl (fun _ _ hj => (subscribing_of_set hstage hj).2)

theorem beginOp_start (s : WorkspaceWatcherManager W) (i : ℕ) (todo : List (Op W)) (w : W) :
    s.beginOp i todo (.start w) = if (s.recorded w).isSome then s.setTask i todo .ready
      else (s.newChain w).setTask i todo (.subscribing w) := rfl

theorem Sound.beginOp (h : s.Sound) {op : Op W}
    (hop : ∀ w, op = .start w → (s.recorded w).isSome = true ∨ ∀ i, ¬ s.Subscribing i w) :
    (s.beginOp i todo op).Sound := by
  cases op with
  | stop w => exact h.setTask (fun _ h => by cases h)
  | start w =>
    rw [beginOp_start]
    split
    · exact h.setTask (fun _ h => by cases h)
    · rename_i hnone
      have hnobody := (hop w rfl).resolve_left hnone
      have hsubscribing :
          ∀ j w', ((s.newChain w).setTask i todo (.subscribing w)).Subscribing j w' →
          j = i ∧ w' = w ∨ w' ≠ w ∧ s.Subscribing j w' := by
        intro j w' hj
        rcases subscribing_set hj with ⟨hi, hstage⟩ | ⟨-, hold⟩
        · exact .inl ⟨hi, (Stage.subscribing.inj hstage).symm⟩
        · refine .inr ⟨?_, hold⟩
          rintro rfl
          exact hnobody j hold
      refine ⟨h.recorded, fun j k w' hj hk => ?_, fun j w' hj => ?_, h.once, h.bounded⟩
      · rcases hsubscribing j w' hj with ⟨hj, hw⟩ | ⟨hw, hj⟩
        · rcases hsubscribing k w' hk with ⟨hk, -⟩ | ⟨hw', -⟩
          · rw [hj, hk]
          · exact absurd hw hw'
        · rcases hsubscribing k w' hk with ⟨-, hw'⟩ | ⟨-, hk⟩
          · exact absurd hw' hw
          · exact h.alone j k w' hj hk
      · rcases hsubscribing j w' hj with ⟨-, rfl⟩ | ⟨-, hj⟩
        · exact Option.not_isSome_iff_eq_none.mp hnone
        · exact h.fresh j w' hj

theorem recorded_record (w : W) (subscription : ℕ) (h : s.recorded w = none) :
    s.record w subscription = s.subscriptions ++ [(w, subscription)] := by
  rw [record, h]
  rfl

theorem recorded_obtain (h : s.recorded w = none) (w' : W) :
    (s.obtain w).recorded w' = if w' = w then some s.obtained.length else s.recorded w' := by
  have hrecord := recorded_record w s.obtained.length h
  rw [WorkspaceWatcherManager.recorded, obtain, hrecord, AssocMap.get_append]
  by_cases hw : w' = w
  · subst hw
    rw [if_pos rfl]
    change (s.recorded w').or _ = _
    rw [h]
    simp [AssocMap.get]
  · rw [if_neg hw]
    change (s.recorded w').or _ = _
    have hnone : AssocMap.get [(w, s.obtained.length)] w' = none := by
      rw [AssocMap.get_eq_none_iff]
      simpa using hw
    rw [hnone, Option.or_none]

theorem Sound.subscribed (h : s.Sound) {succeeds : Bool}
    (hstep : s.subscribed i succeeds = some next) : next.Sound := by
  unfold WorkspaceWatcherManager.subscribed at hstep
  split at hstep
  · rename_i todo w htask
    have hsubscribing : s.Subscribing i w := ⟨_, htask, rfl⟩
    have hfresh := h.fresh i w hsubscribing
    cases succeeds with
    | false =>
      obtain rfl := Option.some.inj hstep
      exact h.setTask (fun _ h => by cases h)
    | true =>
      obtain rfl := Option.some.inj hstep
      have hothers : ∀ j w', ((s.obtain w).setTask i todo .ready).Subscribing j w' →
          w' ≠ w ∧ s.Subscribing j w' := by
        intro j w' hj
        obtain ⟨hne, hold⟩ := subscribing_of_set (fun _ h => by cases h) hj
        refine ⟨?_, hold⟩
        rintro rfl
        exact hne (h.alone j i w' hold hsubscribing)
      refine ⟨fun id sub hsub hlive => ?_, fun j k w' hj hk => ?_, fun j w' hj => ?_,
        h.once, h.bounded⟩
      · change (s.obtained ++ [(⟨w, false⟩ : Subscription W)])[id]? = some sub at hsub
        change (s.obtain w).recorded sub.workspace = some id
        rw [recorded_obtain hfresh]
        rcases Nat.lt_trichotomy id s.obtained.length with hlt | heq | hgt
        · rw [List.getElem?_append_left hlt] at hsub
          have hold := h.recorded id sub hsub hlive
          have hne : sub.workspace ≠ w := by
            intro hw
            rw [hw, hfresh] at hold
            cases hold
          rw [if_neg hne, hold]
        · rw [heq, List.getElem?_append_right (le_refl _), Nat.sub_self] at hsub
          obtain rfl := Option.some.inj hsub
          rw [if_pos rfl, heq]
        · have hlength : (s.obtained ++ [(⟨w, false⟩ : Subscription W)]).length ≤ id := by
            rw [List.length_append, List.length_singleton]
            exact hgt
          rw [List.getElem?_eq_none hlength] at hsub
          cases hsub
      · exact h.alone j k w' (hothers j w' hj).2 (hothers k w' hk).2
      · obtain ⟨hne, hold⟩ := hothers j w' hj
        exact ((recorded_obtain hfresh w').trans (if_neg hne)).trans (h.fresh j w' hold)
  · cases hstep

theorem Sound.awaited (h : s.Sound) (hstep : s.awaited i = some next) : next.Sound := by
  unfold WorkspaceWatcherManager.awaited at hstep
  split at hstep
  · split at hstep
    · obtain rfl := Option.some.inj hstep
      exact h.setTask (fun _ h => by cases h)
    · cases hstep
  · cases hstep

omit [DecidableEq W] in
theorem getElem?_endSubscription {subscription : Option ℕ}
    (h : (s.endSubscription subscription)[id]? = some sub)
    (hlive : sub.unsubscribed = false) : s.obtained[id]? = some sub ∧ subscription ≠ some id := by
  rw [endSubscription, List.getElem?_mapIdx, Option.map_eq_some_iff] at h
  obtain ⟨old, hold, hsub⟩ := h
  split at hsub
  · rw [← hsub] at hlive
    cases hlive
  · rename_i hne
    rw [← hsub]
    exact ⟨hold, hne⟩

theorem Sound.unsubscribed (h : s.Sound) {succeeds : Bool}
    (hown : succeeds = true → ∀ todo w subscription,
      s.tasks[i]? = some ⟨todo, .unsubscribing w subscription⟩ →
      s.recorded w = none ∨ s.recorded w = subscription)
    (hstep : s.unsubscribed i succeeds = some next) : next.Sound := by
  unfold WorkspaceWatcherManager.unsubscribed at hstep
  split at hstep
  · rename_i todo w subscription htask
    cases succeeds with
    | false =>
      split at hstep
      · cases ‹false = true›
      · split at hstep
        · obtain rfl := Option.some.inj hstep
          exact h.setTask (fun _ h => by cases h)
        · cases hstep
    | true =>
      obtain rfl := Option.some.inj hstep
      have hrecorded := hown rfl todo w subscription htask
      have hkept : ∀ w', w' ≠ w → AssocMap.get (AssocMap.erase s.subscriptions w) w' =
          s.recorded w' :=
        fun w' hne => AssocMap.get_erase_ne s.subscriptions hne
      refine ⟨fun id sub hsub hlive => ?_, fun j k w' hj hk => ?_, fun j w' hj => ?_,
        h.once, h.bounded⟩
      · obtain ⟨hold, hother⟩ := getElem?_endSubscription hsub hlive
        have hid := h.recorded id sub hold hlive
        have hne : sub.workspace ≠ w := by
          intro hw
          rw [hw] at hid
          rcases hrecorded with hnone | hsame
          · cases hnone.symm.trans hid
          · exact hother (hsame.symm.trans hid)
        exact (hkept _ hne).trans hid
      · exact h.alone j k w' (subscribing_of_set (fun _ h => by cases h) hj).2
          (subscribing_of_set (fun _ h => by cases h) hk).2
      · have hfresh := h.fresh j w' (subscribing_of_set (fun _ h => by cases h) hj).2
        by_cases hw : w' = w
        · subst hw
          exact AssocMap.get_erase_self _ _
        · exact (hkept w' hw).trans hfresh
  · cases hstep

theorem Sound.handlers_le_one (h : s.Sound) (w : W) (early : Bool) : s.handlers w early ≤ 1 := by
  have hlive : s.obtained.countP (isLive w) ≤ 1 := by
    refine countP_le_one (fun i j a b ha hb hpa hpb => ?_)
    simp only [isLive, Bool.and_eq_true, decide_eq_true_eq, Bool.not_eq_true'] at hpa hpb
    have hi := h.recorded i a ha hpa.2
    have hj := h.recorded j b hb hpb.2
    rw [hpa.1] at hi
    rw [hpb.1] at hj
    exact Option.some.inj (hi.symm.trans hj)
  have hearly : s.tasks.countP (isSubscribing w) ≤ 1 := by
    refine countP_le_one (fun i j a b ha hb hpa hpb => ?_)
    exact h.alone i j w ⟨a, ha, of_decide_eq_true hpa⟩ ⟨b, hb, of_decide_eq_true hpb⟩
  cases early with
  | false => exact hlive
  | true =>
    change s.obtained.countP (isLive w) + s.tasks.countP (isSubscribing w) ≤ 1
    rcases Nat.eq_zero_or_pos (s.tasks.countP (isSubscribing w)) with hnone | hsome
    · rw [hnone]
      exact hlive
    · obtain ⟨task, htask, hstage⟩ := List.countP_pos_iff.mp hsome
      obtain ⟨i, hi⟩ := List.mem_iff_getElem?.mp htask
      have hfresh := h.fresh i w ⟨task, hi, of_decide_eq_true hstage⟩
      have hdead : s.obtained.countP (isLive w) = 0 := by
        rw [List.countP_eq_zero]
        intro sub hsub hsublive
        obtain ⟨id, hid⟩ := List.mem_iff_getElem?.mp hsub
        simp only [isLive, Bool.and_eq_true, decide_eq_true_eq, Bool.not_eq_true'] at hsublive
        have hrecorded := h.recorded id sub hid hsublive.2
        rw [hsublive.1, hfresh] at hrecorded
        cases hrecorded
      rw [hdead, Nat.zero_add]
      exact hearly

theorem Sound.enqueue (h : s.Sound) (w : W) {batch : ℕ}
    (hnew : batch ∉ s.pending.map Prod.snd ++ s.delivered)
    (hlt : batch < s.batches) : (s.enqueue w batch).Sound := by
  have hextended : ∀ chain, ((s.pending ++ [(chain, batch)]).map Prod.snd ++ s.delivered).Perm
      (batch :: (s.pending.map Prod.snd ++ s.delivered)) := by
    intro chain
    rw [List.map_append, List.map_singleton, List.append_assoc, List.singleton_append]
    exact List.perm_middle
  have honce : ∀ chain, ((s.pending ++ [(chain, batch)]).map Prod.snd ++ s.delivered).Nodup :=
    fun chain => (hextended chain).nodup_iff.mpr (List.nodup_cons.mpr ⟨hnew, h.once⟩)
  have hbounded : ∀ chain, ∀ b ∈ (s.pending ++ [(chain, batch)]).map Prod.snd ++ s.delivered,
      b < s.batches := by
    intro chain b hb
    rcases List.mem_cons.mp ((hextended chain).mem_iff.mp hb) with rfl | hold
    · exact hlt
    · exact h.bounded b hold
  unfold WorkspaceWatcherManager.enqueue
  split
  · rename_i chain _
    exact ⟨h.recorded, h.alone, h.fresh, honce chain, hbounded chain⟩
  · exact ⟨h.recorded, h.alone, h.fresh, honce s.chains, hbounded s.chains⟩

theorem Sound.emit (h : s.Sound) (w : W) (early : Bool) : (s.emit w early).Sound := by
  have hstarted : Sound ({ s with batches := s.batches + 1 } : WorkspaceWatcherManager W) :=
    ⟨h.recorded, h.alone, h.fresh, h.once, fun b hb => (h.bounded b hb).trans (Nat.lt_succ_self _)⟩
  have hle := h.handlers_le_one w early
  unfold WorkspaceWatcherManager.emit
  generalize s.handlers w early = n at hle
  match n, hle with
  | 0, _ => exact hstarted
  | 1, _ =>
    exact hstarted.enqueue w (fun hmem => lt_irrefl _ (h.bounded _ hmem)) (Nat.lt_succ_self _)

theorem Sound.handle (h : s.Sound) {chain : ℕ} (hstep : s.handle chain = some next) :
    next.Sound := by
  unfold WorkspaceWatcherManager.handle at hstep
  split at hstep
  · rename_i batch hfind
    obtain rfl := Option.some.inj hstep
    have hmem := List.mem_of_find?_eq_some hfind
    have hperm : ((s.pending.erase batch).map Prod.snd ++ (s.delivered ++ [batch.2])).Perm
        (s.pending.map Prod.snd ++ s.delivered) := by
      have hpending := ((List.perm_cons_erase hmem).map Prod.snd).append_right s.delivered
      refine List.Perm.trans ?_ hpending.symm
      rw [← List.append_assoc]
      exact List.perm_append_singleton _ _
    refine ⟨h.recorded, h.alone, h.fresh, hperm.nodup_iff.mpr h.once,
      fun b hb => h.bounded b (hperm.mem_iff.mp hb)⟩
  · cases hstep

omit [DecidableEq W] in
theorem subscribing_push (h : s.push.Subscribing i w) : s.Subscribing i w := by
  obtain ⟨task, htask, hstage⟩ := h
  rcases Nat.lt_or_ge i s.tasks.length with hlt | hge
  · exact ⟨task, (List.getElem?_append_left hlt).symm.trans htask, hstage⟩
  · have hlast := List.mem_of_getElem? ((List.getElem?_append_right hge).symm.trans htask)
    rw [List.mem_singleton.mp hlast] at hstage
    cases hstage

theorem Sound.called (h : s.Sound) {call : Call W}
    (hop : ∀ w, (s.ops call).head? = some (.start w) → (s.recorded w).isSome = true ∨ ∀ i,
      ¬ s.Subscribing i w) :
    (s.called call).Sound := by
  have hpushed : s.push.Sound := h.moved rfl rfl rfl rfl rfl (fun _ _ => subscribing_push)
  unfold WorkspaceWatcherManager.called
  cases hops : s.ops call with
  | nil => exact hpushed
  | cons op todo =>
    refine hpushed.beginOp (fun w hstart => ?_)
    have hhead : (s.ops call).head? = some (.start w) := by rw [hops, hstart, List.head?_cons]
    exact (hop w hhead).imp_right (fun hnone i hi => hnone i (subscribing_push hi))

def nextOp (s : WorkspaceWatcherManager W) : Event W → Option (Op W)
  | .call call => (s.ops call).head?
  | .resume i =>
    match s.tasks[i]? with
    | some ⟨op :: _, .ready⟩ => some op
    | _ => none
  | _ => none

structure Orderly (s : WorkspaceWatcherManager W) (event : Event W) : Prop where
  start : ∀ w, s.nextOp event = some (.start w) → (s.recorded w).isSome = true ∨ ∀ i,
    ¬ s.Subscribing i w
  stop : ∀ i todo w subscription, event = .unsubscribed i true →
    s.tasks[i]? = some ⟨todo, .unsubscribing w subscription⟩ → s.recorded w = none ∨
      s.recorded w = subscription

theorem Sound.resume (h : s.Sound) (horderly : Orderly s (.resume i))
    (hstep : s.resume i = some next) :
    next.Sound := by
  unfold WorkspaceWatcherManager.resume at hstep
  split at hstep
  · rename_i op todo htask
    obtain rfl := Option.some.inj hstep
    refine h.beginOp (fun w hop => horderly.start w ?_)
    rw [nextOp, htask, hop]
  · cases hstep

theorem Sound.step (h : s.Sound) {event : Event W} (horderly : Orderly s event)
    (hstep : s.step event = some next) :
    next.Sound := by
  cases event with
  | call call =>
    obtain rfl := Option.some.inj hstep
    exact h.called horderly.start
  | resume i => exact h.resume horderly hstep
  | subscribed i succeeds => exact h.subscribed hstep
  | awaited i => exact h.awaited hstep
  | unsubscribed i succeeds =>
    refine h.unsubscribed (fun hsucceeds todo w subscription htask => ?_) hstep
    exact horderly.stop i todo w subscription (by rw [hsucceeds]) htask
  | emit w early =>
    obtain rfl := Option.some.inj hstep
    exact h.emit w early
  | handle chain => exact h.handle hstep

def AllOrderly (s : WorkspaceWatcherManager W) : List (Event W) → Prop
  | [] => True
  | event :: events => Orderly s event ∧ ∀ next, s.step event = some next → next.AllOrderly events

theorem Sound.run (h : s.Sound) {events : List (Event W)} (horderly : s.AllOrderly events)
    (hrun : s.run events = some next) : next.Sound := by
  induction events generalizing s with
  | nil =>
    obtain rfl := Option.some.inj hrun
    exact h
  | cons event events ih =>
    obtain ⟨middle, hstep, hrest⟩ := Option.bind_eq_some_iff.mp hrun
    exact ih (h.step horderly.1 hstep) (horderly.2 middle hstep) hrest

def Owned (s : WorkspaceWatcherManager W) : Prop :=
  ∀ (id : ℕ) (sub : Subscription W), s.obtained[id]? = some sub →
    s.recorded sub.workspace = some id ∨ sub.unsubscribed = true

def NoneLive (s : WorkspaceWatcherManager W) (w : W) : Prop :=
  ∀ (id : ℕ) (sub : Subscription W), s.obtained[id]? = some sub → sub.workspace = w →
    sub.unsubscribed = true

theorem Sound.owned (h : s.Sound) : s.Owned := by
  intro id sub hsub
  cases hlive : sub.unsubscribed with
  | true => exact .inr rfl
  | false => exact .inl (h.recorded id sub hsub hlive)

theorem Sound.noneLive (h : s.Sound) (hnone : s.recorded w = none) : s.NoneLive w := by
  rintro id sub hsub rfl
  rcases h.owned id sub hsub with hrecorded | hended
  · cases hnone.symm.trans hrecorded
  · exact hended

theorem recorded_unsubscribed {subscription : Option ℕ}
    (htask : s.tasks[i]? = some ⟨todo, .unsubscribing w subscription⟩)
    (hstep : s.unsubscribed i true = some next) : next.recorded w = none := by
  unfold WorkspaceWatcherManager.unsubscribed at hstep
  rw [htask] at hstep
  obtain rfl := Option.some.inj hstep
  exact AssocMap.get_erase_self _ _

theorem one_subscription_per_workspace {events : List (Event W)}
    (horderly : AllOrderly ({} : WorkspaceWatcherManager W) events)
    (hrun : run {} events = some s) :
    s.Owned ∧ s.delivered.Nodup ∧ ∀ i todo w subscription next,
      s.tasks[i]? = some ⟨todo, .unsubscribing w subscription⟩ → Orderly s (.unsubscribed i true) →
        s.step (.unsubscribed i true) = some next → next.NoneLive w := by
  have hsound := Sound.initial.run horderly hrun
  refine ⟨hsound.owned, hsound.once.of_append_right,
    fun i todo w subscription next htask hstop hstep => ?_⟩
  exact (hsound.step hstop hstep).noneLive (recorded_unsubscribed htask hstep)

def startsAlone (s : WorkspaceWatcherManager W) (event : Event W) : Bool :=
  match s.nextOp event with
  | some (.start w) => (s.recorded w).isSome || s.tasks.all (fun task => !isSubscribing w task)
  | _ => true

def stopsOwn (s : WorkspaceWatcherManager W) : Event W → Bool
  | .unsubscribed i true =>
    match s.tasks[i]? with
    | some ⟨_, .unsubscribing w subscription⟩ =>
      decide (s.recorded w = none) || decide (s.recorded w = subscription)
    | _ => true
  | _ => true

theorem subscribing_iff : (∃ i, s.Subscribing i w) ↔ ∃ task ∈ s.tasks,
      isSubscribing w task = true := by
  constructor
  · rintro ⟨i, task, htask, hstage⟩
    exact ⟨task, List.mem_of_getElem? htask, decide_eq_true hstage⟩
  · rintro ⟨task, htask, hstage⟩
    obtain ⟨i, hi⟩ := List.mem_iff_getElem?.mp htask
    exact ⟨i, task, hi, of_decide_eq_true hstage⟩

theorem startsAlone_iff {event : Event W} : s.startsAlone event = true ↔
    ∀ w, s.nextOp event = some (.start w) → (s.recorded w).isSome = true ∨ ∀ i,
      ¬ s.Subscribing i w := by
  have hnobody : ∀ w, (s.tasks.all (fun task => !isSubscribing w task)) = true ↔
      ∀ i, ¬ s.Subscribing i w := by
    intro w
    rw [← not_exists, subscribing_iff]
    simp
  rw [startsAlone]
  cases s.nextOp event with
  | none => simp
  | some op => cases op <;> simp [hnobody]

theorem stopsOwn_iff {event : Event W} : s.stopsOwn event = true ↔
    ∀ i todo w subscription, event = .unsubscribed i true →
      s.tasks[i]? = some ⟨todo, .unsubscribing w subscription⟩ → s.recorded w = none ∨
        s.recorded w = subscription := by
  cases event with
  | unsubscribed i succeeds =>
    cases succeeds with
    | false => simp [stopsOwn]
    | true =>
      simp only [stopsOwn]
      split
      · rename_i todo w subscription htask
        rw [Bool.or_eq_true, decide_eq_true_iff, decide_eq_true_iff]
        refine ⟨?_, fun h => h i todo w subscription rfl htask⟩
        rintro h _ _ _ _ ⟨⟩ htask'
        cases htask.symm.trans htask'
        exact h
      · rename_i hnot
        refine ⟨?_, fun _ => rfl⟩
        rintro - _ todo w subscription ⟨⟩ htask
        exact absurd htask (hnot todo w subscription)
  | _ => simp [stopsOwn]

instance (s : WorkspaceWatcherManager W) (event : Event W) : Decidable (Orderly s event) :=
  decidable_of_iff (s.startsAlone event = true ∧ s.stopsOwn event = true)
    ⟨fun h => ⟨startsAlone_iff.mp h.1, stopsOwn_iff.mp h.2⟩,
      fun h => ⟨startsAlone_iff.mpr h.start, stopsOwn_iff.mpr h.stop⟩⟩

instance decidableAllOrderly : (s : WorkspaceWatcherManager W) → (events : List (Event W)) →
    Decidable (s.AllOrderly events)
  | _, [] => .isTrue trivial
  | s, event :: events =>
    match hstep : s.step event with
    | none => decidable_of_iff (Orderly s event)
        ⟨fun h => ⟨h, fun _ hnext => by cases hstep.symm.trans hnext⟩, And.left⟩
    | some next =>
      have := decidableAllOrderly next events
      decidable_of_iff (Orderly s event ∧ next.AllOrderly events)
        (and_congr_right (fun _ => ⟨fun h _ hnext => Option.some.inj (hstep.symm.trans hnext) ▸ h,
          fun h => h next hstep⟩))

-- The second workspace starts while the first subscribes; the last start comes during the stop.
def overlappingCalls : List (Event ℕ) :=
  [.call (.start 0), .call (.start 1), .subscribed 1 true, .emit 0 true, .subscribed 0 true,
    .emit 0 false,
    .emit 1 false, .handle 0, .call (.stop 0), .handle 1, .handle 0, .awaited 2, .call (.start 1)]

def stopping : WorkspaceWatcherManager ℕ := (run {} overlappingCalls).get (by decide +kernel)

theorem one_subscription_started : run {} overlappingCalls = some stopping ∧ stopping.Owned ∧
    stopping.delivered.Nodup ∧ ∃ next, stopping.step (.unsubscribed 2 true) = some next ∧
      next.NoneLive 0 := by
  have horderly : AllOrderly ({} : WorkspaceWatcherManager ℕ) overlappingCalls := by decide +kernel
  have hrun : run {} overlappingCalls = some stopping := (Option.some_get _).symm
  have htask : stopping.tasks[2]? = some ⟨[], .unsubscribing 0 (some 1)⟩ := by decide +kernel
  have hstop : Orderly stopping (.unsubscribed 2 true) := by decide +kernel
  have hstep : (stopping.step (.unsubscribed 2 true)).isSome = true := by decide +kernel
  obtain ⟨next, hnext⟩ := Option.isSome_iff_exists.mp hstep
  obtain ⟨howned, hdelivered, hended⟩ := one_subscription_per_workspace horderly hrun
  exact ⟨hrun, howned, hdelivered, next, hnext, hended 2 [] 0 (some 1) next htask hstop hnext⟩

def overlappingStarts : List (Event ℕ) :=
  [.call (.start 0), .call (.start 0), .subscribed 0 true, .subscribed 1 true, .emit 0 false,
    .handle 1, .handle 1]

theorem overlapping_starts_leak : ∃ s : WorkspaceWatcherManager ℕ,
    run {} overlappingStarts = some s ∧ ¬ s.Owned ∧ ¬ s.delivered.Nodup := by
  refine ⟨(run {} overlappingStarts).get (by decide), (Option.some_get _).symm,
    fun h => ?_, by decide⟩
  have hfirst := h 0 ⟨0, false⟩ (by decide)
  revert hfirst
  decide

end WorkspaceWatcherManager

end Watchers

end Engine
