import Urdira.Lib.ByteLayout
import Urdira.Lib.ExceptOk

open ByteOrder

namespace FramedStream

variable {ε σ μ : Type}

structure Protocol (ε σ μ : Type) where
  lengthError : ℕ → Option ε
  accept : σ → Bytes → Except ε (Option μ × σ)

def bodyLength (buffered : Bytes) : ℕ := beValue (buffered.take 4)

def next (p : Protocol ε σ μ) (buffered : Bytes) (s : σ) :
    Except ε (Option (Option μ × Bytes × σ)) :=
  if buffered.length < 4 then .ok none
  else
    match p.lengthError (bodyLength buffered) with
    | some e => .error e
    | none =>
      if buffered.length < 4 + bodyLength buffered then .ok none
      else
        match p.accept s ((buffered.drop 4).take (bodyLength buffered)) with
        | .error e => .error e
        | .ok (message, s) => .ok (some (message, buffered.drop (4 + bodyLength buffered), s))

def drainLoop (p : Protocol ε σ μ) : ℕ → Bytes → σ → Except ε (List μ × Bytes × σ)
  | 0, buffered, s => .ok ([], buffered, s)
  | fuel + 1, buffered, s =>
    match next p buffered s with
    | .error e => .error e
    | .ok none => .ok ([], buffered, s)
    | .ok (some (message, rest, s)) =>
      match drainLoop p fuel rest s with
      | .error e => .error e
      | .ok (completed, rest) => .ok (message.toList ++ completed, rest)

def push (p : Protocol ε σ μ) (buffered : Bytes) (s : σ) (chunk : Bytes) :
    Except ε (List μ × Bytes × σ) :=
  drainLoop p (buffered ++ chunk).length (buffered ++ chunk) s

def pushAll (p : Protocol ε σ μ) : Bytes → σ → List Bytes → List μ × Except ε (Bytes × σ)
  | buffered, s, [] => ([], .ok (buffered, s))
  | buffered, s, chunk :: chunks =>
    match push p buffered s chunk with
    | .error e => ([], .error e)
    | .ok (completed, rest, s) =>
        (completed ++ (pushAll p rest s chunks).1, (pushAll p rest s chunks).2)

inductive Reads (p : Protocol ε σ μ) : Bytes → σ → List μ → Except ε (Bytes × σ) → Prop
  | stops {buffered : Bytes} {s : σ} (h : next p buffered s = .ok none) :
    Reads p buffered s [] (.ok (buffered, s))
  | fails {buffered : Bytes} {s : σ} {e : ε} (h : next p buffered s = .error e) :
      Reads p buffered s [] (.error e)
  | frame {buffered rest : Bytes} {s s' : σ} {message : Option μ} {messages : List μ}
      {outcome : Except ε (Bytes × σ)}
      (h : next p buffered s = .ok (some (message, rest, s')))
        (hrest : Reads p rest s' messages outcome) :
      Reads p buffered s (message.toList ++ messages) outcome

theorem next_frame {p : Protocol ε σ μ} {buffered rest : Bytes} {s s' : σ} {message : Option μ}
    (h : next p buffered s = .ok (some (message, rest, s'))) :
    4 + bodyLength buffered ≤ buffered.length ∧ rest = buffered.drop (4 + bodyLength buffered) ∧
      p.lengthError (bodyLength buffered) = none ∧
      p.accept s ((buffered.drop 4).take (bodyLength buffered)) = .ok (message, s') := by
  unfold next at h
  split at h
  · cases h
  · split at h
    · cases h
    · next hlength =>
      split at h
      · cases h
      · next hcomplete =>
        split at h
        · cases h
        · next haccept =>
          cases h
          exact ⟨Nat.le_of_not_lt hcomplete, rfl, hlength, haccept⟩

theorem next_error {p : Protocol ε σ μ} {buffered : Bytes} {s : σ} {e : ε}
    (h : next p buffered s = .error e) :
    4 ≤ buffered.length ∧ (p.lengthError (bodyLength buffered) = some e ∨
      p.lengthError (bodyLength buffered) = none ∧ 4 + bodyLength buffered ≤ buffered.length ∧
        p.accept s ((buffered.drop 4).take (bodyLength buffered)) = .error e) := by
  unfold next at h
  split at h
  · cases h
  · next hfront =>
    refine ⟨Nat.le_of_not_lt hfront, ?_⟩
    split at h
    · next hlength => exact .inl (by cases h; exact hlength)
    · next hlength =>
      split at h
      · cases h
      · next hcomplete =>
        split at h
        · next haccept => exact .inr ⟨hlength, Nat.le_of_not_lt hcomplete,
            by cases h; exact haccept⟩
        · cases h

theorem next_stop {p : Protocol ε σ μ} {buffered : Bytes} {s : σ}
    (h : next p buffered s = .ok none) :
    buffered.length < 4 ∨ 4 ≤ buffered.length ∧ p.lengthError (bodyLength buffered) = none ∧
      buffered.length < 4 + bodyLength buffered := by
  unfold next at h
  split at h
  · next hfront => exact .inl hfront
  · next hfront =>
    split at h
    · cases h
    · next hlength =>
      split at h
      · next hincomplete => exact .inr ⟨Nat.le_of_not_lt hfront, hlength, hincomplete⟩
      · split at h
        · cases h
        · cases h

theorem bodyLength_append {buffered : Bytes} (h : 4 ≤ buffered.length) (chunk : Bytes) :
    bodyLength (buffered ++ chunk) = bodyLength buffered := by
  rw [bodyLength, bodyLength, List.take_append_of_le_length h]

theorem body_append {buffered : Bytes} {n : ℕ} (h : 4 + n ≤ buffered.length) (chunk : Bytes) :
    ((buffered ++ chunk).drop 4).take n = (buffered.drop 4).take n := by
  rw [List.drop_append_of_le_length (by omega),
    List.take_append_of_le_length (by rw [List.length_drop]; omega)]

theorem next_append {p : Protocol ε σ μ} {buffered rest : Bytes} {s s' : σ} {message : Option μ}
    (h : next p buffered s = .ok (some (message, rest, s'))) (chunk : Bytes) :
    next p (buffered ++ chunk) s = .ok (some (message, rest ++ chunk, s')) := by
  obtain ⟨hcomplete, rfl, hlength, haccept⟩ := next_frame h
  have hfour : ¬ (buffered ++ chunk).length < 4 := by rw [List.length_append]; omega
  have hall : ¬ (buffered ++ chunk).length < 4 + bodyLength buffered := by
    rw [List.length_append]; omega
  unfold next
  rw [bodyLength_append (by omega), if_neg hfour, hlength]
  simp only [if_neg hall, body_append hcomplete, haccept, List.drop_append_of_le_length hcomplete]

theorem next_append_error {p : Protocol ε σ μ} {buffered : Bytes} {s : σ} {e : ε}
    (h : next p buffered s = .error e)
    (chunk : Bytes) : next p (buffered ++ chunk) s = .error e := by
  obtain ⟨hfront, hreason⟩ := next_error h
  have hfour : ¬ (buffered ++ chunk).length < 4 := by rw [List.length_append]; omega
  unfold next
  rw [bodyLength_append hfront, if_neg hfour]
  rcases hreason with hlength | ⟨hlength, hcomplete, haccept⟩
  · simp only [hlength]
  · have hall : ¬ (buffered ++ chunk).length < 4 + bodyLength buffered := by
      rw [List.length_append]; omega
    simp only [hlength, if_neg hall, body_append hcomplete, haccept]

theorem next_shorter {p : Protocol ε σ μ} {buffered rest : Bytes} {s s' : σ} {message : Option μ}
    (h : next p buffered s = .ok (some (message, rest, s'))) : rest.length < buffered.length := by
  obtain ⟨hcomplete, rfl, -⟩ := next_frame h
  rw [List.length_drop]
  omega

theorem exists_reads (p : Protocol ε σ μ) (buffered : Bytes) (s : σ) :
    ∃ messages outcome, Reads p buffered s messages outcome := by
  induction hlen : buffered.length using Nat.strongRecOn generalizing buffered s with
  | ind n ih =>
    cases hnext : next p buffered s with
    | error e => exact ⟨[], .error e, .fails hnext⟩
    | ok frame =>
      cases frame with
      | none => exact ⟨[], .ok (buffered, s), .stops hnext⟩
      | some frame =>
        obtain ⟨message, rest, s'⟩ := frame
        have hshorter := next_shorter hnext
        obtain ⟨messages, outcome, hrest⟩ := ih rest.length (by omega) rest s' rfl
        exact ⟨message.toList ++ messages, outcome, .frame hnext hrest⟩

def answer (messages : List μ) : Except ε (Bytes × σ) → Except ε (List μ × Bytes × σ)
  | .error e => .error e
  | .ok rest => .ok (messages, rest)

theorem drainLoop_eq {p : Protocol ε σ μ} {buffered : Bytes} {s : σ} {messages : List μ}
    {outcome : Except ε (Bytes × σ)} (h : Reads p buffered s messages outcome) {fuel : ℕ}
    (hfuel : buffered.length ≤ fuel) : drainLoop p fuel buffered s = answer messages outcome := by
  induction h generalizing fuel with
  | stops hnext =>
    cases fuel with
    | zero => rfl
    | succ fuel => simp only [drainLoop, hnext, answer]
  | fails hnext =>
    cases fuel with
    | zero =>
      have hfour := (next_error hnext).1
      omega
    | succ fuel => simp only [drainLoop, hnext, answer]
  | frame hnext hrest ih =>
    have hshorter := next_shorter hnext
    cases fuel with
    | zero => omega
    | succ fuel =>
      simp only [drainLoop, hnext, ih (show _ ≤ fuel by omega)]
      split
      · next heq =>
        rename_i outcome _ _
        cases outcome with
        | error e => exact heq.symm
        | ok rest => cases heq
      · next heq =>
        rename_i outcome _ _ _
        cases outcome with
        | error e => cases heq
        | ok rest =>
          cases heq
          rfl

theorem Reads.stuck {p : Protocol ε σ μ} {buffered rest : Bytes} {s s' : σ} {messages : List μ}
    (h : Reads p buffered s messages (.ok (rest, s'))) : next p rest s' = .ok none := by
  generalize hout : Except.ok (rest, s') = outcome at h
  induction h with
  | stops hnext =>
    cases hout
    exact hnext
  | fails hnext => cases hout
  | frame hnext hrest ih => exact ih hout

theorem Reads.det {p : Protocol ε σ μ} {buffered : Bytes} {s : σ} {messages messages' : List μ}
    {outcome outcome' : Except ε (Bytes × σ)} (h : Reads p buffered s messages outcome)
    (h' : Reads p buffered s messages' outcome') : messages = messages' ∧ outcome = outcome' := by
  induction h generalizing messages' with
  | stops hnext =>
    cases h' with
    | stops hnext' => exact ⟨rfl, rfl⟩
    | fails hnext' => cases hnext.symm.trans hnext'
    | frame hnext' hrest' => cases hnext.symm.trans hnext'
  | fails hnext =>
    cases h' with
    | stops hnext' => cases hnext.symm.trans hnext'
    | fails hnext' =>
      cases hnext.symm.trans hnext'
      exact ⟨rfl, rfl⟩
    | frame hnext' hrest' => cases hnext.symm.trans hnext'
  | frame hnext hrest ih =>
    cases h' with
    | stops hnext' => cases hnext.symm.trans hnext'
    | fails hnext' => cases hnext.symm.trans hnext'
    | frame hnext' hrest' =>
      cases hnext.symm.trans hnext'
      obtain ⟨rfl, hout⟩ := ih hrest'
      exact ⟨rfl, hout⟩

theorem Reads.append {p : Protocol ε σ μ} {buffered rest chunk : Bytes} {s s' : σ}
    {messages later : List μ}
    {outcome : Except ε (Bytes × σ)} (h : Reads p buffered s messages (.ok (rest, s')))
    (hlater : Reads p (rest ++ chunk) s' later outcome) :
    Reads p (buffered ++ chunk) s (messages ++ later) outcome := by
  generalize hout : Except.ok (rest, s') = first at h
  induction h with
  | stops hnext =>
    cases hout
    exact hlater
  | fails hnext => cases hout
  | frame hnext hrest ih =>
    rw [List.append_assoc]
    exact .frame (next_append hnext chunk) (ih hout)

theorem Reads.append_error {p : Protocol ε σ μ} {buffered : Bytes} {s : σ}
    {messages : List μ} {e : ε}
    (h : Reads p buffered s messages (.error e)) (chunk : Bytes) :
    Reads p (buffered ++ chunk) s messages (.error e) := by
  generalize hout : Except.error e = outcome at h
  induction h with
  | stops hnext => cases hout
  | fails hnext =>
    cases hout
    exact .fails (next_append_error hnext chunk)
  | frame hnext hrest ih => exact .frame (next_append hnext chunk) (ih hout)

theorem push_eq {p : Protocol ε σ μ} {buffered chunk : Bytes} {s : σ} {messages : List μ}
    {outcome : Except ε (Bytes × σ)} (h : Reads p (buffered ++ chunk) s messages outcome) :
    push p buffered s chunk = answer messages outcome :=
  drainLoop_eq h le_rfl

theorem push_chunk (p : Protocol ε σ μ) (buffered chunk : Bytes) (s : σ) :
    (∃ messages e, Reads p (buffered ++ chunk) s messages (.error e) ∧ push p buffered s chunk =
      .error e) ∨
      ∃ messages rest s', Reads p (buffered ++ chunk) s messages (.ok (rest, s')) ∧
        push p buffered s chunk = .ok (messages, rest, s') := by
  obtain ⟨messages, outcome, hreads⟩ := exists_reads p (buffered ++ chunk) s
  cases outcome with
  | error e => exact .inl ⟨messages, e, hreads, push_eq hreads⟩
  | ok rest => exact .inr ⟨messages, rest.1, rest.2, hreads, push_eq hreads⟩

theorem pushAll_ok {p : Protocol ε σ μ} {chunks : List Bytes} {buffered rest : Bytes} {s s' : σ}
    {messages : List μ}
    (hstuck : next p buffered s = .ok none)
    (h : Reads p (buffered ++ chunks.flatten) s messages (.ok (rest, s'))) :
    pushAll p buffered s chunks = (messages, .ok (rest, s')) := by
  induction chunks generalizing buffered s messages with
  | nil =>
    rw [List.flatten_nil, List.append_nil] at h
    obtain ⟨rfl, hout⟩ := h.det (.stops hstuck)
    rw [pushAll, hout]
  | cons chunk chunks ih =>
    rw [List.flatten_cons, ← List.append_assoc] at h
    rcases push_chunk p buffered chunk s with ⟨first, e, hfirst, -⟩ | ⟨first, middle, t,
      hfirst, hpush⟩
    · cases (h.det (hfirst.append_error chunks.flatten)).2
    · obtain ⟨later, outcome, hlater⟩ := exists_reads p (middle ++ chunks.flatten) t
      obtain ⟨rfl, rfl⟩ := h.det (hfirst.append hlater)
      simp only [pushAll, hpush, ih hfirst.stuck hlater]

theorem pushAll_error {p : Protocol ε σ μ} {chunks : List Bytes} {buffered : Bytes} {s : σ}
    {messages : List μ} {e : ε}
    (hstuck : next p buffered s = .ok none)
    (h : Reads p (buffered ++ chunks.flatten) s messages (.error e)) :
    (pushAll p buffered s chunks).1 <+: messages ∧ (pushAll p buffered s chunks).2 = .error e := by
  induction chunks generalizing buffered s messages with
  | nil =>
    rw [List.flatten_nil, List.append_nil] at h
    cases (h.det (.stops hstuck)).2
  | cons chunk chunks ih =>
    rw [List.flatten_cons, ← List.append_assoc] at h
    rcases push_chunk p buffered chunk s with ⟨first, e', hfirst, hpush⟩ | ⟨first, middle, t,
      hfirst, hpush⟩
    · obtain ⟨-, hout⟩ := h.det (hfirst.append_error chunks.flatten)
      simp only [pushAll, hpush, hout]
      exact ⟨List.nil_prefix, trivial⟩
    · obtain ⟨later, outcome, hlater⟩ := exists_reads p (middle ++ chunks.flatten) t
      obtain ⟨rfl, rfl⟩ := h.det (hfirst.append hlater)
      obtain ⟨hfront, hout⟩ := ih hfirst.stuck hlater
      simp only [pushAll, hpush, hout]
      exact ⟨(List.prefix_append_right_inj first).mpr hfront, trivial⟩

theorem next_one_byte {p : Protocol ε σ μ} {buffered rest : Bytes} {byte : Byte} {s s' : σ}
    {message : Option μ}
    (hstuck : next p buffered s = .ok none)
    (h : next p (buffered ++ [byte]) s = .ok (some (message, rest, s'))) :
    rest = [] := by
  obtain ⟨hcomplete, rfl, -, -⟩ := next_frame h
  rw [List.drop_eq_nil_iff]
  rw [List.length_append, List.length_singleton] at hcomplete ⊢
  rcases next_stop hstuck with hfront | ⟨hfront, -, hincomplete⟩
  · omega
  · rw [bodyLength_append hfront] at hcomplete ⊢
    omega

theorem next_nil (p : Protocol ε σ μ) (s : σ) : next p [] s = .ok none := if_pos (by decide)

theorem pushAll_bytes {p : Protocol ε σ μ} {bytes buffered : Bytes} {s : σ}
    {messages : List μ} {e : ε}
    (hstuck : next p buffered s = .ok none)
    (h : Reads p (buffered ++ bytes) s messages (.error e)) :
    (pushAll p buffered s (bytes.map (fun byte => [byte]))).1 = messages := by
  induction bytes generalizing buffered s messages with
  | nil =>
    rw [List.append_nil] at h
    cases (h.det (.stops hstuck)).2
  | cons byte bytes ih =>
    have hsplit : buffered ++ byte :: bytes = buffered ++ [byte] ++ bytes := by
      rw [List.append_assoc]; rfl
    rw [hsplit] at h
    cases hnext : next p (buffered ++ [byte]) s with
    | error e' =>
      obtain ⟨rfl, -⟩ := h.det ((Reads.fails hnext).append_error bytes)
      rw [List.map_cons, pushAll, push_eq (.fails hnext), answer]
    | ok frame =>
      cases frame with
      | none =>
        simp only [List.map_cons, pushAll, push_eq (.stops hnext), answer, List.nil_append]
        exact ih hnext h
      | some frame =>
        obtain ⟨message, rest, s'⟩ := frame
        obtain rfl := next_one_byte hstuck hnext
        have hreads := Reads.frame hnext (.stops (next_nil p s'))
        obtain ⟨later, outcome, hlater⟩ := exists_reads p ([] ++ bytes) s'
        obtain ⟨rfl, rfl⟩ := h.det (hreads.append hlater)
        simp only [List.map_cons, pushAll, push_eq hreads, answer, ih (next_nil p s') hlater]

def DeliversBeforeError (p : Protocol ε σ μ) (s : σ) (bytes : Bytes) : Prop :=
  ∃ messages e, messages ≠ [] ∧ Reads p bytes s messages (.error e)

theorem pushAll_agrees_iff (p : Protocol ε σ μ) (s : σ) (bytes : Bytes) :
    (∀ cut cut' : List Bytes, cut.flatten = bytes → cut'.flatten = bytes →
      (pushAll p [] s cut).1 = (pushAll p [] s cut').1 ∧
        ((pushAll p [] s cut).2.isOk = (pushAll p [] s cut').2.isOk)) ↔
          ¬ DeliversBeforeError p s bytes := by
  constructor
  · rintro hagree ⟨messages, e, hne, hreads⟩
    have hbytewise : (bytes.map (fun byte => [byte])).flatten = bytes := by
      rw [← List.flatMap_def, List.flatMap_singleton']
    have hwhole : (pushAll p [] s [bytes]).1 = [] := by
      rw [pushAll, push_eq hreads, answer]
    have hsame :=
      (hagree [bytes] (bytes.map (fun byte => [byte])) (List.append_nil bytes) hbytewise).1
    rw [hwhole, pushAll_bytes (next_nil p s) hreads] at hsame
    exact hne hsame.symm
  · intro hnone cut cut' hcut hcut'
    obtain ⟨messages, outcome, hreads⟩ := exists_reads p bytes s
    cases outcome with
    | ok rest =>
      have hall : ∀ chunks : List Bytes, chunks.flatten = bytes →
          pushAll p [] s chunks = (messages, .ok rest) := by
        rintro chunks rfl
        exact pushAll_ok (next_nil p s) hreads
      rw [hall cut hcut, hall cut' hcut']
      exact ⟨rfl, rfl⟩
    | error e =>
      have hempty : messages = [] :=
        Classical.byContradiction (fun hne => hnone ⟨messages, e, hne, hreads⟩)
      have hall : ∀ chunks : List Bytes, chunks.flatten = bytes →
          pushAll p [] s chunks = ([], .error e) := by
        rintro chunks rfl
        obtain ⟨hfront, hout⟩ := pushAll_error (next_nil p s) hreads
        rw [hempty, List.prefix_nil] at hfront
        exact Prod.ext hfront hout
      rw [hall cut hcut, hall cut' hcut']
      exact ⟨rfl, rfl⟩

section Frames

def beBytes : ℕ → ℕ → Bytes
  | 0, _ => []
  | w + 1, v => Fin.ofNat 256 (v / 256 ^ w) :: beBytes w v

@[simp] theorem length_beBytes (w v : ℕ) : (beBytes w v).length = w := by
  induction w with
  | zero => rfl
  | succ w ih => rw [beBytes, List.length_cons, ih]

theorem beValue_beBytes (w v : ℕ) : beValue (beBytes w v) = v % 256 ^ w := by
  induction w with
  | zero => rw [beBytes, beValue, pow_zero, Nat.mod_one]
  | succ w ih =>
    have hmod : (Fin.ofNat 256 (v / 256 ^ w)).val = v / 256 ^ w % 256 := rfl
    rw [beBytes, beValue, ih, length_beBytes, hmod, Nat.mod_pow_succ, Nat.mul_comm, Nat.add_comm]

def framed (body : Bytes) : Bytes := beBytes 4 body.length ++ body

theorem length_framed (body : Bytes) : (framed body).length = 4 + body.length := by
  rw [framed, List.length_append, length_beBytes]

theorem bodyLength_framed {body : Bytes} (hshort : body.length < 256 ^ 4) (rest : Bytes) :
    bodyLength (framed body ++ rest) = body.length := by
  rw [bodyLength, framed, List.append_assoc, List.take_append_of_le_length (by rw [length_beBytes]),
    List.take_of_length_le (by rw [length_beBytes]), beValue_beBytes, Nat.mod_eq_of_lt hshort]

theorem drop_framed (body rest : Bytes) : (framed body ++ rest).drop 4 = body ++ rest := by
  rw [framed, List.append_assoc, List.drop_append_of_le_length (by rw [length_beBytes]),
    List.drop_of_length_le (by rw [length_beBytes]), List.nil_append]

theorem next_framed {p : Protocol ε σ μ} {s : σ} {body : Bytes} (hshort : body.length < 256 ^ 4)
    (hlength : p.lengthError body.length = none) (rest : Bytes) :
    next p (framed body ++ rest) s =
      match p.accept s body with
      | .error e => .error e
      | .ok (message, s) => .ok (some (message, rest, s)) := by
  have hbody := bodyLength_framed hshort rest
  have hlen : (framed body ++ rest).length = 4 + body.length + rest.length := by
    rw [List.length_append, length_framed]
  have hdrop := drop_framed body rest
  have hrest : (framed body ++ rest).drop (4 + body.length) = rest := by
    rw [← List.drop_drop, hdrop, List.drop_left]
  unfold next
  rw [hbody, if_neg (by omega), hlength]
  simp only [hrest, hdrop, List.take_left]
  rw [if_neg (by omega)]

theorem Reads.framed {p : Protocol ε σ μ} {s s' : σ} {body rest : Bytes} {message : Option μ}
    {messages : List μ}
    {outcome : Except ε (Bytes × σ)} (hshort : body.length < 256 ^ 4)
    (hlength : p.lengthError body.length = none)
    (haccept : p.accept s body = .ok (message, s')) (hrest : Reads p rest s' messages outcome) :
    Reads p (framed body ++ rest) s (message.toList ++ messages) outcome := by
  refine .frame ?_ hrest
  rw [next_framed hshort hlength rest, haccept]

end Frames

end FramedStream
