import MailRules.Proofs.Grammar.Viable

/-!
Where parsing goes wrong: at the first token behind which no sentence goes on, or at the end of the
input where the tokens are no sentence yet. Only the nesting limits refuse what the grammar derives.

    folder A when x contains then ...
    └─ begins a sentence ──┘ └ refused: no sentence goes on like this
-/

namespace MailRules.Grammar

open MailRules.Parser

/-! ### Where errors stand -/

/-- If this is an error, then it stands at the token, or it is that of a nesting limit. -/
inductive Blames (t : Token) {α : Type} : Except ParseError α → Prop
  | ok {a : α} : Blames t (.ok a)
  | here {x : Expectation} : Blames t (.error (.of t x))
  | tooDeep {o : Token} : Blames t (.error (.of o .lessNesting))

section
variable {α β : Type} (t : Token)

variable {t} in
theorem Blames.bind {x : Except ParseError α} {f : α → Except ParseError β} (hx : Blames t x)
    (hf : ∀ a, Blames t (f a)) : Blames t (x >>= f) := by
  cases hx with
  | ok => exact hf _
  | here => exact .here
  | tooDeep => exact .tooDeep

variable {t} in
theorem Blames.at_token {e : ParseError} (h : Blames t (.error e : Except ParseError α))
    (he : e.expected ≠ .lessNesting) : e.pos = t.pos ∧ e.found = t.display := by
  cases h with
  | here => exact ⟨rfl, rfl⟩
  | tooDeep => exact absurd rfl he

theorem blames_limited (c : Condition) (o : Token) : Blames t (limited c o) := by
  unfold limited
  split
  · exact .tooDeep
  · exact .ok

theorem blames_closeAnd (l : Level) (c : Condition) : Blames t (l.closeAnd c) := by
  unfold Level.closeAnd
  split
  · exact .ok
  · exact blames_limited ..

theorem blames_closeOr (l : Level) (c : Condition) : Blames t (l.closeOr c) := by
  unfold Level.closeOr
  split
  · exact .ok
  · exact blames_limited ..

theorem blames_complete (n : Nesting) (c : Condition) :
    Blames t (ConditionState.complete n c) :=
  (blames_closeAnd t _ c).bind fun _ => .ok

theorem blames_conditionRefuse (s : ConditionState) :
    Blames t (.error (s.refuse t) : Except ParseError α) := by
  unfold ConditionState.refuse
  split
  · next n c =>
    have hclose := blames_closeOr t n.level c
    cases h : n.level.closeOr c with
    | ok c' => exact .here
    | error e =>
      rw [h] at hclose
      cases hclose with
      | here => exact .here
      | tooDeep => exact .tooDeep
  · exact .here

theorem blames_begin (n : Nesting) : Blames t (ConditionState.begin n t) := by
  unfold ConditionState.begin
  split
  · split
    · exact .ok
    · exact .tooDeep
  · split
    · exact .ok
    · exact .tooDeep
  · split
    · exact .ok
    · exact blames_conditionRefuse ..

theorem blames_conditionStep (s : ConditionState) : Blames t (s.step t) := by
  unfold ConditionState.step
  split
  · exact blames_begin ..
  · exact .ok
  · exact .ok
  · exact blames_complete ..
  · exact .ok
  · exact .ok
  · exact .ok
  · exact blames_complete ..
  · exact .ok
  · exact (blames_closeOr ..).bind fun _ => .ok
  · exact (blames_closeOr ..).bind fun _ => blames_complete ..
  · exact blames_conditionRefuse ..

theorem blames_result {s : ConditionState} {r : Except ParseError Condition}
    (h : s.result? = some r) : Blames t r := by
  unfold ConditionState.result? at h
  split at h
  · cases h
    exact blames_closeOr ..
  · cases h

theorem blames_stepCondition (d : FolderDraft) (s : ConditionState) :
    Blames t (State.stepCondition d s t) := by
  unfold State.stepCondition
  split
  · next hresult _ => exact (blames_result t hresult).bind fun _ => .ok
  · exact (blames_conditionStep t s).bind fun _ => .ok

theorem blames_actionStep (s : ActionState) : Blames t (s.step t) := by
  unfold ActionState.step
  split <;> first | exact .ok | exact .here

theorem blames_stepAction (d : FolderDraft) (c : Condition) (actions : List Action)
    (s : ActionState) : Blames t (State.stepAction d c actions s t) := by
  refine (blames_actionStep t s).bind fun x => ?_
  cases x with
  | inl s => exact .ok
  | inr a => exact .ok

theorem blames_placeRefuse (p : Place) : Blames t (.error (p.refuse t) : Except ParseError α) := by
  unfold Place.refuse
  split
  · exact blames_conditionRefuse ..
  · exact .here

theorem blames_step (s : State) : Blames t (s.step t) := by
  unfold State.step
  split <;> try exact .ok
  · split
    · exact .ok
    · exact .here
  · exact (blames_stepCondition ..).bind fun _ => .ok
  · exact (blames_stepAction ..).bind fun _ => .ok
  · exact blames_placeRefuse ..

theorem blames_finish (s : State) : Blames t (s.finish t) := by
  unfold State.finish
  split
  · exact .ok
  · exact blames_placeRefuse ..

end

/-! ### The end of the input -/

theorem display_of_eof {t : Token} (ht : t.kind = .eof) : t.display = "end of input" := by
  simp [Token.display, ht, Token.Kind.display]

/-- The end is the first token of that kind. Where there is none, it is at the last token. -/
theorem endOf_cases (ts : List Token) : ∀ last : Position,
    (∃ t rest, ts = beforeEnd ts ++ t :: rest ∧ t.kind = .eof ∧ endOf last ts = t) ∨
      ts = beforeEnd ts ∧ endOf last ts = .eof ((ts.getLast?.map Token.pos).getD last) := by
  induction ts with
  | nil => exact fun last => .inr ⟨rfl, rfl⟩
  | cons t ts ih =>
    intro last
    by_cases ht : t.kind = .eof
    · exact .inl ⟨t, ts, by simp [beforeEnd, ht], ht, by rw [endOf, if_pos ht]⟩
    · have hbefore : beforeEnd (t :: ts) = t :: beforeEnd ts := by simp [beforeEnd, ht]
      rw [hbefore, endOf, if_neg ht]
      obtain ⟨o, rest, hts, ho, hend⟩ | ⟨hts, hend⟩ := ih t.pos
      · exact .inl ⟨o, rest, congrArg (t :: ·) hts, ho, hend⟩
      · refine .inr ⟨congrArg (t :: ·) hts, hend.trans (congrArg Token.eof ?_)⟩
        cases hlast : ts.getLast? <;> simp [List.getLast?_cons, hlast]

/-! ### Refusals -/

/-- What an error says about the tokens, where they are read up to a point. -/
inductive Refused (ts : List Token) (e : ParseError) : Prop
  /-- The next token goes on with the beginning of no sentence. -/
  | token {read rest : List Token} {t : Token} : ts = read ++ t :: rest → t.kind ≠ .eof →
      Unended read → Viable read → ¬ Viable (read ++ [t]) → e.pos = t.pos →
      e.found = t.display → Refused ts e
  /-- The input ends here, before the sentence does. -/
  | eof {read rest : List Token} {t : Token} : ts = read ++ t :: rest → t.kind = .eof →
      Unended read → Viable read → ¬ Sentence read → e.pos = t.pos →
      e.found = "end of input" → Refused ts e
  /-- No token is left, and the sentence has not ended. -/
  | behind : Unended ts → Viable ts → ¬ Sentence ts →
      e.pos = (ts.getLast?.map Token.pos).getD .start → e.found = "end of input" → Refused ts e

variable {ts : List Token} {e : ParseError}

theorem Agrees.expected {α : Type} {lim : Limits} {a : α} (h : Agrees lim (.error e) (.ok a)) :
    e.expected = .lessNesting := by
  cases h with
  | tooDeep => rfl

/-- The parser stops inside a sentence only at a nesting limit. -/
theorem Sentence.expected (h : Sentence ts) (he : feed State.step .initial ts = .error e) :
    e.expected = .lessNesting := by
  obtain ⟨p, hp⟩ := h
  obtain ⟨s, hread, -⟩ := feed_folders hp opensFolder_initial
  rw [he] at hread
  exact hread.expected

theorem Sentence.finish_eq_ok {s : State} (h : Sentence ts)
    (hs : feed State.step .initial ts = .ok s) (t : Token) : ∃ p, s.finish t = .ok p := by
  obtain ⟨p, hp⟩ := h
  obtain ⟨s', hread, hend⟩ := feed_folders hp opensFolder_initial
  rw [hs] at hread
  cases hread
  exact ⟨_, by rw [State.finish, hend.program]⟩

/-- A token that is refused goes on with no beginning of a sentence. -/
theorem not_viable_of_step {s : State} {t : Token} (hs : feed State.step .initial ts = .ok s)
    (ht : s.step t = .error e) (he : e.expected ≠ .lessNesting) : ¬ Viable (ts ++ [t]) := by
  rintro ⟨us, hus⟩
  refine he (hus.expected ?_)
  rw [List.append_assoc, feed_append_of_ok hs, List.singleton_append, feed_cons, ht]
  rfl

theorem viable_of_feed {s : State} (hs : feed State.step .initial ts = .ok s) : Viable ts :=
  (feed_invariant stateTook_step _ stateTook_initial hs).viable

theorem refused_of_step (h : feed State.step .initial (beforeEnd ts) = .error e)
    (he : e.expected ≠ .lessNesting) : Refused ts e := by
  obtain ⟨read, t, rest, s, hts, hs, ht⟩ := feed_eq_error _ h
  have hunended := unended_beforeEnd ts
  rw [hts] at hunended
  obtain ⟨hread, hrest⟩ := unended_append.1 hunended
  have hplace := ht ▸ blames_step t s
  have hsplit : ts = read ++ t :: (rest ++ ts.dropWhile (·.kind ≠ .eof)) := by
    rw [← List.cons_append, ← List.append_assoc, ← hts]
    exact List.takeWhile_append_dropWhile.symm
  obtain ⟨hpos, hfound⟩ := hplace.at_token he
  exact .token hsplit (unended_cons.1 hrest).1 hread (viable_of_feed hs)
    (not_viable_of_step hs ht he) hpos hfound

theorem refused_of_finish {s : State} (hs : feed State.step .initial (beforeEnd ts) = .ok s)
    (h : s.finish (endOf .start ts) = .error e) (he : e.expected ≠ .lessNesting) :
    Refused ts e := by
  have hno : ¬ Sentence (beforeEnd ts) := fun hsentence => by
    obtain ⟨p, hp⟩ := hsentence.finish_eq_ok hs (endOf .start ts)
    rw [hp] at h
    cases h
  have hplace := h ▸ blames_finish (endOf .start ts) s
  obtain ⟨hpos, hfound⟩ := hplace.at_token he
  have hread := unended_beforeEnd ts
  have hviable := viable_of_feed hs
  obtain ⟨t, rest, hts, ht, hend⟩ | ⟨hts, hend⟩ := endOf_cases ts .start
  · rw [hend] at hpos hfound
    exact .eof hts ht hread hviable hno hpos (hfound.trans (display_of_eof ht))
  · rw [← hts] at hread hviable hno
    rw [hend] at hpos hfound
    exact .behind hread hviable hno hpos (hfound.trans (display_of_eof rfl))

/-- An error other than that of a nesting limit stands at the first token that goes on with no
beginning of a sentence, or at the end of an input that is no sentence. So sentences of the grammar
without limits are refused at the nesting limits only. -/
theorem refused_of_parse (h : Program.parse ts = .error e) :
    (e.expected ≠ .lessNesting → Refused ts e) ∧
      (Sentence (beforeEnd ts) → e.expected = .lessNesting) := by
  constructor
  · intro he
    rw [Program.parse, run_eq] at h
    obtain hread | ⟨s, hs, hfinish⟩ := bind_eq_error h
    · exact refused_of_step hread he
    · exact refused_of_finish hs hfinish he
  · rintro ⟨p, hp⟩
    have hagrees := agrees_parse hp
    rw [h] at hagrees
    exact hagrees.expected

/-- A keyword where a name must stand, and a sentence with more negations than the limit. -/
theorem refused_of_parse_samples :
    Refused [word .folder, word .when] (.of (word .when) .folderName) ∧
      ∃ ts e, Program.parse ts = .error e ∧ Sentence (beforeEnd ts) ∧
        e.expected = .lessNesting := by
  constructor
  · have hparse : Program.parse [word .folder, word .when] =
        .error (.of (word .when) .folderName) := rfl
    exact (refused_of_parse hparse).1 Expectation.noConfusion
  · have hparse : Program.parse
        (programAround (List.replicate (maxNesting + 1) (word .not) ++ plain)) =
          .error (.of (word .not) .lessNesting) := by decide +kernel
    have hnots : Derives .free .not 0 (List.replicate (maxNesting + 1) (word .not) ++ plain)
        (plainCondition.negate (maxNesting + 1)) :=
      derives_nots (fun _ _ => trivial) (.predicate predicate_plain)
    have hsentence : Sentence _ := ⟨_, programOf_around (.orOfAnd (.andOfNot hnots))⟩
    rw [← hsentence.beforeEnd_eq] at hsentence
    exact ⟨_, _, hparse, hsentence, (refused_of_parse hparse).2 hsentence⟩

end MailRules.Grammar
