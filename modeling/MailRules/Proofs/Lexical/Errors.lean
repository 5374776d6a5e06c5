import Mathlib.Algebra.Ring.Parity
import MailRules.Proofs.Lexical.Parts
import MailRules.Proofs.Lexical.Strings

/-!
Where a text goes wrong. In front of the place stands a text that has tokens, and at the place stands
either a character that begins nothing, or a quote with no other one behind it. The lexer is inside a
string exactly behind an odd number of quotes, so such a number leaves one open.

    ab "c" .d        error at the dot, behind  ab "c"
    ab "c" "d.       error at the last quote, behind  ab "c"
    ab "c .d" .      error at the last dot; the other one is in a string
-/

namespace MailRules.Lexical

open Lexer

/-! ### One character

Outside strings a character begins something, or goes on with a word, or is refused. Only a quote
leads into a string or out of one. -/

theorem begin_eq_error {pos : Position} {ts : List Token} {c : Char} {e : LexError}
    (h : begin pos ts c = .error e) : OnlyQuoted c ∧ e = .unexpectedChar c pos := by
  unfold begin at h
  split at h
  · cases h
  · next hblank =>
    split at h
    · cases h
    · next hquote =>
      split at h
      · cases h
      · next hword =>
        split at h
        · cases h
        · next hsymbol =>
          cases h
          refine ⟨⟨Bool.eq_false_iff.2 hblank, hquote, mt isWordChar_iff.2 hword, ?_⟩, rfl⟩
          intro s hs
          rw [Symbol.ofChar?_eq_some_iff.2 hs] at hsymbol
          cases hsymbol

theorem inString_begin_iff {pos : Position} {ts : List Token} {c : Char} {s : State}
    (h : begin pos ts c = .ok s) : InString s ↔ c = '"' := by
  obtain ⟨hblank, rfl⟩ | ⟨hquote, rfl⟩ | ⟨hword, rfl⟩ | ⟨sym, hsym, rfl⟩ := begin_eq_ok h
  · have hne : c ≠ '"' := by
      rintro rfl
      exact absurd hblank (by decide)
    simp [InString, hne]
  · simp [InString, hquote]
  · simp [InString, hword.ne_quote]
  · have hne : c ≠ '"' := by
      rintro rfl
      cases sym <;> exact absurd hsym (by decide)
    simp [InString, hne]

section
variable {s s' : State} {c : Char}

theorem step_outside (hs : ¬ InString s) (c : Char) :
    (∃ ts, step s c = begin s.pos ts c) ∨
      ∃ start read, step s c = .ok ⟨s.pos.next c, .word start read, s.tokens⟩ ∧ IsWordChar c := by
  obtain ⟨pos, pending, ts⟩ := s
  cases pending with
  | between => exact .inl ⟨ts, rfl⟩
  | word start read =>
    by_cases hc : IsWordChar c
    · exact .inr ⟨start, c :: read, step_word hc, hc⟩
    · exact .inl ⟨wordToken start read :: ts, if_neg (mt isWordChar_iff.1 hc)⟩
  | quoted start read => exact absurd ⟨start, read, rfl⟩ hs

/-- Inside a string nothing is refused. -/
theorem InString.step_ne_error (hs : InString s) (e : LexError) :
    Lexer.step s c ≠ .error e := by
  obtain ⟨pos, pending, ts⟩ := s
  obtain ⟨start, read, rfl⟩ := hs
  intro h
  simp only [Lexer.step] at h
  split at h <;> cases h

theorem step_eq_error_iff {e : LexError} : step s c = .error e ↔
    ¬ InString s ∧ OnlyQuoted c ∧ e = .unexpectedChar c s.pos := by
  constructor
  · intro h
    have hs : ¬ InString s := fun hs => hs.step_ne_error e h
    obtain ⟨ts, hstep⟩ | ⟨start, read, hstep, -⟩ := step_outside hs c
    · exact ⟨hs, begin_eq_error (hstep ▸ h)⟩
    · cases hstep.symm.trans h
  · rintro ⟨hs, hc, rfl⟩
    obtain ⟨ts, hstep⟩ | ⟨start, read, -, hword⟩ := step_outside hs c
    · cases hbegin : begin s.pos ts c with
      | ok s' => exact absurd hbegin (hc.begin_ne_ok s.pos ts s')
      | error e => rw [hstep, hbegin, (begin_eq_error hbegin).2]
    · exact absurd hword hc.notWord

/-- A quote outside strings opens one. -/
theorem step_quote (hs : ¬ InString s) :
    ∃ ts, step s '"' = .ok ⟨s.pos.next '"', .quoted s.pos [], ts⟩ := by
  obtain ⟨ts, hstep⟩ | ⟨start, read, -, hword⟩ := step_outside hs '"'
  · exact ⟨ts, hstep.trans (begin_quote s.pos ts)⟩
  · exact absurd rfl hword.ne_quote

theorem inString_step_iff (h : step s c = .ok s') : InString s' ↔ (c = '"' ↔ ¬ InString s) := by
  by_cases hs : InString s
  · by_cases hc : c = '"'
    · subst hc
      obtain ⟨pos, pending, ts⟩ := s
      obtain ⟨start, read, rfl⟩ := hs
      cases h
      simp [InString]
    · simp [hc, hs, hs.step hc h]
  · obtain ⟨ts, hstep⟩ | ⟨start, read, hstep, hword⟩ := step_outside hs c
    · simp [hs, inString_begin_iff (hstep.symm.trans h)]
    · have hopened : ¬ InString s' := by
        cases hstep.symm.trans h
        simp [InString]
      simp [hs, hopened, hword.ne_quote]

end

/-! ### Behind a text -/

section
variable {s : State} {u : List Char}

theorem Took.pos_eq (h : Took s u) : s.pos = placeAfter u := by
  cases h <;> rfl

theorem pos_of_feed (h : feed step .initial u = .ok s) : s.pos = placeAfter u :=
  (feed_invariant took_step u took_initial h).pos_eq

/-- Behind an odd number of quotes the lexer is inside a string. -/
theorem inString_iff_odd (h : feed step .initial u = .ok s) :
    InString s ↔ Odd (u.count '"') := by
  have hstep : ∀ {s s' : State} {us : List Char} {c : Char},
      (InString s ↔ Odd (us.count '"')) → step s c = .ok s' →
        (InString s' ↔ Odd ((us ++ [c]).count '"')) := by
    intro s s' us c hs hc
    rw [inString_step_iff hc, hs, List.count_append]
    by_cases hquote : c = '"'
    · simp [hquote, Nat.odd_add_one]
    · simp [hquote]
  have hstart : InString .initial ↔ Odd (([] : List Char).count '"') := by
    simp [InString, State.initial]
  exact feed_invariant @hstep u hstart h

theorem finish_eq_error_iff {e : LexError} : finish s = .error e ↔
    ∃ start read, s.pending = .quoted start read ∧ e = .unterminatedString start := by
  obtain ⟨pos, pending, ts⟩ := s
  cases pending <;> simp [finish, eq_comm]

end

def HasTokens (text : String) : Prop := ∃ ts, tokenize text = .ok ts

theorem hasTokens_iff {text : String} :
    HasTokens text ↔ ∃ s, feed step .initial text.toList = .ok s ∧ ¬ InString s := by
  constructor
  · rintro ⟨ts, h⟩
    obtain ⟨s, hs, hfinish⟩ := bind_eq_ok h
    exact ⟨s, hs, fun hopen => hopen.finish_ne_ok ts hfinish⟩
  · rintro ⟨s, hs, hclosed⟩
    have htokenize : tokenize text = finish s := by
      change feed step .initial text.toList >>= finish = _
      rw [hs]
      rfl
    cases hfinish : finish s with
    | ok ts => exact ⟨ts, htokenize.trans hfinish⟩
    | error e =>
      obtain ⟨start, read, hpending, -⟩ := finish_eq_error_iff.1 hfinish
      exact absurd ⟨start, read, hpending⟩ hclosed

/-- Strings are closed in a text that has tokens. -/
theorem HasTokens.not_odd {text : String} (h : HasTokens text) : ¬ Odd (text.toList.count '"') := by
  obtain ⟨s, hs, hclosed⟩ := hasTokens_iff.1 h
  rwa [← inString_iff_odd hs]

/-! ### Places of errors -/

/-- The character stands in the text at this place, and what is in front of it has tokens. -/
structure Divided (text before : String) (c : Char) (after : String) (pos : Position) : Prop where
  split : text.toList = before.toList ++ c :: after.toList
  tokens : HasTokens before
  pos : pos = placeAfter before.toList

section
variable {text : String} {c : Char} {pos : Position}

theorem divided_of_feed {before after : List Char} {s : State}
    (htext : text.toList = before ++ c :: after) (hs : feed step .initial before = .ok s)
    (hclosed : ¬ InString s) : Divided text (String.ofList before) c (String.ofList after) s.pos := by
  refine ⟨?_, hasTokens_iff.2 ⟨s, ?_, hclosed⟩, ?_⟩ <;>
    simp only [String.toList_ofList]
  · exact htext
  · exact hs
  · exact pos_of_feed hs

theorem tokenize_eq_unexpected_iff : tokenize text = .error (.unexpectedChar c pos) ↔
    OnlyQuoted c ∧ ∃ before after, Divided text before c after pos := by
  constructor
  · intro h
    obtain hread | ⟨s, -, hfinish⟩ := bind_eq_error h
    · obtain ⟨before, d, after, s, htext, hs, hstep⟩ := feed_eq_error _ hread
      obtain ⟨hclosed, hd, he⟩ := step_eq_error_iff.1 hstep
      cases he
      exact ⟨hd, _, _, divided_of_feed htext hs hclosed⟩
    · obtain ⟨_, _, -, he⟩ := finish_eq_error_iff.1 hfinish
      cases he
  · rintro ⟨hc, before, after, hdivided⟩
    obtain ⟨s, hs, hclosed⟩ := hasTokens_iff.1 hdivided.tokens
    have hpos : pos = s.pos := by rw [hdivided.pos, pos_of_feed hs]
    have hstep : step s c = .error (.unexpectedChar c pos) :=
      step_eq_error_iff.2 ⟨hclosed, hc, by rw [hpos]⟩
    change feed step .initial text.toList >>= finish = _
    rw [hdivided.split, feed_append_of_ok hs, feed_cons, hstep]
    rfl

/-- A string that stays open to the end. -/
theorem feed_open {before after : List Char} {s : State} (hs : feed step .initial before = .ok s)
    (hclosed : ¬ InString s) (hafter : '"' ∉ after) :
    feed step .initial (before ++ '"' :: after) >>= finish =
      .error (.unterminatedString (placeAfter before)) := by
  obtain ⟨ts, hquote⟩ := step_quote hclosed
  rw [pos_of_feed hs, ← placeAfter_concat] at hquote
  have hinside := feed_inside ts (.quoted (placeAfter before)) after
    (fun c hc _ _ => step_content fun heq => hafter (heq ▸ hc)) (before ++ ['"']) []
  rw [feed_append_of_ok hs, feed_of_step hquote, hinside]
  rfl

theorem tokenize_eq_unterminated_iff : tokenize text = .error (.unterminatedString pos) ↔
    ∃ before after, Divided text before '"' after pos ∧ '"' ∉ after.toList := by
  constructor
  · intro h
    obtain hread | ⟨s, hs, hfinish⟩ := bind_eq_error h
    · obtain ⟨_, _, _, _, -, -, hstep⟩ := feed_eq_error _ hread
      obtain ⟨-, -, he⟩ := step_eq_error_iff.1 hstep
      cases he
    · obtain ⟨start, read, hpending, he⟩ := finish_eq_error_iff.1 hfinish
      cases he
      have htook := feed_invariant took_step _ took_initial hs
      generalize hu : [] ++ text.toList = u at htook
      cases htook with
      | between | word => cases hpending
      | @quoted parts gap read ts hwritten hgap hread =>
        cases hpending
        refine ⟨String.ofList (spell parts ++ gap), String.ofList read.reverse, ⟨?_, ?_, ?_⟩, ?_⟩
        · simpa using hu
        · exact ⟨_, tokenize_spell_gap hwritten.wellFormed hgap String.toList_ofList⟩
        · rw [String.toList_ofList]
        · simpa using hread
  · rintro ⟨before, after, hdivided, hafter⟩
    obtain ⟨s, hs, hclosed⟩ := hasTokens_iff.1 hdivided.tokens
    change feed step .initial text.toList >>= finish = _
    rw [hdivided.split, hdivided.pos]
    exact feed_open hs hclosed hafter

end

/-- The errors of a text, by the parts of it that have tokens. -/
structure Located (text : String) : Prop where
  unexpected : ∀ c pos, tokenize text = .error (.unexpectedChar c pos) ↔
    OnlyQuoted c ∧ ∃ before after, Divided text before c after pos
  unterminated : ∀ pos, tokenize text = .error (.unterminatedString pos) ↔
    ∃ before after, Divided text before '"' after pos ∧ '"' ∉ after.toList
  /-- An open string is one with the last quote of an odd number. -/
  lastQuote : ∀ pos, tokenize text = .error (.unterminatedString pos) →
    Odd (text.toList.count '"') ∧ ∃ before after, text.toList = before ++ '"' :: after ∧
      '"' ∉ after ∧ pos = placeAfter before
  oddQuotes : Odd (text.toList.count '"') → ¬ HasTokens text
  /-- What follows a character that is refused does not matter. -/
  final : ∀ c pos more, tokenize text = .error (.unexpectedChar c pos) →
    tokenize (text ++ more) = .error (.unexpectedChar c pos)

/-- Errors are exact. The lexer fails at a character that begins nothing, or at a quote that no other
one follows, exactly where what is in front of it has tokens, and at the place behind that. -/
theorem errors_located (text : String) : Located text := by
  refine ⟨fun c pos => tokenize_eq_unexpected_iff, fun pos => tokenize_eq_unterminated_iff,
    fun pos h => ?_, fun hodd htokens => htokens.not_odd hodd, fun c pos more h => ?_⟩
  · obtain ⟨before, after, hdivided, hafter⟩ := tokenize_eq_unterminated_iff.1 h
    refine ⟨?_, before.toList, after.toList, hdivided.split, hafter, hdivided.pos⟩
    have hbefore := hdivided.tokens.not_odd
    rw [hdivided.split, List.count_append, List.count_cons_self, List.count_eq_zero.2 hafter,
      Nat.zero_add, Nat.odd_add_one]
    exact hbefore
  · obtain ⟨hc, before, after, hdivided⟩ := tokenize_eq_unexpected_iff.1 h
    refine tokenize_eq_unexpected_iff.2 ⟨hc, before, after ++ more, ?_, hdivided.tokens, hdivided.pos⟩
    rw [String.toList_append, hdivided.split, String.toList_append, List.append_assoc,
      List.cons_append]

end MailRules.Lexical
