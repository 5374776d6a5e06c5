import MailRules.Proofs.Lexical.Tokenize

/-!
Characters that stand in strings only. Where the lexer takes one of them it is inside a string, and
it stays there until the next quote. So such a character, with no quote behind it, is in no text that
has tokens.

    a . b        error at the dot
    a " . b      error at the end, the string is open
    a " . " b    three tokens
-/

namespace MailRules.Lexical

open Lexer

/-- A character that begins nothing between lexemes and is part of no word. -/
structure OnlyQuoted (c : Char) : Prop where
  notBlank : Text.isBlank c = false
  notQuote : c ≠ '"'
  notWord : ¬ IsWordChar c
  notSymbol : ∀ s : Symbol, s.char ≠ c

theorem OnlyQuoted.begin_ne_ok {c : Char} (hc : OnlyQuoted c) (pos : Position) (ts : List Token)
    (s : State) : begin pos ts c ≠ .ok s := by
  intro h
  obtain ⟨hblank, -⟩ | ⟨hquote, -⟩ | ⟨hword, -⟩ | ⟨sym, hsym, -⟩ := begin_eq_ok h
  · rw [hc.notBlank] at hblank
    cases hblank
  · exact hc.notQuote hquote
  · exact hc.notWord hword
  · exact hc.notSymbol sym hsym

/-- The lexer is in the middle of a string. -/
def InString (s : State) : Prop := ∃ start read, s.pending = .quoted start read

theorem inString_of_onlyQuoted {s s' : State} {c : Char} (hc : OnlyQuoted c)
    (h : step s c = .ok s') : InString s' := by
  obtain ⟨pos, pending, ts⟩ := s
  cases pending with
  | between => exact (hc.begin_ne_ok pos ts s' h).elim
  | word start read =>
    -- The word ends here, and the character stands between lexemes.
    have hend : step ⟨pos, .word start read, ts⟩ c = begin pos (wordToken start read :: ts) c :=
      if_neg (mt isWordChar_iff.1 hc.notWord)
    rw [hend] at h
    exact (hc.begin_ne_ok pos _ s' h).elim
  | quoted start read =>
    rw [step_content hc.notQuote] at h
    cases h
    exact ⟨start, c :: read, rfl⟩

theorem InString.step {s s' : State} {c : Char} (hs : InString s) (hc : c ≠ '"')
    (h : step s c = .ok s') : InString s' := by
  obtain ⟨pos, pending, ts⟩ := s
  obtain ⟨start, read, rfl⟩ := hs
  rw [step_content hc] at h
  cases h
  exact ⟨start, c :: read, rfl⟩

/-- Only a quote ends a string. -/
theorem InString.feed {s s' : State} {cs : List Char} (hs : InString s) (hcs : '"' ∉ cs)
    (h : feed Lexer.step s cs = .ok s') : InString s' := by
  have hstep : ∀ {s s' : State} {us : List Char} {c : Char}, ('"' ∉ us → InString s) →
      Lexer.step s c = .ok s' → '"' ∉ us ++ [c] → InString s' := by
    intro s s' us c hs hstep hus
    rw [List.mem_append, List.mem_singleton, not_or] at hus
    exact (hs hus.1).step (Ne.symm hus.2) hstep
  have hstart : '"' ∉ ([] : List Char) → InString s := fun _ => hs
  have hkept := feed_invariant @hstep cs hstart h
  exact hkept hcs

theorem InString.finish_ne_ok {s : State} (hs : InString s) (ts : List Token) :
    finish s ≠ .ok ts := by
  obtain ⟨start, read, hpending⟩ := hs
  rw [finish, hpending]
  intro h
  cases h

/-- A text in which such a character has no quote behind it has no tokens. -/
theorem tokenize_eq_error_of_onlyQuoted {text : String} {before after : List Char} {c : Char}
    (hc : OnlyQuoted c) (htext : text.toList = before ++ c :: after) (hafter : '"' ∉ after) :
    ∃ e, tokenize text = .error e := by
  cases htokens : tokenize text with
  | error e => exact ⟨e, rfl⟩
  | ok ts =>
    obtain ⟨last, hfeed, hfinish⟩ := bind_eq_ok htokens
    change feed step .initial text.toList = .ok last at hfeed
    rw [htext, feed_append] at hfeed
    obtain ⟨s, -, hfeed⟩ := bind_eq_ok hfeed
    rw [feed_cons] at hfeed
    obtain ⟨s', hstep, hfeed⟩ := bind_eq_ok hfeed
    have hopen : InString last := (inString_of_onlyQuoted hc hstep).feed hafter hfeed
    exact absurd hfinish (hopen.finish_ne_ok ts)

end MailRules.Lexical
