import MailRules.Proofs.Automaton
import MailRules.Proofs.Lexical.Chars

/-!
Tokens of a text. The lexer succeeds on exactly the texts of the lexical language, with exactly the
tokens of their lexemes.

Soundness is an invariant on the characters read so far: some parts and a gap stand behind every
state, with the beginning of one more lexeme where the lexer is in the middle of it. Completeness
runs the lexer over a gap and a lexeme at a time. A word is closed only by what follows, so between
the two the state may still be inside it.
-/

namespace MailRules.Lexical

open Lexer

/-! ### Soundness -/

/-- Parts with their tokens, last first as the lexer holds them. -/
structure Written (parts : List Part) (ts : List Token) : Prop where
  wellFormed : WellFormed parts
  tokens : Tokens [] parts ts.reverse

/-- A word may follow the gap. -/
def Parted (parts : List Part) (gap : List Char) : Prop :=
  ∀ p ∈ parts.getLast?, p.lexeme.IsWord → gap ≠ []

theorem Tokens.concat {before : List Char} {parts : List Part} {ts : List Token}
    (h : Tokens before parts ts) {p : Part} {t : Token}
    (hp : Makes (placeAfter (before ++ spell parts ++ p.gap)) p.lexeme t) :
    Tokens before (parts ++ [p]) (ts ++ [t]) := by
  induction h with
  | nil => exact .cons (by simpa [spell] using hp) .nil
  | @cons before q _ parts _ hq _ ih =>
    refine .cons hq (ih ?_)
    simpa [spell] using hp

theorem Written.concat {parts : List Part} {ts : List Token} (h : Written parts ts) {p : Part}
    {t : Token} (hgap : IsGap p.gap) (hlexeme : p.lexeme.Valid)
    (hword : p.lexeme.IsWord → Parted parts p.gap)
    (hp : Makes (placeAfter (spell parts ++ p.gap)) p.lexeme t) :
    Written (parts ++ [p]) (t :: ts) := by
  refine ⟨⟨?_, ?_, ?_⟩, ?_⟩
  · intro q hq
    rcases List.mem_append.1 hq with hq | hq
    · exact h.wellFormed.gaps q hq
    · exact List.mem_singleton.1 hq ▸ hgap
  · intro q hq
    rcases List.mem_append.1 hq with hq | hq
    · exact h.wellFormed.lexemes q hq
    · exact List.mem_singleton.1 hq ▸ hlexeme
  · refine List.isChain_append.2 ⟨h.wellFormed.separated, List.isChain_singleton _, ?_⟩
    intro q hq r hr hqw hrw
    cases hr
    exact hword hrw q hq hqw
  · rw [List.reverse_cons]
    exact h.tokens.concat hp

/-- The text behind each state. -/
inductive Took : State → List Char → Prop
  | between {parts : List Part} {gap : List Char} {ts : List Token} : Written parts ts →
      IsGap gap → Parted parts gap →
      Took ⟨placeAfter (spell parts ++ gap), .between, ts⟩ (spell parts ++ gap)
  | word {parts : List Part} {gap read : List Char} {ts : List Token} : Written parts ts →
      IsGap gap → Parted parts gap → (Lexeme.word read.reverse).Valid →
      Took ⟨placeAfter (spell parts ++ gap ++ read.reverse),
        .word (placeAfter (spell parts ++ gap)) read, ts⟩ (spell parts ++ gap ++ read.reverse)
  | quoted {parts : List Part} {gap read : List Char} {ts : List Token} : Written parts ts →
      IsGap gap → '"' ∉ read →
      Took ⟨placeAfter (spell parts ++ gap ++ '"' :: read.reverse),
        .quoted (placeAfter (spell parts ++ gap)) read, ts⟩
        (spell parts ++ gap ++ '"' :: read.reverse)

theorem took_initial : Took .initial [] := by
  have hnil : WellFormed [] := ⟨by simp, by simp, .nil⟩
  have h : Took .initial (spell [] ++ []) := .between ⟨hnil, .nil⟩ isGap_nil (by simp [Parted])
  exact h

/-- A character between lexemes, behind the parts and a gap. -/
theorem took_begin {parts : List Part} {gap : List Char} {ts : List Token} {c : Char} {s : State}
    (h : Written parts ts) (hgap : IsGap gap) (hparted : IsWordChar c → Parted parts gap)
    (hs : begin (placeAfter (spell parts ++ gap)) ts c = .ok s) :
    Took s (spell parts ++ gap ++ [c]) := by
  obtain ⟨hc, rfl⟩ | ⟨rfl, rfl⟩ | ⟨hc, rfl⟩ | ⟨sym, rfl, rfl⟩ := begin_eq_ok hs
  all_goals rw [← placeAfter_concat]
  · rw [List.append_assoc]
    exact .between h (hgap.concat hc) (fun p _ _ => by simp)
  · have htook : Took _ (spell parts ++ gap ++ '"' :: [].reverse) := .quoted h hgap List.not_mem_nil
    exact htook
  · have hword : (Lexeme.word [c].reverse).Valid := ⟨by simp, by simpa using hc⟩
    exact .word h hgap (hparted hc) hword
  · have hpart : Written (parts ++ [⟨gap, .symbol sym⟩]) (symbolToken _ sym :: ts) :=
      h.concat hgap trivial nofun .symbol
    have htook := Took.between hpart isGap_nil (by simp [Parted, Lexeme.IsWord])
    simpa only [spell_concat, List.append_nil, Lexeme.chars] using htook

/-- A word that its next character closes, or the end of the text. -/
theorem Written.word {parts : List Part} {gap read : List Char} {ts : List Token}
    (h : Written parts ts) (hgap : IsGap gap) (hparted : Parted parts gap)
    (hread : (Lexeme.word read.reverse).Valid) :
    Written (parts ++ [⟨gap, .word read.reverse⟩])
      (wordToken (placeAfter (spell parts ++ gap)) read :: ts) :=
  h.concat hgap hread (fun _ => hparted) (.word (wordKind_eq_iff.1 rfl))

theorem took_step {s s' : State} {u : List Char} {c : Char} (h : Took s u)
    (hs : step s c = .ok s') : Took s' (u ++ [c]) := by
  cases h with
  | between hwritten hgap hparted => exact took_begin hwritten hgap (fun _ => hparted) hs
  | @word parts gap read ts hwritten hgap hparted hread =>
    simp only [step] at hs
    split at hs
    · next hc =>
      cases hs
      have hmore : (Lexeme.word (c :: read).reverse).Valid := by
        refine ⟨by simp, fun d hd => ?_⟩
        rcases List.mem_cons.1 (List.mem_reverse.1 hd) with rfl | hd
        · exact isWordChar_iff.1 hc
        · exact hread.2 d (List.mem_reverse.2 hd)
      rw [← placeAfter_concat, List.append_assoc, ← List.reverse_cons]
      exact .word hwritten hgap hparted hmore
    · next hc =>
      have hpart := hwritten.word hgap hparted hread
      have hspell : spell (parts ++ [⟨gap, .word read.reverse⟩]) ++ [] =
          spell parts ++ gap ++ read.reverse := by
        rw [spell_concat, List.append_nil]; rfl
      rw [← hspell] at hs ⊢
      exact took_begin hpart isGap_nil (fun hword => absurd (isWordChar_iff.2 hword) hc) hs
  | @quoted parts gap read ts hwritten hgap hread =>
    simp only [step] at hs
    split at hs
    · next hc =>
      cases hs
      subst hc
      have hvalid : (Lexeme.quoted read.reverse).Valid := by simpa [Lexeme.Valid] using hread
      have hpart : Written (parts ++ [⟨gap, .quoted read.reverse⟩]) (stringToken _ read :: ts) :=
        hwritten.concat hgap hvalid nofun .quoted
      have htook := Took.between hpart isGap_nil (by simp [Parted, Lexeme.IsWord])
      rw [← placeAfter_concat]
      simpa [spell_concat, Lexeme.chars] using htook
    · next hc =>
      cases hs
      have hmore : '"' ∉ c :: read := by
        rw [List.mem_cons, not_or]
        exact ⟨fun h => hc h.symm, hread⟩
      rw [← placeAfter_concat, List.append_assoc, List.cons_append, ← List.reverse_cons]
      exact .quoted hwritten hgap hmore

/-- The parts and the gap behind a state that may end the text, with their tokens. -/
theorem finish_eq_ok {s : State} {u : List Char} {ts : List Token} (h : Took s u)
    (hs : finish s = .ok ts) : ∃ parts gap tokens, u = spell parts ++ gap ∧ WellFormed parts ∧
      IsGap gap ∧ Tokens [] parts tokens ∧ ts = tokens ++ [Token.eof (placeAfter u)] := by
  cases h with
  | @between parts gap ts hwritten hgap _ =>
    cases hs
    exact ⟨parts, gap, _, rfl, hwritten.wellFormed, hgap, hwritten.tokens, List.reverse_cons⟩
  | @word parts gap read ts hwritten hgap hparted hread =>
    cases hs
    have hpart := hwritten.word hgap hparted hread
    refine ⟨_, [], _, ?_, hpart.wellFormed, isGap_nil, hpart.tokens, List.reverse_cons⟩
    rw [spell_concat, List.append_nil]; rfl
  | quoted => cases hs

/-! ### Completeness -/

/-- A state behind a text that ends with a lexeme or a gap. A word at its end may still be open,
which `w` allows. -/
inductive Between (u : List Char) : Prop → List Token → State → Prop
  | closed {w : Prop} {ts : List Token} : Between u w ts ⟨placeAfter u, .between, ts⟩
  | word {w : Prop} {start : Position} {read : List Char} {ts : List Token} : w →
      Between u w (wordToken start read :: ts) ⟨placeAfter u, .word start read, ts⟩

theorem Between.mono {u : List Char} {w w' : Prop} {ts : List Token} {s : State}
    (h : Between u w ts s) (hw : w → w') : Between u w' ts s := by
  cases h with
  | closed => exact .closed
  | word hopen => exact .word (hw hopen)

variable {u : List Char} {w : Prop} {ts : List Token} {s : State}

/-- An open word is closed by any character that is not its own. -/
theorem Between.step {c : Char} (h : Between u w ts s) (hc : w → ¬ IsWordChar c) :
    step s c = begin (placeAfter u) ts c := by
  cases h with
  | closed => rfl
  | word hopen => exact if_neg fun hword => hc hopen (isWordChar_iff.1 hword)

theorem Between.finish (h : Between u w ts s) :
    finish s = .ok (ts.reverse ++ [Token.eof (placeAfter u)]) := by
  cases h <;> simp [Lexer.finish]

theorem feed_gap {gap : List Char} (h : Between u w ts s) (hgap : IsGap gap) :
    ∃ s', feed step s gap = .ok s' ∧ Between (u ++ gap) (w ∧ gap = []) ts s' := by
  induction gap generalizing u w s with
  | nil => exact ⟨s, rfl, by simpa using h⟩
  | cons c gap ih =>
    have hc : Text.isBlank c = true := hgap c List.mem_cons_self
    have hstep : Lexer.step s c = .ok ⟨placeAfter (u ++ [c]), .between, ts⟩ := by
      rw [h.step fun _ hword => by simp [hword.not_isBlank] at hc, begin_blank hc,
        placeAfter_concat]
    have hnext : Between (u ++ [c]) False ts ⟨placeAfter (u ++ [c]), .between, ts⟩ := .closed
    obtain ⟨s', hs', hbetween⟩ := ih hnext fun d hd => hgap d (List.mem_cons_of_mem c hd)
    refine ⟨s', (feed_of_step hstep).trans hs', ?_⟩
    rw [List.append_assoc] at hbetween
    exact hbetween.mono fun hno => hno.1.elim

/-- Inside a lexeme the lexer takes up the characters one by one. -/
theorem feed_inside (ts : List Token) (inside : List Char → Pending) (cs : List Char)
    (hstep : ∀ c ∈ cs, ∀ pos read, step ⟨pos, inside read, ts⟩ c =
      .ok ⟨pos.next c, inside (c :: read), ts⟩) (u : List Char) (read : List Char) :
    feed step ⟨placeAfter u, inside read, ts⟩ cs =
      .ok ⟨placeAfter (u ++ cs), inside (cs.reverse ++ read), ts⟩ := by
  induction cs generalizing u read with
  | nil => rw [List.append_nil]; rfl
  | cons c cs ih =>
    rw [feed_of_step (hstep c List.mem_cons_self _ _), ← placeAfter_concat,
      ih fun d hd => hstep d (List.mem_cons_of_mem c hd)]
    simp

theorem step_word {start pos : Position} {read : List Char} {c : Char} (hc : IsWordChar c) :
    step ⟨pos, .word start read, ts⟩ c = .ok ⟨pos.next c, .word start (c :: read), ts⟩ :=
  if_pos (isWordChar_iff.2 hc)

theorem step_content {start pos : Position} {read : List Char} {c : Char} (hc : c ≠ '"') :
    step ⟨pos, .quoted start read, ts⟩ c = .ok ⟨pos.next c, .quoted start (c :: read), ts⟩ :=
  if_neg hc

theorem Makes.word_eq {pos : Position} {cs : List Char} {t : Token} (h : Makes pos (.word cs) t) :
    wordToken pos cs.reverse = t := by
  cases h with
  | word hkind => simp only [wordToken, List.reverse_reverse, wordKind_eq_iff.2 hkind]

theorem Makes.quoted_eq {pos : Position} {cs : List Char} {t : Token}
    (h : Makes pos (.quoted cs) t) : stringToken pos cs.reverse = t := by
  cases h
  simp only [stringToken, List.reverse_reverse]

/-- A lexeme makes its token, which is still to come where the lexeme is a word. -/
theorem feed_lexeme {l : Lexeme} {t : Token} (h : Between u w ts s) (hl : l.Valid)
    (hw : w → ¬ l.IsWord) (ht : Makes (placeAfter u) l t) :
    ∃ s', feed step s l.chars = .ok s' ∧ Between (u ++ l.chars) l.IsWord (t :: ts) s' := by
  cases l with
  | word cs =>
    obtain ⟨c, cs, rfl⟩ := List.exists_cons_of_ne_nil hl.1
    have hfirst : step s c = .ok ⟨placeAfter (u ++ [c]), .word (placeAfter u) [c], ts⟩ := by
      rw [h.step fun hopen => absurd trivial (hw hopen), begin_word (hl.2 c List.mem_cons_self),
        placeAfter_concat]
    have hrest := feed_inside ts (.word (placeAfter u)) cs
      (fun d hd _ _ => step_word (hl.2 d (List.mem_cons_of_mem c hd))) (u ++ [c]) [c]
    refine ⟨_, (feed_of_step hfirst).trans hrest, ?_⟩
    rw [← ht.word_eq, List.reverse_cons, List.append_assoc]
    exact .word trivial
  | quoted cs =>
    have hfirst : step s '"' = .ok ⟨placeAfter (u ++ ['"']), .quoted (placeAfter u) [], ts⟩ := by
      rw [h.step fun _ hword => hword.ne_quote rfl, begin_quote, placeAfter_concat]
    have hinside := feed_inside ts (.quoted (placeAfter u)) cs
      (fun d hd _ _ => step_content fun hq => hl (hq ▸ hd)) (u ++ ['"']) []
    have hlast : step ⟨placeAfter (u ++ ['"'] ++ cs), .quoted (placeAfter u) (cs.reverse ++ []), ts⟩
        '"' = .ok ⟨placeAfter (u ++ ['"'] ++ cs ++ ['"']), .between, t :: ts⟩ := by
      rw [placeAfter_concat (u ++ ['"'] ++ cs), List.append_nil, ← ht.quoted_eq]; rfl
    refine ⟨⟨placeAfter (u ++ '"' :: (cs ++ ['"'])), .between, t :: ts⟩, ?_, .closed⟩
    rw [Lexeme.chars, feed_of_step hfirst, feed_append_of_ok hinside, feed_singleton, hlast]
    simp
  | symbol sym =>
    cases ht
    have hstep : step s sym.char =
        .ok ⟨placeAfter (u ++ [sym.char]), .between, symbolToken (placeAfter u) sym :: ts⟩ := by
      rw [h.step fun _ => not_isWordChar_symbol sym, begin_symbol, placeAfter_concat]
    exact ⟨_, (feed_singleton _ _).trans hstep, .closed⟩

/-- The parts one by one. The first is a word without a gap only where no word is open. -/
theorem feed_parts {parts : List Part} {tokens : List Token} (ht : Tokens u parts tokens) :
    ∀ {w : Prop} {ts : List Token} {s : State}, WellFormed parts →
      (∀ p ∈ parts.head?, w → p.lexeme.IsWord → p.gap ≠ []) → Between u w ts s →
      ∃ s' w', feed step s (spell parts) = .ok s' ∧
        Between (u ++ spell parts) w' (tokens.reverse ++ ts) s' := by
  induction ht with
  | nil => exact fun _ _ h => ⟨_, _, rfl, by simpa [spell] using h⟩
  | @cons u p t parts tokens hmake _ ih =>
    intro w ts s hwf hw h
    obtain ⟨s₁, hgap, h₁⟩ := feed_gap h (hwf.gaps p List.mem_cons_self)
    obtain ⟨s₂, hlexeme, h₂⟩ := feed_lexeme h₁ (hwf.lexemes p List.mem_cons_self)
      (fun hopen hword => hw p rfl hopen.1 hword hopen.2) hmake
    have hrest : WellFormed parts :=
      ⟨fun q hq => hwf.gaps q (List.mem_cons_of_mem p hq),
        fun q hq => hwf.lexemes q (List.mem_cons_of_mem p hq), hwf.separated.tail⟩
    have hnext : ∀ q ∈ parts.head?, p.lexeme.IsWord → q.lexeme.IsWord → q.gap ≠ [] :=
      (List.isChain_cons.1 hwf.separated).1
    rw [List.append_assoc] at h₂
    obtain ⟨s₃, w', hparts, h₃⟩ := ih hrest hnext h₂
    refine ⟨s₃, w', ?_, by simpa [spell, Part.chars] using h₃⟩
    have hspell : spell (p :: parts) = p.gap ++ (p.lexeme.chars ++ spell parts) := by
      simp [spell, Part.chars]
    rw [hspell, feed_append_of_ok hgap, feed_append_of_ok hlexeme, hparts]

/-- A text has tokens exactly when it is made of gaps and lexemes, with two words never side by
side. Then the tokens are those of the lexemes, each at the place of its first character, and one
that stands for the end of the text. -/
theorem tokenize_eq_ok_iff (text : String) (ts : List Token) : tokenize text = .ok ts ↔
    ∃ parts gap tokens, text.toList = spell parts ++ gap ∧ WellFormed parts ∧ IsGap gap ∧
      Tokens [] parts tokens ∧ ts = tokens ++ [Token.eof (placeAfter text.toList)] := by
  constructor
  · intro h
    obtain ⟨s, hs, hfinish⟩ := bind_eq_ok h
    exact finish_eq_ok (feed_invariant took_step _ took_initial hs) hfinish
  · rintro ⟨parts, gap, tokens, htext, hwf, hgap, htokens, rfl⟩
    obtain ⟨s, w, hs, h⟩ := feed_parts (w := False) htokens hwf (fun _ _ hno => hno.elim) .closed
    obtain ⟨s', hs', h'⟩ := feed_gap h hgap
    have hfeed : feed step .initial text.toList = .ok s' := by
      rw [htext]
      exact (feed_append_of_ok hs gap).trans hs'
    have hfinish := h'.finish
    rw [List.append_nil, List.reverse_reverse, List.nil_append, ← htext] at hfinish
    change feed step .initial text.toList >>= Lexer.finish = _
    rw [hfeed]
    exact hfinish

end MailRules.Lexical
