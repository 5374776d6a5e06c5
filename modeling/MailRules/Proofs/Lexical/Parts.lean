import MailRules.Proofs.Lexical.Tokenize

/-!
Parts with their tokens. Every list of parts has the tokens of its lexemes, each at the place where
the parts in front of it end, and a text that well-formed parts spell has these tokens.
-/

namespace MailRules.Lexical

/-! ### Tokens of parts -/

/-- The token that a lexeme makes at a place. -/
def tokenOf (pos : Position) : Lexeme → Token
  | .word w => ⟨Lexer.wordKind (String.ofList w), some (String.ofList w), pos⟩
  | .quoted s => ⟨.string, some (String.ofList s), pos⟩
  | .symbol s => ⟨.symbol s, some (String.singleton s.char), pos⟩

/-- The tokens of the parts behind a text. -/
def tokensOf : List Char → List Part → List Token
  | _, [] => []
  | before, p :: parts =>
    tokenOf (placeAfter (before ++ p.gap)) p.lexeme :: tokensOf (before ++ p.chars) parts

theorem makes_tokenOf (pos : Position) (l : Lexeme) : Makes pos l (tokenOf pos l) := by
  cases l with
  | word w => exact .word (wordKind_eq_iff.1 rfl)
  | quoted s => exact .quoted
  | symbol s => exact .symbol

theorem tokens_tokensOf (parts : List Part) :
    ∀ before, Tokens before parts (tokensOf before parts) := by
  induction parts with
  | nil => exact fun _ => .nil
  | cons p parts ih => exact fun before => .cons (makes_tokenOf _ p.lexeme) (ih _)

theorem tokensOf_append (ps qs : List Part) : ∀ before,
    tokensOf before (ps ++ qs) = tokensOf before ps ++ tokensOf (before ++ spell ps) qs := by
  induction ps with
  | nil => simp [tokensOf, spell]
  | cons p ps ih => simp [tokensOf, spell, ih]

theorem spell_nil : spell [] = [] := rfl

theorem spell_cons (p : Part) (ps : List Part) : spell (p :: ps) = p.chars ++ spell ps := rfl

theorem spell_append (ps qs : List Part) : spell (ps ++ qs) = spell ps ++ spell qs :=
  List.flatMap_append

/-- A text that well-formed parts spell, with a gap at its end, has the tokens of the parts. -/
theorem tokenize_spell_gap {parts : List Part} {gap : List Char} {text : String}
    (h : WellFormed parts) (hgap : IsGap gap) (htext : text.toList = spell parts ++ gap) :
    tokenize text = .ok (tokensOf [] parts ++ [Token.eof (placeAfter text.toList)]) := by
  obtain ⟨s, w, hs, hbetween⟩ :=
    feed_parts (w := False) (tokens_tokensOf parts []) h (fun _ _ hno => hno.elim) .closed
  obtain ⟨s', hs', hend⟩ := feed_gap hbetween hgap
  have hread : feed Lexer.step .initial text.toList = .ok s' := by
    rw [htext]
    exact (feed_append_of_ok hs gap).trans hs'
  have hfinish := hend.finish
  rw [List.append_nil, List.reverse_reverse, List.nil_append, ← htext] at hfinish
  change feed Lexer.step .initial text.toList >>= Lexer.finish = _
  rw [hread]
  exact hfinish

theorem tokenize_spell {parts : List Part} {text : String} (h : WellFormed parts)
    (htext : text.toList = spell parts) :
    tokenize text = .ok (tokensOf [] parts ++ [Token.eof (placeAfter text.toList)]) :=
  tokenize_spell_gap h isGap_nil (by rw [htext, List.append_nil])

/-! ### Well-formed parts -/

/-- Any lexeme may stand in front: the first part is no word, or has a gap. -/
def Detached (parts : List Part) : Prop := ∀ p ∈ parts.head?, p.lexeme.IsWord → p.gap ≠ []

theorem WellFormed.cons {p : Part} {parts : List Part} (h : WellFormed parts) (hgap : IsGap p.gap)
    (hlexeme : p.lexeme.Valid) (hword : p.lexeme.IsWord → Detached parts) :
    WellFormed (p :: parts) :=
  ⟨List.forall_mem_cons.2 ⟨hgap, h.gaps⟩, List.forall_mem_cons.2 ⟨hlexeme, h.lexemes⟩,
    List.isChain_cons.2 ⟨fun q hq hp => hword hp q hq, h.separated⟩⟩

theorem WellFormed.append {ps qs : List Part} (hps : WellFormed ps) (hqs : WellFormed qs)
    (hq : Detached qs) : WellFormed (ps ++ qs) :=
  ⟨List.forall_mem_append.2 ⟨hps.gaps, hqs.gaps⟩,
    List.forall_mem_append.2 ⟨hps.lexemes, hqs.lexemes⟩,
    List.isChain_append.2 ⟨hps.separated, hqs.separated, fun _ _ q hhead _ => hq q hhead⟩⟩

theorem wellFormed_nil : WellFormed [] :=
  ⟨fun _ h => absurd h List.not_mem_nil, fun _ h => absurd h List.not_mem_nil, .nil⟩

-- The characters of a list are looked at one by one, not all characters that there are.
instance (g : List Char) : Decidable (IsGap g) := List.decidableBAll (Text.isBlank · = true) g

instance (c : Char) : Decidable (IsWordChar c) :=
  inferInstanceAs (Decidable ('A' ≤ c ∧ c ≤ 'Z' ∨ 'a' ≤ c ∧ c ≤ 'z' ∨ '0' ≤ c ∧ c ≤ '9' ∨ c = '_'))

instance : (l : Lexeme) → Decidable l.Valid
  | .word w => @instDecidableAnd (w ≠ []) _ _ (List.decidableBAll IsWordChar w)
  | .quoted s => inferInstanceAs (Decidable ('"' ∉ s))
  | .symbol _ => .isTrue trivial

instance : (l : Lexeme) → Decidable l.IsWord
  | .word _ => .isTrue trivial
  | .quoted _ | .symbol _ => .isFalse id

instance (parts : List Part) : Decidable (WellFormed parts) :=
  decidable_of_iff ((∀ p ∈ parts, IsGap p.gap) ∧ (∀ p ∈ parts, p.lexeme.Valid) ∧
      parts.IsChain fun p q => p.lexeme.IsWord → q.lexeme.IsWord → q.gap ≠ [])
    ⟨fun h => ⟨h.1, h.2.1, h.2.2⟩, fun h => ⟨h.gaps, h.lexemes, h.separated⟩⟩

theorem isGap_blank : IsGap [' '] := List.forall_mem_singleton.2 (by decide)

end MailRules.Lexical
