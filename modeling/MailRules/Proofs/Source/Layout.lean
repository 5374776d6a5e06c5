import MailRules.Proofs.Grammar.Respelling
import MailRules.Proofs.Grammar.Texts
import MailRules.Proofs.Lexical.Parts

/-!
Rule texts with the same lexemes. How much white space stands between them, where lines end and how
keywords are written is no matter to the program, as long as words stay apart.

    folder A when x in "y" then auto        Folder  A
                                              WHEN x IN"y"THEN auto
-/

namespace MailRules

namespace Lexical

/-! ### Lexemes written otherwise -/

/-- The same lexeme, perhaps in other case where it is a keyword. -/
inductive Lexeme.Respelled : Lexeme → Lexeme → Prop
  | same {l : Lexeme} : Respelled l l
  | keyword {k : Keyword} {w w' : List Char} : WordKind w (.keyword k) →
      List.Forall₂ Text.SameLetter w w' → Respelled (.word w) (.word w')

/-- The text consists of these parts, with a gap at its end. -/
inductive LaidOut (text : String) (parts : List Part) : Prop
  | of {gap : List Char} : WellFormed parts → IsGap gap → text.toList = spell parts ++ gap →
      LaidOut text parts

/-- Texts that have the same lexemes, but for the gaps between them and the case of keywords. -/
inductive SameLexemes (a b : String) : Prop
  | of {ps qs : List Part} : LaidOut a ps → LaidOut b qs →
      List.Forall₂ (fun p q => p.lexeme.Respelled q.lexeme) ps qs → SameLexemes a b

theorem wordKind_spelling (k : Keyword) : WordKind k.spelling.toList (.keyword k) :=
  .keyword k.map_toLower_spelling.symm

theorem WordKind.respelled {k : Keyword} {w w' : List Char} (h : WordKind w (.keyword k))
    (hw : List.Forall₂ Text.SameLetter w w') : WordKind w' (.keyword k) := by
  cases h with
  | keyword hk => exact .keyword (hk.trans (Text.forall₂_sameLetter_iff.1 hw))

/-- A lexeme written otherwise makes the token written otherwise, wherever both stand. -/
theorem Lexeme.Respelled.tokenOf {l l' : Lexeme} (h : l.Respelled l') (pos pos' : Position) :
    (Lexical.tokenOf pos l).Respelled (Lexical.tokenOf pos' l') := by
  cases h with
  | same => cases l <;> exact ⟨rfl, .inl rfl⟩
  | @keyword k w w' hk hw =>
    have hkind : Lexer.wordKind (String.ofList w) = .keyword k := wordKind_eq_iff.2 hk
    have hkind' : Lexer.wordKind (String.ofList w') = .keyword k :=
      wordKind_eq_iff.2 (hk.respelled hw)
    have htext : Text.Recased (String.ofList w) (String.ofList w') := by
      simpa [Text.Recased] using hw
    have hkeyword : (Lexical.tokenOf pos (.word w)).kind.isKeyword = true :=
      congrArg Token.Kind.isKeyword hkind
    exact ⟨hkind'.trans hkind.symm, .inr ⟨hkeyword, .some htext⟩⟩

theorem respelled_tokensOf {ps qs : List Part}
    (h : List.Forall₂ (fun p q => p.lexeme.Respelled q.lexeme) ps qs) :
    ∀ before before',
      List.Forall₂ Token.Respelled (tokensOf before ps) (tokensOf before' qs) := by
  induction h with
  | nil => exact fun _ _ => .nil
  | cons hlexeme _ ih => exact fun _ _ => .cons (hlexeme.tokenOf _ _) (ih _ _)

theorem LaidOut.tokenize_eq {text : String} {parts : List Part} (h : LaidOut text parts) :
    tokenize text = .ok (tokensOf [] parts ++ [Token.eof (placeAfter text.toList)]) := by
  obtain ⟨hwf, hgap, htext⟩ := h
  exact tokenize_spell_gap hwf hgap htext

end Lexical

namespace Source

open Grammar Lexical

/-! ### Programs -/

/-- The parser refuses both texts, for want of the same at tokens that correspond. -/
inductive AlikeRefusal : RuleError → RuleError → Prop
  | parse {e e' : ParseError} : AlikeError Token.Respelled e e' →
      AlikeRefusal (.parse e) (.parse e')

theorem ofText_of_sameLexemes {a b : String} (h : SameLexemes a b) :
    Related AlikeRefusal Eq (Program.ofText a) (Program.ofText b) := by
  obtain ⟨ha, hb, hlexemes⟩ := h
  have heof : ∀ pos pos', (Token.eof pos).Respelled (.eof pos') := fun _ _ => ⟨rfl, .inl rfl⟩
  have htokens := List.rel_append (respelled_tokensOf hlexemes [] [])
    (.cons (heof (placeAfter a.toList) (placeAfter b.toList)) .nil)
  rw [Program.ofText_of_tokenize ha.tokenize_eq, Program.ofText_of_tokenize hb.tokenize_eq]
  refine (parse_respelled htokens).mapError ?_
  rintro _ _ ⟨hindex⟩
  exact .parse (.of (hindex.respelled htokens))

/-- Neither where tokens stand nor how keywords are written decides anything. Lists of tokens that
agree but for that make the same program, or fail at the same index for want of the same. So texts
that have the same lexemes, but for the gaps between them and the case of keywords, write the same
program, or are refused for want of the same. -/
theorem layout_decides_nothing :
    (∀ ts us : List Token, List.Forall₂ Token.Respelled ts us →
      Related (AlikeError (SameIndex ts us)) Eq (Program.parse ts) (Program.parse us)) ∧
    (∀ a b : String, SameLexemes a b →
      Related AlikeRefusal Eq (Program.ofText a) (Program.ofText b)) :=
  ⟨fun _ _ => parse_respelled, fun _ _ => ofText_of_sameLexemes⟩

/-- A keyword as a field, without its comparison, and a program on one line and on two. -/
theorem layout_decides_nothing_keywords :
    let ts := [word .folder, name "A", word .when, word .sender, word .thenWord]
    let us := [⟨.keyword .folder, some "Folder", ⟨1, 1⟩⟩, name "A", word .when,
      ⟨.keyword .sender, some "SENDER", ⟨2, 1⟩⟩, ⟨.keyword .thenWord, some "Then", ⟨9, 9⟩⟩]
    let a := "folder A when x in \"y\" then auto"
    let b := "Folder\tA\r\nWHEN x IN\"y\"THEN auto "
    List.Forall₂ Token.Respelled ts us ∧ SameLexemes a b ∧
      (∃ e, Program.parse us = .error e ∧ e.expected = .comparison "sender") ∧
      Program.ofText b = .ok ⟨[⟨"A", 0, [⟨.isIn "x" ["y"], [.auto]⟩]⟩]⟩ := by
  intro ts us a b
  have hts : Program.parse ts = .error (.of (word .thenWord) (.comparison "sender")) := rfl
  have ha : Program.ofText a = .ok ⟨[⟨"A", 0, [⟨.isIn "x" ["y"], [.auto]⟩]⟩]⟩ := by decide +kernel
  have hword : ∀ (k : Keyword) (s : String) (pos : Position), Text.Recased k.spelling s →
      (word k).Respelled ⟨.keyword k, some s, pos⟩ :=
    fun k s pos hs => ⟨rfl, .inr ⟨rfl, .some hs⟩⟩
  have htokens : List.Forall₂ Token.Respelled ts us :=
    .cons (hword _ _ _ (by decide)) (.cons ⟨rfl, .inl rfl⟩ (.cons ⟨rfl, .inl rfl⟩
      (.cons (hword _ _ _ (by decide)) (.cons (hword _ _ _ (by decide)) .nil))))
  have hlexemes : SameLexemes a b := by
    let ps : List Part := [⟨[], .word "folder".toList⟩, ⟨[' '], .word ['A']⟩,
      ⟨[' '], .word "when".toList⟩, ⟨[' '], .word ['x']⟩, ⟨[' '], .word "in".toList⟩,
      ⟨[' '], .quoted ['y']⟩, ⟨[' '], .word "then".toList⟩, ⟨[' '], .word "auto".toList⟩]
    let qs : List Part := [⟨[], .word "Folder".toList⟩, ⟨['\t'], .word ['A']⟩,
      ⟨['\r', '\n'], .word "WHEN".toList⟩, ⟨[' '], .word ['x']⟩, ⟨[' '], .word "IN".toList⟩,
      ⟨[], .quoted ['y']⟩, ⟨[], .word "THEN".toList⟩, ⟨[' '], .word "auto".toList⟩]
    have hps : LaidOut a ps := @LaidOut.of a ps [] (by decide) (by decide) (by decide)
    have hqs : LaidOut b qs := @LaidOut.of b qs [' '] (by decide) (by decide) (by decide)
    have hkeyword : ∀ (k : Keyword) (s : String), Text.Recased k.spelling s →
        (Lexeme.word k.spelling.toList).Respelled (.word s.toList) :=
      fun k _ hs => .keyword (wordKind_spelling k) hs
    exact .of hps hqs (.cons (hkeyword .folder _ (by decide)) (.cons .same
      (.cons (hkeyword .when _ (by decide)) (.cons .same (.cons (hkeyword .inWord _ (by decide))
        (.cons .same (.cons (hkeyword .thenWord _ (by decide)) (.cons .same .nil))))))))
  refine ⟨htokens, hlexemes, ?_, ?_⟩
  · have h := layout_decides_nothing.1 ts us htokens
    rw [hts] at h
    generalize Program.parse us = x at h
    cases h with
    | error he => exact ⟨_, rfl, he.expected_eq⟩
  · have h := layout_decides_nothing.2 a b hlexemes
    rw [ha] at h
    generalize Program.ofText b = x at h
    cases h with
    | ok hp => exact congrArg Except.ok hp.symm

end Source
end MailRules
