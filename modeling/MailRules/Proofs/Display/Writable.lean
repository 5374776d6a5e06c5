import MailRules.Condition.Display
import MailRules.Proofs.Grammar.Sound.Program
import MailRules.Proofs.Grammar.Texts

/-!
Conditions that have a text in the rule language. Their fields are words that a field reads as they
are, their texts hold no quote, and no list of theirs is empty. Whatever a rule text is parsed to,
its conditions are of this kind: fields are made from words, texts from strings between quotes.
-/

namespace MailRules

namespace Condition

/-- The texts that the predicates look for, from left to right. -/
def texts : Condition → List String
  | contains _ pattern => pattern.needles
  | isIn _ needles => needles
  | and a b | or a b => a.texts ++ b.texts
  | not a => a.texts

/-- The lists among the patterns, from left to right. -/
def lists : Condition → List (List String)
  | contains _ (.one _) => []
  | contains _ (.any needles) | isIn _ needles => [needles]
  | and a b | or a b => a.lists ++ b.lists
  | not a => a.lists

end Condition

namespace Display

open Grammar Lexical

/-! ### Fields -/

/-- A word that names the field of the same spelling. NOT names none, in any case, and keywords
name one by their lower case. -/
structure IsFieldName (f : String) : Prop where
  nonempty : f.toList ≠ []
  wordChars : ∀ c ∈ f.toList, IsWordChar c
  notNot : f.toList.map Char.toLower ≠ "not".toList
  lower : ∀ k : Keyword, f.toList.map Char.toLower = k.spelling.toList →
    f.toList.map Char.toLower = f.toList

theorem isFieldName_spelling {k : Keyword} (hk : k ≠ .not) : IsFieldName k.spelling := by
  have hlower := k.map_toLower_spelling
  have hwords : k.spelling.toList.all Lexer.isWordChar = true := by cases k <;> decide
  refine ⟨by cases k <;> decide,
    fun c hc => isWordChar_iff.1 (List.all_eq_true.1 hwords c hc), ?_, fun _ _ => hlower⟩
  rw [hlower]
  exact fun hnot => hk (Keyword.spelling_injective (String.toList_inj.1 hnot))

/-- A token that a lexeme makes at some place. -/
def IsLexed (t : Token) : Prop := ∃ pos l, Lexeme.Valid l ∧ Makes pos l t

theorem isFieldName_of_isField {t : Token} {f : String} (h : IsField t f) (ht : IsLexed t) :
    IsFieldName f := by
  obtain ⟨pos, l, hl, hmake⟩ := ht
  cases h with
  | @keyword k hk hne =>
    cases hmake with
    | @word w kind hkind =>
      cases hk
      cases hkind with
      | keyword hspell =>
        have hfield : String.ofList ((String.ofList w).toList.map Char.toLower) = k.spelling := by
          rw [String.toList_ofList, ← hspell, String.ofList_toList]
        exact hfield ▸ isFieldName_spelling hne
    | quoted => cases hk
    | symbol => cases hk
  | identifier hk =>
    cases hmake with
    | @word w kind hkind =>
      cases hk
      cases hkind with
      | identifier hno =>
        have hfield : (String.ofList w).toList = w := String.toList_ofList
        refine ⟨?_, ?_, ?_, ?_⟩ <;> simp only [Token.spelling, Option.getD_some, hfield]
        · exact hl.1
        · exact hl.2
        · exact fun hnot => hno .not hnot.symm
        · exact fun k hk => absurd hk.symm (hno k)
    | quoted => cases hk
    | symbol => cases hk

/-! ### Texts -/

/-- Words and symbols hold no quote, and strings are spelled without theirs. -/
theorem noQuote_of_isLexed {t : Token} (ht : IsLexed t) : '"' ∉ t.spelling.toList := by
  obtain ⟨pos, l, hl, hmake⟩ := ht
  cases hmake with
  | word =>
    rw [Token.spelling, Option.getD_some, String.toList_ofList]
    exact fun hquote => (hl.2 '"' hquote).ne_quote rfl
  | quoted =>
    rw [Token.spelling, Option.getD_some, String.toList_ofList]
    exact hl
  | @symbol s =>
    rw [Token.spelling, Option.getD_some]
    cases s <;> decide

theorem noQuote_of_text {t : Token} {s : String} (h : Text [t] s) (ht : IsLexed t) :
    '"' ∉ s.toList := by
  obtain ⟨-⟩ := h
  exact noQuote_of_isLexed ht

theorem noQuote_of_isName {t : Token} {name : String} (h : IsName t name) (ht : IsLexed t) :
    '"' ∉ name.toList :=
  h.2 ▸ noQuote_of_isLexed ht

theorem noQuote_of_textList {ts : List Token} {texts : List String} (h : TextList ts texts)
    (hts : ∀ t ∈ ts, IsLexed t) : ∀ s ∈ texts, '"' ∉ s.toList := by
  cases h with
  | mk _ hseparated _ =>
    intro s hs
    obtain ⟨us, hus, htext⟩ := hseparated.exists_of_mem s hs
    cases htext with
    | mk hk =>
      exact noQuote_of_text (.mk hk) (hts _ (List.mem_cons_of_mem _
        (List.mem_append_left _ (hus List.mem_cons_self))))

/-! ### Conditions -/

/-- A condition that has a text. -/
structure Writable (c : Condition) : Prop where
  fields : ∀ f ∈ c.fields, IsFieldName f
  texts : ∀ s ∈ c.texts, '"' ∉ s.toList
  lists : ∀ l ∈ c.lists, l ≠ []

theorem writable_join {a b c : Condition} (hfields : c.fields = a.fields ++ b.fields)
    (htexts : c.texts = a.texts ++ b.texts) (hlists : c.lists = a.lists ++ b.lists) :
    Writable c ↔ Writable a ∧ Writable b := by
  constructor
  · rintro ⟨hf, ht, hl⟩
    rw [hfields, List.forall_mem_append] at hf
    rw [htexts, List.forall_mem_append] at ht
    rw [hlists, List.forall_mem_append] at hl
    exact ⟨⟨hf.1, ht.1, hl.1⟩, ⟨hf.2, ht.2, hl.2⟩⟩
  · rintro ⟨ha, hb⟩
    refine ⟨?_, ?_, ?_⟩
    · rw [hfields, List.forall_mem_append]
      exact ⟨ha.fields, hb.fields⟩
    · rw [htexts, List.forall_mem_append]
      exact ⟨ha.texts, hb.texts⟩
    · rw [hlists, List.forall_mem_append]
      exact ⟨ha.lists, hb.lists⟩

theorem writable_and {a b : Condition} : Writable (a.and b) ↔ Writable a ∧ Writable b :=
  writable_join rfl rfl rfl

theorem writable_or {a b : Condition} : Writable (a.or b) ↔ Writable a ∧ Writable b :=
  writable_join rfl rfl rfl

theorem writable_not {a : Condition} : Writable a.not ↔ Writable a :=
  ⟨fun h => ⟨h.fields, h.texts, h.lists⟩, fun h => ⟨h.fields, h.texts, h.lists⟩⟩

/-- Fields that are words and texts without quotes. NOT may be a field, and lists may be empty. -/
structure Legible (c : Condition) : Prop where
  fields : ∀ f ∈ c.fields, f.toList ≠ [] ∧ ∀ ch ∈ f.toList, IsWordChar ch
  texts : ∀ s ∈ c.texts, '"' ∉ s.toList

theorem legible_iff {c : Condition} : Legible c ↔
    (∀ f ∈ c.fields, f.toList ≠ [] ∧ ∀ ch ∈ f.toList, IsWordChar ch) ∧
      ∀ s ∈ c.texts, '"' ∉ s.toList :=
  ⟨fun h => ⟨h.fields, h.texts⟩, fun h => ⟨h.1, h.2⟩⟩

theorem legible_join {a b c : Condition} (hfields : c.fields = a.fields ++ b.fields)
    (htexts : c.texts = a.texts ++ b.texts) : Legible c ↔ Legible a ∧ Legible b := by
  rw [legible_iff, legible_iff, legible_iff, hfields, htexts, List.forall_mem_append,
    List.forall_mem_append, and_and_and_comm]

theorem legible_and {a b : Condition} : Legible (a.and b) ↔ Legible a ∧ Legible b :=
  legible_join rfl rfl

theorem legible_or {a b : Condition} : Legible (a.or b) ↔ Legible a ∧ Legible b :=
  legible_join rfl rfl

theorem legible_not {a : Condition} : Legible a.not ↔ Legible a :=
  ⟨fun h => ⟨h.fields, h.texts⟩, fun h => ⟨h.fields, h.texts⟩⟩

theorem Writable.legible {c : Condition} (h : Writable c) : Legible c :=
  ⟨fun f hf => ⟨(h.fields f hf).nonempty, (h.fields f hf).wordChars⟩, h.texts⟩

/-! ### What is parsed -/

theorem lists_of_predicate {ts : List Token} {c : Condition} (h : Predicate ts c) :
    ∀ l ∈ c.lists, l ≠ [] := by
  cases h with
  | contains => exact fun l hl => absurd hl List.not_mem_nil
  | isIn => exact List.forall_mem_singleton.2 (List.cons_ne_nil _ _)
  | containsList _ _ hlist | isInList _ _ hlist =>
    obtain ⟨-, htexts, -⟩ := hlist
    exact List.forall_mem_singleton.2 htexts.ne_nil

theorem writable_of_predicate {ts : List Token} {c : Condition} (h : Predicate ts c)
    (hts : ∀ t ∈ ts, IsLexed t) : Writable c := by
  have hlists := lists_of_predicate h
  cases h with
  | @contains f k s field text hf _ htext | @isIn f k s field text hf _ htext =>
    have hfield := isFieldName_of_isField hf (hts f List.mem_cons_self)
    have hquote := noQuote_of_text htext (hts s (by simp))
    exact ⟨List.forall_mem_singleton.2 hfield, List.forall_mem_singleton.2 hquote, hlists⟩
  | @containsList f k ts field texts hf _ hlist | @isInList f k ts field texts hf _ hlist =>
    have hfield := isFieldName_of_isField hf (hts f List.mem_cons_self)
    have hquote := noQuote_of_textList hlist fun t ht => hts t (by simp [ht])
    exact ⟨List.forall_mem_singleton.2 hfield, hquote, hlists⟩

/-- No list is empty in what the grammar derives, from whatever tokens. -/
theorem lists_of_derives {lim : Limits} {layer : Layer} {d : Nat} {ts : List Token}
    {c : Condition} (h : Derives lim layer d ts c) : ∀ l ∈ c.lists, l ≠ [] := by
  induction h with
  | orOfAnd _ ih | andOfNot _ ih => exact ih
  | or _ _ _ _ iha ihb | and _ _ _ _ iha ihb => exact List.forall_mem_append.2 ⟨iha, ihb⟩
  | not _ _ _ ih | group _ _ _ _ ih => exact ih
  | predicate hp => exact lists_of_predicate hp

theorem writable_of_derives {lim : Limits} {layer : Layer} {d : Nat} {ts : List Token}
    {c : Condition} (h : Derives lim layer d ts c) : (∀ t ∈ ts, IsLexed t) → Writable c := by
  induction h with
  | orOfAnd _ ih | andOfNot _ ih => exact ih
  | or _ _ _ _ iha ihb =>
    intro hts
    obtain ⟨hleft, hright⟩ := List.forall_mem_append.1 hts
    exact writable_or.2 ⟨iha hleft, ihb (List.forall_mem_cons.1 hright).2⟩
  | and _ _ _ _ iha ihb =>
    intro hts
    obtain ⟨hleft, hright⟩ := List.forall_mem_append.1 hts
    exact writable_and.2 ⟨iha hleft, ihb (List.forall_mem_cons.1 hright).2⟩
  | not _ _ _ ih => exact fun hts => writable_not.2 (ih (List.forall_mem_cons.1 hts).2)
  | group _ _ _ _ ih =>
    exact fun hts => ih (List.forall_mem_append.1 (List.forall_mem_cons.1 hts).2).1
  | predicate hp => exact writable_of_predicate hp

theorem writable_of_programOf {lim : Limits} {ts : List Token} {p : Program}
    (h : ProgramOf lim ts p) (hts : ∀ t ∈ ts, IsLexed t) {f : Folder} (hf : f ∈ p.folders)
    {r : Rule} (hr : r ∈ f.rules) : Writable r.condition := by
  obtain ⟨us, hus, hfolder⟩ := Many.exists_of_mem h f hf
  obtain ⟨vs, hvs, hc⟩ := hfolder.derives r hr
  exact writable_of_derives hc fun t ht => hts t (hus (hvs ht))

theorem isLexed_of_tokens {before : List Char} {parts : List Part} {ts : List Token}
    (h : Tokens before parts ts) (hvalid : ∀ p ∈ parts, p.lexeme.Valid) :
    ∀ t ∈ ts, IsLexed t := by
  induction h with
  | nil => exact fun t ht => absurd ht List.not_mem_nil
  | @cons before p t parts ts hmake _ ih =>
    have hp : IsLexed t := ⟨_, p.lexeme, hvalid p List.mem_cons_self, hmake⟩
    exact List.forall_mem_cons.2 ⟨hp, ih fun q hq => hvalid q (List.mem_cons_of_mem p hq)⟩

/-- But for the end of the input, the tokens of a text are made by lexemes. -/
theorem isLexed_of_tokenize {text : String} {ts : List Token} (h : tokenize text = .ok ts) :
    ∀ t ∈ beforeEnd ts, IsLexed t := by
  obtain ⟨s, hs, hfinish⟩ := bind_eq_ok h
  obtain ⟨parts, gap, tokens, -, hwf, -, htokens, rfl⟩ :=
    finish_eq_ok (feed_invariant took_step _ took_initial hs) hfinish
  rw [beforeEnd_append htokens.unended rfl]
  exact isLexed_of_tokens htokens hwf.lexemes

/-- The conditions of a program that is read from a text have a text themselves. -/
theorem writable_of_ofText {text : String} {p : Program} (h : Program.ofText text = .ok p)
    {f : Folder} (hf : f ∈ p.folders) {r : Rule} (hr : r ∈ f.rules) : Writable r.condition := by
  obtain ⟨ts, hts, hp⟩ := Program.ofText_eq_ok h
  exact writable_of_programOf (programOf_of_parse hp) (isLexed_of_tokenize hts) hf hr

end Display

end MailRules
