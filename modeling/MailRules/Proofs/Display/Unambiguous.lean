import MailRules.Proofs.Display.Parts

/-!
Conditions are told apart by their texts, however large they are. A text says more than that: where
it ends is seen from its own characters, so a condition can be taken off the front of any text that
it begins. No parser takes part in this, and no limit on nesting.

    (NOT in [])              behind the first word   in    a predicate on the field NOT
    (NOT (NOT in []))                                (     a negation
    ((NOT in []) OR (x in ["y) OR ("]))                    no word at the front: AND or OR
-/

namespace MailRules

namespace Condition

theorem fields_negate (c : Condition) : ∀ n, (c.negate n).fields = c.fields
  | 0 => rfl
  | n + 1 => fields_negate c n

theorem texts_negate (c : Condition) : ∀ n, (c.negate n).texts = c.texts
  | 0 => rfl
  | n + 1 => texts_negate c n

end Condition

namespace Display

open Lexical Condition

/-! ### Texts that say where they end -/

/-- What begins with the text of this value begins with the text of no other valid value. -/
def SelfDelimiting {α : Type} (Valid : α → Prop) (write : α → String) (a : α) : Prop :=
  ∀ ⦃b : α⦄, Valid b → ∀ ⦃r s : List Char⦄,
    (write a).toList ++ r = (write b).toList ++ s → a = b ∧ r = s

theorem SelfDelimiting.eq {α : Type} {Valid : α → Prop} {write : α → String} {a b : α}
    (h : SelfDelimiting Valid write a) (hb : Valid b) (htext : write a = write b) : a = b :=
  (h hb (congrArg (String.toList · ++ []) htext)).1

/-- Texts that are alike are alike up to the first `c`, and behind it. -/
theorem eq_of_append_cons {c : Char} {u : List Char} : ∀ {v r s : List Char}, c ∉ u → c ∉ v →
    u ++ c :: r = v ++ c :: s → u = v ∧ r = s := by
  induction u with
  | nil =>
    intro v r s _ hv h
    cases v with
    | nil => exact ⟨rfl, (List.cons.inj h).2⟩
    | cons d v => exact absurd ((List.cons.inj h).1 ▸ List.mem_cons_self) hv
  | cons d u ih =>
    intro v r s hu hv h
    cases v with
    | nil => exact absurd ((List.cons.inj h).1 ▸ List.mem_cons_self) hu
    | cons e v =>
      obtain ⟨hde, htail⟩ := List.cons.inj h
      obtain ⟨huv, hrs⟩ :=
        ih (List.not_mem_of_not_mem_cons hu) (List.not_mem_of_not_mem_cons hv) htail
      exact ⟨congrArg₂ List.cons hde huv, hrs⟩

/-! ### Texts between quotes and their lists -/

theorem toList_quote_append (s : String) (r : List Char) :
    (quote s).toList ++ r = '"' :: (s.toList ++ '"' :: r) := by
  simp [quote]

theorem selfDelimiting_quote {s : String} (hs : '"' ∉ s.toList) :
    SelfDelimiting ('"' ∉ ·.toList) quote s := by
  intro t ht r r' h
  rw [toList_quote_append, toList_quote_append] at h
  obtain ⟨hst, hr⟩ := eq_of_append_cons hs ht (List.cons.inj h).2
  exact ⟨String.toList_inj.1 hst, hr⟩

/-- Texts that may stand between quotes. -/
def Quotable (texts : List String) : Prop := ∀ s ∈ texts, '"' ∉ s.toList

theorem toList_displayRest_append (s : String) (rest : List String) (r : List Char) :
    (displayRest (s :: rest)).toList ++ r =
      ',' :: ' ' :: ((quote s).toList ++ ((displayRest rest).toList ++ r)) := by
  simp [displayRest]

theorem selfDelimiting_displayRest {texts : List String} : Quotable texts →
    SelfDelimiting Quotable displayRest texts := by
  induction texts with
  | nil =>
    intro _ texts' _ r s h
    cases texts' with
    | nil => exact ⟨rfl, (List.cons.inj h).2⟩
    | cons t' rest' =>
      rw [toList_displayRest_append] at h
      cases h
  | cons t rest ih =>
    intro htexts texts' htexts' r s h
    obtain ⟨ht, hrest⟩ := List.forall_mem_cons.1 htexts
    rw [toList_displayRest_append] at h
    cases texts' with
    | nil => cases h
    | cons t' rest' =>
      obtain ⟨ht', hrest'⟩ := List.forall_mem_cons.1 htexts'
      rw [toList_displayRest_append] at h
      have hbehind := (List.cons.inj (List.cons.inj h).2).2
      obtain ⟨htt, hmore⟩ := selfDelimiting_quote ht ht' hbehind
      obtain ⟨hrr, hrs⟩ := ih hrest hrest' hmore
      exact ⟨congrArg₂ List.cons htt hrr, hrs⟩

theorem toList_displayList_append (s : String) (rest : List String) (r : List Char) :
    (displayList (s :: rest)).toList ++ r =
      '[' :: ((quote s).toList ++ ((displayRest rest).toList ++ r)) := by
  simp [displayList]

theorem selfDelimiting_displayList {texts : List String} (htexts : Quotable texts) :
    SelfDelimiting Quotable displayList texts := by
  intro texts' htexts' r s h
  cases texts <;> cases texts'
  case nil.nil => exact ⟨rfl, (List.cons.inj (List.cons.inj h).2).2⟩
  case nil.cons | cons.nil =>
    rw [toList_displayList_append, toList_quote_append] at h
    cases h
  case cons.cons t rest t' rest' =>
    obtain ⟨ht, hrest⟩ := List.forall_mem_cons.1 htexts
    obtain ⟨ht', hrest'⟩ := List.forall_mem_cons.1 htexts'
    rw [toList_displayList_append, toList_displayList_append] at h
    obtain ⟨htt, hmore⟩ := selfDelimiting_quote ht ht' (List.cons.inj h).2
    obtain ⟨hrr, hrs⟩ := selfDelimiting_displayRest hrest hrest' hmore
    exact ⟨congrArg₂ List.cons htt hrr, hrs⟩

theorem displayList_begins (texts : List String) (r : List Char) :
    ∃ r', (displayList texts).toList ++ r = '[' :: r' := by
  cases texts with
  | nil => exact ⟨_, rfl⟩
  | cons s rest => exact ⟨_, toList_displayList_append s rest r⟩

theorem selfDelimiting_displayPattern {pattern : Pattern} (hpattern : Quotable pattern.needles) :
    SelfDelimiting (Quotable ·.needles) displayPattern pattern := by
  intro pattern' hpattern' r s h
  cases pattern <;> cases pattern'
  case one.one needle needle' =>
    obtain ⟨hneedle, hrs⟩ := selfDelimiting_quote (hpattern needle List.mem_cons_self)
      (hpattern' needle' List.mem_cons_self) h
    exact ⟨congrArg Pattern.one hneedle, hrs⟩
  case one.any needle needles =>
    obtain ⟨s', hs⟩ := displayList_begins needles s
    rw [displayPattern, displayPattern, toList_quote_append, hs] at h
    cases h
  case any.one needles needle =>
    obtain ⟨r', hr⟩ := displayList_begins needles r
    rw [displayPattern, displayPattern, toList_quote_append, hr] at h
    cases h
  case any.any needles needles' =>
    obtain ⟨hneedles, hrs⟩ := selfDelimiting_displayList hpattern hpattern' h
    exact ⟨congrArg Pattern.any hneedles, hrs⟩

/-! ### Conditions -/

section
variable (r : List Char)

theorem toList_contains_append (field : String) (pattern : Pattern) :
    (contains field pattern).display.toList ++ r = '(' :: (field.toList ++ ' ' ::
      ("contains ".toList ++ ((displayPattern pattern).toList ++ ')' :: r))) := by
  simp [display]

theorem toList_isIn_append (field : String) (needles : List String) :
    (isIn field needles).display.toList ++ r = '(' :: (field.toList ++ ' ' ::
      ("in ".toList ++ ((displayList needles).toList ++ ')' :: r))) := by
  simp [display]

theorem toList_and_append (a b : Condition) : (a.and b).display.toList ++ r =
    '(' :: (a.display.toList ++ (" AND ".toList ++ (b.display.toList ++ ')' :: r))) := by
  simp [display]

theorem toList_or_append (a b : Condition) : (a.or b).display.toList ++ r =
    '(' :: (a.display.toList ++ (" OR ".toList ++ (b.display.toList ++ ')' :: r))) := by
  simp [display]

theorem toList_not_append (a : Condition) : a.not.display.toList ++ r =
    '(' :: ("NOT".toList ++ ' ' :: (a.display.toList ++ ')' :: r)) := by
  simp [display]

theorem display_begins (c : Condition) : ∃ r', c.display.toList ++ r = '(' :: r' := by
  cases c with
  | contains field pattern => exact ⟨_, toList_contains_append r field pattern⟩
  | isIn field needles => exact ⟨_, toList_isIn_append r field needles⟩
  | and a b => exact ⟨_, toList_and_append r a b⟩
  | or a b => exact ⟨_, toList_or_append r a b⟩
  | not a => exact ⟨_, toList_not_append r a⟩

end

/-- The character behind the first word of a text in parentheses and a blank. -/
def mark? (text : List Char) : Option Char :=
  match text.tail.dropWhile Lexer.isWordChar with
  | ' ' :: c :: _ => some c
  | _ => none

/-- The mark in the text of a condition, which tells the three kinds that begin with a word from
each other and from AND and OR. -/
def markOf : Condition → Option Char
  | .contains .. => some 'c'
  | .isIn .. => some 'i'
  | .not _ => some '('
  | .and .. | .or .. => none

theorem mark?_word {w : List Char} (hw : ∀ ch ∈ w, IsWordChar ch) (c : Char) (r : List Char) :
    mark? ('(' :: (w ++ ' ' :: c :: r)) = some c := by
  have hbehind : (w ++ ' ' :: c :: r).dropWhile Lexer.isWordChar = ' ' :: c :: r := by
    rw [List.dropWhile_append_of_pos fun ch hch => isWordChar_iff.2 (hw ch hch)]
    rfl
  rw [mark?, List.tail_cons, hbehind]
  rfl

theorem mark?_display {c : Condition} (h : Legible c) (r : List Char) :
    mark? (c.display.toList ++ r) = markOf c := by
  cases c with
  | contains field pattern =>
    rw [toList_contains_append]
    exact mark?_word (h.fields field List.mem_cons_self).2 'c' _
  | isIn field needles =>
    rw [toList_isIn_append]
    exact mark?_word (h.fields field List.mem_cons_self).2 'i' _
  | and a b =>
    obtain ⟨r', hr⟩ := display_begins (" AND ".toList ++ (b.display.toList ++ ')' :: r)) a
    rw [toList_and_append, hr]
    rfl
  | or a b =>
    obtain ⟨r', hr⟩ := display_begins (" OR ".toList ++ (b.display.toList ++ ')' :: r)) a
    rw [toList_or_append, hr]
    rfl
  | not a =>
    obtain ⟨r', hr⟩ := display_begins (')' :: r) a
    have hnot : (Lexeme.word "NOT".toList).Valid := valid_word (by decide)
    rw [toList_not_append, hr]
    exact mark?_word hnot.2 '(' r'

theorem markOf_eq {c c' : Condition} {r s : List Char} (hc : Legible c) (hc' : Legible c')
    (h : c.display.toList ++ r = c'.display.toList ++ s) : markOf c = markOf c' := by
  rw [← mark?_display hc r, h, mark?_display hc']

/-- Up to the blank behind it, a field is seen. -/
theorem field_inj {f g : String} {r s : List Char}
    (hf : ∀ ch ∈ f.toList, IsWordChar ch) (hg : ∀ ch ∈ g.toList, IsWordChar ch)
    (h : '(' :: (f.toList ++ ' ' :: r) = '(' :: (g.toList ++ ' ' :: s)) : f = g ∧ r = s := by
  have hblank : ¬ IsWordChar ' ' := by decide
  obtain ⟨hfg, hrs⟩ := eq_of_append_cons (fun hmem => hblank (hf ' ' hmem))
    (fun hmem => hblank (hg ' ' hmem)) (List.cons.inj h).2
  exact ⟨String.toList_inj.1 hfg, hrs⟩

/-- The text of a condition says which condition it is, and where it ends. -/
theorem selfDelimiting_display {c : Condition} : Legible c →
    SelfDelimiting Legible display c := by
  -- The mark leaves conditions of the same kind, and AND beside OR: these part behind their first
  -- operand, which the induction takes off.
  induction c with
  | contains field pattern =>
    intro hc c' hc' r s h
    have hmark := markOf_eq hc hc' h
    cases c' with
    | isIn | and | or | not => cases hmark
    | contains field' pattern' =>
      rw [toList_contains_append, toList_contains_append] at h
      obtain ⟨rfl, hbehind⟩ := field_inj (hc.fields field List.mem_cons_self).2
        (hc'.fields field' List.mem_cons_self).2 h
      obtain ⟨rfl, hend⟩ := selfDelimiting_displayPattern hc.texts hc'.texts
        (List.append_cancel_left hbehind)
      exact ⟨rfl, (List.cons.inj hend).2⟩
  | isIn field needles =>
    intro hc c' hc' r s h
    have hmark := markOf_eq hc hc' h
    cases c' with
    | contains | and | or | not => cases hmark
    | isIn field' needles' =>
      rw [toList_isIn_append, toList_isIn_append] at h
      obtain ⟨rfl, hbehind⟩ := field_inj (hc.fields field List.mem_cons_self).2
        (hc'.fields field' List.mem_cons_self).2 h
      obtain ⟨rfl, hend⟩ := selfDelimiting_displayList hc.texts hc'.texts
        (List.append_cancel_left hbehind)
      exact ⟨rfl, (List.cons.inj hend).2⟩
  | and a b iha ihb =>
    intro hc c' hc' r s h
    have hmark := markOf_eq hc hc' h
    obtain ⟨ha, hb⟩ := legible_and.1 hc
    rw [toList_and_append] at h
    cases c' with
    | contains | isIn | not => cases hmark
    | and a' b' =>
      obtain ⟨ha', hb'⟩ := legible_and.1 hc'
      rw [toList_and_append] at h
      obtain ⟨rfl, hbehind⟩ := iha ha ha' (List.cons.inj h).2
      obtain ⟨rfl, hend⟩ := ihb hb hb' (List.append_cancel_left hbehind)
      exact ⟨rfl, (List.cons.inj hend).2⟩
    | or a' b' =>
      rw [toList_or_append] at h
      obtain ⟨-, hbehind⟩ := iha ha (legible_or.1 hc').1 (List.cons.inj h).2
      cases hbehind
  | or a b iha ihb =>
    intro hc c' hc' r s h
    have hmark := markOf_eq hc hc' h
    obtain ⟨ha, hb⟩ := legible_or.1 hc
    rw [toList_or_append] at h
    cases c' with
    | contains | isIn | not => cases hmark
    | and a' b' =>
      rw [toList_and_append] at h
      obtain ⟨-, hbehind⟩ := iha ha (legible_and.1 hc').1 (List.cons.inj h).2
      cases hbehind
    | or a' b' =>
      obtain ⟨ha', hb'⟩ := legible_or.1 hc'
      rw [toList_or_append] at h
      obtain ⟨rfl, hbehind⟩ := iha ha ha' (List.cons.inj h).2
      obtain ⟨rfl, hend⟩ := ihb hb hb' (List.append_cancel_left hbehind)
      exact ⟨rfl, (List.cons.inj hend).2⟩
  | not a ih =>
    intro hc c' hc' r s h
    have hmark := markOf_eq hc hc' h
    cases c' with
    | contains | isIn | and | or => cases hmark
    | not a' =>
      rw [toList_not_append, toList_not_append] at h
      have hbehind := List.append_cancel_left (List.cons.inj h).2
      obtain ⟨rfl, hend⟩ := ih (legible_not.1 hc) (legible_not.1 hc') (List.cons.inj hbehind).2
      exact ⟨rfl, (List.cons.inj hend).2⟩

/-- Legible conditions of any size have the same text only where they are the same. -/
theorem display_eq_iff {a b : Condition} (ha : Legible a) (hb : Legible b) :
    a.display = b.display ↔ a = b :=
  ⟨(selfDelimiting_display ha).eq hb, congrArg display⟩

/-- A predicate on the field NOT below more negations than the parser takes. -/
def buried (needles : List String) : Condition :=
  (Condition.isIn "NOT" needles).negate (2 * maxNesting)

theorem display_eq_iff_buried : Legible (buried []) ∧ Legible (buried ["] AND (NOT in [", ""]) ∧
    (buried []).display ≠ (buried ["] AND (NOT in [", ""]).display := by
  have hlegible : ∀ {needles : List String}, (∀ s ∈ needles, '"' ∉ s.toList) →
      Legible (buried needles) := by
    intro needles h
    refine ⟨?_, ?_⟩
    · rw [buried, fields_negate]
      exact List.forall_mem_singleton.2 (valid_word (by decide))
    · rw [buried, texts_negate]
      exact h
  have hempty : Legible (buried []) := hlegible nofun
  have hfull : Legible (buried ["] AND (NOT in [", ""]) := hlegible (by decide)
  refine ⟨hempty, hfull, fun h => ?_⟩
  have htexts := congrArg texts ((display_eq_iff hempty hfull).1 h)
  rw [buried, buried, texts_negate, texts_negate] at htexts
  cases htexts

-- With a quote inside, one text looks like two.
example : (Condition.isIn "x" ["a\", \"b"]).display = (Condition.isIn "x" ["a", "b"]).display := rfl

end Display

end MailRules
