import MailRules.Condition.Display
import MailRules.Proofs.Lexical.Parts
import MailRules.Proofs.Display.Writable

/-!
The text of a condition as lexemes. Parts with the gaps that the text leaves between them spell it,
and where the condition is writable they are well formed, so the lexer makes the token of each.

    (sender contains "x")    ( sender · contains · "x" )
    (NOT (a in ["b", "c"]))  ( NOT · ( a · in · [ "b" , · "c" ] ) )
-/

namespace MailRules

namespace Display

open Lexical Condition

/-! ### Parts of a condition -/

def word (gap : List Char) (w : String) : Part := ⟨gap, .word w.toList⟩

def quoted (gap : List Char) (s : String) : Part := ⟨gap, .quoted s.toList⟩

def symbol (gap : List Char) (s : Symbol) : Part := ⟨gap, .symbol s⟩

def restParts : List String → List Part
  | [] => [symbol [] .rightBracket]
  | s :: rest => symbol [] .comma :: quoted [' '] s :: restParts rest

def listParts : List String → List Part
  | [] => [symbol [' '] .leftBracket, symbol [] .rightBracket]
  | s :: rest => symbol [' '] .leftBracket :: quoted [] s :: restParts rest

def patternParts : Pattern → List Part
  | .one needle => [quoted [' '] needle]
  | .any needles => listParts needles

/-- Parts in parentheses. -/
def grouped (gap : List Char) (inside : List Part) : List Part :=
  symbol gap .leftParen :: (inside ++ [symbol [] .rightParen])

/-- The parts of a condition's text, where `gap` stands in front of it. -/
def parts (gap : List Char) : Condition → List Part
  | .contains field pattern =>
    grouped gap (word [] field :: word [' '] "contains" :: patternParts pattern)
  | .isIn field needles => grouped gap (word [] field :: word [' '] "in" :: listParts needles)
  | .and a b => grouped gap (parts [] a ++ word [' '] "AND" :: parts [' '] b)
  | .or a b => grouped gap (parts [] a ++ word [' '] "OR" :: parts [' '] b)
  | .not a => grouped gap (word [] "NOT" :: parts [' '] a)

/-! ### The parts spell the text -/

theorem spell_restParts : ∀ rest : List String, spell (restParts rest) = (displayRest rest).toList
  | [] => rfl
  | s :: rest => by
    have ih := spell_restParts rest
    simp [restParts, spell_cons, ih, symbol, quoted, Part.chars, Lexeme.chars, Symbol.char,
      displayRest, quote]

theorem spell_listParts (needles : List String) :
    spell (listParts needles) = ' ' :: (displayList needles).toList := by
  cases needles with
  | nil => rfl
  | cons s rest =>
    simp [listParts, spell_cons, spell_restParts, symbol, quoted, Part.chars, Lexeme.chars,
      Symbol.char, displayList, quote]

theorem spell_patternParts (pattern : Pattern) :
    spell (patternParts pattern) = ' ' :: (displayPattern pattern).toList := by
  cases pattern with
  | one needle =>
    simp [patternParts, spell, quoted, Part.chars, Lexeme.chars, displayPattern, quote]
  | any needles => exact spell_listParts needles

theorem spell_grouped (gap : List Char) (inside : List Part) :
    spell (grouped gap inside) = gap ++ '(' :: (spell inside ++ [')']) := by
  simp [grouped, spell, symbol, Part.chars, Lexeme.chars, Symbol.char]

theorem spell_word (gap : List Char) (w : String) (ps : List Part) :
    spell (word gap w :: ps) = gap ++ (w.toList ++ spell ps) := by
  simp [spell, word, Part.chars, Lexeme.chars]

theorem spell_parts (c : Condition) : ∀ gap, spell (parts gap c) = gap ++ c.display.toList := by
  induction c with
  | contains field pattern =>
    simp [parts, spell_grouped, spell_word, spell_patternParts, display]
  | isIn field needles => simp [parts, spell_grouped, spell_word, spell_listParts, display]
  | and a b iha ihb => simp [parts, spell_grouped, spell_append, spell_word, iha, ihb, display]
  | or a b iha ihb => simp [parts, spell_grouped, spell_append, spell_word, iha, ihb, display]
  | not a ih => simp [parts, spell_grouped, spell_word, ih, display]

/-! ### They are well formed -/

section
variable {ps : List Part} {gap : List Char}

theorem wellFormed_symbol (h : WellFormed ps) (hgap : IsGap gap) (s : Symbol) :
    WellFormed (symbol gap s :: ps) :=
  h.cons hgap trivial nofun

theorem wellFormed_quoted (h : WellFormed ps) (hgap : IsGap gap) {s : String}
    (hs : '"' ∉ s.toList) : WellFormed (quoted gap s :: ps) :=
  h.cons hgap hs nofun

theorem wellFormed_word (h : WellFormed ps) (hgap : IsGap gap) {w : String}
    (hw : (Lexeme.word w.toList).Valid) (hps : Detached ps) : WellFormed (word gap w :: ps) :=
  h.cons hgap hw fun _ => hps

end

theorem wellFormed_restParts {rest : List String} (h : ∀ s ∈ rest, '"' ∉ s.toList) :
    WellFormed (restParts rest) := by
  induction rest with
  | nil => exact wellFormed_symbol wellFormed_nil isGap_nil .rightBracket
  | cons s rest ih =>
    obtain ⟨hs, hrest⟩ := List.forall_mem_cons.1 h
    exact wellFormed_symbol (wellFormed_quoted (ih hrest) isGap_blank hs) isGap_nil .comma

theorem wellFormed_listParts {needles : List String} (h : ∀ s ∈ needles, '"' ∉ s.toList) :
    WellFormed (listParts needles) := by
  cases needles with
  | nil =>
    have hclose := wellFormed_symbol wellFormed_nil isGap_nil .rightBracket
    exact wellFormed_symbol hclose isGap_blank .leftBracket
  | cons s rest =>
    obtain ⟨hs, hrest⟩ := List.forall_mem_cons.1 h
    have htexts := wellFormed_quoted (wellFormed_restParts hrest) isGap_nil hs
    exact wellFormed_symbol htexts isGap_blank .leftBracket

theorem wellFormed_patternParts {pattern : Pattern} (h : ∀ s ∈ pattern.needles, '"' ∉ s.toList) :
    WellFormed (patternParts pattern) := by
  cases pattern with
  | one needle => exact wellFormed_quoted wellFormed_nil isGap_blank (h needle List.mem_cons_self)
  | any needles => exact wellFormed_listParts h

theorem detached_patternParts (pattern : Pattern) : Detached (patternParts pattern) := by
  rcases pattern with needle | (_ | ⟨s, rest⟩) <;> rintro p ⟨⟩ hword <;> cases hword

theorem detached_listParts (needles : List String) : Detached (listParts needles) :=
  detached_patternParts (.any needles)

theorem detached_symbol (gap : List Char) (s : Symbol) (ps : List Part) :
    Detached (symbol gap s :: ps) := by
  rintro p ⟨⟩ hword
  cases hword

theorem detached_parts (gap : List Char) (c : Condition) (ps : List Part) :
    Detached (parts gap c ++ ps) := by
  cases c <;> exact detached_symbol gap .leftParen _

theorem detached_word (w : String) (ps : List Part) : Detached (word [' '] w :: ps) := by
  rintro p ⟨⟩ _
  exact List.cons_ne_nil ' ' []

theorem wellFormed_grouped {gap : List Char} {inside : List Part} (hgap : IsGap gap)
    (h : WellFormed inside) : WellFormed (grouped gap inside) := by
  have hclose := wellFormed_symbol wellFormed_nil isGap_nil .rightParen
  exact wellFormed_symbol (h.append hclose (detached_symbol _ _ _)) hgap .leftParen

/-- The words of the language itself are seen to be words by computation. -/
theorem valid_word {w : String} (h : w.toList ≠ [] ∧ w.toList.all Lexer.isWordChar = true) :
    (Lexeme.word w.toList).Valid :=
  ⟨h.1, fun c hc => isWordChar_iff.1 (List.all_eq_true.1 h.2 c hc)⟩

theorem wellFormed_predicate {gap : List Char} {field w : String} {ps : List Part}
    (hgap : IsGap gap) (hfield : IsFieldName field) (hw : (Lexeme.word w.toList).Valid)
    (h : WellFormed ps) (hps : Detached ps) :
    WellFormed (word gap field :: word [' '] w :: ps) :=
  wellFormed_word (wellFormed_word h isGap_blank hw hps) hgap
    ⟨hfield.nonempty, hfield.wordChars⟩ (detached_word w ps)

theorem wellFormed_join {w : String} {a b : Condition} (hw : (Lexeme.word w.toList).Valid)
    (ha : WellFormed (parts [] a)) (hb : WellFormed (parts [' '] b)) :
    WellFormed (parts [] a ++ word [' '] w :: parts [' '] b) := by
  have hright := wellFormed_word hb isGap_blank hw (by simpa using detached_parts [' '] b [])
  exact ha.append hright (detached_word w _)

theorem wellFormed_parts {c : Condition} : Writable c → ∀ {gap}, IsGap gap →
    WellFormed (parts gap c) := by
  induction c with
  | contains field pattern =>
    intro h gap hgap
    have hfield := h.fields field List.mem_cons_self
    exact wellFormed_grouped hgap (wellFormed_predicate isGap_nil hfield (valid_word (by decide))
      (wellFormed_patternParts h.texts) (detached_patternParts pattern))
  | isIn field needles =>
    intro h gap hgap
    have hfield := h.fields field List.mem_cons_self
    exact wellFormed_grouped hgap (wellFormed_predicate isGap_nil hfield (valid_word (by decide))
      (wellFormed_listParts h.texts) (detached_listParts needles))
  | and a b iha ihb =>
    intro h gap hgap
    obtain ⟨ha, hb⟩ := writable_and.1 h
    exact wellFormed_grouped hgap
      (wellFormed_join (valid_word (by decide)) (iha ha isGap_nil) (ihb hb isGap_blank))
  | or a b iha ihb =>
    intro h gap hgap
    obtain ⟨ha, hb⟩ := writable_or.1 h
    exact wellFormed_grouped hgap
      (wellFormed_join (valid_word (by decide)) (iha ha isGap_nil) (ihb hb isGap_blank))
  | not a ih =>
    intro h gap hgap
    exact wellFormed_grouped hgap (wellFormed_word (ih (writable_not.1 h) isGap_blank) isGap_nil
      (valid_word (by decide)) (by simpa using detached_parts [' '] a []))

/-! ### A rule text around a condition -/

/-- The text of a folder whose only rule has the condition. -/
def ruleText (c : Condition) : String := "Folder F WHEN " ++ c.display ++ " THEN auto"

def ruleParts (c : Condition) : List Part :=
  word [] "Folder" :: word [' '] "F" :: word [' '] "WHEN" ::
    (parts [' '] c ++ [word [' '] "THEN", word [' '] "auto"])

theorem spell_ruleParts (c : Condition) : (ruleText c).toList = spell (ruleParts c) := by
  simp [ruleText, ruleParts, spell_word, spell_append, spell_parts, spell_nil]

theorem wellFormed_ruleParts {c : Condition} (h : Writable c) : WellFormed (ruleParts c) := by
  have hauto : WellFormed [word [' '] "auto"] :=
    wellFormed_word wellFormed_nil isGap_blank (valid_word (by decide)) nofun
  have hthen : WellFormed [word [' '] "THEN", word [' '] "auto"] :=
    wellFormed_word hauto isGap_blank (valid_word (by decide)) (detached_word _ _)
  have hbody := (wellFormed_parts h isGap_blank).append hthen (detached_word _ _)
  have hwhen := wellFormed_word hbody isGap_blank (w := "WHEN") (valid_word (by decide))
    (detached_parts [' '] c _)
  have hname := wellFormed_word hwhen isGap_blank (w := "F") (valid_word (by decide))
    (detached_word _ _)
  exact wellFormed_word hname isGap_nil (valid_word (by decide)) (detached_word _ _)

end Display

end MailRules
