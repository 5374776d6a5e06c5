import Mathlib.Data.List.Chain
import MailRules.Token.Lexer

/-!
The lexical language: gaps of white space and lexemes in turn, with a gap at the end. A lexeme is a
word, a string between quotes or a symbol, and two words in a row need a gap that is not empty. Each
lexeme makes a token at the place where it begins.

Nothing here says how a text is divided. That at most one division exists follows from the lexer.
-/

namespace MailRules.Lexical

/-! ### Places -/

/-- The place behind a text: lines are counted by line feeds, columns from the last one. -/
def placeAfter (s : List Char) : Position :=
  ⟨1 + s.count '\n', 1 + (s.reverse.takeWhile (· ≠ '\n')).length⟩

theorem placeAfter_concat (s : List Char) (c : Char) :
    placeAfter (s ++ [c]) = (placeAfter s).next c := by
  by_cases hc : c = '\n' <;> simp [placeAfter, Position.next, hc] <;> omega

/-! ### Lexemes -/

/-- White space, perhaps none. -/
def IsGap (g : List Char) : Prop := ∀ c ∈ g, Text.isBlank c = true

theorem isGap_nil : IsGap [] := fun _ hc => absurd hc List.not_mem_nil

theorem IsGap.concat {g : List Char} {c : Char} (h : IsGap g) (hc : Text.isBlank c = true) :
    IsGap (g ++ [c]) := by
  intro d hd
  rcases List.mem_append.1 hd with hd | hd
  · exact h d hd
  · exact List.mem_singleton.1 hd ▸ hc

/-- `[A-Za-z0-9_]`. -/
def IsWordChar (c : Char) : Prop :=
  'A' ≤ c ∧ c ≤ 'Z' ∨ 'a' ≤ c ∧ c ≤ 'z' ∨ '0' ≤ c ∧ c ≤ '9' ∨ c = '_'

inductive Lexeme where
  | word (word : List Char)
  | quoted (content : List Char)
  | symbol (s : Symbol)

namespace Lexeme

def chars : Lexeme → List Char
  | word w => w
  | quoted s => '"' :: (s ++ ['"'])
  | symbol s => [s.char]

/-- Words have a character, and strings hold no quote. -/
def Valid : Lexeme → Prop
  | word w => w ≠ [] ∧ ∀ c ∈ w, IsWordChar c
  | quoted s => '"' ∉ s
  | symbol _ => True

def IsWord : Lexeme → Prop
  | word _ => True
  | _ => False

end Lexeme

/-- The kind of a word: the keyword that it spells in ASCII lower case, or an identifier. -/
inductive WordKind (w : List Char) : Token.Kind → Prop
  | keyword {k : Keyword} : k.spelling.toList = w.map Char.toLower → WordKind w (.keyword k)
  | identifier : (∀ k : Keyword, k.spelling.toList ≠ w.map Char.toLower) → WordKind w .identifier

/-- The token of a lexeme at a place: words as they are written, strings without their quotes. -/
inductive Makes (pos : Position) : Lexeme → Token → Prop
  | word {w : List Char} {kind : Token.Kind} : WordKind w kind →
      Makes pos (.word w) ⟨kind, some (String.ofList w), pos⟩
  | quoted {s : List Char} : Makes pos (.quoted s) ⟨.string, some (String.ofList s), pos⟩
  | symbol {s : Symbol} : Makes pos (.symbol s) ⟨.symbol s, some (String.singleton s.char), pos⟩

theorem Makes.kind_ne_eof {pos : Position} {l : Lexeme} {t : Token} (h : Makes pos l t) :
    t.kind ≠ .eof := by
  intro hend
  cases h with
  | word hkind => cases hkind <;> cases hend
  | quoted | symbol => cases hend

/-! ### Texts -/

/-- A lexeme and the gap in front of it. -/
structure Part where
  gap : List Char
  lexeme : Lexeme

def Part.chars (p : Part) : List Char := p.gap ++ p.lexeme.chars

/-- The text of the parts. -/
def spell (parts : List Part) : List Char := parts.flatMap Part.chars

theorem spell_concat (parts : List Part) (p : Part) :
    spell (parts ++ [p]) = spell parts ++ p.gap ++ p.lexeme.chars := by
  simp [spell, Part.chars]

structure WellFormed (parts : List Part) : Prop where
  gaps : ∀ p ∈ parts, IsGap p.gap
  lexemes : ∀ p ∈ parts, p.lexeme.Valid
  separated : parts.IsChain fun p q => p.lexeme.IsWord → q.lexeme.IsWord → q.gap ≠ []

/-- The tokens of the parts, one for each, where `before` is the text in front of them. -/
inductive Tokens : List Char → List Part → List Token → Prop
  | nil {before : List Char} : Tokens before [] []
  | cons {before : List Char} {p : Part} {t : Token} {parts : List Part} {ts : List Token} :
      Makes (placeAfter (before ++ p.gap)) p.lexeme t → Tokens (before ++ p.chars) parts ts →
      Tokens before (p :: parts) (t :: ts)

end MailRules.Lexical
