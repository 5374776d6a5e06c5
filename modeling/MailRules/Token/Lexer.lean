import MailRules.Text.Blank
import MailRules.Token.Basic

/-!
Rule text into tokens, by an automaton that takes one character at a time.

    between ──word character──▶ word       until a character that is none
    between ──"──────────────▶ quoted     until the next "
    between ──( ) [ ] ,──────▶ between    a token at once
    between ──white space────▶ between

Any other character between tokens is an error. A string runs to the next quote, over line ends, and
knows no escapes.
-/

namespace MailRules

inductive LexError where
  | unexpectedChar (c : Char) (pos : Position)
  | unterminatedString (pos : Position)
  deriving DecidableEq, Repr

namespace LexError

def pos : LexError → Position
  | unexpectedChar _ pos => pos
  | unterminatedString pos => pos

/-- The character at the place of the error. -/
def character : LexError → Char
  | unexpectedChar c _ => c
  | unterminatedString _ => '"'

def message : LexError → String
  | unexpectedChar c pos => "unexpected character '" ++ String.singleton c ++ "' at " ++ pos.display
  | unterminatedString pos => "unterminated string starting at " ++ pos.display

end LexError

namespace Lexer

def isWordChar (c : Char) : Bool := c.isAlphanum || c = '_'

/-- The kind of a word, by its spelling in ASCII lower case. -/
def wordKind (word : String) : Token.Kind :=
  match Keyword.ofSpelling? (word.map Char.toLower) with
  | some k => .keyword k
  | none => .identifier

/-- What the automaton is in the middle of: where it started and its characters, last first. -/
inductive Pending where
  | between
  | word (start : Position) (read : List Char)
  | quoted (start : Position) (read : List Char)
  deriving DecidableEq, Repr

/-- The automaton's state, with the tokens so far, last first. -/
structure State where
  pos : Position
  pending : Pending
  tokens : List Token
  deriving DecidableEq, Repr

def State.initial : State := ⟨.start, .between, []⟩

def wordToken (start : Position) (read : List Char) : Token :=
  let word := String.ofList read.reverse
  ⟨wordKind word, some word, start⟩

def stringToken (start : Position) (read : List Char) : Token :=
  ⟨.string, some (String.ofList read.reverse), start⟩

def symbolToken (start : Position) (s : Symbol) : Token :=
  ⟨.symbol s, some (String.singleton s.char), start⟩

/-- A character between tokens, after the given ones. -/
def begin (pos : Position) (tokens : List Token) (c : Char) : Except LexError State :=
  if Text.isBlank c then .ok ⟨pos.next c, .between, tokens⟩
  else if c = '"' then .ok ⟨pos.next c, .quoted pos [], tokens⟩
  else if isWordChar c then .ok ⟨pos.next c, .word pos [c], tokens⟩
  else match Symbol.ofChar? c with
    | some s => .ok ⟨pos.next c, .between, symbolToken pos s :: tokens⟩
    | none => .error (.unexpectedChar c pos)

def step (s : State) (c : Char) : Except LexError State :=
  match s.pending with
  | .between => begin s.pos s.tokens c
  | .word start read =>
    if isWordChar c then .ok ⟨s.pos.next c, .word start (c :: read), s.tokens⟩
    else begin s.pos (wordToken start read :: s.tokens) c
  | .quoted start read =>
    if c = '"' then .ok ⟨s.pos.next c, .between, stringToken start read :: s.tokens⟩
    else .ok ⟨s.pos.next c, .quoted start (c :: read), s.tokens⟩

/-- The tokens at the end of the text, closed by the end of the input. -/
def finish (s : State) : Except LexError (List Token) :=
  match s.pending with
  | .between => .ok (Token.eof s.pos :: s.tokens).reverse
  | .word start read => .ok (Token.eof s.pos :: wordToken start read :: s.tokens).reverse
  | .quoted start _ => .error (.unterminatedString start)

def scan (s : State) (text : List Char) : Except LexError (List Token) :=
  text.foldlM step s >>= finish

end Lexer

/-- The tokens of a rule text, or the first place where it has none. -/
def tokenize (text : String) : Except LexError (List Token) :=
  Lexer.scan .initial text.toList

end MailRules
