import MailRules.Token.Kind

/-!
Tokens and the places where they start.
-/

namespace MailRules

/-- A place in a text, counted from one. Columns count characters. -/
structure Position where
  line : Nat
  column : Nat
  deriving DecidableEq, Repr

namespace Position

def start : Position := ⟨1, 1⟩

/-- The place after a character that stands here. Only a line feed begins a line. -/
def next (p : Position) (c : Char) : Position :=
  if c = '\n' then ⟨p.line + 1, 1⟩ else ⟨p.line, p.column + 1⟩

def display (p : Position) : String :=
  "line " ++ toString p.line ++ ", column " ++ toString p.column

end Position

/-- A token with its spelling: words in the case they are written in, strings without their quotes. The end
of the input has no text. -/
structure Token where
  kind : Token.Kind
  text : Option String
  pos : Position
  deriving DecidableEq, Repr

namespace Token

def eof (pos : Position) : Token := ⟨.eof, none, pos⟩

/-- The text, or nothing for a token without one. -/
def spelling (t : Token) : String := t.text.getD ""

/-- The token as error messages show it. -/
def display (t : Token) : String :=
  match t.kind, t.text with
  | .eof, _ => Kind.eof.display
  | kind, none => kind.display
  | .string, some text => "\"" ++ text ++ "\""
  | _, some text => "'" ++ text ++ "'"

end Token

end MailRules
