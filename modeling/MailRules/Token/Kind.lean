/-!
The words and symbols of the rule language. Keywords are matched in any ASCII case; every other word
is an identifier.
-/

namespace MailRules

inductive Keyword where
  | folder | priority | when | thenWord
  | and | or | not | inWord | contains
  | sender | subject | body
  | move | remove | notify | call | remind | mark | auto
  | toWord | fromWord | asWord | read | unread
  deriving DecidableEq, Repr

namespace Keyword

/-- The spelling in lower case. -/
def spelling : Keyword → String
  | folder => "folder"
  | priority => "priority"
  | when => "when"
  | thenWord => "then"
  | and => "and"
  | or => "or"
  | not => "not"
  | inWord => "in"
  | contains => "contains"
  | sender => "sender"
  | subject => "subject"
  | body => "body"
  | move => "move"
  | remove => "remove"
  | notify => "notify"
  | call => "call"
  | remind => "remind"
  | mark => "mark"
  | auto => "auto"
  | toWord => "to"
  | fromWord => "from"
  | asWord => "as"
  | read => "read"
  | unread => "unread"

def all : List Keyword :=
  [folder, priority, when, thenWord, and, or, not, inWord, contains, sender, subject, body,
   move, remove, notify, call, remind, mark, auto, toWord, fromWord, asWord, read, unread]

theorem mem_all (k : Keyword) : k ∈ all := by cases k <;> decide

/-- The keyword with the given lower-case spelling. -/
def ofSpelling? (word : String) : Option Keyword := all.find? (·.spelling = word)

end Keyword

/-- The characters that are a token of their own. -/
inductive Symbol where
  | leftParen | rightParen | leftBracket | rightBracket | comma
  deriving DecidableEq, Repr

namespace Symbol

def char : Symbol → Char
  | leftParen => '('
  | rightParen => ')'
  | leftBracket => '['
  | rightBracket => ']'
  | comma => ','

def ofChar? (c : Char) : Option Symbol :=
  [leftParen, rightParen, leftBracket, rightBracket, comma].find? (·.char = c)

end Symbol

/-- What a token is, apart from its text. `eof` is the end of the input. -/
inductive Token.Kind where
  | keyword (k : Keyword)
  | identifier
  | string
  | symbol (s : Symbol)
  | eof
  deriving DecidableEq, Repr

namespace Token.Kind

/-- Whether tokens of this kind are spelled as a bare word. -/
def isWord : Kind → Bool
  | keyword _ | identifier => true
  | _ => false

def isKeyword : Kind → Bool
  | keyword _ => true
  | _ => false

/-- The kind as error messages name it. -/
def display : Kind → String
  | keyword k => "'" ++ k.spelling ++ "'"
  | identifier => "identifier"
  | string => "string literal"
  | symbol s => "'" ++ String.singleton s.char ++ "'"
  | eof => "end of input"

end Token.Kind

end MailRules
