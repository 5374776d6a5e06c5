import MailRules.Token.Basic

/-!
What the grammar can ask for, and the error when something else is there.
-/

namespace MailRules

/-- Condition trees, and the groups and negations open while one is read, are at most this deep. -/
def maxNesting : Nat := 128

/-- The two predicate words. -/
inductive Comparison where | contains | isIn
  deriving DecidableEq, Repr

def Comparison.spelling : Comparison → String
  | contains => "contains"
  | isIn => "in"

/-- What was expected where rule text goes wrong. -/
inductive Expectation where
  | declaration
  | folderName
  | priorityValue
  | integerPriority
  | rule (folder : String)
  | field
  | comparison (name : String)
  | pattern (c : Comparison)
  | listItem
  | listEnd
  | groupEnd
  | conclusion
  | action
  | moveTo
  | removeFrom
  | markAs
  | markState
  | lessNesting
  deriving DecidableEq, Repr

def Expectation.text : Expectation → String
  | declaration => "'folder' declaration"
  | folderName => "folder name (identifier or string)"
  | priorityValue => "priority value"
  | integerPriority => "integer priority value"
  | rule folder => "at least one 'when' rule in folder '" ++ folder ++ "'"
  | field => "field name (sender, subject, body or a custom field)"
  | comparison name => "'contains' or 'in' after field '" ++ name ++ "'"
  | pattern c => "string literal or list after '" ++ c.spelling ++ "'"
  | listItem => "string in list"
  | listEnd => "']'"
  | groupEnd => "')'"
  | conclusion => "'then'"
  | action => "action (move, remove, notify, call, remind, mark or auto)"
  | moveTo => "'to' after 'move'"
  | removeFrom => "'from' after 'remove'"
  | markAs => "'as' after 'mark'"
  | markState => "'read' or 'unread' after 'mark as'"
  | lessNesting => "condition nested at most " ++ toString maxNesting ++ " deep"

structure ParseError where
  pos : Position
  expected : Expectation
  found : String
  deriving DecidableEq, Repr

namespace ParseError

/-- The error at a token. -/
def of (t : Token) (expected : Expectation) : ParseError := ⟨t.pos, expected, t.display⟩

def message (e : ParseError) : String :=
  "parse error at " ++ e.pos.display ++ ": expected " ++ e.expected.text ++ ", found " ++ e.found

end ParseError

end MailRules
