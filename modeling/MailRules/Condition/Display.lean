import MailRules.Condition.Basic

/-!
The text of a condition, with every predicate and every join in parentheses. Texts stand between
quotes as they are.
-/

namespace MailRules

namespace Condition

/-- A text between quotes. -/
def quote (s : String) : String := "\"" ++ s ++ "\""

/-- The texts after the first, each behind a comma, and the closing bracket. -/
def displayRest : List String → String
  | [] => "]"
  | s :: rest => ", " ++ (quote s ++ displayRest rest)

def displayList : List String → String
  | [] => "[]"
  | s :: rest => "[" ++ (quote s ++ displayRest rest)

def displayPattern : Pattern → String
  | .one needle => quote needle
  | .any needles => displayList needles

def display : Condition → String
  | contains field pattern => "(" ++ field ++ " contains " ++ displayPattern pattern ++ ")"
  | isIn field needles => "(" ++ field ++ " in " ++ displayList needles ++ ")"
  | and a b => "(" ++ a.display ++ " AND " ++ b.display ++ ")"
  | or a b => "(" ++ a.display ++ " OR " ++ b.display ++ ")"
  | not a => "(NOT " ++ a.display ++ ")"

end Condition

end MailRules
