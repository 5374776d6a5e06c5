/-!
Conditions of rules: trees of predicates on fields, joined by AND, OR and NOT.
-/

namespace MailRules

/-- What a `contains` predicate looks for: one text, or any of a list. -/
inductive Pattern where
  | one (needle : String)
  | any (needles : List String)
  deriving DecidableEq, Repr

def Pattern.needles : Pattern → List String
  | one needle => [needle]
  | any needles => needles

/-- Both predicates look for texts inside a field; `isIn` always takes a list. -/
inductive Condition where
  | contains (field : String) (pattern : Pattern)
  | isIn (field : String) (needles : List String)
  | and (a b : Condition)
  | or (a b : Condition)
  | not (a : Condition)
  deriving DecidableEq, Repr

namespace Condition

/-- Number of predicates in the tree. -/
def predicateCount : Condition → Nat
  | contains .. | isIn .. => 1
  | and a b | or a b => a.predicateCount + b.predicateCount
  | not a => a.predicateCount

/-- Most operators on a way from the root to a predicate. -/
def height : Condition → Nat
  | contains .. | isIn .. => 0
  | and a b | or a b => max a.height b.height + 1
  | not a => a.height + 1

/-- The fields that the predicates read, from left to right. -/
def fields : Condition → List String
  | contains field _ | isIn field _ => [field]
  | and a b | or a b => a.fields ++ b.fields
  | not a => a.fields

/-- The condition with every field replaced. -/
def renameFields (f : String → String) : Condition → Condition
  | contains field pattern => contains (f field) pattern
  | isIn field needles => isIn (f field) needles
  | and a b => and (a.renameFields f) (b.renameFields f)
  | or a b => or (a.renameFields f) (b.renameFields f)
  | not a => not (a.renameFields f)

end Condition

end MailRules
