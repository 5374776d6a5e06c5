import MailRules.Condition.Basic
import MailRules.Parser.Error

/-!
Conditions from tokens, by an automaton with a stack that takes one token at a time.

    Or    := And (OR And)*
    And   := Not (AND Not)*
    Not   := NOT Not | '(' Or ')' | field CONTAINS texts | field IN texts
    texts := string | '[' string (',' string)* ']'

AND and OR associate to the left. A finished operand takes up the negations in front of it and the
AND on its left at once; an OR on its left waits until no AND follows. Both ends of the nesting are
limited: the groups and negations open at a token, and the height of every join.
-/

namespace MailRules

/-- Puts `n` negations in front of a condition. -/
def Condition.negate (c : Condition) : Nat → Condition
  | 0 => c
  | n + 1 => .not (c.negate n)

def Comparison.one (c : Comparison) (field text : String) : Condition :=
  match c with
  | .contains => .contains field (.one text)
  | .isIn => .isIn field [text]

def Comparison.list (c : Comparison) (field : String) (texts : List String) : Condition :=
  match c with
  | .contains => .contains field (.any texts)
  | .isIn => .isIn field texts

/-- The field that a word token names: keywords in lower case, identifiers as they are. -/
def Token.field? (t : Token) : Option String :=
  match t.kind with
  | .keyword .not => none
  | .keyword _ => some (String.ofList (t.spelling.toList.map Char.toLower))
  | .identifier => some t.spelling
  | _ => none

namespace Parser

/-- What one open group holds on to: the left side of an OR and of an AND, each with the operator,
and the number of negations in front of the operand being read. -/
structure Level where
  disjunct : Option (Condition × Token)
  conjunct : Option (Condition × Token)
  negations : Nat
  deriving DecidableEq, Repr

def Level.fresh : Level := ⟨none, none, 0⟩

/-- The innermost open group and the ones around it. -/
structure Nesting where
  level : Level
  outer : List Level
  deriving DecidableEq, Repr

namespace Nesting

/-- The number of groups and negations that are open. -/
def depth (n : Nesting) : Nat :=
  n.outer.foldr (fun l d => d + 1 + l.negations) n.level.negations

def openGroup (n : Nesting) : Nesting := ⟨.fresh, n.level :: n.outer⟩

def openNegation (n : Nesting) : Nesting :=
  { n with level := { n.level with negations := n.level.negations + 1 } }

/-- The left side of an AND. -/
def joinAnd (n : Nesting) (left : Condition) (operator : Token) : Nesting :=
  { n with level := { n.level with conjunct := some (left, operator) } }

/-- The left side of an OR. -/
def joinOr (n : Nesting) (left : Condition) (operator : Token) : Nesting :=
  { n with level := { n.level with disjunct := some (left, operator) } }

end Nesting

/-- A join, refused at its operator when it is too high. -/
def limited (joined : Condition) (operator : Token) : Except ParseError Condition :=
  if maxNesting < joined.height then .error (.of operator .lessNesting) else .ok joined

namespace Level

/-- An operand with its negations and the AND on its left. -/
def closeAnd (l : Level) (c : Condition) : Except ParseError Condition :=
  match l.conjunct with
  | none => .ok (c.negate l.negations)
  | some (left, operator) => limited (left.and (c.negate l.negations)) operator

/-- A finished chain of ANDs with the OR on its left. -/
def closeOr (l : Level) (c : Condition) : Except ParseError Condition :=
  match l.disjunct with
  | none => .ok c
  | some (left, operator) => limited (left.or c) operator

end Level

/-- Where the reading of a condition stands. -/
inductive ConditionState where
  | operand (n : Nesting)
  | comparison (n : Nesting) (field : String)
  | pattern (n : Nesting) (field : String) (c : Comparison)
  /-- A text of a list must follow; `read` holds the earlier ones, last first. -/
  | item (n : Nesting) (field : String) (c : Comparison) (read : List String)
  | nextItem (n : Nesting) (field : String) (c : Comparison) (read : List String)
  /-- An operand is complete, with the AND on its left. -/
  | joined (n : Nesting) (c : Condition)
  deriving DecidableEq, Repr

namespace ConditionState

def initial : ConditionState := .operand ⟨.fresh, []⟩

/-- What a state asks for. -/
def expectation : ConditionState → Expectation
  | operand _ => .field
  | comparison _ field => .comparison field
  | pattern _ _ c => .pattern c
  | item .. => .listItem
  | nextItem .. => .listEnd
  | joined ⟨_, []⟩ _ => .conclusion
  | joined ⟨_, _ :: _⟩ _ => .groupEnd

/-- The error at a token that does not fit. A pending OR is closed first, and may be too high. -/
def refuse (s : ConditionState) (t : Token) : ParseError :=
  match s with
  | joined n c =>
    match n.level.closeOr c with
    | .error e => e
    | .ok _ => .of t s.expectation
  | s => .of t s.expectation

/-- A complete operand. -/
def complete (n : Nesting) (c : Condition) : Except ParseError ConditionState := do
  let c ← n.level.closeAnd c
  return .joined ⟨⟨n.level.disjunct, none, 0⟩, n.outer⟩ c

/-- The token at an operand's start. -/
def begin (n : Nesting) (t : Token) : Except ParseError ConditionState :=
  match t.kind with
  | .symbol .leftParen =>
    if n.depth < maxNesting then .ok (.operand n.openGroup) else .error (.of t .lessNesting)
  | .keyword .not =>
    if n.depth < maxNesting then .ok (.operand n.openNegation) else .error (.of t .lessNesting)
  | _ => match t.field? with
    | some field => .ok (.comparison n field)
    | none => .error (refuse (.operand n) t)

def step (s : ConditionState) (t : Token) : Except ParseError ConditionState :=
  match s, t.kind with
  | operand n, _ => begin n t
  | comparison n field, .keyword .contains => .ok (.pattern n field .contains)
  | comparison n field, .keyword .inWord => .ok (.pattern n field .isIn)
  | pattern n field c, .string => complete n (c.one field t.spelling)
  | pattern n field c, .symbol .leftBracket => .ok (.item n field c [])
  | item n field c read, .string => .ok (.nextItem n field c (t.spelling :: read))
  | nextItem n field c read, .symbol .comma => .ok (.item n field c read)
  | nextItem n field c read, .symbol .rightBracket => complete n (c.list field read.reverse)
  | joined n c, .keyword .and => .ok (.operand (n.joinAnd c t))
  | joined n c, .keyword .or => do
    let c ← n.level.closeOr c
    return .operand (n.joinOr c t)
  | joined ⟨level, up :: outer⟩ c, .symbol .rightParen => do
    let c ← level.closeOr c
    complete ⟨up, outer⟩ c
  | s, _ => .error (s.refuse t)

/-- The whole condition, where a condition may end. -/
def result? : ConditionState → Option (Except ParseError Condition)
  | joined ⟨level, []⟩ c => some (level.closeOr c)
  | _ => none

end ConditionState

end Parser

end MailRules
