import MailRules.Decimal.Integer
import MailRules.Parser.Action
import MailRules.Parser.Condition
import MailRules.Token.Lexer

/-!
Rule programs from tokens, one token at a time.

    Program := Folder*
    Folder  := FOLDER name (PRIORITY integer)? Rule+
    Rule    := WHEN Or THEN Action (AND Action)*

A state holds the folders read so far and the place reached in the next one. Parsing stops at the
end of the input: at the first token of that kind, or behind the last token.
-/

namespace MailRules

namespace Parser

/-- A folder being read, with its finished rules, last first. -/
structure FolderDraft where
  name : String
  priority : Int64
  rules : List Rule
  deriving DecidableEq

namespace FolderDraft

def addRule (d : FolderDraft) (r : Rule) : FolderDraft := { d with rules := r :: d.rules }

def folder (d : FolderDraft) : Folder := ⟨d.name, d.priority, d.rules.reverse⟩

end FolderDraft

/-- Places in the grammar of programs. Finished actions of a rule stand last first. -/
inductive Place where
  | declaration
  | folderName
  | afterName (name : String)
  | priorityValue (name : String)
  | firstRule (d : FolderDraft)
  | condition (d : FolderDraft) (s : ConditionState)
  | action (d : FolderDraft) (c : Condition) (actions : List Action) (s : ActionState)
  | afterAction (d : FolderDraft) (c : Condition) (actions : List Action)
  deriving DecidableEq

namespace Place

def expectation : Place → Expectation
  | declaration | afterAction .. => .declaration
  | folderName => .folderName
  | afterName name => .rule name
  | priorityValue _ => .priorityValue
  | firstRule d => .rule d.name
  | condition _ s => s.expectation
  | action _ _ _ s => s.expectation

/-- The error at a token that does not fit. -/
def refuse (p : Place) (t : Token) : ParseError :=
  match p with
  | condition _ s => s.refuse t
  | p => .of t p.expectation

end Place

/-- The finished folders, last first, and the place in the next one. -/
structure State where
  folders : List Folder
  place : Place
  deriving DecidableEq

namespace State

def initial : State := ⟨[], .declaration⟩

/-- The draft with the rule that its last action completes. -/
def closeRule (d : FolderDraft) (c : Condition) (actions : List Action) : FolderDraft :=
  d.addRule ⟨c, actions.reverse⟩

/-- A token inside a condition. THEN leaves the condition where one may end. -/
def stepCondition (d : FolderDraft) (s : ConditionState) (t : Token) : Except ParseError Place :=
  match s.result?, t.kind with
  | some result, .keyword .thenWord => do return .action d (← result) [] .initial
  | _, _ => do return .condition d (← s.step t)

def stepAction (d : FolderDraft) (c : Condition) (actions : List Action) (s : ActionState)
    (t : Token) : Except ParseError Place := do
  match ← s.step t with
  | .inl s => return .action d c actions s
  | .inr a => return .afterAction d c (a :: actions)

def step (s : State) (t : Token) : Except ParseError State :=
  match s.place, t.kind with
  | .declaration, .keyword .folder => .ok ⟨s.folders, .folderName⟩
  | .folderName, .identifier | .folderName, .string => .ok ⟨s.folders, .afterName t.spelling⟩
  | .afterName name, .keyword .priority => .ok ⟨s.folders, .priorityValue name⟩
  | .afterName name, .keyword .when => .ok ⟨s.folders, .condition ⟨name, 0, []⟩ .initial⟩
  | .priorityValue name, .identifier =>
    match Decimal.readInt64? t.spelling with
    | some priority => .ok ⟨s.folders, .firstRule ⟨name, priority, []⟩⟩
    | none => .error (.of t .integerPriority)
  | .firstRule d, .keyword .when => .ok ⟨s.folders, .condition d .initial⟩
  | .condition d cs, _ => do return ⟨s.folders, ← stepCondition d cs t⟩
  | .action d c actions as, _ => do return ⟨s.folders, ← stepAction d c actions as t⟩
  | .afterAction d c actions, .keyword .and => .ok ⟨s.folders, .action d c actions .initial⟩
  | .afterAction d c actions, .keyword .when =>
    .ok ⟨s.folders, .condition (closeRule d c actions) .initial⟩
  | .afterAction d c actions, .keyword .folder =>
    .ok ⟨(closeRule d c actions).folder :: s.folders, .folderName⟩
  | p, _ => .error (p.refuse t)

/-- The whole program, where a program may end. -/
def program? (s : State) : Option Program :=
  match s.place with
  | .declaration => some ⟨s.folders.reverse⟩
  | .afterAction d c actions => some ⟨((closeRule d c actions).folder :: s.folders).reverse⟩
  | _ => none

/-- The program at the end of the input, which the token stands for. -/
def finish (s : State) (t : Token) : Except ParseError Program :=
  match s.program? with
  | some p => .ok p
  | none => .error (s.place.refuse t)

/-- Reads the tokens that are left; `last` is the position of the one before them. -/
def run (s : State) (last : Position) : List Token → Except ParseError Program
  | [] => s.finish (.eof last)
  | t :: rest =>
    if t.kind = .eof then s.finish t
    else match s.step t with
      | .ok s => s.run t.pos rest
      | .error e => .error e

end State

end Parser

namespace Program

/-- The program that a list of tokens writes. -/
def parse (tokens : List Token) : Except ParseError Program :=
  Parser.State.initial.run .start tokens

end Program

/-- Why a rule text is no program. -/
inductive RuleError where
  | lex (e : LexError)
  | parse (e : ParseError)
  deriving DecidableEq, Repr

def RuleError.message : RuleError → String
  | lex e => e.message
  | parse e => e.message

/-- The program that a rule text writes. -/
def Program.ofText (text : String) : Except RuleError Program :=
  match tokenize text with
  | .error e => .error (.lex e)
  | .ok tokens => match Program.parse tokens with
    | .error e => .error (.parse e)
    | .ok p => .ok p

end MailRules
