import MailRules.Condition.Basic

/-!
Rule programs: folders with a priority and rules, in the order of declaration. A rule fires its
actions on the records that its condition holds of.
-/

namespace MailRules

/-- Actions are labels for the log. Only `moveTo` has an effect: it picks a bucket. -/
inductive Action where
  | moveTo (target : String)
  | removeFrom (target : String)
  | notify
  | call
  | remind
  | markRead
  | markUnread
  | auto
  deriving DecidableEq, Repr

namespace Action

/-- The action as the log shows it. -/
def display : Action → String
  | moveTo target => "move to " ++ target
  | removeFrom target => "remove from " ++ target
  | notify => "notify"
  | call => "call"
  | remind => "remind"
  | markRead => "mark as read"
  | markUnread => "mark as unread"
  | auto => "auto"

def target? : Action → Option String
  | moveTo target => some target
  | _ => none

end Action

structure Rule where
  condition : Condition
  actions : List Action
  deriving DecidableEq, Repr

/-- The target of the last `moveTo`. -/
def Rule.destination? (r : Rule) : Option String := r.actions.reverse.findSome? Action.target?

structure Folder where
  name : String
  priority : Int64
  rules : List Rule
  deriving DecidableEq

structure Program where
  folders : List Folder
  deriving DecidableEq

namespace Program

def ruleCount (p : Program) : Nat := (p.folders.flatMap (·.rules)).length

def folderNames (p : Program) : List String := p.folders.map (·.name)

/-- Puts a folder in front of the first one whose priority is not higher. -/
def placeFolder (f : Folder) : List Folder → List Folder
  | [] => [f]
  | g :: rest => if g.priority ≤ f.priority then f :: g :: rest else g :: placeFolder f rest

/-- The folders by priority, highest first. Equal priorities keep the order of declaration. -/
def priorityOrder (p : Program) : List Folder := p.folders.foldr placeFolder []

def display (p : Program) : String :=
  "Program(" ++ toString p.folders.length ++ " folders, " ++ toString p.ruleCount ++ " rules)"

end Program

end MailRules
