import MailRules.Program.Basic
import MailRules.Parser.Error

/-!
Actions from tokens, one token at a time.

    Action := MOVE TO name | REMOVE FROM name | MARK AS (READ | UNREAD)
            | NOTIFY | CALL | REMIND | AUTO
-/

namespace MailRules.Parser

/-- Where the reading of an action stands. -/
inductive ActionState where
  | initial
  | moveTo | moveTarget
  | removeFrom | removeTarget
  | markAs | markState
  deriving DecidableEq, Repr

namespace ActionState

def expectation : ActionState → Expectation
  | initial => .action
  | moveTo => .moveTo
  | removeFrom => .removeFrom
  | moveTarget | removeTarget => .folderName
  | markAs => .markAs
  | markState => .markState

def refuse (s : ActionState) (t : Token) : ParseError := .of t s.expectation

/-- Reads a token: the action goes on, or it is complete. -/
def step (s : ActionState) (t : Token) : Except ParseError (ActionState ⊕ Action) :=
  match s, t.kind with
  | initial, .keyword .move => .ok (.inl moveTo)
  | initial, .keyword .remove => .ok (.inl removeFrom)
  | initial, .keyword .mark => .ok (.inl markAs)
  | initial, .keyword .notify => .ok (.inr .notify)
  | initial, .keyword .call => .ok (.inr .call)
  | initial, .keyword .remind => .ok (.inr .remind)
  | initial, .keyword .auto => .ok (.inr .auto)
  | moveTo, .keyword .toWord => .ok (.inl moveTarget)
  | removeFrom, .keyword .fromWord => .ok (.inl removeTarget)
  | markAs, .keyword .asWord => .ok (.inl markState)
  | moveTarget, .identifier | moveTarget, .string => .ok (.inr (.moveTo t.spelling))
  | removeTarget, .identifier | removeTarget, .string => .ok (.inr (.removeFrom t.spelling))
  | markState, .keyword .read => .ok (.inr .markRead)
  | markState, .keyword .unread => .ok (.inr .markUnread)
  | s, _ => .error (s.refuse t)

end ActionState

end MailRules.Parser
