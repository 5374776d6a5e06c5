import MailRules.Program.Basic

/-!
Programs from folder declarations. A declaration sets the priority of its folder and adds rules, in
any order. Every folder needs a rule and every rule an action; the first declaration that breaks
this is reported.
-/

namespace MailRules

inductive BuildError where
  | emptyFolder (folder : String)
  | noActions (folder : String) (rule : Nat)
  deriving DecidableEq, Repr

def BuildError.message : BuildError → String
  | emptyFolder folder => "folder '" ++ folder ++ "' must have at least one rule"
  | noActions folder rule => "rule " ++ toString rule ++ " in folder '" ++ folder ++ "' has no actions"

/-- What is wrong with a folder. Rules are counted from zero. -/
def Folder.fault? (f : Folder) : Option BuildError :=
  if f.rules.isEmpty then some (.emptyFolder f.name)
  else (f.rules.findIdx? (·.actions.isEmpty)).map (.noActions f.name)

def Program.build (folders : List Folder) : Except BuildError Program :=
  match folders.findSome? Folder.fault? with
  | some e => .error e
  | none => .ok ⟨folders⟩

/-! ### Declarations -/

/-- One thing said of a folder where it is declared. -/
inductive Clause where
  | priority (priority : Int64)
  | rule (condition : Condition) (actions : List Action)
  deriving DecidableEq

structure Declaration where
  name : String
  clauses : List Clause
  deriving DecidableEq

/-- A folder with one more clause: the last priority counts, and rules add up. -/
def Folder.extend (f : Folder) : Clause → Folder
  | .priority priority => { f with priority := priority }
  | .rule condition actions => { f with rules := f.rules ++ [⟨condition, actions⟩] }

/-- The declared folder, whose priority is zero unless it is set. -/
def Declaration.folder (d : Declaration) : Folder := d.clauses.foldl Folder.extend ⟨d.name, 0, []⟩

def Program.declare (ds : List Declaration) : Except BuildError Program :=
  build (ds.map Declaration.folder)

end MailRules
