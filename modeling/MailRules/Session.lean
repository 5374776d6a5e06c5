import MailRules.Json.Parser
import MailRules.Json.Printer
import MailRules.Parser.Program
import MailRules.Report.Basic

/-!
Sessions carry the processed identifiers from run to run until they are reset. Rule text is parsed
before any record is looked at, so a faulty text leaves a session as it was.
-/

namespace MailRules

structure Session where
  processed : Processed
  deriving DecidableEq

namespace Session

protected def empty : Session := ⟨.empty⟩

/-- Runs a program. The report is what the run shows, the session what comes after it. -/
def runProgram (s : Session) (program : Program) (schema : Schema) (records : List Record) :
    Report × Session :=
  let (report, processed) := program.run schema s.processed records
  (report, ⟨processed⟩)

/-- Runs a rule text. -/
def run (s : Session) (rules : String) (schema : Schema) (records : List Record) :
    Except RuleError Report × Session :=
  match Program.ofText rules with
  | .error e => (.error e, s)
  | .ok program =>
    let (report, s) := s.runProgram program schema records
    (.ok report, s)

def reset (_ : Session) : Session := .empty

/-- The text that keeps a session's state. -/
def save (s : Session) : String := s.processed.toJson.render

/-- The session that a saved text keeps. -/
def load? (text : String) : Option Session :=
  ((Json.parse text).bind Processed.ofJson?).map (⟨·⟩)

end Session

end MailRules
