import MailRules.Parser.Program
import MailRules.Text.Blank

/-!
Sources of rule text: text given directly, or a file. A program may come from several sources, whose
texts are joined by line feeds. Which files there are is not known here: whoever loads a source gives
the function that reads the text a path leads to.
-/

namespace MailRules

inductive RuleSource where
  | inline (text : String)
  | file (path : String)
  deriving DecidableEq, Repr

/-- Why a path gives no text: it leads to no file, or reading failed in another way, which the file
system describes (a directory, a missing right, bytes that are no UTF-8). -/
inductive FileFault where
  | notFound
  | other (description : String)
  deriving DecidableEq, Repr

/-- Why a source gives no text. -/
inductive LoadError where
  | notFound (path : String)
  | other (description : String)
  deriving DecidableEq, Repr

/-- Why sources give no program. -/
inductive SourceError where
  | load (e : LoadError)
  | rules (e : RuleError)
  deriving DecidableEq, Repr

/-- Only a missing file is described by name; other faults keep the file system's own description. -/
def LoadError.message : LoadError → String
  | notFound path => "rule file not found: " ++ path
  | other description => description

namespace RuleSource

/-- The ending of a path to a rule file. -/
def fileEnding : List Char := ".cxr".toList

/-- A text that ends in the file ending, apart from white space, is a path without that white space;
any other text is a rule text as it stands. -/
def detect (text : String) : RuleSource :=
  let trimmed := Text.trim text.toList
  if fileEnding.isSuffixOf trimmed then .file (String.ofList trimmed) else .inline text

end RuleSource

section
variable (read : String → Except FileFault String)

/-- The rule text of a source. -/
def RuleSource.load : RuleSource → Except LoadError String
  | inline text => .ok text
  | file path =>
    match read path with
    | .ok text => .ok text
    | .error .notFound => .error (.notFound path)
    | .error (.other description) => .error (.other description)

/-- The texts of all sources with line feeds between them, or the first failure. -/
def RuleSource.loadAll (sources : List RuleSource) : Except LoadError String :=
  (sources.mapM (load read)).map fun texts => "\n".intercalate texts

/-- The program in the joined texts of several sources. -/
def Program.ofSources (sources : List RuleSource) : Except SourceError Program :=
  match RuleSource.loadAll read sources with
  | .error e => .error (.load e)
  | .ok text => (Program.ofText text).mapError .rules

/-- The program in a rule file. -/
def Program.ofFile (path : String) : Except SourceError Program :=
  match RuleSource.load read (.file path) with
  | .error e => .error (.load e)
  | .ok text => (Program.ofText text).mapError .rules

end

end MailRules
