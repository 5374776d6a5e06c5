import MailRules.Condition.Eval
import MailRules.Processed
import MailRules.Program.Basic

/-!
Routing of records. Each record gets a verdict from the rules and from the identifiers processed so
far; a matched record's identifier is processed from then on. Everything a run reports is read off
the list of verdicts.
-/

namespace MailRules

/-- What becomes of a record: it is left out, or no rule holds, or this rule of this folder wins. -/
inductive Verdict where
  | skipped
  | unmatched
  | matched (folder : Folder) (rule : Rule)
  deriving DecidableEq

/-- The first rule whose condition is true: folders in the order given, rules as declared. -/
def firstMatch (order : List Folder) (holds : Condition → Bool) : Option (Folder × Rule) :=
  order.findSome? fun f => (f.rules.find? fun r => holds r.condition).map fun r => (f, r)

/-- The verdict on a record, where `order` lists the folders by priority. -/
def judge (order : List Folder) (schema : Schema) (p : Processed) (r : Record) : Verdict :=
  if p.contains r.id then .skipped
  else match firstMatch order (·.eval schema r) with
    | some (f, rule) => .matched f rule
    | none => .unmatched

/-- The processed identifiers after a verdict. -/
def Processed.after (p : Processed) (r : Record) : Verdict → Processed
  | .matched _ _ => p.insert r.id
  | _ => p

/-- A record with its verdict. -/
structure Outcome where
  record : Record
  verdict : Verdict
  deriving DecidableEq

/-- The verdicts on a list of records, and the processed identifiers after it. -/
def route (order : List Folder) (schema : Schema) : Processed → List Record →
    List Outcome × Processed
  | p, [] => ([], p)
  | p, r :: rest =>
    let v := judge order schema p r
    let (outcomes, p) := route order schema (p.after r v) rest
    (⟨r, v⟩ :: outcomes, p)

end MailRules
