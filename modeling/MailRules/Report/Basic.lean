import MailRules.OrderedMap
import MailRules.Routing

/-!
Reports of runs: buckets of records, a log of the matches, and counts. The buckets are the inbox,
then one for every declared folder by priority, then one for every other target when it is first
used. Buckets and log keep the order of the records.
-/

namespace MailRules

/-- The bucket of records that no rule sends elsewhere. -/
def inbox : String := "Inbox"

/-- A matched record, the folder whose rule won, and that rule's actions. -/
structure LogEntry where
  recordId : String
  folder : String
  actions : List String
  deriving DecidableEq, Repr

/-- Counts of a run, and the engine that made it. -/
structure Summary where
  engine : String
  version : String
  ruleCount : Nat
  recordCount : Nat
  skippedCount : Nat
  deriving DecidableEq, Repr

abbrev Buckets := OrderedMap (List Record)

namespace Buckets

/-- Adds an empty bucket, unless there is one of that name. -/
def declare (b : Buckets) (name : String) : Buckets := b.alter name (·.getD [])

/-- Puts a record behind the others of a bucket, which is added if it is new. -/
def deliver (b : Buckets) (name : String) (r : Record) : Buckets := b.alter name (·.getD [] ++ [r])

end Buckets

structure Report where
  buckets : Buckets
  log : List LogEntry
  summary : Summary
  deriving DecidableEq

namespace Outcome

/-- The bucket of a record that is not skipped: the winning rule's target, or the inbox. -/
def bucket? (o : Outcome) : Option String :=
  match o.verdict with
  | .skipped => none
  | .unmatched => some inbox
  | .matched _ rule => some (rule.destination?.getD inbox)

def logEntry? (o : Outcome) : Option LogEntry :=
  match o.verdict with
  | .matched f rule => some ⟨o.record.id, f.name, rule.actions.map Action.display⟩
  | _ => none

def isSkipped (o : Outcome) : Bool := o.verdict = .skipped

end Outcome

namespace Report

/-- The buckets before any record, where `order` lists the folders by priority. -/
def initialBuckets (order : List Folder) : Buckets :=
  (order.map (·.name)).foldl Buckets.declare (Buckets.declare .empty inbox)

def deliverOutcome (b : Buckets) (o : Outcome) : Buckets :=
  match o.bucket? with
  | some name => b.deliver name o.record
  | none => b

def engineName : String := "cxr"

def engineVersion : String := "0.1.0"

/-- The report of a run that ended in these outcomes. -/
def ofOutcomes (program : Program) (outcomes : List Outcome) : Report where
  buckets := outcomes.foldl deliverOutcome (initialBuckets program.priorityOrder)
  log := outcomes.filterMap Outcome.logEntry?
  summary := ⟨engineName, engineVersion, program.ruleCount, outcomes.length,
    outcomes.countP Outcome.isSkipped⟩

/-- The records of a bucket, if there is one of that name. -/
def bucket? (r : Report) (name : String) : Option (List Record) := r.buckets.get? name

/-- The identifiers in a bucket, none if it does not exist. -/
def bucketIds (r : Report) (name : String) : List String :=
  ((r.bucket? name).getD []).map (·.id)

/-- The first log entry of a record. -/
def logFor? (r : Report) (recordId : String) : Option LogEntry :=
  r.log.find? (·.recordId = recordId)

def displayBucket (b : String × List Record) : String := b.1 ++ "=" ++ toString b.2.length

/-- One line with the size of every bucket, such as `2 records: Inbox=1, A=1; 1 logged, 0 skipped`. -/
def display (r : Report) : String :=
  toString r.summary.recordCount ++ " records:"
    ++ (if r.buckets.entries.isEmpty then "" else " ")
    ++ ", ".intercalate (r.buckets.entries.map displayBucket)
    ++ "; " ++ toString r.log.length ++ " logged, "
    ++ toString r.summary.skippedCount ++ " skipped"

end Report

/-- A run: the report, and the identifiers processed after it. -/
def Program.run (program : Program) (schema : Schema) (prior : Processed) (records : List Record) :
    Report × Processed :=
  let (outcomes, processed) := route program.priorityOrder schema prior records
  (Report.ofOutcomes program outcomes, processed)

end MailRules
