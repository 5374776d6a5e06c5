import MailRules.Json.Distinct
import MailRules.Json.Fields
import MailRules.Report.Basic
import MailRules.Report.Timestamp

/-!
Reports as JSON, with the moment of the run. The buckets are one object, in order; each record is a
flat object of its own.
-/

namespace MailRules

namespace LogEntry

def fieldNames : List String := ["record_id", "folder", "actions"]

def toJson (e : LogEntry) : Json :=
  .object [Json.field "record_id" (.str e.recordId), Json.field "folder" (.str e.folder),
    Json.field "actions" (Json.ofTexts e.actions)]

def ofJson? (j : Json) : Option LogEntry := do
  match ← j.fields? fieldNames with
  | [recordId, folder, actions] => return ⟨← recordId.text?, ← folder.text?, ← actions.texts?⟩
  | _ => none

end LogEntry

namespace Buckets

def toJson (b : Buckets) : Json :=
  .object (b.entries.map fun e => Json.field e.1 (.array (e.2.map Record.toJson)))

/-- One bucket more. A repeated name keeps its place and takes the last value. -/
def readMember? (b : Buckets) : Option String × Json → Option Buckets
  | (some name, j) => do
    let items ← j.items?
    return b.put name (← items.mapM Record.ofJson?)
  | (none, _) => none

def ofJson? (j : Json) : Option Buckets := do
  (← j.members?).foldlM readMember? OrderedMap.empty

end Buckets

/-- A report with the moment of its run. -/
structure StampedReport where
  report : Report
  processedAt : Timestamp
  deriving DecidableEq

namespace Summary

def fieldNames : List String :=
  ["engine", "version", "processed_at", "rule_count", "record_count", "skipped_count"]

/-- The summary with the moment of the run; without one, that field is left out. -/
def toJson (s : Summary) (processedAt : Option Timestamp) : Json :=
  let moment := match processedAt with
    | some t => [Json.field "processed_at" (.str t.text)]
    | none => []
  .object ([Json.field "engine" (.str s.engine), Json.field "version" (.str s.version)] ++ moment ++
    [Json.field "rule_count" (.number (.ofNat s.ruleCount)),
     Json.field "record_count" (.number (.ofNat s.recordCount)),
     Json.field "skipped_count" (.number (.ofNat s.skippedCount))])

def ofJson? (j : Json) : Option (Summary × Timestamp) := do
  match ← j.fields? fieldNames with
  | [engine, version, processedAt, ruleCount, recordCount, skippedCount] =>
    let summary : Summary := ⟨← engine.text?, ← version.text?, ← ruleCount.number? >>= (·.count?),
      ← recordCount.number? >>= (·.count?), ← skippedCount.number? >>= (·.count?)⟩
    return (summary, ← processedAt.text? >>= Timestamp.ofText?)
  | _ => none

end Summary

namespace Report

def fieldNames : List String := ["buckets", "action_log", "meta"]

def toJson (r : Report) (processedAt : Option Timestamp) : Json :=
  .object [Json.field "buckets" r.buckets.toJson,
    Json.field "action_log" (.array (r.log.map LogEntry.toJson)),
    Json.field "meta" (r.summary.toJson processedAt)]

end Report

namespace StampedReport

def toJson (r : StampedReport) : Json := r.report.toJson (some r.processedAt)

def ofJson? (j : Json) : Option StampedReport := do
  match ← j.fields? Report.fieldNames with
  | [buckets, log, summary] =>
    let buckets ← Buckets.ofJson? buckets
    let log ← (← log.items?).mapM LogEntry.ofJson?
    let (summary, processedAt) ← Summary.ofJson? summary
    return ⟨⟨buckets, log, summary⟩, processedAt⟩
  | _ => none

/-- The report as it comes back from its own JSON value, with every name of an object only once. A
property named `id` then stands in for the identifier of its record. -/
def readBack? (r : StampedReport) : Option StampedReport := ofJson? r.toJson.distinct

end StampedReport

end MailRules
