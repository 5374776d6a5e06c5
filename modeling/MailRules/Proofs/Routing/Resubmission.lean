import MailRules.Proofs.Routing.Fate

/-!
Records that come again. Whatever a run has seen, it has either marked or found no rule for. So a
second run of the same program from those marks, over records of the first in any number and order,
matches nothing: the marked ones are skipped, and the others go to the inbox once more.

    first     m: no rule    m: routed, marked    n: no rule
    again     m: skipped    m: skipped           n: inbox      n: inbox
-/

namespace MailRules.Routing

/-- What a run shows of records none of which is routed: those with a mark are skipped, the others
stand in the inbox, and only the declared folders have buckets beside it. -/
structure Settled (program : Program) (marks : Processed) (records : List Record)
    (run : Report × Processed) : Prop where
  unchanged : run.2 = marks
  log : run.1.log = []
  recordCount : run.1.summary.recordCount = records.length
  skippedCount : run.1.summary.skippedCount = records.countP fun r => marks.contains r.id
  buckets : ∀ n, run.1.bucket? n =
    if n = inbox then some (records.filter fun r => !marks.contains r.id)
    else if n ∈ program.folderNames then some [] else none

section

variable {program : Program} {marks : Processed} {records : List Record} {r : Record}
  {run : Report × Processed}

/-- A record with a mark is skipped. -/
theorem Settled.skip (h : Settled program marks records run) (hr : marks.contains r.id = true) :
    Settled program marks (records ++ [r])
      (withOutcome run.1 ⟨r, .skipped⟩, run.2.after r .skipped) := by
  refine ⟨h.unchanged, ?_, ?_, ?_, fun n => ?_⟩
  · simp [withOutcome, Outcome.logEntry?, h.log]
  · simp [withOutcome, h.recordCount]
  · simp [withOutcome, Outcome.isSkipped, h.skippedCount, List.countP_append, hr]
  · have hbucket := h.buckets n
    simpa [withOutcome, Report.deliverOutcome, Outcome.bucket?, Report.bucket?, hr] using hbucket

/-- A record without a mark goes to the inbox. -/
theorem Settled.keep (h : Settled program marks records run) (hr : marks.contains r.id = false) :
    Settled program marks (records ++ [r])
      (withOutcome run.1 ⟨r, .unmatched⟩, run.2.after r .unmatched) := by
  refine ⟨h.unchanged, ?_, ?_, ?_, fun n => ?_⟩
  · simp [withOutcome, Outcome.logEntry?, h.log]
  · simp [withOutcome, h.recordCount]
  · simp [withOutcome, Outcome.isSkipped, h.skippedCount, List.countP_append, hr]
  · have hdelivered := delivered_withOutcome run.1 (o := ⟨r, .unmatched⟩) rfl n
    rw [hdelivered, h.buckets, h.buckets]
    by_cases hn : n = inbox <;> simp [hn, hr]

end

/-- Where the identifier of every record that a rule is true of has a mark, nothing is routed. -/
theorem settled_run {program : Program} {schema : Schema} {marks : Processed}
    {records : List Record}
    (hmarked : ∀ r ∈ records, Matched program schema r → marks.contains r.id = true) :
    Settled program marks records (program.run schema marks records) := by
  induction records using List.reverseRecOn with
  | nil => exact ⟨rfl, rfl, rfl, rfl, bucket?_run_nil program schema marks⟩
  | append_singleton before r ih =>
    have hsettled := ih fun q hq => hmarked q (List.mem_append_left _ hq)
    obtain ⟨v, hv, hrun⟩ := run_concat program schema marks before r
    rw [hsettled.unchanged] at hv
    rw [hrun]
    cases hv with
    | skipped hr => exact hsettled.skip hr
    | unmatched hr _ => exact hsettled.keep hr
    | matched hr w =>
      have hcontains := hmarked r (List.mem_append_right _ List.mem_cons_self) w.matched
      rw [hcontains] at hr
      cases hr

/-- Running records again changes nothing. From the marks that a run leaves, any of its records, in
any order and however often, are skipped where their identifier is marked and go to the inbox
otherwise; nothing is logged or marked, and no other bucket holds a record. -/
theorem run_again (program : Program) (schema : Schema) (prior : Processed)
    (xs ys : List Record) (seen : ∀ y ∈ ys, y ∈ xs) :
    let first := program.run schema prior xs
    let again := program.run schema first.2 ys
    Settled program first.2 ys again := by
  intro first again
  refine settled_run fun y hy hm => ?_
  exact (contains_run xs y.id).2 (.inr ⟨y, seen y hy, rfl, hm⟩)

/-- A batch with a marked identifier, one that matches only the second time, and one that never
does. -/
def batch : List Record := [letter "p" "a", letter "m" "b", letter "m" "a", letter "n" "b"]

def resubmitted : List Record := [letter "n" "b", letter "m" "b", letter "p" "a", letter "n" "b"]

/-- A record that went to the inbox is skipped the second time, once its identifier is marked. -/
theorem run_again_resubmitted :
    let first := twins.run default (.ofList ["p"]) batch
    let again := twins.run default first.2 resubmitted
    (∀ y ∈ resubmitted, y ∈ batch) ∧ first.2.ids = ["m", "p"] ∧
      Settled twins first.2 resubmitted again ∧ again.1.summary.skippedCount = 2 ∧
      again.1.bucket? inbox = some [letter "n" "b", letter "n" "b"] := by
  intro first again
  have hseen : ∀ y ∈ resubmitted, y ∈ batch := by decide
  have h := run_again twins default (.ofList ["p"]) batch resubmitted hseen
  have hskipped : resubmitted.countP (fun r => first.2.contains r.id) = 2 := by decide
  have hinbox : resubmitted.filter (fun r => !first.2.contains r.id) =
      [letter "n" "b", letter "n" "b"] := by decide
  refine ⟨hseen, by decide, h, h.skippedCount.trans hskipped, ?_⟩
  exact (h.buckets inbox).trans (congrArg some hinbox)

end MailRules.Routing
