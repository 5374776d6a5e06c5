import MailRules.Proofs.Routing.Conservation

/-!
Batches cut in two. Where the second run starts from the marks that the first one leaves, the two
together show what one run over the whole batch shows. Buckets come into being in either part, so
their order is told by the names that the first part lacks.
-/

namespace MailRules.Routing

/-! ### Buckets after an outcome -/

/-- The records of a bucket, none if it does not exist. -/
def recordsIn (report : Report) (name : String) : List Record := (report.bucket? name).getD []

/-- Before any record the buckets are there already, but empty. -/
theorem recordsIn_nil (program : Program) (n : String) :
    recordsIn (Report.ofOutcomes program []) n = [] := by
  have horder := inOrder_run program default .empty [] n
  cases hb : (Report.ofOutcomes program []).bucket? n with
  | none => simp [recordsIn, hb]
  | some rs => simpa [recordsIn, hb] using horder rs hb

/-- An outcome puts its record behind the others of the bucket it names. -/
theorem recordsIn_withOutcome (report : Report) (o : Outcome) (n : String) :
    recordsIn (withOutcome report o) n =
      recordsIn report n ++ if o.bucket? = some n then [o.record] else [] := by
  cases hb : o.bucket? with
  | none => simp [recordsIn, Report.bucket?, withOutcome, Report.deliverOutcome, hb]
  | some name =>
    rw [recordsIn, delivered_withOutcome report hb n]
    by_cases hn : n = name
    · subst hn
      simp [recordsIn]
    · have hne : ¬ name = n := fun h => hn h.symm
      simp [recordsIn, hn, hne]

/-- Only the bucket that an outcome names can be new, and it goes last. -/
theorem keys_deliverOutcome (b : Buckets) (o : Outcome) :
    (Report.deliverOutcome b o).keys = b.keys ++ o.bucket?.toList.filter (· ∉ b.keys) := by
  cases hb : o.bucket? with
  | none => simp [Report.deliverOutcome, hb]
  | some name =>
    have hdeliver : Report.deliverOutcome b o = b.deliver name o.record := by
      simp [Report.deliverOutcome, hb]
    rw [hdeliver, Buckets.deliver, OrderedMap.keys_alter]
    by_cases hmem : name ∈ b.keys <;> simp [hmem]

theorem keys_withOutcome (report : Report) (o : Outcome) :
    (withOutcome report o).buckets.keys =
      report.buckets.keys ++ o.bucket?.toList.filter (· ∉ report.buckets.keys) :=
  keys_deliverOutcome report.buckets o

/-! ### Reports side by side -/

/-- The whole report shows what the two reports show one after the other. -/
structure Joined (first second whole : Report) : Prop where
  records : ∀ n, recordsIn whole n = recordsIn first n ++ recordsIn second n
  names : whole.buckets.keys =
    first.buckets.keys ++ second.buckets.keys.filter (· ∉ first.buckets.keys)
  log : whole.log = first.log ++ second.log
  recordCount : whole.summary.recordCount = first.summary.recordCount + second.summary.recordCount
  skippedCount :
    whole.summary.skippedCount = first.summary.skippedCount + second.summary.skippedCount
  ruleCount : first.summary.ruleCount = whole.summary.ruleCount ∧
    second.summary.ruleCount = whole.summary.ruleCount

theorem joined_nil (program : Program) (outcomes : List Outcome) :
    Joined (Report.ofOutcomes program outcomes) (Report.ofOutcomes program [])
      (Report.ofOutcomes program outcomes) := by
  have hkeys : (Report.ofOutcomes program []).buckets.keys ⊆
      (Report.ofOutcomes program outcomes).buckets.keys := by
    induction outcomes using List.reverseRecOn with
    | nil => exact List.Subset.refl _
    | append_singleton outcomes o ih =>
      rw [ofOutcomes_concat, keys_withOutcome]
      exact List.Subset.trans ih (List.subset_append_left _ _)
  refine ⟨fun n => ?_, ?_, ?_, rfl, rfl, rfl, rfl⟩
  · rw [recordsIn_nil, List.append_nil]
  · have hnone : (Report.ofOutcomes program []).buckets.keys.filter
        (· ∉ (Report.ofOutcomes program outcomes).buckets.keys) = [] := by
      simpa using fun n hn => hkeys hn
    rw [hnone, List.append_nil]
  · exact (List.append_nil _).symm

/-- One outcome more on both sides. A bucket is new to the whole report exactly where it is new to
both parts. -/
theorem Joined.step {first second whole : Report} (h : Joined first second whole) (o : Outcome) :
    Joined first (withOutcome second o) (withOutcome whole o) := by
  obtain ⟨hrecords, hnames, hlog, hcount, hskipped, hrules⟩ := h
  refine ⟨fun n => ?_, ?_, ?_, ?_, ?_, hrules⟩
  · rw [recordsIn_withOutcome, recordsIn_withOutcome, hrecords, List.append_assoc]
  · rw [keys_withOutcome, keys_withOutcome, hnames, List.filter_append, List.filter_filter,
      List.append_assoc]
    congr 2
    refine List.filter_congr fun n _ => ?_
    by_cases hfirst : n ∈ first.buckets.keys <;> simp [hfirst]
  · simp only [withOutcome, hlog, List.append_assoc]
  · simp only [withOutcome, hcount]
    omega
  · simp only [withOutcome, hskipped]
    omega

theorem joined_ofOutcomes (program : Program) (xs ys : List Outcome) :
    Joined (Report.ofOutcomes program xs) (Report.ofOutcomes program ys)
      (Report.ofOutcomes program (xs ++ ys)) := by
  induction ys using List.reverseRecOn with
  | nil =>
    rw [List.append_nil]
    exact joined_nil program xs
  | append_singleton ys o ih =>
    rw [← List.append_assoc, ofOutcomes_concat, ofOutcomes_concat]
    exact ih.step o

/-- A batch may be cut anywhere. The second run starts from the marks of the first, ends with the
marks of the run over the whole batch, and the two reports join to its report. -/
theorem run_append (program : Program) (schema : Schema) (prior : Processed)
    (xs ys : List Record) :
    let first := program.run schema prior xs
    let second := program.run schema first.2 ys
    let whole := program.run schema prior (xs ++ ys)
    whole.2 = second.2 ∧ Joined first.1 second.1 whole.1 := by
  intro first second whole
  have hwhole : whole = (Report.ofOutcomes program
      ((route program.priorityOrder schema prior xs).1 ++
        (route program.priorityOrder schema first.2 ys).1), second.2) := by
    simp only [whole, Program.run, route_append]
    rfl
  rw [hwhole]
  exact ⟨rfl, joined_ofOutcomes program _ _⟩

end MailRules.Routing
