import MailRules.Proofs.Routing.Noninterference

/-!
One folder more, of lowest priority and declared last. It stands behind all others in the priority
order, so it takes only records that no rule was true of before. Where no identifier comes twice,
what it takes does not show in the other records.

    rules of         A      A, then C
    m: A, C true     A      A
    n: C true        -      C
    o: none true     -      -

Where one does, a record that the folder takes marks it, and a later record that another folder took
before is left out.
-/

namespace MailRules

/-- The program with one more folder, declared behind the others. -/
def Program.declareLast (p : Program) (f : Folder) : Program := ⟨p.folders ++ [f]⟩

namespace Routing

/-! ### Behind the others -/

section
variable {F : Folder}

theorem placeFolder_concat {f : Folder} (h : F.priority ≤ f.priority) : ∀ order,
    Program.placeFolder f (order ++ [F]) = Program.placeFolder f order ++ [F]
  | [] => by simp [Program.placeFolder, h]
  | g :: rest => by
    rw [List.cons_append, Program.placeFolder, Program.placeFolder]
    split
    · rfl
    · rw [placeFolder_concat h rest, List.cons_append]

theorem foldr_placeFolder_concat : ∀ {folders : List Folder},
    (∀ f ∈ folders, F.priority ≤ f.priority) →
      (folders ++ [F]).foldr Program.placeFolder [] = folders.foldr Program.placeFolder [] ++ [F]
  | [], _ => rfl
  | f :: rest, h => by
    have hrest := foldr_placeFolder_concat fun g hg => h g (List.mem_cons_of_mem f hg)
    rw [List.cons_append, List.foldr_cons, hrest, placeFolder_concat (h f List.mem_cons_self),
      List.foldr_cons]

/-- Verdicts without the last folder and with it. -/
inductive Takes (F : Folder) (schema : Schema) (r : Record) : Verdict → Verdict → Prop
  | skipped : Takes F schema r .skipped .skipped
  | matched {f : Folder} {rule : Rule} : Takes F schema r (.matched f rule) (.matched f rule)
  | left : ¬ Matches (·.eval schema r) F → Takes F schema r .unmatched .unmatched
  | taken {rule : Rule} : FirstRule (·.eval schema r) F rule →
      Takes F schema r .unmatched (.matched F rule)

theorem Takes.isSkipped_eq {schema : Schema} {r : Record} {v v' : Verdict}
    (h : Takes F schema r v v') : Outcome.isSkipped ⟨r, v⟩ = Outcome.isSkipped ⟨r, v'⟩ := by
  cases h <;> rfl

/-- What was logged before is judged as before. -/
theorem Takes.eq_of_logged {schema : Schema} {r : Record} {v v' : Verdict} {e : LogEntry}
    (h : Takes F schema r v v') (he : Outcome.logEntry? ⟨r, v⟩ = some e) : v' = v := by
  cases h with
  | skipped | matched => rfl
  | left | taken => cases he

theorem takes_judge {program : Program} (lowest : ∀ f ∈ program.folders, F.priority ≤ f.priority)
    (schema : Schema) (p : Processed) (r : Record) :
    Takes F schema r (judge program.priorityOrder schema p r)
      (judge (program.declareLast F).priorityOrder schema p r) := by
  have horder : (program.declareLast F).priorityOrder = program.priorityOrder ++ [F] :=
    foldr_placeFolder_concat lowest
  have hfound : firstMatch (program.priorityOrder ++ [F]) (·.eval schema r) =
      (firstMatch program.priorityOrder (·.eval schema r)).or
        (firstMatch [F] (·.eval schema r)) := List.findSome?_append
  unfold judge
  rw [horder, hfound]
  split
  · exact .skipped
  · cases firstMatch program.priorityOrder (·.eval schema r) with
    | some found => exact .matched
    | none =>
      by_cases hF : Matches (·.eval schema r) F
      · obtain ⟨rule, hrule⟩ := hF.exists_firstRule
        rw [firstMatch_cons_of_first hrule]
        exact .taken hrule
      · rw [firstMatch_cons_of_not_matches hF]
        exact .left hF

end

/-! ### Identifiers that come once -/

/-- No identifier comes twice. -/
def Distinct (records : List Record) : Prop := records.Pairwise fun q r => q.id ≠ r.id

section
variable {order : List Folder} {schema : Schema} {p : Processed} {r : Record}

theorem judge_after {q : Record} (hid : q.id ≠ r.id) (v : Verdict) :
    judge order schema (p.after r v) q = judge order schema p q := by
  have hmarked : (p.after r v).contains q.id = p.contains q.id := by
    cases v with
    | skipped | unmatched => rfl
    | matched f rule => simp [Processed.after, Processed.contains_insert, hid]
  rw [judge, judge, hmarked]

/-- Every record gets the verdict that it would get alone. -/
theorem route_of_distinct : ∀ {records : List Record} {p : Processed}, Distinct records →
    (route order schema p records).1 = records.map fun r => ⟨r, judge order schema p r⟩
  | [], _, _ => rfl
  | r :: rest, p, h => by
    obtain ⟨hnew, hrest⟩ := List.pairwise_cons.1 h
    simp only [route, route_of_distinct hrest, List.map_cons]
    refine congrArg _ (List.map_congr_left fun q hq => ?_)
    rw [judge_after (hnew q hq).symm]

end

theorem Distinct.filter_id {r : Record} : ∀ {records : List Record}, Distinct records →
    r ∈ records → records.filter (·.id = r.id) = [r]
  | q :: rest, h, hr => by
    obtain ⟨hnew, hrest⟩ := List.pairwise_cons.1 h
    rcases List.mem_cons.1 hr with rfl | hr
    · have hnone : rest.filter (·.id = r.id) = [] :=
        List.filter_eq_nil_iff.2 fun q hq => by simpa using (hnew q hq).symm
      rw [List.filter_cons_of_pos (by simp), hnone]
    · rw [List.filter_cons_of_neg (by simpa using hnew r hr), Distinct.filter_id hrest hr]

theorem Distinct.eq_of_id {records : List Record} {q r : Record} (h : Distinct records)
    (hq : q ∈ records) (hr : r ∈ records) (hid : q.id = r.id) : q = r := by
  have hmem : q ∈ records.filter (·.id = r.id) := List.mem_filter.2 ⟨hq, decide_eq_true hid⟩
  rw [h.filter_id hr] at hmem
  exact List.mem_singleton.1 hmem

/-! ### What a run shows of one record -/

/-- The entries of the log for an identifier. -/
def entriesOf (report : Report) (id : String) : List LogEntry :=
  report.log.filter (·.recordId = id)

/-- The record is in this bucket and in no other. -/
def StandsIn (report : Report) (r : Record) (name : String) : Prop :=
  ∀ n, r ∈ recordsIn report n ↔ n = name

/-- The record is in no bucket. -/
def StandsNowhere (report : Report) (r : Record) : Prop := ∀ n, r ∉ recordsIn report n

/-- In the inbox, without a log entry and without a mark. -/
structure LeftAlone (run : Report × Processed) (r : Record) : Prop where
  inbox : StandsIn run.1 r inbox
  unlogged : entriesOf run.1 r.id = []
  unmarked : run.2.contains r.id = false

/-- The outcome of a record that comes alone. -/
def alone (program : Program) (schema : Schema) (prior : Processed) (r : Record) : Outcome :=
  ⟨r, judge program.priorityOrder schema prior r⟩

section
variable {program : Program} {schema : Schema} {prior : Processed} {records : List Record}
  {r : Record}

theorem run_of_distinct (h : Distinct records) : (program.run schema prior records).1 =
    Report.ofOutcomes program (records.map (alone program schema prior)) :=
  congrArg (Report.ofOutcomes program) (route_of_distinct h)

theorem skippedCount_run (h : Distinct records) :
    (program.run schema prior records).1.summary.skippedCount =
      records.countP fun r => (alone program schema prior r).isSkipped := by
  rw [run_of_distinct h, Report.ofOutcomes, List.countP_map]
  rfl

theorem mem_recordsIn_iff (h : Distinct records) (hr : r ∈ records) {n : String} :
    r ∈ recordsIn (program.run schema prior records).1 n ↔
      (alone program schema prior r).bucket? = some n := by
  rw [run_of_distinct h, recordsIn_ofOutcomes, List.mem_map]
  constructor
  · rintro ⟨o, ho, rfl⟩
    obtain ⟨hmem, hbucket⟩ := List.mem_filter.1 ho
    obtain ⟨q, -, rfl⟩ := List.mem_map.1 hmem
    exact of_decide_eq_true hbucket
  · intro hbucket
    exact ⟨_, List.mem_filter.2 ⟨List.mem_map_of_mem hr, decide_eq_true hbucket⟩, rfl⟩

theorem entriesOf_ofOutcomes (os : List Outcome) (id : String) :
    entriesOf (Report.ofOutcomes program os) id =
      (os.filter (·.record.id = id)).filterMap Outcome.logEntry? := by
  rw [entriesOf, Report.ofOutcomes, List.filter_filterMap, List.filterMap_filter]
  refine List.filterMap_congr fun o _ => ?_
  obtain ⟨r, v⟩ := o
  cases v <;> by_cases hid : r.id = id <;> simp [ Outcome.logEntry?, hid]

theorem entriesOf_run (h : Distinct records) (hr : r ∈ records) :
    entriesOf (program.run schema prior records).1 r.id =
      [alone program schema prior r].filterMap Outcome.logEntry? := by
  have hown : (records.map (alone program schema prior)).filter (·.record.id = r.id) =
      [alone program schema prior r] := by
    rw [List.filter_map]
    exact congrArg (List.map _) (h.filter_id hr)
  rw [run_of_distinct h, entriesOf_ofOutcomes, hown]

theorem logEntry?_of_mem (h : Distinct records) (hr : r ∈ records) {e : LogEntry}
    (he : e ∈ (program.run schema prior records).1.log) (hid : e.recordId = r.id) :
    Outcome.logEntry? (alone program schema prior r) = some e := by
  have hmem : e ∈ entriesOf (program.run schema prior records).1 r.id :=
    List.mem_filter.2 ⟨he, decide_eq_true hid⟩
  rw [entriesOf_run h hr] at hmem
  obtain ⟨o, ho, hentry⟩ := List.mem_filterMap.1 hmem
  rwa [List.mem_singleton.1 ho] at hentry

theorem contains_run_of_distinct (h : Distinct records) (hr : r ∈ records) :
    (program.run schema prior records).2.contains r.id = true ↔
      prior.contains r.id = true ∨ Matched program schema r := by
  have hmatched : (∃ q ∈ records, q.id = r.id ∧ Matched program schema q) ↔
      Matched program schema r := by
    constructor
    · rintro ⟨q, hq, hid, hm⟩
      rwa [← h.eq_of_id hq hr hid]
    · exact fun hm => ⟨r, hr, rfl, hm⟩
  rw [contains_run, hmatched]

theorem standsIn_iff (h : Distinct records) (hr : r ∈ records) {name : String} :
    StandsIn (program.run schema prior records).1 r name ↔
      (alone program schema prior r).bucket? = some name := by
  simp only [StandsIn, mem_recordsIn_iff h hr]
  constructor
  · exact fun hin => (hin name).2 rfl
  · intro hbucket n
    rw [hbucket, Option.some.injEq, eq_comm]

theorem standsNowhere_iff (h : Distinct records) (hr : r ∈ records) :
    StandsNowhere (program.run schema prior records).1 r ↔
      (alone program schema prior r).isSkipped = true := by
  simp only [StandsNowhere, mem_recordsIn_iff h hr, alone]
  cases judge program.priorityOrder schema prior r <;> simp [Outcome.bucket?, Outcome.isSkipped]

theorem exists_standsIn (h : Distinct records) (hr : r ∈ records) {e : LogEntry}
    (he : Outcome.logEntry? (alone program schema prior r) = some e) :
    ∃ name, StandsIn (program.run schema prior records).1 r name := by
  simp only [standsIn_iff h hr]
  unfold alone at he ⊢
  generalize judge program.priorityOrder schema prior r = v at he ⊢
  cases v with
  | skipped | unmatched => cases he
  | matched f rule => exact ⟨_, rfl⟩

theorem judge_eq_unmatched_iff : judge program.priorityOrder schema prior r = .unmatched ↔
    prior.contains r.id = false ∧ ¬ Matched program schema r := by
  have hjudged := judged program schema prior r
  generalize judge program.priorityOrder schema prior r = v at hjudged ⊢
  cases hjudged with
  | skipped hmarked => simp [hmarked]
  | unmatched hfresh hnone => simp [hfresh, hnone]
  | matched hfresh w => simp [w.matched]

theorem leftAlone_run (h : Distinct records) (hr : r ∈ records)
    (hv : judge program.priorityOrder schema prior r = .unmatched) :
    LeftAlone (program.run schema prior records) r := by
  have halone : alone program schema prior r = ⟨r, .unmatched⟩ := congrArg (Outcome.mk r) hv
  refine ⟨(standsIn_iff h hr).2 ?_, ?_, Bool.eq_false_iff.2 fun hmarked => ?_⟩
  · rw [halone]
    rfl
  · rw [entriesOf_run h hr, halone]
    rfl
  · obtain ⟨hfresh, hnone⟩ := judge_eq_unmatched_iff.1 hv
    rcases (contains_run_of_distinct h hr).1 hmarked with hprior | hm
    · exact Bool.eq_false_iff.1 hfresh hprior
    · exact hnone hm

end

/-! ### Two runs -/

/-- Between a run and the run with one folder more, only what no rule was true of differs, and only
by what the folder takes. -/
structure TakesLeftovers (program : Program) (F : Folder) (schema : Schema) (prior : Processed)
    (records : List Record) (run run' : Report × Processed) : Prop where
  skipped : ∀ r ∈ records, StandsNowhere run.1 r ↔ StandsNowhere run'.1 r
  skippedCount : run'.1.summary.skippedCount = run.1.summary.skippedCount
  logged : ∀ r ∈ records, ∀ e ∈ run.1.log, e.recordId = r.id →
    entriesOf run'.1 r.id = [e] ∧ ∃ name, StandsIn run.1 r name ∧ StandsIn run'.1 r name
  unmatched : ∀ r ∈ records, prior.contains r.id = false → ¬ Matched program schema r →
    LeftAlone run r ∧ (¬ Matches (·.eval schema r) F ∧ LeftAlone run' r ∨
      ∃ rule, FirstRule (·.eval schema r) F rule ∧
        entriesOf run'.1 r.id = [⟨r.id, F.name, rule.actions.map Action.display⟩])

/-- A folder of lowest priority that is declared last only takes records that no rule was true of. -/
theorem run_declareLast (program : Program) (F : Folder)
    (lowest : ∀ f ∈ program.folders, F.priority ≤ f.priority) (schema : Schema)
    (prior : Processed) (records : List Record)
    (distinct : records.Pairwise fun q r => q.id ≠ r.id) :
    TakesLeftovers program F schema prior records (program.run schema prior records)
      ((program.declareLast F).run schema prior records) := by
  have htakes := takes_judge lowest schema prior
  have hskips : ∀ r, (alone program schema prior r).isSkipped =
      (alone (program.declareLast F) schema prior r).isSkipped := fun r => (htakes r).isSkipped_eq
  refine ⟨fun r hr => ?_, ?_, fun r hr e he hid => ?_, fun r hr hfresh hnone => ?_⟩
  · rw [standsNowhere_iff distinct hr, standsNowhere_iff distinct hr, hskips r]
  · simp only [skippedCount_run distinct, hskips]
  · have hentry := logEntry?_of_mem distinct hr he hid
    have hsame : alone (program.declareLast F) schema prior r = alone program schema prior r :=
      congrArg (Outcome.mk r) ((htakes r).eq_of_logged hentry)
    obtain ⟨name, hname⟩ := exists_standsIn distinct hr hentry
    refine ⟨?_, name, hname, ?_⟩
    · rw [entriesOf_run distinct hr, hsame, List.filterMap_cons_some hentry, List.filterMap_nil]
    · rw [standsIn_iff distinct hr] at hname ⊢
      rwa [hsame]
  · have hv := judge_eq_unmatched_iff.2 ⟨hfresh, hnone⟩
    refine ⟨leftAlone_run distinct hr hv, ?_⟩
    have h := htakes r
    rw [hv] at h
    generalize hv' : judge (program.declareLast F).priorityOrder schema prior r = v' at h
    cases h with
    | left hF => exact .inl ⟨hF, leftAlone_run distinct hr hv'⟩
    | @taken rule hrule =>
      refine .inr ⟨rule, hrule, ?_⟩
      rw [entriesOf_run distinct hr, alone, hv']
      rfl

/-- The folder has the name and the priority of another one, and its target too. -/
theorem run_declareLast_namesake :
    let program : Program := ⟨[⟨"A", 1, [⟨.contains "body" (.one "a"), [.moveTo "X"]⟩]⟩]⟩
    let F : Folder := ⟨"A", 1, [⟨.contains "body" (.one "z"), [.call]⟩,
      ⟨.contains "body" (.one "b"), [.moveTo "X", .notify]⟩]⟩
    let prior := Processed.ofList ["k"]
    let records := [letter "m" "a", letter "n" "b", letter "o" "c", letter "k" "b"]
    (∀ f ∈ program.folders, F.priority ≤ f.priority) ∧
      (records.Pairwise fun q r => q.id ≠ r.id) ∧
      TakesLeftovers program F default prior records (program.run default prior records)
        ((program.declareLast F).run default prior records) ∧
      ((program.declareLast F).run default prior records).1.log =
        [⟨"m", "A", ["move to X"]⟩, ⟨"n", "A", ["move to X", "notify"]⟩] := by
  intro program F prior records
  have hlowest : ∀ f ∈ program.folders, F.priority ≤ f.priority := by decide
  have hdistinct : records.Pairwise fun q r => q.id ≠ r.id := by decide
  exact ⟨hlowest, hdistinct, run_declareLast program F hlowest default prior records hdistinct,
    by decide +kernel⟩

end Routing

end MailRules
