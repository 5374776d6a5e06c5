import Mathlib.Data.List.Induction
import MailRules.Proofs.Routing.Winner
import MailRules.Report.Basic

/-!
Runs, one record after the other. What the next record does depends on the records before it only
through the identifiers that are marked by then, and these are known without running anything: the
given ones, and those of the records that some rule is true of.
-/

namespace MailRules.Buckets

/-- Declared names have a bucket, which holds what was there. -/
theorem get?_foldl_declare (n : String) : ∀ (names : List String) (b : Buckets),
    (names.foldl declare b).get? n =
      if n ∈ names then some ((b.get? n).getD []) else b.get? n
  | [], _ => rfl
  | name :: names, b => by
    have hdeclare : (b.declare name).get? n =
        if n = name then some ((b.get? name).getD []) else b.get? n := OrderedMap.get?_alter ..
    rw [List.foldl_cons, get?_foldl_declare n names, hdeclare]
    by_cases hname : n = name
    · subst hname
      simp
    · simp [hname]

end MailRules.Buckets

namespace MailRules.Routing

/-! ### What decides about a record -/

/-- Some rule of the program is true of the record. -/
def Matched (program : Program) (schema : Schema) (r : Record) : Prop :=
  ∃ f ∈ program.folders, Matches (·.eval schema r) f

instance (program : Program) (schema : Schema) (r : Record) :
    Decidable (Matched program schema r) :=
  inferInstanceAs (Decidable (∃ f ∈ program.folders, Matches (·.eval schema r) f))

/-- The identifier was processed before the run, or a rule is true of an earlier record that has it.
-/
def Skipped (program : Program) (schema : Schema) (prior : Processed) (before : List Record)
    (r : Record) : Prop :=
  prior.contains r.id = true ∨ ∃ q ∈ before, q.id = r.id ∧ Matched program schema q

instance (program : Program) (schema : Schema) (prior : Processed) (before : List Record)
    (r : Record) : Decidable (Skipped program schema prior before r) :=
  inferInstanceAs (Decidable (_ ∨ ∃ q ∈ before, q.id = r.id ∧ Matched program schema q))

/-- The bucket that actions name: the target of the last `moveTo`, or the inbox without one. -/
inductive Destined : List Action → String → Prop
  | move {before after : List Action} {target : String} :
      (∀ t, Action.moveTo t ∉ after) → Destined (before ++ .moveTo target :: after) target
  | stay {actions : List Action} : (∀ t, Action.moveTo t ∉ actions) → Destined actions inbox

theorem target?_eq_some_iff {a : Action} {t : String} : a.target? = some t ↔ a = .moveTo t := by
  cases a <;> simp [Action.target?]

theorem not_moveTo_of_target? {actions : List Action} (h : ∀ a ∈ actions, a.target? = none)
    (t : String) : Action.moveTo t ∉ actions := by
  intro hmem
  have hnone := h _ hmem
  cases hnone

theorem destined_destination (rule : Rule) :
    Destined rule.actions (rule.destination?.getD inbox) := by
  cases hd : rule.destination? with
  | none =>
    have hnone := List.findSome?_eq_none_iff.1 hd
    exact .stay (not_moveTo_of_target? fun a ha => hnone a (List.mem_reverse.2 ha))
  | some target =>
    obtain ⟨after, a, before, hrev, hsome, hnone⟩ := List.findSome?_eq_some_iff.1 hd
    cases target?_eq_some_iff.1 hsome
    have hactions : rule.actions = before.reverse ++ .moveTo target :: after.reverse := by
      rw [← List.reverse_reverse rule.actions, hrev]
      simp
    rw [hactions]
    exact .move (not_moveTo_of_target? fun a ha => hnone a (List.mem_reverse.1 ha))

/-- Verdicts on a record once the identifiers in `p` are marked. -/
inductive Judged (program : Program) (schema : Schema) (p : Processed) (r : Record) : Verdict → Prop
  | skipped : p.contains r.id = true → Judged program schema p r .skipped
  | unmatched : p.contains r.id = false → ¬ Matched program schema r →
      Judged program schema p r .unmatched
  | matched {i : Nat} {f : Folder} {rule : Rule} : p.contains r.id = false →
      Wins (·.eval schema r) program.folders i f rule →
      Judged program schema p r (.matched f rule)

theorem judged (program : Program) (schema : Schema) (p : Processed) (r : Record) :
    Judged program schema p r (judge program.priorityOrder schema p r) := by
  unfold judge
  split
  · next hmarked => exact .skipped hmarked
  · next hfresh =>
    have hfresh := Bool.eq_false_iff.2 hfresh
    by_cases hm : Matched program schema r
    · obtain ⟨i, f, rule, w⟩ := exists_wins hm
      rw [Program.priorityOrder, w.firstMatch_eq]
      exact .matched hfresh w
    · have hnone : firstMatch program.priorityOrder (·.eval schema r) = none :=
        firstMatch_eq_none fun f hf hfm => hm ⟨f, mem_foldr_placeFolder.1 hf, hfm⟩
      rw [hnone]
      exact .unmatched hfresh hm

theorem Wins.matched {program : Program} {schema : Schema} {r : Record} {i : Nat} {f : Folder}
    {rule : Rule} (w : Wins (·.eval schema r) program.folders i f rule) :
    Matched program schema r :=
  ⟨f, List.mem_of_getElem? w.declared, w.first.matches⟩

/-! ### Before any record -/

theorem mem_names_priorityOrder {program : Program} {n : String} :
    n ∈ program.priorityOrder.map (·.name) ↔ n ∈ program.folderNames := by
  simp only [Program.priorityOrder, Program.folderNames, List.mem_map, mem_foldr_placeFolder]

/-- Before any record, the inbox and the declared folders have empty buckets. -/
theorem bucket?_run_nil (program : Program) (schema : Schema) (prior : Processed) (n : String) :
    (program.run schema prior []).1.bucket? n =
      if n = inbox then some [] else if n ∈ program.folderNames then some [] else none := by
  have hinbox : (Buckets.declare .empty inbox).get? n = if n = inbox then some [] else none :=
    OrderedMap.get?_alter ..
  have hinitial : (program.run schema prior []).1.bucket? n =
      (Report.initialBuckets program.priorityOrder).get? n := rfl
  rw [hinitial, Report.initialBuckets, Buckets.get?_foldl_declare, hinbox]
  by_cases hn : n = inbox <;> simp [hn, mem_names_priorityOrder]

/-! ### One record more -/

theorem route_append (order : List Folder) (schema : Schema) (ys : List Record) :
    ∀ (xs : List Record) (p : Processed), route order schema p (xs ++ ys) =
      ((route order schema p xs).1 ++ (route order schema (route order schema p xs).2 ys).1,
        (route order schema (route order schema p xs).2 ys).2)
  | [], _ => rfl
  | x :: xs, p => by
    simp only [List.cons_append, route, route_append order schema ys xs]

/-- The report after one more outcome. -/
def withOutcome (report : Report) (o : Outcome) : Report where
  buckets := Report.deliverOutcome report.buckets o
  log := report.log ++ o.logEntry?.toList
  summary := { report.summary with
    recordCount := report.summary.recordCount + 1
    skippedCount := report.summary.skippedCount + if o.isSkipped then 1 else 0 }

theorem ofOutcomes_concat (program : Program) (outcomes : List Outcome) (o : Outcome) :
    Report.ofOutcomes program (outcomes ++ [o]) =
      withOutcome (Report.ofOutcomes program outcomes) o := by
  have hlog : [o].filterMap Outcome.logEntry? = o.logEntry?.toList := by
    cases h : o.logEntry? <;> simp [h]
  simp [Report.ofOutcomes, withOutcome, List.foldl_append, List.filterMap_append, hlog,
    List.countP_append, List.countP_singleton]

theorem buckets_withOutcome (report : Report) {o : Outcome} {name : String}
    (h : o.bucket? = some name) :
    (withOutcome report o).buckets = report.buckets.deliver name o.record := by
  simp [withOutcome, Report.deliverOutcome, h]

/-- A run with one record more is the run without it and the verdict on that record. -/
theorem run_snoc (program : Program) (schema : Schema) (prior : Processed) (before : List Record)
    (r : Record) :
    let run := program.run schema prior before
    let v := judge program.priorityOrder schema run.2 r
    program.run schema prior (before ++ [r]) = (withOutcome run.1 ⟨r, v⟩, run.2.after r v) := by
  unfold Program.run
  rw [route_append]
  exact Prod.ext (ofOutcomes_concat program _ _) rfl

theorem run_concat (program : Program) (schema : Schema) (prior : Processed) (before : List Record)
    (r : Record) :
    ∃ v, Judged program schema (program.run schema prior before).2 r v ∧
      program.run schema prior (before ++ [r]) =
        (withOutcome (program.run schema prior before).1 ⟨r, v⟩,
          (program.run schema prior before).2.after r v) :=
  ⟨_, judged program schema (program.run schema prior before).2 r,
    run_snoc program schema prior before r⟩

section

variable {program : Program} {schema : Schema} {prior : Processed}

theorem contains_after_matched (p : Processed) (r : Record) (f : Folder) (rule : Rule)
    (id : String) :
    (p.after r (.matched f rule)).contains id = true ↔ p.contains id = true ∨ id = r.id := by
  simp [Processed.after, Processed.contains_insert, or_comm]

/-- The marked identifiers after a run: the given ones, and those of the records that matched. -/
theorem contains_run (records : List Record) (id : String) :
    (program.run schema prior records).2.contains id = true ↔
      prior.contains id = true ∨ ∃ q ∈ records, q.id = id ∧ Matched program schema q := by
  induction records using List.reverseRecOn with
  | nil => simp [Program.run, route]
  | append_singleton before r ih =>
    have hsplit : (∃ q ∈ before ++ [r], q.id = id ∧ Matched program schema q) ↔
        (∃ q ∈ before, q.id = id ∧ Matched program schema q) ∨
          r.id = id ∧ Matched program schema r := by
      simp [or_and_right, exists_or]
    obtain ⟨v, hv, hrun⟩ := run_concat program schema prior before r
    rw [hrun, hsplit, ← or_assoc, ← ih]
    cases hv with
    | skipped hmarked =>
      -- The identifier is there already, whether or not a rule is true of the record.
      refine (or_iff_left_of_imp fun h => ?_).symm
      rw [← h.1]
      exact hmarked
    | unmatched _ hnone => simp [Processed.after, hnone]
    | matched _ w => rw [contains_after_matched, and_iff_left w.matched, @eq_comm _ id]

/-- A record is skipped if its identifier is marked when its turn comes. -/
theorem contains_run_iff_skipped {before : List Record} {r : Record} :
    (program.run schema prior before).2.contains r.id = true ↔
      Skipped program schema prior before r :=
  contains_run before r.id

/-! ### The log and the marks -/

/-- The log names the identifiers that are marked beside the given ones, each once. -/
structure Accounted (prior : Processed) (log : List LogEntry) (after : Processed) : Prop where
  marked : ∀ id, after.contains id = true ↔
    prior.contains id = true ∨ id ∈ log.map (·.recordId)
  fresh : ∀ id ∈ log.map (·.recordId), prior.contains id = false
  distinct : (log.map (·.recordId)).Nodup
  size : after.size = prior.size + log.length

theorem Accounted.refl (p : Processed) : Accounted p [] p :=
  ⟨fun id => by simp, by simp, .nil, rfl⟩

/-- Logs in a row: what the first one marks, the second one cannot name again. -/
theorem Accounted.append {p q : Processed} {first second : List LogEntry}
    (h : Accounted prior first p) (h' : Accounted p second q) :
    Accounted prior (first ++ second) q := by
  obtain ⟨hmarked, hfresh, hdistinct, hsize⟩ := h
  obtain ⟨hmarked', hfresh', hdistinct', hsize'⟩ := h'
  refine ⟨fun id => ?_, fun id hid => ?_, ?_, ?_⟩
  · rw [hmarked', hmarked, List.map_append, List.mem_append, or_assoc]
  · rw [List.map_append, List.mem_append] at hid
    rcases hid with hid | hid
    · exact hfresh id hid
    · have hnew := hfresh' id hid
      rw [← Bool.not_eq_true, hmarked, not_or] at hnew
      exact Bool.eq_false_iff.2 hnew.1
  · rw [List.map_append]
    refine List.nodup_append.2 ⟨hdistinct, hdistinct', ?_⟩
    rintro id hid _ hid' rfl
    have hnew := hfresh' id hid'
    rw [(hmarked id).2 (.inr hid)] at hnew
    cases hnew
  · rw [hsize', hsize, List.length_append, Nat.add_assoc]

theorem accounted_insert {p : Processed} {e : LogEntry} (hnew : p.contains e.recordId = false) :
    Accounted p [e] (p.insert e.recordId) := by
  refine ⟨fun id => ?_, fun id hid => ?_, by simp, Processed.size_insert hnew⟩
  · rw [Processed.contains_insert, Bool.or_eq_true, decide_eq_true_iff, or_comm]
    simp
  · rw [List.mem_singleton.1 hid]
    exact hnew

theorem Accounted.step {report : Report} {p : Processed} {r : Record} {v : Verdict}
    (h : Accounted prior report.log p) (hv : Judged program schema p r v) :
    Accounted prior (withOutcome report ⟨r, v⟩).log (p.after r v) := by
  cases hv with
  | skipped _ => simpa [withOutcome, Outcome.logEntry?, Processed.after] using h
  | unmatched _ _ => simpa [withOutcome, Outcome.logEntry?, Processed.after] using h
  | @matched i f rule hnew _ =>
    exact h.append (accounted_insert (e := ⟨r.id, f.name, rule.actions.map Action.display⟩) hnew)

end

/-- Whatever the records are, a run logs what it marks. -/
theorem accounted_run (program : Program) (schema : Schema) (prior : Processed)
    (records : List Record) :
    Accounted prior (program.run schema prior records).1.log
      (program.run schema prior records).2 := by
  induction records using List.reverseRecOn with
  | nil => exact .refl prior
  | append_singleton before r ih =>
    obtain ⟨v, hv, hrun⟩ := run_concat program schema prior before r
    rw [hrun]
    exact ih.step hv

end MailRules.Routing
