import Mathlib.Algebra.GroupWithZero.Nat
import MailRules.Proofs.Routing.Fate

/-!
What a whole run keeps of its records. Every record is either skipped or stands unchanged in exactly
one bucket, buckets and log follow the order of the records, and log, marks and counts agree. All of
this holds whatever identifiers repeat.

The records that are skipped and those that are routed are told apart without the run, by the
records before each. The run is compared with them one record at a time.
-/

namespace MailRules

namespace Buckets

/-- The records of all buckets, bucket after bucket. -/
def records (b : Buckets) : List Record := b.entries.flatMap Prod.snd

theorem flatMap_declare (name : String) : ∀ l : List (String × List Record),
    (OrderedMap.alterEntry name (·.getD []) l).flatMap Prod.snd = l.flatMap Prod.snd
  | [] => rfl
  | (k, rs) :: rest => by
    unfold OrderedMap.alterEntry
    split
    · rfl
    · rw [List.flatMap_cons, List.flatMap_cons, flatMap_declare name rest]

theorem flatMap_deliver (name : String) (r : Record) : ∀ l : List (String × List Record),
    ((OrderedMap.alterEntry name (·.getD [] ++ [r]) l).flatMap Prod.snd).Perm
      (l.flatMap Prod.snd ++ [r])
  | [] => .refl _
  | (k, rs) :: rest => by
    unfold OrderedMap.alterEntry
    split
    · simp only [List.flatMap_cons, Option.getD_some, List.append_assoc]
      exact List.perm_append_comm.append_left rs
    · simp only [List.flatMap_cons, List.append_assoc]
      exact (flatMap_deliver name r rest).append_left rs

theorem records_declare (b : Buckets) (name : String) : (b.declare name).records = b.records :=
  flatMap_declare name b.entries

theorem records_deliver (b : Buckets) (name : String) (r : Record) :
    (b.deliver name r).records.Perm (b.records ++ [r]) :=
  flatMap_deliver name r b.entries

theorem records_foldl_declare : ∀ (names : List String) (b : Buckets),
    (names.foldl declare b).records = b.records
  | [], _ => rfl
  | name :: names, b => by
    rw [List.foldl_cons, records_foldl_declare names, records_declare]

theorem subset_records {b : Buckets} {name : String} {rs : List Record}
    (h : b.get? name = some rs) : rs ⊆ b.records := by
  obtain ⟨l₁, l₂, hentries, -⟩ := List.lookup_eq_some_iff.1 h
  intro r hr
  refine List.mem_flatMap.2 ⟨(name, rs), ?_, hr⟩
  rw [hentries]
  exact List.mem_append_right _ List.mem_cons_self

end Buckets

namespace Routing

theorem records_initialBuckets (order : List Folder) :
    (Report.initialBuckets order).records = [] := by
  rw [Report.initialBuckets, Buckets.records_foldl_declare]
  rfl

theorem records_run_nil (program : Program) (schema : Schema) (prior : Processed) :
    (program.run schema prior []).1.buckets.records = [] :=
  records_initialBuckets program.priorityOrder

/-! ### Records told apart by those before them -/

/-- The records that `P` holds of, where `P` also sees the records before each. -/
def pick (P : List Record → Record → Prop) [∀ before r, Decidable (P before r)] :
    List Record → List Record → List Record
  | _, [] => []
  | before, r :: rest =>
    if P before r then r :: pick P (before ++ [r]) rest else pick P (before ++ [r]) rest

section

variable (P : List Record → Record → Prop) [∀ before r, Decidable (P before r)]

theorem pick_sublist : ∀ before records, (pick P before records).Sublist records
  | _, [] => .slnil
  | before, r :: rest => by
    unfold pick
    split
    · exact (pick_sublist (before ++ [r]) rest).cons_cons r
    · exact (pick_sublist (before ++ [r]) rest).cons r

theorem pick_concat (r : Record) : ∀ before records,
    pick P before (records ++ [r]) =
      pick P before records ++ if P (before ++ records) r then [r] else []
  | before, [] => by simp [pick]
  | before, q :: rest => by
    have ih := pick_concat r (before ++ [q]) rest
    rw [List.append_assoc, List.singleton_append] at ih
    simp only [List.cons_append, pick, ih]
    split <;> rfl

end

section

variable (program : Program) (schema : Schema) (prior : Processed)

/-- The records whose identifier is given, or that of an earlier record that matched. -/
def skippedRecords (records : List Record) : List Record :=
  pick (Skipped program schema prior) [] records

/-- For every identifier that is not given, the first record that matches. -/
def routedRecords (records : List Record) : List Record :=
  pick (fun before r => ¬ Skipped program schema prior before r ∧ Matched program schema r) []
    records

/-- The entry that the winning rule makes of the record. -/
def Entered (r : Record) (e : LogEntry) : Prop :=
  ∃ i f rule, Wins (·.eval schema r) program.folders i f rule ∧
    e = ⟨r.id, f.name, rule.actions.map Action.display⟩

/-! ### One record more -/

/-- What a report shows of the records so far. -/
structure Tally (records : List Record) (report : Report) : Prop where
  placed : (skippedRecords program schema prior records ++ report.buckets.records).Perm records
  logged : List.Forall₂ (Entered program schema) (routedRecords program schema prior records)
    report.log
  recordCount : report.summary.recordCount = records.length
  skippedCount : report.summary.skippedCount = (skippedRecords program schema prior records).length

variable {program schema prior}

theorem skippedRecords_concat (records : List Record) (r : Record) :
    skippedRecords program schema prior (records ++ [r]) =
      skippedRecords program schema prior records ++
        if Skipped program schema prior records r then [r] else [] :=
  pick_concat _ r [] records

theorem routedRecords_concat (records : List Record) (r : Record) :
    routedRecords program schema prior (records ++ [r]) =
      routedRecords program schema prior records ++
        if ¬ Skipped program schema prior records r ∧ Matched program schema r then [r] else [] :=
  pick_concat _ r [] records

theorem tally_nil : Tally program schema prior [] (program.run schema prior []).1 := by
  refine ⟨?_, .nil, rfl, rfl⟩
  rw [records_run_nil]
  rfl

theorem Tally.skip {records : List Record} {report : Report} {r : Record}
    (h : Tally program schema prior records report) (hs : Skipped program schema prior records r) :
    Tally program schema prior (records ++ [r]) (withOutcome report ⟨r, .skipped⟩) := by
  have hskipped : skippedRecords program schema prior (records ++ [r]) =
      skippedRecords program schema prior records ++ [r] := by
    rw [skippedRecords_concat, if_pos hs]
  have hrouted : routedRecords program schema prior (records ++ [r]) =
      routedRecords program schema prior records := by
    simp [routedRecords_concat, hs]
  refine ⟨?_, ?_, ?_, ?_⟩
  · have hswap := (@List.perm_append_comm _ [r] report.buckets.records).append_left
      (skippedRecords program schema prior records)
    rw [hskipped, List.append_assoc]
    refine hswap.trans ?_
    rw [← List.append_assoc]
    exact h.placed.append_right [r]
  · rw [hrouted]
    simpa [withOutcome, Outcome.logEntry?] using h.logged
  · simp [withOutcome, h.recordCount]
  · simp [withOutcome, Outcome.isSkipped, h.skippedCount, hskipped]

/-- A record that is not skipped goes to a bucket, whether or not it is logged. -/
theorem Tally.deliver {records : List Record} {report : Report} {o : Outcome} {name : String}
    (h : Tally program schema prior records report)
    (hs : ¬ Skipped program schema prior records o.record) (hbucket : o.bucket? = some name)
    (hlog : List.Forall₂ (Entered program schema)
      (if Matched program schema o.record then [o.record] else []) o.logEntry?.toList) :
    Tally program schema prior (records ++ [o.record]) (withOutcome report o) := by
  have hskipped : skippedRecords program schema prior (records ++ [o.record]) =
      skippedRecords program schema prior records := by
    simp [skippedRecords_concat, hs]
  have hrouted : routedRecords program schema prior (records ++ [o.record]) =
      routedRecords program schema prior records ++
        if Matched program schema o.record then [o.record] else [] := by
    simp [routedRecords_concat, hs]
  have hcounted : o.isSkipped = false := by
    unfold Outcome.isSkipped
    refine decide_eq_false fun hv => ?_
    rw [Outcome.bucket?, hv] at hbucket
    cases hbucket
  refine ⟨?_, ?_, ?_, ?_⟩
  · have hplaced := (Buckets.records_deliver report.buckets name o.record).append_left
      (skippedRecords program schema prior records)
    rw [hskipped, buckets_withOutcome report hbucket]
    refine hplaced.trans ?_
    rw [← List.append_assoc]
    exact h.placed.append_right [o.record]
  · rw [hrouted]
    exact List.rel_append h.logged hlog
  · simp [withOutcome, h.recordCount]
  · simp [withOutcome, hcounted, h.skippedCount, hskipped]

theorem Tally.step {records : List Record} {report : Report} {r : Record} {v : Verdict}
    {p : Processed} (h : Tally program schema prior records report)
    (hmarks : p.contains r.id = true ↔ Skipped program schema prior records r)
    (hv : Judged program schema p r v) :
    Tally program schema prior (records ++ [r]) (withOutcome report ⟨r, v⟩) := by
  cases hv with
  | skipped hmarked => exact h.skip (hmarks.1 hmarked)
  | unmatched hfresh hnone =>
    refine h.deliver (o := ⟨r, .unmatched⟩) ?_ rfl ?_
    · rw [← hmarks, hfresh]
      simp
    · rw [if_neg hnone]
      exact .nil
  | @matched i f rule hfresh w =>
    refine h.deliver (o := ⟨r, .matched f rule⟩) ?_ rfl ?_
    · rw [← hmarks, hfresh]
      simp
    · rw [if_pos w.matched]
      exact .cons ⟨i, f, rule, w, rfl⟩ .nil

end

theorem tally_run (program : Program) (schema : Schema) (prior : Processed)
    (records : List Record) :
    Tally program schema prior records (program.run schema prior records).1 := by
  induction records using List.reverseRecOn with
  | nil => exact tally_nil
  | append_singleton before r ih =>
    obtain ⟨v, hv, hrun⟩ := run_concat program schema prior before r
    rw [hrun]
    exact ih.step contains_run_iff_skipped hv

/-! ### Order -/

/-- Every bucket holds some of the records, in their order. -/
def InOrder (records : List Record) (report : Report) : Prop :=
  ∀ n rs, report.bucket? n = some rs → rs.Sublist records

theorem InOrder.deliver {records : List Record} {r : Record} {earlier now : Report} {name : String}
    (h : InOrder records earlier) (hd : Delivered earlier now name r) :
    InOrder (records ++ [r]) now := by
  intro n rs hn
  rw [hd n] at hn
  split at hn
  · cases hn
    refine List.Sublist.append ?_ (.refl [r])
    cases hb : earlier.bucket? name with
    | none => exact List.nil_sublist records
    | some rs => exact h name rs hb
  · exact (h n rs hn).trans (List.sublist_append_left records [r])

theorem inOrder_run (program : Program) (schema : Schema) (prior : Processed)
    (records : List Record) :
    InOrder records (program.run schema prior records).1 := by
  induction records using List.reverseRecOn with
  | nil =>
    intro n rs hn
    have hsubset := Buckets.subset_records hn
    rw [records_run_nil, List.subset_nil] at hsubset
    rw [hsubset]
  | append_singleton before r ih =>
    cases fate program schema prior before r with
    | leftOut _ h =>
      intro n rs hn
      rw [Report.bucket?, h.buckets] at hn
      exact (ih n rs hn).trans (List.sublist_append_left before [r])
    | kept _ _ h => exact ih.deliver h.delivered
    | routed _ _ h =>
      obtain ⟨name, -, hdelivered⟩ := h.delivered
      exact ih.deliver hdelivered

/-! ### The whole run -/

/-- Nothing is lost, doubled, altered or put in another order between the records and what the whole
run shows of them. -/
structure Conserved (program : Program) (schema : Schema) (prior : Processed)
    (records : List Record) (whole : Report × Processed) : Prop where
  /-- The records before it and the rules tell what becomes of a record, and nothing undoes it. -/
  fates : ∀ before r rest, records = before ++ r :: rest →
    Fate program schema prior before r (program.run schema prior before)
      (program.run schema prior (before ++ [r])) ∧
      Continues (program.run schema prior (before ++ [r])) whole
  /-- Bucket names are distinct, so each record is skipped or in exactly one bucket. -/
  placed : (skippedRecords program schema prior records ++ whole.1.buckets.records).Perm records
  bucketsInOrder : InOrder records whole.1
  /-- The log has the entries of the routed records, in their order. -/
  logged : List.Forall₂ (Entered program schema) (routedRecords program schema prior records)
    whole.1.log
  routedInOrder : (routedRecords program schema prior records).Sublist records
  distinct : (whole.1.log.map (·.recordId)).Nodup
  fresh : ∀ id ∈ whole.1.log.map (·.recordId), prior.contains id = false
  /-- The marks are the given ones and those of the log. -/
  marked : ∀ id, whole.2.contains id = true ↔
    prior.contains id = true ∨ id ∈ whole.1.log.map (·.recordId)
  recordCount : whole.1.summary.recordCount = records.length
  skippedCount : whole.1.summary.skippedCount = (skippedRecords program schema prior records).length
  total : whole.1.summary.recordCount =
    whole.1.summary.skippedCount + (whole.1.buckets.entries.map (·.2.length)).sum
  growth : prior.size ≤ whole.2.size ∧ whole.1.log.length = whole.2.size - prior.size

theorem run_conserves (program : Program) (schema : Schema) (prior : Processed)
    (records : List Record) :
    Conserved program schema prior records (program.run schema prior records) := by
  obtain ⟨hplaced, hlogged, hrecords, hskipped⟩ :=
    tally_run program schema prior records
  obtain ⟨hmarked, hfresh, hdistinct, hsize⟩ :=
    accounted_run program schema prior records
  refine ⟨?_, hplaced, inOrder_run program schema prior records, hlogged,
    pick_sublist _ [] records, hdistinct, hfresh, hmarked, hrecords, hskipped, ?_, ?_⟩
  · rintro before r rest rfl
    have hcontinues := continues_run program schema prior (before ++ [r]) rest
    rw [List.append_assoc] at hcontinues
    exact ⟨fate program schema prior before r, hcontinues⟩
  · have hlength := hplaced.length_eq
    rw [List.length_append, Buckets.records, List.length_flatMap] at hlength
    rw [hrecords, hskipped, hlength]
  · omega

end Routing

end MailRules
