import MailRules.Proofs.Routing.Conservation
import MailRules.Proofs.Routing.Order

/-!
The buckets of a run and their order. A bucket stands where its name is first mentioned. The inbox
is mentioned first, then the declared folders by priority, then the target of each routed record. So
the order is told by the program and the routed records alone.

    mentioned    Inbox | Inbox   B   A   B | X   Y   A   X
    buckets      Inbox |         B   A     | X   Y
-/

namespace MailRules

namespace Buckets

theorem keys_foldl_declare {mentioned : List String} : ∀ (names : List String) {b : Buckets},
    b.keys = mentioned.eraseDups → (names.foldl declare b).keys = (mentioned ++ names).eraseDups
  | [], b, h => by rwa [List.append_nil]
  | name :: names, b, h => by
    have hname : (b.declare name).keys = (mentioned ++ [name]).eraseDups :=
      OrderedMap.keys_alter_of_mentioned h name _
    have hnames := keys_foldl_declare names hname
    rwa [List.append_assoc] at hnames

end Buckets

namespace Routing

/-- The folders by priority, those of one priority as they are declared. -/
structure InPriorityOrder (folders order : List Folder) : Prop where
  perm : order.Perm folders
  byPriority : ByPriority order
  stable : ∀ k, ofPriority k order = ofPriority k folders

theorem inPriorityOrder_priorityOrder (program : Program) :
    InPriorityOrder program.folders program.priorityOrder :=
  ⟨foldr_placeFolder_perm program.folders, byPriority_foldr program.folders,
    fun k => ofPriority_foldr k program.folders⟩

section

variable (program : Program) (schema : Schema) (prior : Processed)

/-- The rule that wins the record names this bucket. -/
def SentTo (r : Record) (name : String) : Prop :=
  ∃ i f rule, Wins (·.eval schema r) program.folders i f rule ∧ Destined rule.actions name

/-! ### Names in the order of first mention -/

/-- The inbox and the declared folders are mentioned before any target. -/
structure Mentioned (records : List Record) (report : Report) (targets : List String) : Prop where
  sent : List.Forall₂ (SentTo program schema) (routedRecords program schema prior records) targets
  names : report.buckets.keys =
    (inbox :: program.priorityOrder.map (·.name) ++ targets).eraseDups

variable {program schema prior}

theorem keys_initialBuckets (order : List Folder) :
    (Report.initialBuckets order).keys = (inbox :: order.map (·.name)).eraseDups := by
  have hinbox : (Buckets.declare .empty inbox).keys = [inbox].eraseDups := rfl
  exact Buckets.keys_foldl_declare (order.map (·.name)) hinbox

theorem keys_withOutcome_of_mentioned {report : Report} {o : Outcome} {name : String}
    {mentioned : List String} (hbucket : o.bucket? = some name)
    (h : report.buckets.keys = mentioned.eraseDups) :
    (withOutcome report o).buckets.keys = (mentioned ++ [name]).eraseDups := by
  rw [buckets_withOutcome report hbucket]
  exact OrderedMap.keys_alter_of_mentioned h name _

theorem mentioned_nil : Mentioned program schema prior [] (program.run schema prior []).1 [] := by
  refine ⟨.nil, ?_⟩
  rw [List.append_nil]
  exact keys_initialBuckets program.priorityOrder

/-- Only a routed record mentions a name that may be new. -/
theorem Mentioned.step {records : List Record} {report : Report} {targets : List String}
    {r : Record} {v : Verdict} {p : Processed}
    (h : Mentioned program schema prior records report targets)
    (hmarks : p.contains r.id = true ↔ Skipped program schema prior records r)
    (hv : Judged program schema p r v) :
    ∃ targets', Mentioned program schema prior (records ++ [r]) (withOutcome report ⟨r, v⟩)
      targets' := by
  obtain ⟨hsent, hnames⟩ := h
  cases hv with
  | skipped hmarked =>
    refine ⟨targets, ?_, hnames⟩
    simpa [routedRecords_concat, hmarks.1 hmarked] using hsent
  | unmatched hfresh hnone =>
    refine ⟨targets, ?_, ?_⟩
    · simpa [routedRecords_concat, hnone] using hsent
    · have hinbox : inbox ∈ inbox :: program.priorityOrder.map (·.name) ++ targets :=
        List.mem_append_left _ List.mem_cons_self
      rw [keys_withOutcome_of_mentioned rfl hnames, OrderedMap.eraseDups_concat, if_pos hinbox]
  | @matched i f rule hfresh w =>
    have hrouted : routedRecords program schema prior (records ++ [r]) =
        routedRecords program schema prior records ++ [r] := by
      rw [routedRecords_concat, if_pos ⟨mt hmarks.2 (Bool.eq_false_iff.1 hfresh), w.matched⟩]
    refine ⟨targets ++ [rule.destination?.getD inbox], ?_, ?_⟩
    · rw [hrouted]
      exact List.rel_append hsent (.cons ⟨i, f, rule, w, destined_destination rule⟩ .nil)
    · rw [keys_withOutcome_of_mentioned rfl hnames, List.append_assoc]

end

theorem mentioned_run (program : Program) (schema : Schema) (prior : Processed)
    (records : List Record) :
    ∃ targets, Mentioned program schema prior records (program.run schema prior records).1
      targets := by
  induction records using List.reverseRecOn with
  | nil => exact ⟨[], mentioned_nil⟩
  | append_singleton before r ih =>
    obtain ⟨targets, h⟩ := ih
    obtain ⟨v, hv, hrun⟩ := run_concat program schema prior before r
    rw [hrun]
    exact h.step contains_run_iff_skipped hv

/-- First mentions, group by group: a later group adds the names that no earlier one has. -/
theorem eraseDups_groups (name : String) (declared targets : List String) :
    (name :: declared ++ targets).eraseDups =
      name :: (declared.filter (· ≠ name)).eraseDups ++
        (targets.filter fun n => n ≠ name ∧ n ∉ declared).eraseDups := by
  have hdeclared : declared.filter (fun n => !n == name) = declared.filter (· ≠ name) :=
    List.filter_congr fun n _ => by simp [beq_eq_decide]
  have htargets : targets.removeAll (name :: declared) =
      targets.filter fun n => n ≠ name ∧ n ∉ declared :=
    List.filter_congr fun n _ => by simp
  rw [List.eraseDups_append, List.eraseDups_cons, hdeclared, htargets]

/-! ### Buckets of other targets -/

/-- The log has the entry of the rule that wins the record, and the rule names this bucket. -/
def Filed (program : Program) (schema : Schema) (log : List LogEntry) (name : String)
    (r : Record) : Prop :=
  ∃ i f rule, Wins (·.eval schema r) program.folders i f rule ∧ Destined rule.actions name ∧
    ⟨r.id, f.name, rule.actions.map Action.display⟩ ∈ log

/-- A bucket beside the inbox and the declared ones holds something, and nothing but filed records.
-/
def TargetsFiled (program : Program) (schema : Schema) (report : Report) : Prop :=
  ∀ n rs, report.bucket? n = some rs → n ≠ inbox → n ∉ program.folderNames →
    rs ≠ [] ∧ ∀ r ∈ rs, Filed program schema report.log n r

section

variable {program : Program} {schema : Schema}

theorem Filed.mono {log log' : List LogEntry} {name : String} {r : Record}
    (h : Filed program schema log name r) (hlog : log <+: log') :
    Filed program schema log' name r := by
  obtain ⟨i, f, rule, w, hdestined, hmem⟩ := h
  exact ⟨i, f, rule, w, hdestined, hlog.subset hmem⟩

/-- The record may go to the inbox as it is. Elsewhere it has to be filed. -/
theorem TargetsFiled.deliver {earlier now : Report} {name : String} {r : Record}
    (h : TargetsFiled program schema earlier) (hdelivered : Delivered earlier now name r)
    (hlog : earlier.log <+: now.log) (hfiled : name ≠ inbox → Filed program schema now.log name r) :
    TargetsFiled program schema now := by
  intro n rs hn hinbox hdeclared
  rw [hdelivered n] at hn
  split at hn
  · next hname =>
    subst hname
    cases hn
    refine ⟨List.append_ne_nil_of_right_ne_nil _ (List.cons_ne_nil r []), fun q hq => ?_⟩
    rcases List.mem_append.1 hq with hq | hq
    · cases hb : earlier.bucket? n with
      | none =>
        rw [hb] at hq
        cases hq
      | some rs =>
        rw [hb] at hq
        exact ((h n rs hb hinbox hdeclared).2 q hq).mono hlog
    · rw [List.mem_singleton.1 hq]
      exact hfiled hinbox
  · obtain ⟨hne, hall⟩ := h n rs hn hinbox hdeclared
    exact ⟨hne, fun q hq => (hall q hq).mono hlog⟩

end

theorem targetsFiled_nil (program : Program) (schema : Schema) (prior : Processed) :
    TargetsFiled program schema (program.run schema prior []).1 := by
  intro n rs hn hinbox hdeclared
  rw [bucket?_run_nil, if_neg hinbox, if_neg hdeclared] at hn
  cases hn

theorem targetsFiled_run (program : Program) (schema : Schema) (prior : Processed)
    (records : List Record) :
    TargetsFiled program schema (program.run schema prior records).1 := by
  induction records using List.reverseRecOn with
  | nil => exact targetsFiled_nil program schema prior
  | append_singleton before r ih =>
    have hlog := (fate program schema prior before r).continues.log
    cases fate program schema prior before r with
    | leftOut _ h =>
      intro n rs hn hinbox hdeclared
      rw [Report.bucket?, h.buckets] at hn
      rw [h.log]
      exact ih n rs hn hinbox hdeclared
    | kept _ _ h => exact ih.deliver h.delivered hlog fun hinbox => absurd rfl hinbox
    | @routed i f rule _ w h =>
      obtain ⟨name, hdestined, hdelivered⟩ := h.delivered
      refine ih.deliver hdelivered hlog fun _ => ⟨i, f, rule, w, hdestined, ?_⟩
      rw [h.log]
      exact List.mem_append_right _ List.mem_cons_self

/-! ### The whole run -/

/-- The buckets that a run shows. -/
structure Arranged (program : Program) (schema : Schema) (prior : Processed)
    (records : List Record) (report : Report) : Prop where
  distinct : report.buckets.keys.Nodup
  /-- First the inbox, then the other declared names by priority, then the other targets as the
  routed records use them, each name where it first comes up. -/
  names : ∃ order targets, InPriorityOrder program.folders order ∧
    List.Forall₂ (SentTo program schema) (routedRecords program schema prior records) targets ∧
    report.buckets.keys = inbox :: ((order.map (·.name)).filter (· ≠ inbox)).eraseDups ++
      (targets.filter fun n => n ≠ inbox ∧ n ∉ program.folderNames).eraseDups
  /-- A declared folder has a bucket, whether or not a record reaches it. -/
  declared : ∀ n ∈ program.folderNames, ∃ rs, report.bucket? n = some rs
  targets : TargetsFiled program schema report

theorem run_arranges (program : Program) (schema : Schema) (prior : Processed)
    (records : List Record) :
    Arranged program schema prior records (program.run schema prior records).1 := by
  obtain ⟨targets, hsent, hnames⟩ := mentioned_run program schema prior records
  refine ⟨OrderedMap.distinct _, ⟨_, targets, inPriorityOrder_priorityOrder program, hsent, ?_⟩,
    fun n hn => ?_, targetsFiled_run program schema prior records⟩
  · have hother : (targets.filter fun n => n ≠ inbox ∧ n ∉ program.priorityOrder.map (·.name)) =
        targets.filter fun n => n ≠ inbox ∧ n ∉ program.folderNames :=
      List.filter_congr fun n _ =>
        decide_eq_decide.2 (and_congr_right fun _ => not_congr mem_names_priorityOrder)
    rw [hnames, eraseDups_groups, hother]
  · have hempty : (program.run schema prior []).1.bucket? n = some [] := by
      rw [bucket?_run_nil, if_pos hn, ite_self]
    obtain ⟨rs, hrs⟩ := (continues_run program schema prior [] records).buckets n [] hempty
    exact ⟨rs, hrs⟩

/-- A folder of the inbox's name and two folders of one name, and targets declared and not. -/
example :
    let sends (word target : String) : List Rule :=
      [⟨.contains "body" (.one word), [.moveTo target]⟩]
    let program : Program := ⟨[⟨"A", 1, sends "a" "Y"⟩, ⟨"B", 5, sends "b" "X"⟩, ⟨"Inbox", 9, []⟩,
      ⟨"B", 1, sends "c" "A"⟩]⟩
    let records := ["b", "a", "c", "bb"].map fun text => (Record.new text).set "body" (.string text)
    (program.run default .empty records).1.buckets.keys = ["Inbox", "B", "A", "X", "Y"] := rfl

end Routing

end MailRules
