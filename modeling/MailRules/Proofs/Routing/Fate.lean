import Mathlib.Data.List.Nodup
import MailRules.Proofs.Routing.Run

/-!
What a run does with one record. A record is left out, kept in the inbox, or routed by the winning
rule, and everything else that the run shows stays as it is. Later records only add to what is
there.
-/

namespace MailRules.Routing

/-! ### Effects on a run

A run is seen before and after one more record. -/

/-- The record goes behind the others of one bucket, and no other bucket changes. -/
def Delivered (earlier now : Report) (name : String) (r : Record) : Prop :=
  ∀ n, now.bucket? n =
    if n = name then some ((earlier.bucket? name).getD [] ++ [r]) else earlier.bucket? n

/-- Nothing changes but the counts. -/
structure LeftOut (earlier now : Report × Processed) : Prop where
  buckets : now.1.buckets = earlier.1.buckets
  log : now.1.log = earlier.1.log
  marks : now.2 = earlier.2

/-- The record goes to the inbox, without a log entry and without a mark. -/
structure Kept (earlier now : Report × Processed) (r : Record) : Prop where
  delivered : Delivered earlier.1 now.1 inbox r
  log : now.1.log = earlier.1.log
  marks : now.2 = earlier.2
  unmarked : now.2.contains r.id = false

/-- The rule's actions are logged, its last `moveTo` picks the bucket, and the record is marked. -/
structure Routed (earlier now : Report × Processed) (r : Record) (f : Folder) (rule : Rule) :
    Prop where
  delivered : ∃ name, Destined rule.actions name ∧ Delivered earlier.1 now.1 name r
  log : now.1.log = earlier.1.log ++ [⟨r.id, f.name, rule.actions.map Action.display⟩]
  marks : ∀ id, now.2.contains id = true ↔ earlier.2.contains id = true ∨ id = r.id

/-- What becomes of a record, told by the records before it and by the rules alone. -/
inductive Fate (program : Program) (schema : Schema) (prior : Processed) (before : List Record)
    (r : Record) (earlier now : Report × Processed) : Prop
  | leftOut : Skipped program schema prior before r → LeftOut earlier now →
      Fate program schema prior before r earlier now
  | kept : ¬ Skipped program schema prior before r → ¬ Matched program schema r →
      Kept earlier now r → Fate program schema prior before r earlier now
  | routed {i : Nat} {f : Folder} {rule : Rule} : ¬ Skipped program schema prior before r →
      Wins (·.eval schema r) program.folders i f rule → Routed earlier now r f rule →
      Fate program schema prior before r earlier now

theorem delivered_withOutcome (report : Report) {o : Outcome} {name : String}
    (h : o.bucket? = some name) : Delivered report (withOutcome report o) name o.record := by
  intro n
  rw [Report.bucket?, buckets_withOutcome report h, Buckets.deliver, OrderedMap.get?_alter]
  rfl

section

variable (program : Program) (schema : Schema) (prior : Processed)

theorem fate (before : List Record) (r : Record) :
    Fate program schema prior before r (program.run schema prior before)
      (program.run schema prior (before ++ [r])) := by
  obtain ⟨v, hv, hrun⟩ := run_concat program schema prior before r
  rw [hrun]
  cases hv with
  | skipped hmarked =>
    refine .leftOut (contains_run_iff_skipped.1 hmarked) ⟨rfl, ?_, rfl⟩
    exact List.append_nil _
  | unmatched hfresh hnone =>
    have hfresh' := Bool.eq_false_iff.1 hfresh
    refine .kept (fun h => hfresh' (contains_run_iff_skipped.2 h)) hnone ⟨?_, ?_, rfl, hfresh⟩
    · exact delivered_withOutcome _ rfl
    · exact List.append_nil _
  | @matched i f rule hfresh w =>
    have hfresh' := Bool.eq_false_iff.1 hfresh
    refine .routed (fun h => hfresh' (contains_run_iff_skipped.2 h)) w ⟨?_, rfl, ?_⟩
    · exact ⟨_, destined_destination rule, delivered_withOutcome _ rfl⟩
    · exact contains_after_matched _ r f rule

/-! ### Later records -/

/-- Log and buckets only grow at their ends, and marks stay. -/
structure Continues (earlier later : Report × Processed) : Prop where
  buckets : ∀ n rs, earlier.1.bucket? n = some rs →
    ∃ more, later.1.bucket? n = some (rs ++ more)
  log : earlier.1.log <+: later.1.log
  marks : ∀ id, earlier.2.contains id = true → later.2.contains id = true

theorem Continues.refl (run : Report × Processed) : Continues run run :=
  ⟨fun _ rs h => ⟨[], by rw [h, List.append_nil]⟩, List.prefix_rfl, fun _ h => h⟩

theorem Continues.trans {first second third : Report × Processed} (h : Continues first second)
    (h' : Continues second third) : Continues first third := by
  refine ⟨fun n rs hn => ?_, h.log.trans h'.log, fun id hid => h'.marks id (h.marks id hid)⟩
  obtain ⟨more, hmore⟩ := h.buckets n rs hn
  obtain ⟨further, hfurther⟩ := h'.buckets n _ hmore
  exact ⟨more ++ further, by rw [hfurther, List.append_assoc]⟩

theorem Delivered.grows {earlier now : Report} {name : String} {r : Record}
    (h : Delivered earlier now name r) (n : String) (rs : List Record)
    (hn : earlier.bucket? n = some rs) : ∃ more, now.bucket? n = some (rs ++ more) := by
  rw [h n]
  split
  · next heq =>
    subst heq
    exact ⟨[r], by rw [hn]; rfl⟩
  · exact ⟨[], by rw [hn, List.append_nil]⟩

variable {program schema prior}

theorem Routed.logged {earlier now : Report × Processed} {r : Record} {f : Folder} {rule : Rule}
    (h : Routed earlier now r f rule) : r.id ∈ now.1.log.map (·.recordId) := by
  rw [h.log]
  simp

theorem Fate.continues {before : List Record} {r : Record} {earlier now : Report × Processed}
    (h : Fate program schema prior before r earlier now) : Continues earlier now := by
  cases h with
  | leftOut _ h =>
    refine ⟨fun n rs hn => ⟨[], ?_⟩, h.log ▸ List.prefix_rfl, fun id hid => h.marks ▸ hid⟩
    rw [Report.bucket?, h.buckets, List.append_nil]
    exact hn
  | kept _ _ h => exact ⟨h.delivered.grows, h.log ▸ List.prefix_rfl, fun id hid => h.marks ▸ hid⟩
  | routed _ _ h =>
    obtain ⟨name, -, hdelivered⟩ := h.delivered
    refine ⟨hdelivered.grows, h.log ▸ List.prefix_append _ _, fun id hid => ?_⟩
    exact (h.marks id).2 (.inl hid)

end

theorem continues_run (program : Program) (schema : Schema) (prior : Processed)
    (xs ys : List Record) :
    Continues (program.run schema prior xs) (program.run schema prior (xs ++ ys)) := by
  induction ys using List.reverseRecOn with
  | nil =>
    rw [List.append_nil]
    exact .refl _
  | append_singleton ys y ih =>
    rw [← List.append_assoc]
    exact ih.trans (fate program schema prior (xs ++ ys) y).continues

/-! ### The declarative rule -/

/-- The routing rule. A record whose identifier is neither given nor that of an earlier record that
matched goes to the inbox where no rule is true of it. Else the winning rule routes it, and the log
of the whole run names its identifier once. -/
theorem run_routes (program : Program) (schema : Schema) (prior : Processed)
    (before : List Record) (r : Record) (rest : List Record)
    (unmarked : prior.contains r.id = false)
    (first : ∀ q ∈ before, q.id = r.id → ¬ Matched program schema q) :
    let earlier := program.run schema prior before
    let now := program.run schema prior (before ++ [r])
    let whole := program.run schema prior (before ++ r :: rest)
    Continues now whole ∧
      (¬ Matched program schema r → Kept earlier now r) ∧
      (Matched program schema r → ∃ i f rule,
        Wins (·.eval schema r) program.folders i f rule ∧ Routed earlier now r f rule ∧
          (whole.1.log.map (·.recordId)).count r.id = 1) := by
  intro earlier now whole
  have hfresh : ¬ Skipped program schema prior before r := by
    rintro (hprior | ⟨q, hq, hid, hm⟩)
    · rw [unmarked] at hprior
      cases hprior
    · exact first q hq hid hm
  have hcontinues : Continues now whole := by
    have h := continues_run program schema prior (before ++ [r]) rest
    rwa [List.append_assoc] at h
  refine ⟨hcontinues, fun hnone => ?_, fun hm => ?_⟩
  · cases fate program schema prior before r with
    | leftOut hskipped _ => exact absurd hskipped hfresh
    | kept _ _ h => exact h
    | routed _ w _ => exact absurd w.matched hnone
  · cases fate program schema prior before r with
    | leftOut hskipped _ => exact absurd hskipped hfresh
    | kept _ hnone _ => exact absurd hm hnone
    | @routed i f rule _ w h =>
      refine ⟨i, f, rule, w, h, ?_⟩
      have hlogged : r.id ∈ whole.1.log.map (·.recordId) :=
        (hcontinues.log.map _).subset h.logged
      exact List.count_eq_one_of_mem (accounted_run program schema prior _).distinct hlogged

/-- Two folders of one name and one priority, both with a rule for the letter `a`. -/
def twins : Program where
  folders := [
    ⟨"A", 1, [⟨.contains "body" (.one "z"), [.notify]⟩,
      ⟨.contains "body" (.one "a"), [.moveTo "X", .moveTo "Y", .markRead]⟩]⟩,
    ⟨"A", 1, [⟨.contains "body" (.one "a"), [.moveTo "Z"]⟩]⟩]

def letter (id body : String) : Record := (Record.new id).set "body" (.string body)

/-- An earlier record of the identifier that did not match does not stand in the way. -/
theorem run_routes_twins :
    Matched twins default (letter "m" "a") ∧ ¬ Matched twins default (letter "m" "b") ∧
      ∃ i f rule, Wins (·.eval default (letter "m" "a")) twins.folders i f rule ∧
        Routed (twins.run default .empty [letter "m" "b"])
          (twins.run default .empty [letter "m" "b", letter "m" "a"]) (letter "m" "a") f rule ∧
        ((twins.run default .empty [letter "m" "b", letter "m" "a", letter "m" "a"]).1.log.map
          (·.recordId)).count "m" = 1 := by
  have hmatched : Matched twins default (letter "m" "a") := by decide
  have hearlier : ¬ Matched twins default (letter "m" "b") := by decide
  refine ⟨hmatched, hearlier, ?_⟩
  have h := run_routes twins default .empty [letter "m" "b"] (letter "m" "a") [letter "m" "a"] rfl
    fun q hq _ => List.mem_singleton.1 hq ▸ hearlier
  exact h.2.2 hmatched

end MailRules.Routing
