import Mathlib.Data.List.Forall2
import MailRules.Proofs.Routing.Run

/-!
Programs with other conditions in the same places. Folders and actions stay as they are, and so does
every run if each condition is true of the same records as the one in its place.

    folder A priority 2                   folder A priority 2
      when not not c then move to X         when c then move to X
-/

namespace MailRules

section
variable (R : Condition → Condition → Prop)

/-- The same actions under a condition that is related. -/
structure Rule.Rewritten (rule rule' : Rule) : Prop where
  condition : R rule.condition rule'.condition
  actions : rule'.actions = rule.actions

/-- The same folder, but for the conditions of its rules. -/
structure Folder.Rewritten (f f' : Folder) : Prop where
  name : f'.name = f.name
  priority : f'.priority = f.priority
  rules : List.Forall₂ (Rule.Rewritten R) f.rules f'.rules

/-- The same program, but for its conditions, which are related place by place. -/
def Program.Rewritten (p p' : Program) : Prop :=
  List.Forall₂ (Folder.Rewritten R) p.folders p'.folders

end

namespace Routing

variable {R : Condition → Condition → Prop}

/-! ### The priority order -/

theorem rewritten_placeFolder {f f' : Folder} (hf : f.Rewritten R f') {order order' : List Folder}
    (h : List.Forall₂ (Folder.Rewritten R) order order') :
    List.Forall₂ (Folder.Rewritten R) (Program.placeFolder f order)
      (Program.placeFolder f' order') := by
  induction h with
  | nil => exact .cons hf .nil
  | cons hg hrest ih =>
    unfold Program.placeFolder
    rw [hf.priority, hg.priority]
    split
    · exact .cons hf (.cons hg hrest)
    · exact .cons hg ih

theorem rewritten_foldr {folders folders' : List Folder}
    (h : List.Forall₂ (Folder.Rewritten R) folders folders') :
    List.Forall₂ (Folder.Rewritten R) (folders.foldr Program.placeFolder [])
      (folders'.foldr Program.placeFolder []) := by
  induction h with
  | nil => exact .nil
  | cons hf _ ih => exact rewritten_placeFolder hf ih

theorem names_rewritten {folders folders' : List Folder}
    (h : List.Forall₂ (Folder.Rewritten R) folders folders') :
    folders'.map (·.name) = folders.map (·.name) := by
  induction h with
  | nil => rfl
  | cons hf _ ih => rw [List.map_cons, List.map_cons, hf.name, ih]

theorem ruleCount_rewritten {p p' : Program} (h : p.Rewritten R p') :
    p'.ruleCount = p.ruleCount := by
  unfold Program.Rewritten at h
  unfold Program.ruleCount
  generalize p.folders = folders, p'.folders = folders' at h ⊢
  induction h with
  | nil => rfl
  | cons hf _ ih =>
    simp only [List.flatMap_cons, List.length_append] at ih ⊢
    rw [hf.rules.length_eq, ih]

/-! ### Verdicts -/

/-- Verdicts that show the same of a record. The winning rules may differ in their conditions, and
their folders in the conditions of rules. -/
inductive SameShow : Verdict → Verdict → Prop
  | skipped : SameShow .skipped .skipped
  | unmatched : SameShow .unmatched .unmatched
  | matched {f f' : Folder} {rule rule' : Rule} : f'.name = f.name → rule'.actions = rule.actions →
      SameShow (.matched f rule) (.matched f' rule')

section
variable {holds holds' : Condition → Bool} (hR : ∀ c c', R c c' → holds' c' = holds c)
include hR

theorem rewritten_find? {rules rules' : List Rule}
    (h : List.Forall₂ (Rule.Rewritten R) rules rules') :
    Option.Rel (Rule.Rewritten R) (rules.find? fun rule => holds rule.condition)
      (rules'.find? fun rule => holds' rule.condition) := by
  induction h with
  | nil => exact .none
  | @cons rule rule' _ _ hrule _ ih =>
    rw [List.find?_cons, List.find?_cons, hR _ _ hrule.condition]
    cases holds rule.condition with
    | true => exact .some hrule
    | false => exact ih

theorem rewritten_firstMatch {order order' : List Folder}
    (h : List.Forall₂ (Folder.Rewritten R) order order') :
    Option.Rel (fun m m' => m.1.Rewritten R m'.1 ∧ m.2.Rewritten R m'.2)
      (firstMatch order holds) (firstMatch order' holds') := by
  induction h with
  | nil => exact .none
  | @cons f f' _ _ hf _ ih =>
    have hfind := rewritten_find? hR hf.rules
    unfold firstMatch at ih ⊢
    rw [List.findSome?_cons, List.findSome?_cons]
    generalize f.rules.find? (fun rule => holds rule.condition) = x,
      f'.rules.find? (fun rule => holds' rule.condition) = x' at hfind ⊢
    cases hfind with
    | none => exact ih
    | some hrule => exact .some ⟨hf, hrule⟩

end

variable {schema schema' : Schema}

theorem sameShow_judge (hR : ∀ c c', R c c' → ∀ r, c'.eval schema' r = c.eval schema r)
    {order order' : List Folder}
    (h : List.Forall₂ (Folder.Rewritten R) order order') (marks : Processed) (r : Record) :
    SameShow (judge order schema marks r) (judge order' schema' marks r) := by
  have hmatch := rewritten_firstMatch (fun c c' hc => hR c c' hc r) h
  unfold judge
  split
  · exact .skipped
  · generalize firstMatch order (·.eval schema r) = x, firstMatch order' (·.eval schema' r) = x'
      at hmatch ⊢
    cases hmatch with
    | none => exact .unmatched
    | some hm => exact .matched hm.1.name hm.2.actions

/-! ### Runs -/

theorem run_nil_rewritten {p p' : Program} (h : p.Rewritten R p') (prior : Processed) :
    p'.run schema' prior [] = p.run schema prior [] := by
  have hnames := names_rewritten (rewritten_foldr h)
  have hbuckets : Report.initialBuckets p'.priorityOrder = Report.initialBuckets p.priorityOrder :=
    congrArg (fun names => names.foldl Buckets.declare (Buckets.declare .empty inbox)) hnames
  simp only [Program.run, route, Report.ofOutcomes, hbuckets, ruleCount_rewritten h]

theorem withOutcome_of_sameShow {v v' : Verdict} (h : SameShow v v') (report : Report) (r : Record) :
    withOutcome report ⟨r, v'⟩ = withOutcome report ⟨r, v⟩ := by
  cases h with
  | skipped | unmatched => rfl
  | matched hname hactions =>
    simp only [withOutcome, Report.deliverOutcome, Outcome.bucket?, Outcome.logEntry?,
      Outcome.isSkipped, Rule.destination?, hname, hactions, reduceCtorEq]

theorem after_of_sameShow {v v' : Verdict} (h : SameShow v v') (marks : Processed) (r : Record) :
    marks.after r v' = marks.after r v := by
  cases h <;> rfl

/-- Conditions that are true of the same records make the same run. -/
theorem run_rewritten (hR : ∀ c c', R c c' → ∀ r, c'.eval schema' r = c.eval schema r)
    {p p' : Program} (h : p.Rewritten R p') (prior : Processed) (records : List Record) :
    p'.run schema' prior records = p.run schema prior records := by
  induction records using List.reverseRecOn with
  | nil => exact run_nil_rewritten h prior
  | append_singleton before r ih =>
    have hverdict := sameShow_judge hR (rewritten_foldr h) (p.run schema prior before).2 r
    rw [run_snoc, run_snoc, ih]
    exact Prod.ext (withOutcome_of_sameShow hverdict _ r) (after_of_sameShow hverdict _ r)

end Routing
end MailRules
