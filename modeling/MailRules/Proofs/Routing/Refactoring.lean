import Mathlib.Data.List.Dedup
import MailRules.Proofs.Routing.Rewriting

/-!
Rules refactored by the laws of logic. The laws may be used on any part of a condition, in either
direction and any number of times, and a run never shows it. No law asks for a list that is not
empty: a predicate without texts is false, and one with the empty text among them is true.

    NOT (subject in ["a", "b"] AND sender contains "x")
    NOT sender contains ["x"] OR NOT (subject contains "b" OR subject contains "a")
-/

namespace MailRules

/-! ### Lists of texts -/

theorem containsAny_append (text : String) (xs ys : List String) :
    containsAny text (xs ++ ys) = (containsAny text xs || containsAny text ys) := List.any_append

/-- Neither the order of the texts counts nor how often they come. -/
theorem containsAny_of_mem_iff (text : String) {xs ys : List String} (h : ∀ n, n ∈ xs ↔ n ∈ ys) :
    containsAny text xs = containsAny text ys := by
  rw [Bool.eq_iff_iff, containsAny, containsAny, List.any_eq_true, List.any_eq_true]
  exact exists_congr fun n => and_congr_left' (h n)

/-! ### Laws -/

namespace Condition

/-- The laws of logic, and those of texts in a list. -/
inductive Law : Condition → Condition → Prop
  | notNot (a : Condition) : Law a.not.not a
  | notAnd (a b : Condition) : Law (a.and b).not (a.not.or b.not)
  | notOr (a b : Condition) : Law (a.or b).not (a.not.and b.not)
  | andComm (a b : Condition) : Law (a.and b) (b.and a)
  | orComm (a b : Condition) : Law (a.or b) (b.or a)
  | andAssoc (a b c : Condition) : Law ((a.and b).and c) (a.and (b.and c))
  | orAssoc (a b c : Condition) : Law ((a.or b).or c) (a.or (b.or c))
  | andSelf (a : Condition) : Law (a.and a) a
  | orSelf (a : Condition) : Law (a.or a) a
  | andOr (a b c : Condition) : Law (a.and (b.or c)) ((a.and b).or (a.and c))
  | orAnd (a b c : Condition) : Law (a.or (b.and c)) ((a.or b).and (a.or c))
  | isIn (field : String) (needles : List String) :
      Law (.isIn field needles) (.contains field (.any needles))
  | one (field needle : String) : Law (.contains field (.one needle)) (.contains field (.any [needle]))
  | append (field : String) (xs ys : List String) :
      Law (.contains field (.any (xs ++ ys)))
        ((contains field (.any xs)).or (.contains field (.any ys)))
  | perm (field : String) {xs ys : List String} : xs.Perm ys →
      Law (.contains field (.any xs)) (.contains field (.any ys))
  | dedup (field : String) (needles : List String) :
      Law (.contains field (.any needles)) (.contains field (.any needles.dedup))

/-- The least congruence that the laws generate. -/
inductive Congruent : Condition → Condition → Prop
  | law {a b : Condition} : Law a b → Congruent a b
  | refl (a : Condition) : Congruent a a
  | symm {a b : Condition} : Congruent a b → Congruent b a
  | trans {a b c : Condition} : Congruent a b → Congruent b c → Congruent a c
  | and {a a' b b' : Condition} : Congruent a a' → Congruent b b' → Congruent (a.and b) (a'.and b')
  | or {a a' b b' : Condition} : Congruent a a' → Congruent b b' → Congruent (a.or b) (a'.or b')
  | not {a a' : Condition} : Congruent a a' → Congruent a.not a'.not

/-- Lists of the same texts are congruent: each of them is one without repetition, in another order. -/
theorem congruent_of_mem_iff (field : String) {xs ys : List String} (h : ∀ n, n ∈ xs ↔ n ∈ ys) :
    Congruent (.contains field (.any xs)) (.contains field (.any ys)) := by
  have hperm : xs.dedup.Perm ys.dedup := by
    refine (List.perm_ext_iff_of_nodup xs.nodup_dedup ys.nodup_dedup).2 fun n => ?_
    rw [List.mem_dedup, List.mem_dedup, h n]
  refine .trans (.law (.dedup field xs)) (.trans (.law (.perm field hperm)) ?_)
  exact .symm (.law (.dedup field ys))

theorem Law.holds_eq {a b : Condition} (h : Law a b) (read : String → String) :
    a.holds read = b.holds read := by
  cases h with
  | notNot a => exact Bool.not_not _
  | notAnd a b => exact Bool.not_and _ _
  | notOr a b => exact Bool.not_or _ _
  | andComm a b => exact Bool.and_comm _ _
  | orComm a b => exact Bool.or_comm _ _
  | andAssoc a b c => exact Bool.and_assoc _ _ _
  | orAssoc a b c => exact Bool.or_assoc _ _ _
  | andSelf a => exact Bool.and_self _
  | orSelf a => exact Bool.or_self _
  | andOr a b c => exact Bool.and_or_distrib_left _ _ _
  | orAnd a b c => exact Bool.or_and_distrib_left _ _ _
  | isIn field needles => rfl
  | one field needle => rfl
  | append field xs ys => exact containsAny_append (read field) xs ys
  | perm field hperm => exact containsAny_of_mem_iff (read field) fun _ => hperm.mem_iff
  | dedup field needles =>
    exact containsAny_of_mem_iff (read field) fun _ => List.mem_dedup.symm

theorem Congruent.holds_eq {a b : Condition} (h : Congruent a b) (read : String → String) :
    a.holds read = b.holds read := by
  induction h with
  | law hlaw => exact hlaw.holds_eq read
  | refl a => rfl
  | symm _ ih => exact ih.symm
  | trans _ _ ihab ihbc => exact ihab.trans ihbc
  | and _ _ iha ihb => rw [holds, holds, iha, ihb]
  | or _ _ iha ihb => rw [holds, holds, iha, ihb]
  | not _ ih => rw [holds, holds, ih]

end Condition

/-! ### Runs -/

namespace Routing

/-- Refactoring the conditions of a program never changes a run, as long as its folders and actions
stay the same. -/
theorem run_refactored (p q : Program) (refactored : p.Rewritten Condition.Congruent q)
    (schema : Schema) (prior : Processed) (records : List Record) :
    p.run schema prior records = q.run schema prior records := by
  refine (run_rewritten ?_ refactored prior records).symm
  intro c c' hc r
  exact (hc.holds_eq (schema.read r)).symm

/-- A rule on two lists, and one whose list has the empty text twice. -/
def tangled : Program where
  folders := [⟨"A", 2, [
    ⟨.not (.and (.isIn "subject" ["a", "b"]) (.contains "sender" (.one "x"))), [.moveTo "X"]⟩,
    ⟨.contains "body" (.any ["", "z", ""]), [.markRead]⟩]⟩]

/-- The same without the conjunction, the repeated text and the predicate `IN`. -/
def untangled : Program where
  folders := [⟨"A", 2, [
    ⟨.or (.not (.contains "sender" (.any ["x"])))
      (.not (.or (.contains "subject" (.any ["b"])) (.contains "subject" (.any ["a"])))),
      [.moveTo "X"]⟩,
    ⟨.contains "body" (.any ["z", ""]), [.markRead]⟩]⟩]

theorem run_refactored_untangled :
    let records := [((Record.new "m").set "from" (.string "X")).set "subject" (.string "ab"),
      (Record.new "n").set "subject" (.string "a")]
    tangled.Rewritten Condition.Congruent untangled ∧
      tangled.run default .empty records = untangled.run default .empty records ∧
      (tangled.run default .empty records).1.log =
        [⟨"m", "A", ["mark as read"]⟩, ⟨"n", "A", ["move to X"]⟩] := by
  intro records
  have hsubject : Condition.Congruent (.isIn "subject" ["a", "b"])
      (.or (.contains "subject" (.any ["b"])) (.contains "subject" (.any ["a"]))) :=
    .trans (.law (.isIn "subject" ["a", "b"]))
      (.trans (.law (.append "subject" ["a"] ["b"])) (.law (.orComm _ _)))
  have hfirst : Condition.Congruent
      (.not (.and (.isIn "subject" ["a", "b"]) (.contains "sender" (.one "x"))))
      (.or (.not (.contains "sender" (.any ["x"])))
        (.not (.or (.contains "subject" (.any ["b"])) (.contains "subject" (.any ["a"]))))) :=
    .trans (.law (.notAnd _ _))
      (.trans (.law (.orComm _ _)) (.or (.not (.law (.one "sender" "x"))) (.not hsubject)))
  have hsecond : Condition.Congruent (.contains "body" (.any ["", "z", ""]))
      (.contains "body" (.any ["z", ""])) :=
    Condition.congruent_of_mem_iff "body" (by simp [or_comm])
  have hprograms : tangled.Rewritten Condition.Congruent untangled :=
    .cons ⟨rfl, rfl, .cons ⟨hfirst, rfl⟩ (.cons ⟨hsecond, rfl⟩ .nil)⟩ .nil
  exact ⟨hprograms, run_refactored tangled untangled hprograms default .empty records,
    by decide +kernel⟩

end Routing
end MailRules
