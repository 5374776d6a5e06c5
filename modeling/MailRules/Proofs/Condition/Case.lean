import MailRules.Condition.Eval
import MailRules.Proofs.Text.Case

/-!
Conditions and the ASCII case of letters. Neither the case of what a condition looks for nor that of
the texts in a record decides anything. Names do count: fields, properties and the identifier are the
same on both sides.

    subject contains "ΑΣ.x"    on    [ΑΣ.X]      true
    subject contains "ΑΣ.X"    on    [ΑΣ.x]      true
    subject contains "ΑΣ.x"    on    [ας.X]      false: the text ends a word where it was not asked for
-/

namespace MailRules

/-! ### Other case -/

/-- The same pattern, but for the case of ASCII letters in what it looks for. -/
inductive Pattern.Recased : Pattern → Pattern → Prop
  | one {needle needle' : String} : Text.Recased needle needle' → Recased (.one needle) (.one needle')
  | any {needles needles' : List String} : List.Forall₂ Text.Recased needles needles' →
      Recased (.any needles) (.any needles')

/-- The same condition, but for the case of ASCII letters in what it looks for. -/
inductive Condition.Recased : Condition → Condition → Prop
  | contains {field : String} {pattern pattern' : Pattern} : pattern.Recased pattern' →
      Recased (.contains field pattern) (.contains field pattern')
  | isIn {field : String} {needles needles' : List String} :
      List.Forall₂ Text.Recased needles needles' → Recased (.isIn field needles) (.isIn field needles')
  | and {a a' b b' : Condition} : Recased a a' → Recased b b' → Recased (a.and b) (a'.and b')
  | or {a a' b b' : Condition} : Recased a a' → Recased b b' → Recased (a.or b) (a'.or b')
  | not {a a' : Condition} : Recased a a' → Recased a.not a'.not

inductive Value.Recased : Value → Value → Prop
  | string {s s' : String} : Text.Recased s s' → Recased (.string s) (.string s')
  | same {v : Value} : Recased v v

/-- The same record, but for the case of ASCII letters in the texts of its properties. -/
structure Record.Recased (r r' : Record) : Prop where
  id : r'.id = r.id
  values : ∀ property, Option.Rel Value.Recased (r.get? property) (r'.get? property)

theorem Record.recased_new (id : String) : Record.Recased (.new id) (.new id) :=
  ⟨rfl, fun _ => .none⟩

theorem Record.Recased.set {r r' : Record} {v v' : Value} (h : r.Recased r') (hv : v.Recased v')
    (property : String) : (r.set property v).Recased (r'.set property v') := by
  refine ⟨h.id, fun p => ?_⟩
  simp only [Record.get?, Record.set, SortedMap.get?_insert]
  split
  · exact .some hv
  · exact h.values p

/-! ### What is read -/

theorem Value.Recased.text? {v v' : Value} (h : v.Recased v') :
    Option.Rel Text.Recased v.text? v'.text? := by
  cases h with
  | string hs => exact .some hs
  | same =>
    cases v with
    | string s => exact .some (.refl s)
    | bool | int | float => exact .none

/-- A property that is missing or no text is so in both records, and reads as the empty text. -/
theorem Record.Recased.text? {r r' : Record} (h : r.Recased r') (property : String) :
    Option.Rel Text.Recased (r.text? property) (r'.text? property) := by
  unfold Record.text?
  split
  · rw [h.id]
    exact .some (.refl r.id)
  · have hvalue := h.values property
    generalize r.get? property = v, r'.get? property = v' at hvalue ⊢
    cases hvalue with
    | none => exact .none
    | some hv => exact hv.text?

theorem Record.Recased.read {r r' : Record} (h : r.Recased r') (schema : Schema) (field : String) :
    Text.Recased (schema.read r field) (schema.read r' field) := by
  have htext := h.text? (schema.resolve field)
  unfold Schema.read Schema.text?
  generalize r.text? (schema.resolve field) = s, r'.text? (schema.resolve field) = s' at htext ⊢
  cases htext with
  | none => exact .refl ""
  | some hs => exact hs

/-! ### What is decided -/

theorem containsAny_recased {text text' : String} {needles needles' : List String}
    (ht : Text.Recased text text') (hn : List.Forall₂ Text.Recased needles needles') :
    containsAny text needles = containsAny text' needles' := by
  induction hn with
  | nil => rfl
  | cons hneedle _ ih =>
    unfold containsAny at ih ⊢
    rw [List.any_cons, List.any_cons, ht.lower_eq, hneedle.lower_eq]
    rw [ht.lower_eq] at ih
    rw [ih]

namespace Condition

theorem Recased.holds_eq {c c' : Condition} (h : c.Recased c') {read read' : String → String}
    (hread : ∀ field, Text.Recased (read field) (read' field)) : c'.holds read' = c.holds read := by
  induction h with
  | @contains field _ _ hpattern =>
    cases hpattern with
    | one hneedle => exact (containsAny_recased (hread field) (.cons hneedle .nil)).symm
    | any hneedles => exact (containsAny_recased (hread field) hneedles).symm
  | @isIn field _ _ hneedles => exact (containsAny_recased (hread field) hneedles).symm
  | and _ _ iha ihb => rw [holds, holds, iha, ihb]
  | or _ _ iha ihb => rw [holds, holds, iha, ihb]
  | not _ ih => rw [holds, holds, ih]

/-- ASCII case never matters. A condition with other case in what it looks for is true of a record with
other case in its texts exactly where the condition itself is true of the record itself, whatever other
characters stand around the letters. -/
theorem eval_recased (c c' : Condition) (schema : Schema) (r r' : Record) (literals : c.Recased c')
    (texts : r.Recased r') : c'.eval schema r' = c.eval schema r :=
  literals.holds_eq (texts.read schema)

/-- The letter behind the dot makes the sigma one inside a word, in either case. -/
theorem eval_recased_sigma :
    let c := Condition.and (.contains "subject" (.one "ΑΣ.x")) (.not (.isIn "subject" ["ς"]))
    let c' := Condition.and (.contains "subject" (.one "ΑΣ.X")) (.not (.isIn "subject" ["ς"]))
    let r := (Record.new "m1").set "subject" (.string "[ΑΣ.X]")
    let r' := (Record.new "m1").set "subject" (.string "[ΑΣ.x]")
    c ≠ c' ∧ r ≠ r' ∧ c.Recased c' ∧ r.Recased r' ∧ c'.eval .default r' = true := by
  intro c c' r r'
  have hneedle : Text.Recased "ΑΣ.x" "ΑΣ.X" := by decide
  have htext : Text.Recased "[ΑΣ.X]" "[ΑΣ.x]" := by decide
  have hc : c.Recased c' := .and (.contains (.one hneedle)) (.not (.isIn (.cons (.refl "ς") .nil)))
  have hr : r.Recased r' := (Record.recased_new "m1").set (.string htext) "subject"
  have heval : c.eval .default r = true := by decide +kernel
  exact ⟨by decide, by decide, hc, hr, (eval_recased c c' .default r r' hc hr).trans heval⟩

end Condition

end MailRules
