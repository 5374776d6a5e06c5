import MailRules.Proofs.Routing.Rewriting

/-!
Schemas as renamings. A field is looked up once, and what it is mapped to is a property, even where a
field of that name is mapped to another one. So a schema does what renaming the fields of a program
does under the schema that maps every field to itself.

    schema            sender: subject    subject: sender
    sender contains "a" AND subject contains "b"     under the schema
    subject contains "a" AND sender contains "b"     under the identity
-/

namespace MailRules

namespace Schema

/-- The defaults, each overridden by the property of its field's own name. -/
def identity : Schema :=
  ofEntries [("sender", "sender"), ("subject", "subject"), ("body", "body")]

/-- Of the properties that `identity` gives none has another name than its field. -/
theorem resolve_identity (field : String) : identity.resolve field = field := by
  have hown : ∀ e ∈ identity.properties.entries, e.2 = e.1 := by decide
  unfold resolve
  cases hread : identity.properties.get? field with
  | none => rfl
  | some property =>
    obtain ⟨before, after, hentries, -⟩ := List.lookup_eq_some_iff.1 hread
    exact hown (field, property) (hentries ▸ List.mem_append_right before List.mem_cons_self)

/-- Resolved once, a field reads its text without the schema. -/
theorem read_resolve (s : Schema) (r : Record) (field : String) :
    identity.read r (s.resolve field) = s.read r field := by
  rw [read, text?, resolve_identity]
  rfl

end Schema

/-! ### Renamed fields -/

namespace Condition

theorem holds_renameFields (f : String → String) (read : String → String) (c : Condition) :
    (c.renameFields f).holds read = c.holds fun field => read (f field) := by
  induction c with
  | contains | isIn => rfl
  | and a b iha ihb => rw [renameFields, holds, iha, ihb, holds]
  | or a b iha ihb => rw [renameFields, holds, iha, ihb, holds]
  | not a ih => rw [renameFields, holds, ih, holds]

/-- A condition reads the same texts under a schema as under the identity with its fields resolved. -/
theorem eval_renameFields (c : Condition) (schema : Schema) (r : Record) :
    (c.renameFields schema.resolve).eval .identity r = c.eval schema r := by
  rw [eval, holds_renameFields]
  exact congrArg (c.holds ·) (funext (schema.read_resolve r))

end Condition

def Rule.renameFields (f : String → String) (rule : Rule) : Rule :=
  { rule with condition := rule.condition.renameFields f }

def Folder.renameFields (f : String → String) (folder : Folder) : Folder :=
  { folder with rules := folder.rules.map (Rule.renameFields f) }

/-- The program with every field of its conditions replaced. -/
def Program.renameFields (f : String → String) (program : Program) : Program :=
  ⟨program.folders.map (Folder.renameFields f)⟩

namespace Routing

theorem rewritten_renameFields (f : String → String) (program : Program) :
    program.Rewritten (fun c c' => c' = c.renameFields f) (program.renameFields f) := by
  refine List.forall₂_map_right_iff.2 (List.forall₂_same.2 fun folder _ => ⟨rfl, rfl, ?_⟩)
  exact List.forall₂_map_right_iff.2 (List.forall₂_same.2 fun rule _ => ⟨rfl, rfl⟩)

/-- A schema is a renaming of fields. Conditions and whole runs are the same under it as under the
identity, if each field stands for what the schema resolves it to. -/
theorem run_renamed (schema : Schema) :
    (∀ (c : Condition) (r : Record),
      c.eval schema r = (c.renameFields schema.resolve).eval .identity r) ∧
    ∀ (program : Program) (prior : Processed) (records : List Record),
      program.run schema prior records =
        (program.renameFields schema.resolve).run .identity prior records := by
  refine ⟨fun c r => (c.eval_renameFields schema r).symm, fun program prior records => ?_⟩
  refine (run_rewritten ?_ (rewritten_renameFields schema.resolve program) prior records).symm
  rintro c _ rfl r
  exact c.eval_renameFields schema r

/-- Swapped fields, each looked up once. -/
example :
    let swap := Schema.ofEntries [("sender", "subject"), ("subject", "sender")]
    ((Condition.contains "sender" (.one "a")).and (.contains "subject" (.one "b"))).renameFields
        swap.resolve =
      (Condition.contains "subject" (.one "a")).and (.contains "sender" (.one "b")) := by decide

end Routing
end MailRules
