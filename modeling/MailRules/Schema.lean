import MailRules.Record

/-!
Schemas say which record property a field of the rule language reads. A field without an entry reads
the property of its own name. Every schema starts from the defaults, and entries are only added or
replaced.
-/

namespace MailRules

/-- The entries every schema starts from. -/
def defaultEntries : List (String × String) :=
  [("sender", "from"), ("subject", "subject"), ("body", "body")]

structure Schema where
  properties : SortedMap String
  complete : ∀ e ∈ defaultEntries, (properties.get? e.1).isSome = true
  deriving DecidableEq

namespace Schema

protected def default : Schema := ⟨SortedMap.empty.insertAll defaultEntries, by decide⟩

instance : Inhabited Schema := ⟨Schema.default⟩

/-- Adds an entry, in place of an earlier one for the field. -/
def insert (s : Schema) (field property : String) : Schema where
  properties := s.properties.insert field property
  complete e he := by
    rw [SortedMap.get?_insert]
    split
    · rfl
    · exact s.complete e he

/-- The default schema with further entries applied in order. -/
def ofEntries (entries : List (String × String)) : Schema :=
  entries.foldl (fun s e => s.insert e.1 e.2) Schema.default

theorem eq_of_properties {s t : Schema} (h : s.properties = t.properties) : s = t := by
  cases s
  cases t
  cases h
  rfl

/-- The defaults are entries too, the first ones to be given. -/
theorem properties_ofEntries (entries : List (String × String)) :
    (ofEntries entries).properties = SortedMap.empty.insertAll (defaultEntries ++ entries) := by
  have hinsert : ∀ s : Schema, (entries.foldl (fun s e => s.insert e.1 e.2) s).properties =
      s.properties.insertAll entries := by
    induction entries with
    | nil => exact fun _ => rfl
    | cons e entries ih => exact fun s => ih (s.insert e.1 e.2)
  rw [SortedMap.insertAll_append]
  exact hinsert Schema.default

/-- The property that a field reads. -/
def resolve (s : Schema) (field : String) : String := (s.properties.get? field).getD field

/-- The text of a field in a record, if the property it reads has one. -/
def text? (s : Schema) (r : Record) (field : String) : Option String := r.text? (s.resolve field)

/-- The text that predicates on a field search. -/
def read (s : Schema) (r : Record) (field : String) : String := (s.text? r field).getD ""

/-! ### Plain maps and JSON

A schema is written as the map of all its entries. Reading merges a map over the defaults. -/

def toMap (s : Schema) : SortedMap String := s.properties

def ofMap (m : SortedMap String) : Schema := ofEntries m.entries

def toJson (s : Schema) : Json :=
  .object (s.properties.entries.map fun e => Json.field e.1 (.str e.2))

def readMember? (m : SortedMap String) : Option String × Json → Option (SortedMap String)
  | (some name, j) => j.text?.map (m.insert name)
  | (none, _) => none

def ofJson? (j : Json) : Option Schema := do
  let members ← j.members?
  return ofMap (← members.foldlM readMember? .empty)

end Schema

end MailRules
