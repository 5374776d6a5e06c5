import MailRules.SortedMap
import MailRules.Value

/-!
Records: an identifier and an open set of named properties. The property name `id` always reads as
the identifier, even where a property of that name is set.
-/

namespace MailRules

structure Record where
  id : String
  properties : SortedMap Value
  deriving DecidableEq

namespace Record

/-- A record without properties. -/
def new (id : String) : Record := ⟨id, .empty⟩

/-- Sets a property, in place of its earlier value. -/
def set (r : Record) (property : String) (value : Value) : Record :=
  { r with properties := r.properties.insert property value }

def get? (r : Record) (property : String) : Option Value := r.properties.get? property

/-- The text of a property, if it has one. -/
def text? (r : Record) (property : String) : Option String :=
  if property = "id" then some r.id else (r.get? property).bind Value.text?

/-! ### JSON

A record is one flat object: the member `id` and a member for each property. -/

def toJson (r : Record) : Json :=
  .object (Json.field "id" (.str r.id) :: r.properties.entries.map fun e => Json.field e.1 e.2.toJson)

/-- One member more: `id` may come only once, a repeated property takes its last value. -/
def readMember? : Option String × SortedMap Value → Option String × Json →
    Option (Option String × SortedMap Value)
  | (id, properties), (some name, j) =>
    if name = "id" then
      match id, j.text? with
      | none, some text => some (some text, properties)
      | _, _ => none
    else (Value.ofJson? j).map fun v => (id, properties.insert name v)
  | _, (none, _) => none

def ofJson? (j : Json) : Option Record := do
  let members ← j.members?
  match ← members.foldlM readMember? (none, .empty) with
  | (some id, properties) => some ⟨id, properties⟩
  | (none, _) => none

end Record

end MailRules
