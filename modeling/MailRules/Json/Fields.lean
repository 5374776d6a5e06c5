import MailRules.Json.Basic

/-!
JSON values with a fixed set of fields. They are read from an object that has each field once, in
any order and with members of other names ignored, or from an array of the field values in order.
-/

namespace MailRules.Json

/-- The values of the members with the given name. -/
def valuesOf (name : String) (members : List (Option String × Json)) : List Json :=
  members.filterMap fun m => if m.1 = some name then some m.2 else none

/-- The only value of a member. -/
def valueOf? (members : List (Option String × Json)) (name : String) : Option Json :=
  match valuesOf name members with
  | [j] => some j
  | _ => none

/-- The values of the named fields, in the order of the names. -/
def fields? (names : List String) : Json → Option (List Json)
  | .object members =>
    if members.any (·.1.isNone) then none else names.mapM (valueOf? members)
  | .array items => if items.length = names.length then some items else none
  | _ => none

end MailRules.Json
