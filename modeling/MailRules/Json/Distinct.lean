import MailRules.Json.Basic

/-!
JSON values in which an object has each name once. Where a name is repeated, the last value counts;
it takes the place of the first.
-/

namespace MailRules.Json

/-- Sets the value of a name, in its old place if it has one. -/
def putMember (name : Option String) (value : Json) :
    List (Option String × Json) → List (Option String × Json)
  | [] => [(name, value)]
  | (n, j) :: rest => if n = name then (n, value) :: rest else (n, j) :: putMember name value rest

mutual

/-- The value with every name of every object only once. -/
def distinct : Json → Json
  | .array items => .array (distinctItems items)
  | .object members => .object (distinctMembers [] members)
  | j => j

def distinctItems : List Json → List Json
  | [] => []
  | j :: rest => distinct j :: distinctItems rest

/-- The members after those that are already placed. -/
def distinctMembers : List (Option String × Json) → List (Option String × Json) →
    List (Option String × Json)
  | placed, [] => placed
  | placed, (name, j) :: rest => distinctMembers (putMember name (distinct j) placed) rest

end

end MailRules.Json
