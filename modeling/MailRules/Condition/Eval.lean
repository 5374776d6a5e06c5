import MailRules.Condition.Basic
import MailRules.Schema
import MailRules.Text.Lower
import MailRules.Text.Search

/-!
Truth of conditions. A predicate holds when one of its texts occurs in the field's text, both in
lower case. Nothing fails: a field without text reads as the empty text.
-/

namespace MailRules

/-- Whether the text holds one of the needles, apart from case. -/
def containsAny (text : String) (needles : List String) : Bool :=
  let folded := Text.lower text.toList
  needles.any fun needle => Text.occursIn (Text.lower needle.toList) folded

namespace Condition

/-- The truth of a condition where `read` gives the text of each field. -/
def holds (read : String → String) : Condition → Bool
  | contains field pattern => containsAny (read field) pattern.needles
  | isIn field needles => containsAny (read field) needles
  | and a b => a.holds read && b.holds read
  | or a b => a.holds read || b.holds read
  | not a => !a.holds read

/-- The truth of a condition on a record, whose fields are read through a schema. -/
def eval (c : Condition) (schema : Schema) (r : Record) : Bool := c.holds (schema.read r)

end Condition

end MailRules
