/-!
Character classes given by tables: a class is a list of inclusive ranges of code points, the form
in which the Unicode character database states its properties.
-/

namespace MailRules.Text

/-- An inclusive range of code points. -/
structure Range where
  first : Nat
  last : Nat
  deriving DecidableEq, Repr

def Range.covers (r : Range) (c : Char) : Bool := r.first ≤ c.toNat && c.toNat ≤ r.last

/-- Whether some range of the table covers the character. -/
def listed (table : List Range) (c : Char) : Bool := table.any (·.covers c)

end MailRules.Text
