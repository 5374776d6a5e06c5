import MailRules.Text.Ranges

/-!
White space is the Unicode property `White_Space`. It is what separates words in rule text and what
trimming removes; the zero-width space U+200B and the byte order mark U+FEFF are not part of it.
-/

namespace MailRules.Text

/-- The code points with the property `White_Space`, in ascending order. -/
def blankTable : List Range :=
  [⟨0x9, 0xD⟩, ⟨0x20, 0x20⟩, ⟨0x85, 0x85⟩, ⟨0xA0, 0xA0⟩, ⟨0x1680, 0x1680⟩, ⟨0x2000, 0x200A⟩,
   ⟨0x2028, 0x2029⟩, ⟨0x202F, 0x202F⟩, ⟨0x205F, 0x205F⟩, ⟨0x3000, 0x3000⟩]

def isBlank (c : Char) : Bool := listed blankTable c

/-- The text without the white space at its two ends. -/
def trim (s : List Char) : List Char :=
  ((s.dropWhile isBlank).reverse.dropWhile isBlank).reverse

end MailRules.Text
