import MailRules.Text.CaseTable

/-!
Lower-casing of whole texts. Two rules go beyond replacing character by character: U+0130 (capital I
with dot) becomes two characters, and a capital sigma is written `ς` at the end of a word and `σ`
elsewhere. The end of a word is where a cased character precedes and none follows, looking past
case-ignorable characters on both sides.
-/

namespace MailRules.Text

def isCased (c : Char) : Bool := listed casedTable c

def isIgnorable (c : Char) : Bool := listed ignorableTable c

/-- The lower-case form of one character without its surroundings. -/
def lowerChar (c : Char) : List Char :=
  if c.toNat < 0x80 then [c.toLower]
  else if c = '\u0130' then ['i', '\u0307']
  else match lowerRuns.find? (·.covers c) with
    | some r => [r.lower c]
    | none => [c]

/-- Whether the first character that is not case-ignorable is cased. -/
def meetsCased (s : List Char) : Bool :=
  match s.dropWhile isIgnorable with
  | c :: _ => isCased c
  | [] => false

/-- Capital sigma between the text `before` it, nearest character first, and the text `after` it. -/
def lowerSigma (before after : List Char) : Char :=
  if meetsCased before && !meetsCased after then 'ς' else 'σ'

/-- Lower-cases a text that follows `before`, nearest character first. -/
def lowerAfter : List Char → List Char → List Char
  | _, [] => []
  | before, c :: rest =>
    (if c = 'Σ' then [lowerSigma before rest] else lowerChar c) ++ lowerAfter (c :: before) rest

def lower (s : List Char) : List Char := lowerAfter [] s

end MailRules.Text
