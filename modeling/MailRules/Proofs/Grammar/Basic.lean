import MailRules.Parser.Program

/-!
The grammar of rule programs, as relations between token lists and what they write.

    Program := Folder*
    Folder  := FOLDER name (PRIORITY integer)? (WHEN Or THEN Action (AND Action)*)+
    Or      := And (OR And)*
    And     := Not (AND Not)*
    Not     := NOT Not | '(' Or ')' | field CONTAINS texts | field IN texts
    texts   := string | '[' string (',' string)* ']'

A relation holds of exactly the tokens that a phrase takes up, so phrases are put together with
`++`. The relations know nothing of how tokens are read: positions play no part, and the end of the
input is no token of any phrase. Conditions are derived under limits on their nesting, which are a
parameter.
-/

namespace MailRules.Grammar

/-! ### Repetition -/

section
variable {α : Type}

/-- `R*`: phrases of `R`, one behind the other. -/
inductive Many (R : List Token → α → Prop) : List Token → List α → Prop
  | nil : Many R [] []
  | cons {ts us : List Token} {a : α} {as : List α} :
      R ts a → Many R us as → Many R (ts ++ us) (a :: as)

/-- `R (separator R)*`: one or more phrases of `R`. -/
inductive Separated (separator : Token.Kind) (R : List Token → α → Prop) :
    List Token → List α → Prop
  | one {ts : List Token} {a : α} : R ts a → Separated separator R ts [a]
  | more {ts us : List Token} {o : Token} {a : α} {as : List α} :
      R ts a → o.kind = separator → Separated separator R us as →
      Separated separator R (ts ++ o :: us) (a :: as)

variable {R : List Token → α → Prop} {separator : Token.Kind}

theorem Many.snoc {ts us : List Token} {a : α} {as : List α} (h : Many R ts as) (ha : R us a) :
    Many R (ts ++ us) (as ++ [a]) := by
  induction h with
  | nil => simpa using Many.cons ha .nil
  | cons hb _ ih => rw [List.append_assoc]; exact .cons hb ih

/-- Each phrase of a repetition stands among its tokens. -/
theorem Many.exists_of_mem {ts : List Token} {as : List α} (h : Many R ts as) :
    ∀ a ∈ as, ∃ us, us ⊆ ts ∧ R us a := by
  induction h with
  | nil => exact fun a ha => absurd ha List.not_mem_nil
  | @cons ts us a as hr _ ih =>
    intro b hb
    rcases List.mem_cons.1 hb with rfl | hb
    · exact ⟨ts, List.subset_append_left ts us, hr⟩
    · obtain ⟨vs, hvs, hr'⟩ := ih b hb
      exact ⟨vs, List.Subset.trans hvs (List.subset_append_right ts us), hr'⟩

theorem Separated.snoc {ts us : List Token} {o : Token} {a : α} {as : List α}
    (h : Separated separator R ts as) (ho : o.kind = separator) (ha : R us a) :
    Separated separator R (ts ++ o :: us) (as ++ [a]) := by
  induction h with
  | one hb => exact .more hb ho (.one ha)
  | more hb ho' _ ih => rw [List.append_assoc, List.cons_append]; exact .more hb ho' ih

theorem Separated.ne_nil {ts : List Token} {as : List α} (h : Separated separator R ts as) :
    as ≠ [] := by
  cases h <;> exact List.cons_ne_nil _ _

theorem Separated.exists_of_mem {ts : List Token} {as : List α} (h : Separated separator R ts as) :
    ∀ a ∈ as, ∃ us, us ⊆ ts ∧ R us a := by
  induction h with
  | @one ts a hr => exact List.forall_mem_singleton.2 ⟨ts, List.Subset.refl ts, hr⟩
  | @more ts us o a as hr _ _ ih =>
    refine List.forall_mem_cons.2 ⟨⟨ts, List.subset_append_left ts _, hr⟩, fun b hb => ?_⟩
    obtain ⟨vs, hvs, hr'⟩ := ih b hb
    exact ⟨vs, fun t ht => List.mem_append_right ts (List.mem_cons_of_mem o (hvs ht)), hr'⟩

end

/-! ### Words and texts -/

/-- A name: an identifier or a string. -/
def IsName (t : Token) (name : String) : Prop :=
  (t.kind = .identifier ∨ t.kind = .string) ∧ t.spelling = name

/-- A field: any word but NOT. Keywords count in ASCII lower case, identifiers as they are written.
-/
inductive IsField (t : Token) : String → Prop
  | keyword {k : Keyword} : t.kind = .keyword k → k ≠ .not →
      IsField t (String.ofList (t.spelling.toList.map Char.toLower))
  | identifier : t.kind = .identifier → IsField t t.spelling

/-- A string on its own. -/
inductive Text : List Token → String → Prop
  | mk {t : Token} : t.kind = .string → Text [t] t.spelling

/-- A list of strings in brackets. -/
inductive TextList : List Token → List String → Prop
  | mk {o c : Token} {ts : List Token} {texts : List String} :
      o.kind = .symbol .leftBracket → Separated (.symbol .comma) Text ts texts →
      c.kind = .symbol .rightBracket → TextList (o :: (ts ++ [c])) texts

/-- An integer as written: an optional sign and one or more ASCII digits. -/
inductive Integer : List Char → Int → Prop
  | unsigned {digits : List Char} : digits ≠ [] → (∀ c ∈ digits, '0' ≤ c ∧ c ≤ '9') →
      Integer digits (Nat.ofDigitChars 10 digits 0)
  | plus {digits : List Char} : digits ≠ [] → (∀ c ∈ digits, '0' ≤ c ∧ c ≤ '9') →
      Integer ('+' :: digits) (Nat.ofDigitChars 10 digits 0)
  | minus {digits : List Char} : digits ≠ [] → (∀ c ∈ digits, '0' ≤ c ∧ c ≤ '9') →
      Integer ('-' :: digits) (-(Nat.ofDigitChars 10 digits 0 : Int))

/-! ### Conditions -/

/-- What bounds the nesting of conditions: whether a group or a NOT may open inside so many others,
and whether AND or OR may build a condition. -/
structure Limits where
  opens : Nat → Prop
  joins : Condition → Prop

/-- Fewer than `maxNesting` groups and negations around each, and no join higher than `maxNesting`.
Negations are not measured on the way up. -/
def Limits.standard : Limits := ⟨(· < maxNesting), (·.height ≤ maxNesting)⟩

/-- A predicate: a field with one text or with a list. -/
inductive Predicate : List Token → Condition → Prop
  | contains {f k s : Token} {field text : String} : IsField f field → k.kind = .keyword .contains →
      Text [s] text → Predicate [f, k, s] (.contains field (.one text))
  | containsList {f k : Token} {ts : List Token} {field : String} {texts : List String} :
      IsField f field → k.kind = .keyword .contains → TextList ts texts →
      Predicate (f :: k :: ts) (.contains field (.any texts))
  | isIn {f k s : Token} {field text : String} : IsField f field → k.kind = .keyword .inWord →
      Text [s] text → Predicate [f, k, s] (.isIn field [text])
  | isInList {f k : Token} {ts : List Token} {field : String} {texts : List String} :
      IsField f field → k.kind = .keyword .inWord → TextList ts texts →
      Predicate (f :: k :: ts) (.isIn field texts)

/-- The three layers of conditions, from the loosest to the tightest. -/
inductive Layer where | or | and | not
  deriving DecidableEq

/-- `Derives lim layer depth ts c`: inside `depth` groups and negations, `ts` is a phrase of the
layer that writes `c`. The rules for AND and OR take their left side from their own layer, so both
associate to the left. -/
inductive Derives (lim : Limits) : Layer → Nat → List Token → Condition → Prop
  | orOfAnd {d : Nat} {ts : List Token} {c : Condition} :
      Derives lim .and d ts c → Derives lim .or d ts c
  | or {d : Nat} {ts us : List Token} {o : Token} {a b : Condition} :
      Derives lim .or d ts a → o.kind = .keyword .or → Derives lim .and d us b →
      lim.joins (a.or b) → Derives lim .or d (ts ++ o :: us) (a.or b)
  | andOfNot {d : Nat} {ts : List Token} {c : Condition} :
      Derives lim .not d ts c → Derives lim .and d ts c
  | and {d : Nat} {ts us : List Token} {o : Token} {a b : Condition} :
      Derives lim .and d ts a → o.kind = .keyword .and → Derives lim .not d us b →
      lim.joins (a.and b) → Derives lim .and d (ts ++ o :: us) (a.and b)
  | not {d : Nat} {ts : List Token} {o : Token} {a : Condition} :
      lim.opens d → o.kind = .keyword .not → Derives lim .not (d + 1) ts a →
      Derives lim .not d (o :: ts) a.not
  | group {d : Nat} {ts : List Token} {o c : Token} {a : Condition} :
      lim.opens d → o.kind = .symbol .leftParen → Derives lim .or (d + 1) ts a →
      c.kind = .symbol .rightParen → Derives lim .not d (o :: (ts ++ [c])) a
  | predicate {d : Nat} {ts : List Token} {a : Condition} :
      Predicate ts a → Derives lim .not d ts a

/-! ### Programs -/

inductive ActionOf : List Token → Action → Prop
  | moveTo {a b t : Token} {name : String} : a.kind = .keyword .move → b.kind = .keyword .toWord →
      IsName t name → ActionOf [a, b, t] (.moveTo name)
  | removeFrom {a b t : Token} {name : String} : a.kind = .keyword .remove →
      b.kind = .keyword .fromWord → IsName t name → ActionOf [a, b, t] (.removeFrom name)
  | markRead {a b c : Token} : a.kind = .keyword .mark → b.kind = .keyword .asWord →
      c.kind = .keyword .read → ActionOf [a, b, c] .markRead
  | markUnread {a b c : Token} : a.kind = .keyword .mark → b.kind = .keyword .asWord →
      c.kind = .keyword .unread → ActionOf [a, b, c] .markUnread
  | notify {a : Token} : a.kind = .keyword .notify → ActionOf [a] .notify
  | call {a : Token} : a.kind = .keyword .call → ActionOf [a] .call
  | remind {a : Token} : a.kind = .keyword .remind → ActionOf [a] .remind
  | auto {a : Token} : a.kind = .keyword .auto → ActionOf [a] .auto

inductive RuleOf (lim : Limits) : List Token → Rule → Prop
  | mk {w t : Token} {ts us : List Token} {c : Condition} {actions : List Action} :
      w.kind = .keyword .when → Derives lim .or 0 ts c → t.kind = .keyword .thenWord →
      Separated (.keyword .and) ActionOf us actions → RuleOf lim (w :: (ts ++ t :: us)) ⟨c, actions⟩

/-- The priority of a folder: an integer of 64 bits, or nothing, which stands for zero. -/
inductive PriorityOf : List Token → Int64 → Prop
  | none : PriorityOf [] 0
  | some {p n : Token} {priority : Int64} : p.kind = .keyword .priority → n.kind = .identifier →
      Integer n.spelling.toList priority.toInt → PriorityOf [p, n] priority

/-- What stands in front of a folder's rules. -/
inductive HeaderOf : List Token → String → Int64 → Prop
  | mk {f n : Token} {ts : List Token} {name : String} {priority : Int64} :
      f.kind = .keyword .folder → IsName n name → PriorityOf ts priority →
      HeaderOf (f :: n :: ts) name priority

inductive FolderOf (lim : Limits) : List Token → Folder → Prop
  | mk {ts us : List Token} {name : String} {priority : Int64} {rules : List Rule} :
      HeaderOf ts name priority → Many (RuleOf lim) us rules → rules ≠ [] →
      FolderOf lim (ts ++ us) ⟨name, priority, rules⟩

/-- Each rule of a folder stands among its tokens. -/
theorem FolderOf.exists_of_rule {lim : Limits} {ts : List Token} {f : Folder}
    (h : FolderOf lim ts f) : ∀ r ∈ f.rules, ∃ us, us ⊆ ts ∧ RuleOf lim us r := by
  obtain ⟨-, hrules, -⟩ := h
  intro r hr
  obtain ⟨us, hus, hrule⟩ := hrules.exists_of_mem r hr
  exact ⟨us, fun t ht => List.mem_append_right _ (hus ht), hrule⟩

theorem FolderOf.derives {lim : Limits} {ts : List Token} {f : Folder} (h : FolderOf lim ts f) :
    ∀ r ∈ f.rules, ∃ us, us ⊆ ts ∧ Derives lim .or 0 us r.condition := by
  intro r hr
  obtain ⟨us, hus, hrule⟩ := h.exists_of_rule r hr
  cases hrule with
  | mk _ hc _ _ => exact ⟨_, fun t ht => hus (by simp [ht]), hc⟩

def ProgramOf (lim : Limits) (ts : List Token) (p : Program) : Prop :=
  Many (FolderOf lim) ts p.folders

end MailRules.Grammar
