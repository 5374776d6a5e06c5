import MailRules.Json.Basic
import MailRules.SortedMap

/-!
The identifiers of records that a rule has routed already. Records whose identifier is among them
are skipped by later runs.
-/

namespace MailRules

structure Processed where
  marks : SortedMap Unit
  deriving DecidableEq

namespace Processed

protected def empty : Processed := ⟨.empty⟩

/-- The identifiers in ascending order. -/
def ids (p : Processed) : List String := p.marks.keys

def contains (p : Processed) (id : String) : Bool := (p.marks.get? id).isSome

def insert (p : Processed) (id : String) : Processed := ⟨p.marks.insert id ()⟩

theorem contains_insert (p : Processed) (id x : String) :
    (p.insert id).contains x = (decide (x = id) || p.contains x) := by
  unfold contains insert
  rw [SortedMap.get?_insert]
  by_cases h : x = id <;> simp [h]

def insertAll (p : Processed) (ids : List String) : Processed := ids.foldl insert p

def ofList (ids : List String) : Processed := Processed.empty.insertAll ids

theorem contains_insertAll (x : String) : ∀ (ids : List String) (p : Processed),
    (p.insertAll ids).contains x = true ↔ x ∈ ids ∨ p.contains x = true
  | [], p => by simp [insertAll]
  | id :: ids, p => by
    have ih := contains_insertAll x ids (p.insert id)
    rw [contains_insert, Bool.or_eq_true, decide_eq_true_iff] at ih
    rw [List.mem_cons, or_assoc, or_left_comm, ← ih]
    rfl

theorem mem_ids_iff {p : Processed} {x : String} : x ∈ p.ids ↔ p.contains x = true :=
  SortedMap.mem_keys_iff

/-- The processed identifiers are a set: only membership tells two of them apart. -/
theorem ext_contains {p q : Processed} (h : ∀ x, p.contains x = true ↔ q.contains x = true) :
    p = q := by
  have hmarks : p.marks = q.marks := by
    refine SortedMap.ext_get? fun k => ?_
    have hk := h k
    unfold contains at hk
    cases hp : p.marks.get? k <;> cases hq : q.marks.get? k <;> simp_all
  cases p
  cases q
  exact congrArg Processed.mk hmarks

/-- Taken one by one, in whatever order, the identifiers make up the set again. -/
theorem ofList_eq {p : Processed} {ids : List String} (h : ∀ x, x ∈ ids ↔ p.contains x = true) :
    ofList ids = p := by
  refine ext_contains fun x => ?_
  rw [ofList, contains_insertAll, h, or_iff_left]
  exact Bool.false_ne_true

def size (p : Processed) : Nat := p.ids.length

theorem size_insert {p : Processed} {id : String} (h : p.contains id = false) :
    (p.insert id).size = p.size + 1 :=
  SortedMap.length_keys_insert (Option.not_isSome_iff_eq_none.1 (Bool.eq_false_iff.1 h))

def isEmpty (p : Processed) : Bool := p.ids.isEmpty

/-! ### JSON -/

def toJson (p : Processed) : Json := Json.ofTexts p.ids

def ofJson? (j : Json) : Option Processed := j.texts?.map ofList

end Processed

end MailRules
