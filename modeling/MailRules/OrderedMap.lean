import MailRules.Entries

/-!
Finite maps from texts in the order in which their keys first came up. A key keeps its place when
its value changes.
-/

namespace MailRules

/-- A map from texts as its entries in the order of first mention. -/
structure OrderedMap (α : Type) where
  entries : List (String × α)
  distinct : (entries.map Prod.fst).Nodup := by decide
  deriving DecidableEq

namespace OrderedMap

variable {α : Type}

/-- Applies `f` to the value of the key, or to nothing at the end if the key is new. -/
def alterEntry (key : String) (f : Option α → α) : List (String × α) → List (String × α)
  | [] => [(key, f none)]
  | (k, v) :: rest => if key = k then (k, f (some v)) :: rest else (k, v) :: alterEntry key f rest

/-- Only a new key changes the keys, and it goes last. -/
theorem keys_alterEntry (key : String) (f : Option α → α) : ∀ l : List (String × α),
    (alterEntry key f l).map Prod.fst =
      if key ∈ l.map Prod.fst then l.map Prod.fst else l.map Prod.fst ++ [key]
  | [] => by simp [alterEntry]
  | (k, v) :: rest => by
    unfold alterEntry
    by_cases h : key = k
    · simp [h]
    · have ih := keys_alterEntry key f rest
      by_cases hm : key ∈ rest.map Prod.fst
      · simp only [hm, if_true] at ih
        simp [h, ih, List.mem_map.1 hm]
      · simp only [hm, if_false] at ih
        have hn : ¬ key ∈ ((k, v) :: rest).map Prod.fst := by
          simpa [h] using hm
        rw [if_neg hn, if_neg h]
        simp [ih]

/-- A new key goes last with its value. -/
theorem alterEntry_of_new {key : String} {f : Option α → α} : ∀ {l : List (String × α)},
    key ∉ l.map Prod.fst → alterEntry key f l = l ++ [(key, f none)]
  | [], _ => rfl
  | (k, v) :: rest, h => by
    obtain ⟨hk, hrest⟩ := List.ne_and_not_mem_of_not_mem_cons h
    rw [alterEntry, if_neg hk, alterEntry_of_new hrest, List.cons_append]

theorem distinct_alterEntry (key : String) (f : Option α → α) {l : List (String × α)}
    (h : (l.map Prod.fst).Nodup) : ((alterEntry key f l).map Prod.fst).Nodup := by
  rw [keys_alterEntry]
  split
  · exact h
  · next hm =>
    refine List.nodup_append.2 ⟨h, by simp, ?_⟩
    intro a ha b hb hab
    rw [List.mem_singleton.1 hb] at hab
    exact hm (hab ▸ ha)

/-- Altering changes what one key reads, and nothing else. -/
theorem lookup_alterEntry (key : String) (f : Option α → α) (k : String) : ∀ l : List (String × α),
    (alterEntry key f l).lookup k = if k = key then some (f (l.lookup key)) else l.lookup k
  | [] => by simp [alterEntry, lookup_entry_cons]
  | (k', v) :: rest => by
    unfold alterEntry
    by_cases h : key = k'
    · rw [if_pos h, lookup_entry_cons, lookup_entry_cons, lookup_entry_cons, h]
      by_cases hk : k = k' <;> simp [hk]
    · rw [if_neg h, lookup_entry_cons, lookup_alterEntry key f k rest, lookup_entry_cons,
        lookup_entry_cons, if_neg h]
      by_cases hk : k = k'
      · have hkey : ¬ k' = key := fun e => h e.symm
        simp [hk, hkey]
      · simp [hk]

protected def empty : OrderedMap α := ⟨[], List.nodup_nil⟩

def alter (m : OrderedMap α) (key : String) (f : Option α → α) : OrderedMap α :=
  ⟨alterEntry key f m.entries, distinct_alterEntry key f m.distinct⟩

/-- Sets the value of a key, in its old place if it has one. -/
def put (m : OrderedMap α) (key : String) (value : α) : OrderedMap α := m.alter key fun _ => value

def get? (m : OrderedMap α) (key : String) : Option α := m.entries.lookup key

def keys (m : OrderedMap α) : List String := m.entries.map Prod.fst

theorem eq_of_entries {m n : OrderedMap α} (h : m.entries = n.entries) : m = n := by
  cases m
  cases n
  cases h
  rfl

theorem get?_alter (m : OrderedMap α) (key : String) (f : Option α → α) (k : String) :
    (m.alter key f).get? k = if k = key then some (f (m.get? key)) else m.get? k :=
  lookup_alterEntry key f k m.entries

theorem keys_alter (m : OrderedMap α) (key : String) (f : Option α → α) :
    (m.alter key f).keys = if key ∈ m.keys then m.keys else m.keys ++ [key] :=
  keys_alterEntry key f m.entries

/-- Of the names mentioned, one that came up before adds nothing, and a new one goes last. -/
theorem eraseDups_concat (mentioned : List String) (key : String) :
    (mentioned ++ [key]).eraseDups =
      if key ∈ mentioned then mentioned.eraseDups else mentioned.eraseDups ++ [key] := by
  rw [List.eraseDups_append]
  by_cases hkey : key ∈ mentioned <;> simp [List.removeAll, hkey, List.eraseDups_cons]

/-- Keys in the order of first mention stay in it. -/
theorem keys_alter_of_mentioned {m : OrderedMap α} {mentioned : List String}
    (h : m.keys = mentioned.eraseDups) (key : String) (f : Option α → α) :
    (m.alter key f).keys = (mentioned ++ [key]).eraseDups := by
  simp only [keys_alter, h, List.mem_eraseDups, eraseDups_concat]

end OrderedMap

end MailRules
