import MailRules.Entries

/-!
Finite maps from texts, kept in ascending order of their keys without repetition. The order is part
of the type, so two maps are equal exactly when they have the same entries, whatever the history of
insertions. Texts are ordered by code points.
-/

namespace MailRules

/-- A map from texts as its entries in ascending order of keys. -/
structure SortedMap (α : Type) where
  entries : List (String × α)
  ascending : entries.Pairwise (fun a b => a.1 < b.1) := by decide
  deriving DecidableEq

namespace SortedMap

variable {α : Type}

/-- Puts an entry in its place, where it takes the place of an entry of the same key. -/
def insertEntry (key : String) (value : α) : List (String × α) → List (String × α)
  | [] => [(key, value)]
  | (k, v) :: rest =>
    if key < k then (key, value) :: (k, v) :: rest
    else if key = k then (key, value) :: rest
    else (k, v) :: insertEntry key value rest

theorem mem_insertEntry {key : String} {value : α} {e : String × α} :
    ∀ {l : List (String × α)}, e ∈ insertEntry key value l → e = (key, value) ∨ e ∈ l
  | [], h => by simpa [insertEntry] using h
  | (k, v) :: rest, h => by
    unfold insertEntry at h
    split at h
    · simpa using h
    · split at h
      · rcases List.mem_cons.1 h with h | h
        · exact .inl h
        · exact .inr (List.mem_cons_of_mem _ h)
      · rcases List.mem_cons.1 h with h | h
        · exact .inr (h ▸ List.mem_cons_self)
        · exact (mem_insertEntry h).imp_right (List.mem_cons_of_mem _)

theorem ascending_insertEntry (key : String) (value : α) :
    ∀ {l : List (String × α)}, l.Pairwise (fun a b => a.1 < b.1) →
      (insertEntry key value l).Pairwise (fun a b => a.1 < b.1)
  | [], _ => by simp [insertEntry]
  | (k, v) :: rest, h => by
    have hk := List.pairwise_cons.1 h
    unfold insertEntry
    split
    · next hlt =>
      refine List.pairwise_cons.2 ⟨fun e he => ?_, h⟩
      rcases List.mem_cons.1 he with rfl | he
      · exact hlt
      · exact String.lt_trans hlt (hk.1 e he)
    · next hlt =>
      split
      · next heq => exact List.pairwise_cons.2 ⟨fun e he => heq ▸ hk.1 e he, hk.2⟩
      · next hne =>
        refine List.pairwise_cons.2 ⟨fun e he => ?_, ascending_insertEntry key value hk.2⟩
        rcases mem_insertEntry he with rfl | he
        · exact Decidable.byContradiction fun hge =>
            hne (String.le_antisymm (String.not_lt.1 hge) (String.not_lt.1 hlt))
        · exact hk.1 e he

/-- Insertion changes what one key reads, and nothing else. -/
theorem lookup_insertEntry (key : String) (value : α) (k : String) : ∀ l : List (String × α),
    (insertEntry key value l).lookup k = if k = key then some value else l.lookup k
  | [] => by rw [insertEntry, lookup_entry_cons]
  | (k', v) :: rest => by
    unfold insertEntry
    split
    · rw [lookup_entry_cons]
    · split
      · next heq =>
        rw [lookup_entry_cons, lookup_entry_cons, heq]
        by_cases hk : k = k' <;> simp [hk]
      · next hne =>
        rw [lookup_entry_cons, lookup_entry_cons, lookup_insertEntry key value k rest]
        by_cases hk : k = k'
        · have hkey : ¬ k' = key := fun h => hne h.symm
          simp [hk, hkey]
        · simp [hk]

/-- A new key makes the list longer by one. -/
theorem length_insertEntry {key : String} {value : α} : ∀ {l : List (String × α)},
    l.lookup key = none → (insertEntry key value l).length = l.length + 1
  | [], _ => rfl
  | (k, v) :: rest, h => by
    rw [lookup_entry_cons] at h
    have hne : ¬ key = k := fun heq => by simp [heq] at h
    rw [if_neg hne] at h
    unfold insertEntry
    split
    · rfl
    · rw [List.length_cons, length_insertEntry h, List.length_cons]

/-- A key behind all others goes last. -/
theorem insertEntry_of_gt {key : String} {value : α} : ∀ {l : List (String × α)},
    (∀ e ∈ l, e.1 < key) → insertEntry key value l = l ++ [(key, value)]
  | [], _ => rfl
  | (k, v) :: rest, h => by
    obtain ⟨hk, hrest⟩ := List.forall_mem_cons.1 h
    have hlt : ¬ key < k := fun hlt => String.lt_irrefl k (String.lt_trans hk hlt)
    have hne : ¬ key = k := fun heq => String.lt_irrefl k (heq ▸ hk)
    rw [insertEntry, if_neg hlt, if_neg hne, insertEntry_of_gt hrest, List.cons_append]

/-- A key in front of all others is not there. -/
theorem lookup_eq_none_of_lt {k : String} {l : List (String × α)} (h : ∀ e ∈ l, k < e.1) :
    l.lookup k = none := by
  refine List.lookup_eq_none_iff.2 fun e he => bne_iff_ne.2 ?_
  rintro rfl
  exact String.lt_irrefl _ (h e he)

/-- Ascending entries are known by what they read. The first keys agree, since the smaller of two
would read nothing in the other list. -/
theorem eq_of_lookup_eq : ∀ {l m : List (String × α)}, l.Pairwise (fun a b => a.1 < b.1) →
    m.Pairwise (fun a b => a.1 < b.1) → (∀ k, l.lookup k = m.lookup k) → l = m
  | [], [], _, _, _ => rfl
  | [], (k, _) :: _, _, _, h => by simpa [lookup_entry_cons] using h k
  | (k, _) :: _, [], _, _, h => by simpa [lookup_entry_cons] using h k
  | (k, v) :: l, (j, w) :: m, hl, hm, h => by
    have hl := List.pairwise_cons.1 hl
    have hm := List.pairwise_cons.1 hm
    have hkj : ¬ k < j := by
      intro hlt
      have hnone := lookup_eq_none_of_lt (l := (j, w) :: m) (k := k)
        (List.forall_mem_cons.2 ⟨hlt, fun e he => String.lt_trans hlt (hm.1 e he)⟩)
      simp [← h] at hnone
    have hjk : ¬ j < k := by
      intro hlt
      have hnone := lookup_eq_none_of_lt (l := (k, v) :: l) (k := j)
        (List.forall_mem_cons.2 ⟨hlt, fun e he => String.lt_trans hlt (hl.1 e he)⟩)
      simp [h] at hnone
    obtain rfl : k = j := String.le_antisymm (String.not_lt.1 hjk) (String.not_lt.1 hkj)
    have hvalue : v = w := by simpa [lookup_entry_cons] using h k
    have hrest : ∀ x, l.lookup x = m.lookup x := by
      intro x
      by_cases hx : x = k
      · rw [hx, lookup_eq_none_of_lt hl.1, lookup_eq_none_of_lt hm.1]
      · simpa [lookup_entry_cons, hx] using h x
    rw [hvalue, eq_of_lookup_eq hl.2 hm.2 hrest]

protected def empty : SortedMap α := ⟨[], List.Pairwise.nil⟩

def insert (m : SortedMap α) (key : String) (value : α) : SortedMap α :=
  ⟨insertEntry key value m.entries, ascending_insertEntry key value m.ascending⟩

def get? (m : SortedMap α) (key : String) : Option α := m.entries.lookup key

@[simp]
theorem get?_empty (k : String) : (SortedMap.empty : SortedMap α).get? k = none := rfl

theorem get?_insert (m : SortedMap α) (key : String) (value : α) (k : String) :
    (m.insert key value).get? k = if k = key then some value else m.get? k :=
  lookup_insertEntry key value k m.entries

/-- A map is known by what it reads. -/
theorem ext_get? {m n : SortedMap α} (h : ∀ k, m.get? k = n.get? k) : m = n := by
  cases m with | mk l hl =>
  cases n with | mk l' hl' =>
  cases eq_of_lookup_eq hl hl' h
  rfl

def keys (m : SortedMap α) : List String := m.entries.map Prod.fst

theorem mem_keys_iff {m : SortedMap α} {k : String} : k ∈ m.keys ↔ (m.get? k).isSome = true := by
  rw [Option.isSome_iff_ne_none, Ne, get?, List.lookup_eq_none_iff]
  simp [keys]

theorem length_keys_insert {m : SortedMap α} {key : String} {value : α}
    (h : m.get? key = none) : (m.insert key value).keys.length = m.keys.length + 1 := by
  rw [keys, keys, List.length_map, List.length_map]
  exact length_insertEntry h

/-- Inserts the entries in order, so that of a repeated key the last one counts. -/
def insertAll (m : SortedMap α) (entries : List (String × α)) : SortedMap α :=
  entries.foldl (fun m e => m.insert e.1 e.2) m

theorem entries_insertAll : ∀ {es : List (String × α)} {m : SortedMap α},
    (m.entries ++ es).Pairwise (fun a b => a.1 < b.1) → (m.insertAll es).entries = m.entries ++ es
  | [], m, _ => by simp [insertAll]
  | (key, value) :: es, m, h => by
    have hlast : (m.insert key value).entries = m.entries ++ [(key, value)] :=
      insertEntry_of_gt fun e he => (List.pairwise_append.1 h).2.2 e he _ List.mem_cons_self
    have hmore : ((m.insert key value).entries ++ es).Pairwise (fun a b => a.1 < b.1) := by
      rwa [hlast, List.append_assoc]
    exact (entries_insertAll hmore).trans (by rw [hlast, List.append_assoc]; rfl)

theorem mem_entries_insertAll {e : String × α} : ∀ {es : List (String × α)} {m : SortedMap α},
    e ∈ (m.insertAll es).entries → e ∈ es ∨ e ∈ m.entries
  | [], _, h => .inr h
  | (key, value) :: es, m, h => by
    have ih : e ∈ es ∨ e ∈ (m.insert key value).entries := mem_entries_insertAll h
    rcases ih with hes | hm
    · exact .inl (List.mem_cons_of_mem _ hes)
    · rcases mem_insertEntry hm with rfl | h
      · exact .inl List.mem_cons_self
      · exact .inr h

theorem insertAll_append (m : SortedMap α) (es fs : List (String × α)) :
    m.insertAll (es ++ fs) = (m.insertAll es).insertAll fs := List.foldl_append

/-- Of the entries inserted for a key, the last one counts. -/
theorem get?_insertAll (k : String) : ∀ (es : List (String × α)) (m : SortedMap α),
    (m.insertAll es).get? k = (es.reverse.lookup k).or (m.get? k)
  | [], _ => rfl
  | (key, value) :: es, m => by
    have ih : ((m.insert key value).insertAll es).get? k =
        (es.reverse.lookup k).or ((m.insert key value).get? k) := get?_insertAll k es _
    rw [get?_insert] at ih
    rw [List.reverse_cons, List.lookup_append, lookup_entry_cons, List.lookup_nil, Option.or_assoc]
    refine ih.trans (congrArg _ ?_)
    by_cases hk : k = key <;> simp [hk]

/-- Only the inserted keys and the old ones read something. -/
theorem get?_insertAll_eq_none_iff {k : String} {es : List (String × α)} {m : SortedMap α} :
    (m.insertAll es).get? k = none ↔ k ∉ es.map Prod.fst ∧ m.get? k = none := by
  rw [get?_insertAll, Option.or_eq_none_iff, lookup_reverse_eq_none_iff]

/-- A map is made of its entries. -/
theorem insertAll_empty (m : SortedMap α) : SortedMap.empty.insertAll m.entries = m := by
  have hentries : (SortedMap.empty.insertAll m.entries).entries = m.entries :=
    entries_insertAll (m := .empty) m.ascending
  exact ext_get? fun k => congrArg (·.lookup k) hentries

/-- No key comes twice, so either end may be searched first. -/
theorem lookup_reverse_entries (m : SortedMap α) (k : String) :
    m.entries.reverse.lookup k = m.get? k := by
  have hread := get?_insertAll k m.entries .empty
  rwa [insertAll_empty, get?_empty, Option.or_none, eq_comm] at hread

end SortedMap

end MailRules
