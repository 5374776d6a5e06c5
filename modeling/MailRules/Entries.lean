/-!
Lists of keys with values, read by the first entry of a key. Where the last entry is to count, the
list is reversed.
-/

namespace MailRules

variable {α : Type}

theorem lookup_entry_cons (k key : String) (v : α) (rest : List (String × α)) :
    ((key, v) :: rest).lookup k = if k = key then some v else rest.lookup k := by
  rw [List.lookup_cons]
  by_cases h : k = key
  · simp [h]
  · rw [if_neg h, beq_eq_false_iff_ne.2 h]

theorem lookup_reverse_eq_none_iff {k : String} {entries : List (String × α)} :
    entries.reverse.lookup k = none ↔ k ∉ entries.map Prod.fst := by
  rw [List.lookup_eq_none_iff]
  simp only [List.mem_reverse, bne_iff_ne, List.mem_map, not_exists, not_and]
  exact ⟨fun h e he hk => h e he hk.symm, fun h e he hk => h e he hk.symm⟩

/-- What the reversed list reads stands in the last entry of the key. -/
theorem split_of_lookup_reverse {k : String} {v : α} {entries : List (String × α)}
    (h : entries.reverse.lookup k = some v) :
    ∃ before after, entries = before ++ (k, v) :: after ∧ k ∉ after.map Prod.fst := by
  obtain ⟨after, before, hentries, hlater⟩ := List.lookup_eq_some_iff.1 h
  refine ⟨before.reverse, after.reverse, ?_, ?_⟩
  · rw [← List.reverse_reverse entries, hentries]
    simp
  · rw [← lookup_reverse_eq_none_iff, List.reverse_reverse]
    exact List.lookup_eq_none_iff.2 hlater

end MailRules
