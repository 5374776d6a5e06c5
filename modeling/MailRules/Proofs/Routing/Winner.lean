import MailRules.Routing

/-!
The rule that wins a record. Among the folders with a rule that holds, the winner has the highest
priority, and of those the earliest place in the program; its first rule that holds wins.

The run finds the winner by looking through the folders in priority order and stopping at the first
rule that holds. Here the two are compared. The order is built by putting one folder after the other
in its place, so both sides are followed from the last declared folder to the first.
-/

namespace MailRules.Routing

variable (holds : Condition → Bool)

/-- Some rule of the folder holds. -/
def Matches (f : Folder) : Prop := ∃ rule ∈ f.rules, holds rule.condition = true

instance (f : Folder) : Decidable (Matches holds f) :=
  inferInstanceAs (Decidable (∃ rule ∈ f.rules, holds rule.condition = true))

/-- The rule holds, and none declared before it in the folder does. -/
def FirstRule (f : Folder) (rule : Rule) : Prop :=
  holds rule.condition = true ∧
    ∃ earlier later, f.rules = earlier ++ rule :: later ∧
      ∀ e ∈ earlier, holds e.condition = false

/-- This rule of the folder declared at place `i` wins. Places tell folders of one name apart. -/
structure Wins (folders : List Folder) (i : Nat) (f : Folder) (rule : Rule) : Prop where
  declared : folders[i]? = some f
  first : FirstRule holds f rule
  best : ∀ j g, folders[j]? = some g → Matches holds g → j ≠ i →
    g.priority < f.priority ∨ g.priority = f.priority ∧ i < j

variable {holds}

theorem FirstRule.matches {f : Folder} {rule : Rule} (h : FirstRule holds f rule) :
    Matches holds f := by
  obtain ⟨htrue, earlier, later, hrules, -⟩ := h
  exact ⟨rule, by simp [hrules], htrue⟩

theorem find?_rules_eq_some_iff {f : Folder} {rule : Rule} :
    f.rules.find? (fun r => holds r.condition) = some rule ↔ FirstRule holds f rule := by
  simp [List.find?_eq_some_iff_append, FirstRule]

theorem Matches.exists_firstRule {f : Folder} (h : Matches holds f) :
    ∃ rule, FirstRule holds f rule := by
  obtain ⟨rule, hmem, htrue⟩ := h
  have hfound : (f.rules.find? fun r => holds r.condition).isSome :=
    List.find?_isSome.2 ⟨rule, hmem, htrue⟩
  obtain ⟨first, hfirst⟩ := Option.isSome_iff_exists.1 hfound
  exact ⟨first, find?_rules_eq_some_iff.1 hfirst⟩

/-! ### Looking through folders -/

theorem firstMatch_cons_of_first {f : Folder} {rule : Rule} (h : FirstRule holds f rule)
    (rest : List Folder) : firstMatch (f :: rest) holds = some (f, rule) := by
  rw [firstMatch, List.findSome?_cons, find?_rules_eq_some_iff.2 h]
  rfl

theorem firstMatch_cons_of_not_matches {f : Folder} (h : ¬ Matches holds f) (rest : List Folder) :
    firstMatch (f :: rest) holds = firstMatch rest holds := by
  have hnone : f.rules.find? (fun r => holds r.condition) = none := by
    rw [List.find?_eq_none]
    exact fun rule hmem htrue => h ⟨rule, hmem, htrue⟩
  rw [firstMatch, List.findSome?_cons, hnone]
  rfl

theorem firstMatch_eq_none : ∀ {order : List Folder}, (∀ f ∈ order, ¬ Matches holds f) →
    firstMatch order holds = none
  | [], _ => rfl
  | f :: order, h => by
    rw [firstMatch_cons_of_not_matches (h f List.mem_cons_self)]
    exact firstMatch_eq_none fun g hg => h g (List.mem_cons_of_mem f hg)

theorem mem_of_firstMatch {order : List Folder} {f : Folder} {rule : Rule}
    (h : firstMatch order holds = some (f, rule)) : f ∈ order := by
  obtain ⟨g, hg, hsome⟩ := List.exists_of_findSome?_eq_some h
  obtain ⟨_, _, heq⟩ := Option.map_eq_some_iff.1 hsome
  cases heq
  exact hg

/-! ### The priority order -/

/-- No folder stands behind one of lower priority. -/
def ByPriority (order : List Folder) : Prop := order.Pairwise fun f g => g.priority ≤ f.priority

theorem placeFolder_perm (f : Folder) : ∀ order, (Program.placeFolder f order).Perm (f :: order)
  | [] => .refl _
  | g :: rest => by
    unfold Program.placeFolder
    split
    · exact .refl _
    · exact ((placeFolder_perm f rest).cons g).trans (.swap f g rest)

theorem mem_placeFolder {f g : Folder} {order : List Folder} :
    g ∈ Program.placeFolder f order ↔ g = f ∨ g ∈ order := by
  rw [(placeFolder_perm f order).mem_iff, List.mem_cons]

theorem byPriority_placeFolder (f : Folder) : ∀ {order : List Folder}, ByPriority order →
    ByPriority (Program.placeFolder f order)
  | [], _ => List.pairwise_singleton _ f
  | g :: rest, h => by
    have hg := List.pairwise_cons.1 h
    unfold Program.placeFolder
    split
    · next hle =>
      refine List.pairwise_cons.2 ⟨fun x hx => ?_, h⟩
      rcases List.mem_cons.1 hx with rfl | hx
      · exact hle
      · exact Int64.le_trans (hg.1 x hx) hle
    · next hlt =>
      refine List.pairwise_cons.2 ⟨fun x hx => ?_, byPriority_placeFolder f hg.2⟩
      rcases mem_placeFolder.1 hx with rfl | hx
      · exact Int64.le_of_lt (Int64.not_le.1 hlt)
      · exact hg.1 x hx

theorem byPriority_foldr : ∀ folders : List Folder,
    ByPriority (folders.foldr Program.placeFolder [])
  | [] => List.Pairwise.nil
  | f :: rest => byPriority_placeFolder f (byPriority_foldr rest)

theorem foldr_placeFolder_perm : ∀ folders : List Folder,
    (folders.foldr Program.placeFolder []).Perm folders
  | [] => .refl _
  | f :: rest => (placeFolder_perm f _).trans ((foldr_placeFolder_perm rest).cons f)

theorem mem_foldr_placeFolder {f : Folder} {folders : List Folder} :
    f ∈ folders.foldr Program.placeFolder [] ↔ f ∈ folders :=
  (foldr_placeFolder_perm folders).mem_iff

/-! ### A folder more

What the search finds after one more folder is put in its place. -/

theorem firstMatch_placeFolder_of_not_matches {f : Folder} (h : ¬ Matches holds f) :
    ∀ order, firstMatch (Program.placeFolder f order) holds = firstMatch order holds
  | [] => firstMatch_cons_of_not_matches h []
  | g :: rest => by
    unfold Program.placeFolder
    split
    · exact firstMatch_cons_of_not_matches h _
    · by_cases hg : Matches holds g
      · obtain ⟨rule, hrule⟩ := hg.exists_firstRule
        rw [firstMatch_cons_of_first hrule, firstMatch_cons_of_first hrule]
      · rw [firstMatch_cons_of_not_matches hg, firstMatch_cons_of_not_matches hg]
        exact firstMatch_placeFolder_of_not_matches h rest

/-- The new folder comes before all others that match, if none of them has a higher priority. -/
theorem firstMatch_placeFolder_of_highest {f : Folder} {rule : Rule} (h : FirstRule holds f rule) :
    ∀ {order : List Folder}, (∀ g ∈ order, Matches holds g → g.priority ≤ f.priority) →
      firstMatch (Program.placeFolder f order) holds = some (f, rule)
  | [], _ => firstMatch_cons_of_first h []
  | g :: rest, hle => by
    unfold Program.placeFolder
    split
    · exact firstMatch_cons_of_first h _
    · next hlt =>
      have hg : ¬ Matches holds g := fun hm => hlt (hle g List.mem_cons_self hm)
      rw [firstMatch_cons_of_not_matches hg]
      exact firstMatch_placeFolder_of_highest h fun x hx => hle x (List.mem_cons_of_mem g hx)

/-- The winner so far stays in front of a new folder of lower priority. -/
theorem firstMatch_placeFolder_of_lower {f g : Folder} {rule : Rule}
    (hlt : f.priority < g.priority) : ∀ {order : List Folder}, ByPriority order →
      firstMatch order holds = some (g, rule) →
      firstMatch (Program.placeFolder f order) holds = some (g, rule)
  | h :: rest, hsorted, hwin => by
    obtain ⟨hhead, htail⟩ := List.pairwise_cons.1 hsorted
    have hgh : g.priority ≤ h.priority := by
      rcases List.mem_cons.1 (mem_of_firstMatch hwin) with rfl | hg
      · exact Int64.le_refl _
      · exact hhead g hg
    -- The winner stands in the list, so the head is above the new folder too and stays first.
    have hfh : ¬ h.priority ≤ f.priority := Int64.not_le.2 (Int64.lt_of_lt_of_le hlt hgh)
    rw [Program.placeFolder, if_neg hfh]
    by_cases hm : Matches holds h
    · obtain ⟨first, hfirst⟩ := hm.exists_firstRule
      rw [firstMatch_cons_of_first hfirst] at hwin ⊢
      exact hwin
    · rw [firstMatch_cons_of_not_matches hm] at hwin ⊢
      exact firstMatch_placeFolder_of_lower hlt htail hwin

/-! ### The winner -/

theorem Wins.tail {h f : Folder} {rest : List Folder} {i : Nat} {rule : Rule}
    (w : Wins holds (h :: rest) (i + 1) f rule) : Wins holds rest i f rule := by
  refine ⟨w.declared, w.first, fun j g hj hg hne => ?_⟩
  have hbest := w.best (j + 1) g hj hg (by omega)
  simpa using hbest

theorem Wins.priority_le {folders : List Folder} {i : Nat} {f g : Folder} {rule : Rule}
    (w : Wins holds folders i f rule) (hg : g ∈ folders) (hm : Matches holds g) :
    g.priority ≤ f.priority := by
  obtain ⟨j, hj⟩ := List.mem_iff_getElem?.1 hg
  by_cases hij : j = i
  · cases hij
    cases w.declared.symm.trans hj
    exact Int64.le_refl _
  · rcases w.best j g hj hm hij with hlt | ⟨heq, -⟩
    · exact Int64.le_of_lt hlt
    · exact Int64.le_of_eq heq

/-- The winner is what the search through the priority order finds. -/
theorem Wins.firstMatch_eq {rule : Rule} {f : Folder} : ∀ {folders : List Folder} {i : Nat},
    Wins holds folders i f rule →
      firstMatch (folders.foldr Program.placeFolder []) holds = some (f, rule)
  | h :: rest, 0, w => by
    cases w.declared
    refine firstMatch_placeFolder_of_highest w.first fun g hg hm => ?_
    exact w.priority_le (List.mem_cons_of_mem _ (mem_foldr_placeFolder.1 hg)) hm
  | h :: rest, i + 1, w => by
    have ih := w.tail.firstMatch_eq
    rw [List.foldr_cons]
    by_cases hm : Matches holds h
    · -- An earlier folder of the same priority would have won.
      have hlt : h.priority < f.priority := by
        rcases w.best 0 h rfl hm (by omega) with hlt | ⟨-, hplace⟩
        · exact hlt
        · omega
      exact firstMatch_placeFolder_of_lower hlt (byPriority_foldr rest) ih
    · rw [firstMatch_placeFolder_of_not_matches hm, ih]

theorem Wins.cons {h f : Folder} {rest : List Folder} {i : Nat} {rule : Rule}
    (w : Wins holds rest i f rule) (hlower : Matches holds h → h.priority < f.priority) :
    Wins holds (h :: rest) (i + 1) f rule := by
  refine ⟨w.declared, w.first, fun j g hj hg hne => ?_⟩
  cases j with
  | zero =>
    cases hj
    exact .inl (hlower hg)
  | succ j =>
    have hbest := w.best j g hj hg (by omega)
    simpa using hbest

theorem wins_head {h : Folder} {rest : List Folder} {rule : Rule} (hfirst : FirstRule holds h rule)
    (hle : ∀ g ∈ rest, Matches holds g → g.priority ≤ h.priority) :
    Wins holds (h :: rest) 0 h rule := by
  refine ⟨rfl, hfirst, fun j g hj hg hne => ?_⟩
  obtain ⟨k, rfl⟩ := Nat.exists_eq_succ_of_ne_zero hne
  rcases Int64.lt_or_eq_of_le (hle g (List.mem_of_getElem? hj) hg) with hlt | heq
  · exact .inl hlt
  · exact .inr ⟨heq, by omega⟩

/-- Where some folder matches, a rule wins. -/
theorem exists_wins : ∀ {folders : List Folder}, (∃ f ∈ folders, Matches holds f) →
    ∃ i f rule, Wins holds folders i f rule
  | h :: rest, hex => by
    by_cases hrest : ∃ f ∈ rest, Matches holds f
    · obtain ⟨i, f, rule, w⟩ := exists_wins hrest
      by_cases hm : Matches holds h
      · rcases Int64.lt_or_le h.priority f.priority with hlt | hle
        · exact ⟨i + 1, f, rule, w.cons fun _ => hlt⟩
        · obtain ⟨first, hfirst⟩ := hm.exists_firstRule
          refine ⟨0, h, first, wins_head hfirst fun g hg hgm => ?_⟩
          exact Int64.le_trans (w.priority_le hg hgm) hle
      · exact ⟨i + 1, f, rule, w.cons fun hm' => absurd hm' hm⟩
    · obtain ⟨f, hf, hm⟩ := hex
      rcases List.mem_cons.1 hf with rfl | hf
      · obtain ⟨first, hfirst⟩ := hm.exists_firstRule
        exact ⟨0, f, first, wins_head hfirst fun g hg hgm => absurd ⟨g, hg, hgm⟩ hrest⟩
      · exact absurd ⟨f, hf, hm⟩ hrest

/-- At most one rule of one folder wins. -/
theorem Wins.unique {folders : List Folder} {i j : Nat} {f g : Folder} {rule other : Rule}
    (w : Wins holds folders i f rule) (v : Wins holds folders j g other) :
    i = j ∧ f = g ∧ rule = other := by
  have hplace : i = j := by
    refine Decidable.byContradiction fun hne => ?_
    have hij := v.best i f w.declared w.first.matches hne
    have hji := w.best j g v.declared v.first.matches (Ne.symm hne)
    rcases hij with hlt | ⟨heq, hlt⟩ <;> rcases hji with hlt' | ⟨heq', hlt'⟩
    · exact Int64.lt_asymm hlt hlt'
    · exact Int64.lt_irrefl (heq' ▸ hlt)
    · exact Int64.lt_irrefl (heq ▸ hlt')
    · omega
  have hfound := w.firstMatch_eq.symm.trans v.firstMatch_eq
  cases hfound
  exact ⟨hplace, rfl, rfl⟩

end MailRules.Routing
