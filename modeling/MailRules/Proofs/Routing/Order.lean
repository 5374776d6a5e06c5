import Mathlib.Data.List.Nodup
import MailRules.Proofs.Routing.Winner
import MailRules.Report.Basic

/-!
The priority order as the only one of its kind. It stands by priority, and the folders of one
priority stand in it as they are declared. No other list of the same folders does both, so programs
that agree on the order of equal priorities have one priority order. A run reads the folders
through that order alone.

    declared    A 1   B 5   C 1           B 5   A 1   C 1
    by order    B 5   A 1   C 1     =     B 5   A 1   C 1
-/

namespace MailRules.Routing

/-- The folders of one priority, as they stand in the list. -/
def ofPriority (k : Int64) (folders : List Folder) : List Folder :=
  folders.filter (·.priority = k)

theorem ofPriority_cons (k : Int64) (f : Folder) (folders : List Folder) :
    ofPriority k (f :: folders) =
      if f.priority = k then f :: ofPriority k folders else ofPriority k folders := by
  simp [ofPriority, List.filter_cons]

/-! ### Equal priorities keep their order -/

/-- A folder passes only folders of higher priority on the way to its place. -/
theorem ofPriority_placeFolder (k : Int64) (f : Folder) : ∀ order : List Folder,
    ofPriority k (Program.placeFolder f order) = ofPriority k (f :: order)
  | [] => rfl
  | g :: rest => by
    unfold Program.placeFolder
    split
    · rfl
    · next hlt =>
      simp only [ofPriority_cons, ofPriority_placeFolder k f rest]
      by_cases hf : f.priority = k
      · have hg : ¬ g.priority = k := by
          rintro rfl
          exact hlt (Int64.le_of_eq hf.symm)
        simp only [if_pos hf, if_neg hg]
      · simp only [if_neg hf]

theorem ofPriority_foldr (k : Int64) : ∀ folders : List Folder,
    ofPriority k (folders.foldr Program.placeFolder []) = ofPriority k folders
  | [] => rfl
  | f :: rest => by
    rw [List.foldr_cons, ofPriority_placeFolder, ofPriority_cons, ofPriority_cons,
      ofPriority_foldr k rest]

/-! ### Only one order does both -/

theorem mem_of_ofPriority {f : Folder} {folders : List Folder}
    (h : f ∈ ofPriority f.priority folders) : f ∈ folders :=
  List.mem_of_mem_filter h

theorem ByPriority.priority_le_head {f g : Folder} {rest : List Folder}
    (h : ByPriority (g :: rest)) (hf : f ∈ g :: rest) : f.priority ≤ g.priority := by
  rcases List.mem_cons.1 hf with rfl | hf
  · exact Int64.le_refl _
  · exact (List.pairwise_cons.1 h).1 f hf

/-- The first folders agree, since each of them is in the other list too and the higher one would
come first there. -/
theorem ByPriority.eq_of_ofPriority : ∀ {l m : List Folder}, ByPriority l → ByPriority m →
    (∀ k, ofPriority k l = ofPriority k m) → l = m
  | [], [], _, _, _ => rfl
  | [], g :: _, _, _, h => by simpa [ofPriority] using h g.priority
  | f :: _, [], _, _, h => by simpa [ofPriority] using h f.priority
  | f :: l, g :: m, hl, hm, h => by
    have hfg : f.priority ≤ g.priority := by
      refine hm.priority_le_head (mem_of_ofPriority ?_)
      rw [← h, ofPriority_cons, if_pos rfl]
      exact List.mem_cons_self
    have hgf : g.priority ≤ f.priority := by
      refine hl.priority_le_head (mem_of_ofPriority ?_)
      rw [h, ofPriority_cons, if_pos rfl]
      exact List.mem_cons_self
    have hpriority : f.priority = g.priority := Int64.le_antisymm hfg hgf
    have hhead := h g.priority
    rw [ofPriority_cons, ofPriority_cons, if_pos hpriority, if_pos rfl] at hhead
    obtain ⟨rfl, htail⟩ := List.cons.inj hhead
    have hrest : ∀ k, ofPriority k l = ofPriority k m := by
      intro k
      by_cases hk : f.priority = k
      · rw [← hk]
        exact htail
      · simpa [ofPriority_cons, hk] using h k
    rw [ByPriority.eq_of_ofPriority (List.pairwise_cons.1 hl).2 (List.pairwise_cons.1 hm).2 hrest]

/-- Where no priority comes twice, folders by priority are told by what they are. -/
theorem ByPriority.eq_of_perm {l m : List Folder} (hl : ByPriority l) (hm : ByPriority m)
    (hperm : l.Perm m) (hdistinct : (l.map (·.priority)).Nodup) : l = m := by
  refine List.Perm.eq_of_pairwise (fun f g hf hg hgf hfg => ?_) hl hm hperm
  exact List.inj_on_of_nodup_map hdistinct hf (hperm.mem_iff.2 hg) (Int64.le_antisymm hfg hgf)

/-! ### Runs -/

/-- Beside the priority order, a run takes only the number of rules from the program. -/
theorem run_eq_of_priorityOrder {p q : Program} (horder : p.priorityOrder = q.priorityOrder)
    (hperm : p.folders.Perm q.folders) (schema : Schema) (prior : Processed)
    (records : List Record) : p.run schema prior records = q.run schema prior records := by
  have hrules : p.ruleCount = q.ruleCount := (hperm.flatMap_right _).length_eq
  simp only [Program.run, Report.ofOutcomes, horder, hrules]

/-- Only the priorities count, and the order among equal ones. Programs that declare the same
folders have the same runs, whatever the order of declaration, where the folders of each priority
come in one order; and so they have where no priority comes twice. -/
theorem run_rearranged (p q : Program) (rearranged : p.folders.Perm q.folders) (schema : Schema)
    (prior : Processed) (records : List Record) :
    ((∀ k, ofPriority k p.folders = ofPriority k q.folders) →
      p.run schema prior records = q.run schema prior records) ∧
    ((p.folders.map (·.priority)).Nodup →
      p.run schema prior records = q.run schema prior records) := by
  have hp : ByPriority p.priorityOrder := byPriority_foldr p.folders
  have hq : ByPriority q.priorityOrder := byPriority_foldr q.folders
  refine ⟨fun hsame => ?_, fun hdistinct => ?_⟩
  · refine run_eq_of_priorityOrder (hp.eq_of_ofPriority hq fun k => ?_) rearranged ..
    rw [Program.priorityOrder, Program.priorityOrder, ofPriority_foldr, ofPriority_foldr, hsame k]
  · have hsorted : p.priorityOrder.Perm p.folders := foldr_placeFolder_perm p.folders
    have hperm : p.priorityOrder.Perm q.priorityOrder :=
      (hsorted.trans rearranged).trans (foldr_placeFolder_perm q.folders).symm
    have hkeys : (p.priorityOrder.map (·.priority)).Nodup :=
      (hsorted.map _).nodup_iff.2 hdistinct
    exact run_eq_of_priorityOrder (hp.eq_of_perm hq hperm hkeys) rearranged ..

/-- A folder of the given name and priority that takes the letter `a`. -/
def taker (name : String) (priority : Int64) : Folder :=
  ⟨name, priority, [⟨.contains "body" (.one "a"), [.moveTo name]⟩]⟩

/-- The folder of highest priority may stand anywhere, and where no two priorities are equal any
folder may. -/
theorem run_rearranged_takers :
    let last : Program := ⟨[taker "A" 1, taker "C" 1, taker "B" 5]⟩
    let first : Program := ⟨[taker "B" 5, taker "A" 1, taker "C" 1]⟩
    let rising : Program := ⟨[taker "A" 1, taker "B" 5]⟩
    let falling : Program := ⟨[taker "B" 5, taker "A" 1]⟩
    let records := [(Record.new "m").set "body" (.string "a"), Record.new "n"]
    last ≠ first ∧ last.folders.Perm first.folders ∧
      last.run default .empty records = first.run default .empty records ∧
      rising ≠ falling ∧ rising.folders.Perm falling.folders ∧
      rising.run default .empty records = falling.run default .empty records := by
  intro last first rising falling records
  have hlast : last.folders.Perm first.folders := by decide
  have hrising : rising.folders.Perm falling.folders := by decide
  have hsame : ∀ k, ofPriority k last.folders = ofPriority k first.folders := by
    intro k
    by_cases h₁ : (1 : Int64) = k
    · subst h₁
      rfl
    · simp [last, first, taker, ofPriority_cons, h₁]
  have hdistinct : (rising.folders.map (·.priority)).Nodup := by decide
  exact ⟨by decide, hlast, (run_rearranged last first hlast default .empty records).1 hsame,
    by decide, hrising, (run_rearranged rising falling hrising default .empty records).2 hdistinct⟩

end MailRules.Routing
