import MailRules.Program.Builder

/-!
Programs from declarations. Building gives the declared folders, in order, where each of them has a
rule and each of its rules an action. Else it reports the first folder that falls short, and in a
folder with rules the first rule without actions.

    A   rule [auto]   priority 3                      complete
    B   priority 5    rule [auto]   rule []           no actions in rule 1 of B
    C                                                 empty, but B comes first
-/

namespace MailRules

/-! ### Declared folders -/

def Clause.priority? : Clause → Option Int64
  | .priority value => some value
  | .rule .. => none

def Clause.rule? : Clause → Option Rule
  | .priority _ => none
  | .rule condition actions => some ⟨condition, actions⟩

namespace Declaration

/-- The folder that the clauses describe: the last of the priorities, or zero, and all the rules. -/
def described (d : Declaration) : Folder where
  name := d.name
  priority := (d.clauses.filterMap Clause.priority?).getLast?.getD 0
  rules := d.clauses.filterMap Clause.rule?

theorem foldl_extend (clauses : List Clause) : ∀ f : Folder, clauses.foldl Folder.extend f =
    ⟨f.name, (clauses.filterMap Clause.priority?).getLast?.getD f.priority,
      f.rules ++ clauses.filterMap Clause.rule?⟩ := by
  induction clauses with
  | nil => simp
  | cons c clauses ih =>
    intro f
    rw [List.foldl_cons, ih]
    cases c with
    | priority value =>
      simp [Folder.extend, Clause.priority?, Clause.rule?, List.filterMap_cons, List.getLast?_cons]
    | rule condition actions =>
      simp [Folder.extend, Clause.priority?, Clause.rule?, List.filterMap_cons]

theorem folder_eq (d : Declaration) : d.folder = d.described := foldl_extend d.clauses _

/-- A declaration of a given folder. -/
def ofFolder (f : Folder) : Declaration :=
  ⟨f.name, .priority f.priority :: f.rules.map fun r => .rule r.condition r.actions⟩

theorem folder_ofFolder (f : Folder) : (ofFolder f).folder = f := by
  have hpriorities : (f.rules.map fun r => Clause.rule r.condition r.actions).filterMap
      Clause.priority? = [] := by
    rw [List.filterMap_map]
    exact List.filterMap_eq_nil_iff.2 fun _ _ => rfl
  have hrules : (f.rules.map fun r => Clause.rule r.condition r.actions).filterMap
      Clause.rule? = f.rules := by
    rw [List.filterMap_map]
    exact List.filterMap_some
  rw [folder_eq, described, ofFolder]
  simp only [List.filterMap_cons, hpriorities, hrules]
  rfl

end Declaration

/-! ### What a folder lacks -/

/-- The first item of a kind stands behind items that are not of it. -/
theorem findIdx?_eq_some_iff_append {α : Type} {p : α → Bool} {xs : List α} {i : Nat} :
    xs.findIdx? p = some i ↔ ∃ ys x zs,
      xs = ys ++ x :: zs ∧ (∀ y ∈ ys, p y = false) ∧ p x = true ∧ ys.length = i := by
  constructor
  · intro h
    obtain ⟨hi, hx, hbefore⟩ := List.findIdx?_eq_some_iff_getElem.1 h
    refine ⟨xs.take i, xs[i], xs.drop (i + 1), by simp, ?_, hx, by simp; omega⟩
    intro y hy
    obtain ⟨j, hj, rfl⟩ := List.mem_iff_getElem.1 hy
    simp only [List.length_take] at hj
    simpa using hbefore j (by omega)
  · rintro ⟨ys, x, zs, rfl, hys, hx, rfl⟩
    have hnone : ys.findIdx? p = none := List.findIdx?_eq_none_iff.2 hys
    simp [List.findIdx?_append, hnone, List.findIdx?_cons, hx]

namespace Folder

structure Complete (f : Folder) : Prop where
  rules : f.rules ≠ []
  actions : ∀ r ∈ f.rules, r.actions ≠ []

/-- The first thing that a folder lacks. -/
inductive Lacks (f : Folder) : BuildError → Prop
  | rules : f.rules = [] → Lacks f (.emptyFolder f.name)
  | actions {earlier later : List Rule} {r : Rule} : f.rules = earlier ++ r :: later →
      (∀ q ∈ earlier, q.actions ≠ []) → r.actions = [] →
      Lacks f (.noActions f.name earlier.length)

theorem fault?_eq_none_iff {f : Folder} : f.fault? = none ↔ f.Complete := by
  unfold fault?
  split
  · next hempty =>
    exact ⟨nofun, fun h => absurd (List.isEmpty_iff.1 hempty) h.rules⟩
  · next hrules =>
    rw [Option.map_eq_none_iff, List.findIdx?_eq_none_iff]
    constructor
    · exact fun h => ⟨fun hempty => hrules (List.isEmpty_iff.2 hempty),
        fun r hr => List.isEmpty_eq_false_iff.1 (h r hr)⟩
    · exact fun h r hr => List.isEmpty_eq_false_iff.2 (h.actions r hr)

theorem fault?_eq_some_iff {f : Folder} {e : BuildError} : f.fault? = some e ↔ f.Lacks e := by
  unfold fault?
  split
  · next hempty =>
    have hrules := List.isEmpty_iff.1 hempty
    constructor
    · rintro ⟨⟩
      exact .rules hrules
    · rintro (_ | ⟨hsplit, -, -⟩)
      · rfl
      · simp [hrules] at hsplit
  · next hne =>
    rw [Option.map_eq_some_iff]
    constructor
    · rintro ⟨i, hi, rfl⟩
      obtain ⟨earlier, r, later, hsplit, hearlier, hr, rfl⟩ := findIdx?_eq_some_iff_append.1 hi
      exact .actions hsplit (fun q hq => List.isEmpty_eq_false_iff.1 (hearlier q hq))
        (List.isEmpty_iff.1 hr)
    · rintro (hrules | ⟨hsplit, hearlier, hr⟩)
      · exact absurd (List.isEmpty_iff.2 hrules) hne
      · refine ⟨_, findIdx?_eq_some_iff_append.2 ⟨_, _, _, hsplit, fun q hq => ?_, ?_, rfl⟩, rfl⟩
        · exact List.isEmpty_eq_false_iff.2 (hearlier q hq)
        · exact List.isEmpty_iff.2 hr

end Folder

/-! ### Building -/

namespace Program

theorem build_eq_ok_iff {folders : List Folder} {p : Program} :
    build folders = .ok p ↔ (∀ f ∈ folders, f.Complete) ∧ p = ⟨folders⟩ := by
  have hcomplete : folders.findSome? Folder.fault? = none ↔ ∀ f ∈ folders, f.Complete :=
    List.findSome?_eq_none_iff.trans
      (forall₂_congr fun f _ => Folder.fault?_eq_none_iff)
  rw [← hcomplete, build]
  cases folders.findSome? Folder.fault? with
  | none => simp [eq_comm]
  | some e => simp

theorem build_eq_error_iff {folders : List Folder} {e : BuildError} :
    build folders = .error e ↔ ∃ earlier f later,
      folders = earlier ++ f :: later ∧ (∀ g ∈ earlier, g.Complete) ∧ f.Lacks e := by
  have hfirst : folders.findSome? Folder.fault? = some e ↔ ∃ earlier f later,
      folders = earlier ++ f :: later ∧ (∀ g ∈ earlier, g.Complete) ∧ f.Lacks e := by
    simp only [List.findSome?_eq_some_iff, Folder.fault?_eq_some_iff, Folder.fault?_eq_none_iff,
      and_comm (a := Folder.Lacks _ _)]
  rw [← hfirst, build]
  cases folders.findSome? Folder.fault? with
  | none => simp
  | some e' => simp

theorem declare_eq_build (ds : List Declaration) :
    declare ds = build (ds.map Declaration.described) :=
  congrArg build (List.map_congr_left fun d _ => d.folder_eq)

theorem declare_eq_ok_iff {ds : List Declaration} {p : Program} : declare ds = .ok p ↔
    (∀ d ∈ ds, d.described.Complete) ∧ p = ⟨ds.map Declaration.described⟩ := by
  rw [declare_eq_build, build_eq_ok_iff, List.forall_mem_map]

theorem declare_eq_error_iff {ds : List Declaration} {e : BuildError} :
    declare ds = .error e ↔ ∃ earlier d later, ds = earlier ++ d :: later ∧
      (∀ d' ∈ earlier, d'.described.Complete) ∧ d.described.Lacks e := by
  rw [declare_eq_build, build_eq_error_iff]
  constructor
  · rintro ⟨folders, f, later, hsplit, hearlier, hf⟩
    obtain ⟨earlier, rest, rfl, rfl, hrest⟩ := List.map_eq_append_iff.1 hsplit
    obtain ⟨d, later, rfl, rfl, -⟩ := List.map_eq_cons_iff.1 hrest
    exact ⟨earlier, d, later, rfl, List.forall_mem_map.1 hearlier, hf⟩
  · rintro ⟨earlier, d, later, rfl, hearlier, hd⟩
    exact ⟨_, _, _, List.map_append, List.forall_mem_map.2 hearlier, hd⟩

end Program

end MailRules
