import MailRules.Proofs.Grammar.Complete.Program
import MailRules.Proofs.Grammar.Sound.Condition

/-!
What the parser accepts, the grammar derives. As for conditions, the invariant says of every state
which tokens stand behind it: the finished folders, and the stretch that the place in the next
folder has taken up. With completeness, parsing and the grammar agree on every list of tokens.
-/

namespace MailRules.Grammar

open MailRules.Parser

/-! ### Actions -/

/-- The tokens behind a state inside an action. -/
inductive ActionTook : ActionState → List Token → Prop
  | initial : ActionTook .initial []
  | moveTo {a : Token} : a.kind = .keyword .move → ActionTook .moveTo [a]
  | moveTarget {a b : Token} : a.kind = .keyword .move → b.kind = .keyword .toWord →
      ActionTook .moveTarget [a, b]
  | removeFrom {a : Token} : a.kind = .keyword .remove → ActionTook .removeFrom [a]
  | removeTarget {a b : Token} : a.kind = .keyword .remove → b.kind = .keyword .fromWord →
      ActionTook .removeTarget [a, b]
  | markAs {a : Token} : a.kind = .keyword .mark → ActionTook .markAs [a]
  | markState {a b : Token} : a.kind = .keyword .mark → b.kind = .keyword .asWord →
      ActionTook .markState [a, b]

/-- A token goes on with the action, or completes it. -/
theorem actionTook_step {s : ActionState} {ts : List Token} {t : Token}
    {x : ActionState ⊕ Action} (h : ActionTook s ts) (hs : s.step t = .ok x) :
    match x with
    | .inl s' => ActionTook s' (ts ++ [t])
    | .inr a => ActionOf (ts ++ [t]) a := by
  unfold ActionState.step at hs
  cases h with
  | initial =>
    split at hs <;> try contradiction
    · next hk => cases hs; exact .moveTo hk
    · next hk => cases hs; exact .removeFrom hk
    · next hk => cases hs; exact .markAs hk
    · next hk => cases hs; exact .notify hk
    · next hk => cases hs; exact .call hk
    · next hk => cases hs; exact .remind hk
    · next hk => cases hs; exact .auto hk
  | moveTo ha =>
    split at hs <;> try contradiction
    next hk => cases hs; exact .moveTarget ha hk
  | moveTarget ha hb =>
    split at hs <;> try contradiction
    · next hk => cases hs; exact .moveTo ha hb ⟨.inl hk, rfl⟩
    · next hk => cases hs; exact .moveTo ha hb ⟨.inr hk, rfl⟩
  | removeFrom ha =>
    split at hs <;> try contradiction
    next hk => cases hs; exact .removeTarget ha hk
  | removeTarget ha hb =>
    split at hs <;> try contradiction
    · next hk => cases hs; exact .removeFrom ha hb ⟨.inl hk, rfl⟩
    · next hk => cases hs; exact .removeFrom ha hb ⟨.inr hk, rfl⟩
  | markAs ha =>
    split at hs <;> try contradiction
    next hk => cases hs; exact .markState ha hk
  | markState ha hb =>
    split at hs <;> try contradiction
    · next hk => cases hs; exact .markRead ha hb hk
    · next hk => cases hs; exact .markUnread ha hb hk

/-! ### Rules and folders -/

/-- A folder's header and its finished rules. -/
inductive DraftTook (d : FolderDraft) : List Token → Prop
  | mk {ts us : List Token} : HeaderOf ts d.name d.priority →
      Many (RuleOf .standard) us d.rules.reverse → DraftTook d (ts ++ us)

/-- A rule up to THEN, behind its draft. -/
inductive ConclusionTook (d : FolderDraft) (c : Condition) : List Token → Prop
  | mk {ts us : List Token} {w t : Token} : DraftTook d ts → w.kind = .keyword .when →
      Derives .standard .or 0 us c → t.kind = .keyword .thenWord →
      ConclusionTook d c (ts ++ w :: (us ++ [t]))

/-- The tokens behind each place, from the beginning of its folder. -/
inductive PlaceTook : Place → List Token → Prop
  | declaration : PlaceTook .declaration []
  | folderName {f : Token} : f.kind = .keyword .folder → PlaceTook .folderName [f]
  | afterName {f n : Token} {name : String} : f.kind = .keyword .folder → IsName n name →
      PlaceTook (.afterName name) [f, n]
  | priorityValue {f n k : Token} {name : String} : f.kind = .keyword .folder → IsName n name →
      k.kind = .keyword .priority → PlaceTook (.priorityValue name) [f, n, k]
  | firstRule {d : FolderDraft} {ts : List Token} : DraftTook d ts → PlaceTook (.firstRule d) ts
  | condition {d : FolderDraft} {s : ConditionState} {ts us : List Token} {w : Token} :
      DraftTook d ts → w.kind = .keyword .when → ConditionTook s us →
      PlaceTook (.condition d s) (ts ++ w :: us)
  | firstAction {d : FolderDraft} {c : Condition} {s : ActionState} {ts us : List Token} :
      ConclusionTook d c ts → ActionTook s us → PlaceTook (.action d c [] s) (ts ++ us)
  | action {d : FolderDraft} {c : Condition} {actions : List Action} {s : ActionState}
      {ts us vs : List Token} {o : Token} : ConclusionTook d c ts →
      Separated (.keyword .and) ActionOf us actions.reverse → o.kind = .keyword .and →
      ActionTook s vs → PlaceTook (.action d c actions s) (ts ++ (us ++ o :: vs))
  | afterAction {d : FolderDraft} {c : Condition} {actions : List Action} {ts us : List Token} :
      ConclusionTook d c ts → Separated (.keyword .and) ActionOf us actions.reverse →
      PlaceTook (.afterAction d c actions) (ts ++ us)

/-- The tokens behind a state: the finished folders, and the place in the next one. -/
inductive StateTook (s : State) : List Token → Prop
  | mk {ts us : List Token} : Many (FolderOf .standard) ts s.folders.reverse →
      PlaceTook s.place us → StateTook s (ts ++ us)

theorem draftTook_closeRule {d : FolderDraft} {c : Condition} {actions : List Action}
    {ts us : List Token} (hc : ConclusionTook d c ts)
    (ha : Separated (.keyword .and) ActionOf us actions.reverse) :
    DraftTook (State.closeRule d c actions) (ts ++ us) := by
  obtain ⟨⟨hhead, hrules⟩, hw, hcond, ht⟩ := hc
  have hmore := hrules.snoc (.mk hw hcond ht ha)
  rw [← List.reverse_cons] at hmore
  simpa using DraftTook.mk (d := State.closeRule d c actions) hhead hmore

theorem DraftTook.folder {d : FolderDraft} {ts : List Token} (h : DraftTook d ts)
    (hne : d.rules ≠ []) : FolderOf .standard ts d.folder := by
  cases h with
  | mk hhead hrules => exact .mk hhead hrules (by simpa using hne)

/-- With one rule more, a draft is a folder. -/
theorem folderOf_closeRule {d : FolderDraft} {c : Condition} {actions : List Action}
    {ts us : List Token} (hc : ConclusionTook d c ts)
    (ha : Separated (.keyword .and) ActionOf us actions.reverse) :
    FolderOf .standard (ts ++ us) (State.closeRule d c actions).folder :=
  (draftTook_closeRule hc ha).folder (by simp [State.closeRule, FolderDraft.addRule])

/-- A header is a draft without rules. -/
theorem draftTook_header {ts : List Token} {name : String} {priority : Int64}
    (h : HeaderOf ts name priority) : DraftTook ⟨name, priority, []⟩ ts := by
  simpa using DraftTook.mk (d := ⟨name, priority, []⟩) h .nil

theorem stepCondition_eq_ok {d : FolderDraft} {s : ConditionState} {t : Token} {p : Place}
    (h : State.stepCondition d s t = .ok p) :
    (∃ s', s.step t = .ok s' ∧ p = .condition d s') ∨
      t.kind = .keyword .thenWord ∧
        ∃ c, s.result? = some (.ok c) ∧ p = .action d c [] .initial := by
  unfold State.stepCondition at h
  split at h
  · next result hresult hthen =>
    obtain ⟨c, rfl, hp⟩ := bind_eq_ok h
    cases hp
    exact .inr ⟨hthen, c, hresult, rfl⟩
  · obtain ⟨s', hs, hp⟩ := bind_eq_ok h
    cases hp
    exact .inl ⟨s', hs, rfl⟩

theorem stepAction_eq_ok {d : FolderDraft} {c : Condition} {actions : List Action}
    {s : ActionState} {t : Token} {p : Place} (h : State.stepAction d c actions s t = .ok p) :
    (∃ s', s.step t = .ok (.inl s') ∧ p = .action d c actions s') ∨
      ∃ a, s.step t = .ok (.inr a) ∧ p = .afterAction d c (a :: actions) := by
  obtain ⟨x, hx, h⟩ := bind_eq_ok h
  cases x with
  | inl s' => cases h; exact .inl ⟨s', hx, rfl⟩
  | inr a => cases h; exact .inr ⟨a, hx, rfl⟩

theorem placeTook_stepCondition {d : FolderDraft} {s : ConditionState} {ts us : List Token}
    {w t : Token} {p : Place} (hd : DraftTook d ts) (hw : w.kind = .keyword .when)
    (hc : ConditionTook s us) (h : State.stepCondition d s t = .ok p) :
    PlaceTook p (ts ++ w :: (us ++ [t])) := by
  obtain ⟨cs, hcs, rfl⟩ | ⟨hk, c, hresult, rfl⟩ := stepCondition_eq_ok h
  · exact .condition hd hw (conditionTook_step hc hcs)
  · have hconclusion := ConclusionTook.mk hd hw (result?_derives hc hresult) hk
    simpa using PlaceTook.firstAction hconclusion .initial

theorem placeTook_stepFirstAction {d : FolderDraft} {c : Condition} {s : ActionState}
    {ts us : List Token} {t : Token} {p : Place} (hc : ConclusionTook d c ts)
    (ha : ActionTook s us) (h : State.stepAction d c [] s t = .ok p) :
    PlaceTook p (ts ++ (us ++ [t])) := by
  obtain ⟨as, has, rfl⟩ | ⟨a, has, rfl⟩ := stepAction_eq_ok h
  · exact .firstAction hc (actionTook_step ha has)
  · exact .afterAction hc (.one (actionTook_step ha has))

theorem placeTook_stepAction {d : FolderDraft} {c : Condition} {actions : List Action}
    {s : ActionState} {ts us vs : List Token} {o t : Token} {p : Place}
    (hc : ConclusionTook d c ts) (hactions : Separated (.keyword .and) ActionOf us actions.reverse)
    (ho : o.kind = .keyword .and) (ha : ActionTook s vs)
    (h : State.stepAction d c actions s t = .ok p) :
    PlaceTook p (ts ++ (us ++ o :: (vs ++ [t]))) := by
  obtain ⟨as, has, rfl⟩ | ⟨a, has, rfl⟩ := stepAction_eq_ok h
  · exact .action hc hactions ho (actionTook_step ha has)
  · have hmore := hactions.snoc ho (actionTook_step ha has)
    rw [← List.reverse_cons] at hmore
    exact .afterAction hc hmore

/-- A step adds its token to what stands behind the state. -/
theorem stateTook_step {s s' : State} {ts : List Token} {t : Token} (h : StateTook s ts)
    (hs : s.step t = .ok s') : StateTook s' (ts ++ [t]) := by
  obtain ⟨folders, place⟩ := s
  obtain ⟨hfolders, hplace⟩ := h
  rw [List.append_assoc]
  unfold State.step at hs
  cases hplace with
  | declaration =>
    split at hs <;> try contradiction
    next hk => cases hs; exact .mk hfolders (.folderName hk)
  | folderName hf =>
    split at hs <;> try contradiction
    · next hk => cases hs; exact .mk hfolders (.afterName hf ⟨.inl hk, rfl⟩)
    · next hk => cases hs; exact .mk hfolders (.afterName hf ⟨.inr hk, rfl⟩)
  | afterName hf hn =>
    split at hs <;> try contradiction
    · next hplace hk =>
      cases hplace; cases hs
      exact .mk hfolders (.priorityValue hf hn hk)
    · next hplace hk =>
      cases hplace; cases hs
      exact .mk hfolders (.condition (draftTook_header (.mk hf hn .none)) hk conditionTook_initial)
  | priorityValue hf hn hp =>
    split at hs <;> try contradiction
    next hplace hk =>
      cases hplace
      split at hs
      · next priority hint =>
        cases hs
        have hint := readInt64?_eq_some_iff.1 hint
        exact .mk hfolders (.firstRule (draftTook_header (.mk hf hn (.some hp hk hint))))
      · cases hs
  | firstRule hd =>
    split at hs <;> try contradiction
    next hplace hk =>
      cases hplace; cases hs
      exact .mk hfolders (.condition hd hk conditionTook_initial)
  | condition hd hw hc =>
    obtain ⟨p, hp, hs⟩ := bind_eq_ok hs
    cases hs
    rw [List.append_assoc]
    exact .mk hfolders (placeTook_stepCondition hd hw hc hp)
  | firstAction hc ha =>
    obtain ⟨p, hp, hs⟩ := bind_eq_ok hs
    cases hs
    rw [List.append_assoc]
    exact .mk hfolders (placeTook_stepFirstAction hc ha hp)
  | action hc hactions ho ha =>
    obtain ⟨p, hp, hs⟩ := bind_eq_ok hs
    cases hs
    rw [List.append_assoc, List.append_assoc, List.cons_append]
    exact .mk hfolders (placeTook_stepAction hc hactions ho ha hp)
  | afterAction hc has =>
    split at hs <;> try contradiction
    · next hplace hk =>
      cases hplace; cases hs
      rw [List.append_assoc]
      exact .mk hfolders (.action hc has hk .initial)
    · next hplace hk =>
      cases hplace; cases hs
      exact .mk hfolders (.condition (draftTook_closeRule hc has) hk conditionTook_initial)
    · next hplace hk =>
      cases hplace; cases hs
      have hmore := hfolders.snoc (folderOf_closeRule hc has)
      rw [← List.reverse_cons] at hmore
      rw [← List.append_assoc]
      exact .mk hmore (.folderName hk)

theorem stateTook_initial : StateTook .initial [] := by
  have h : StateTook .initial ([] ++ []) := .mk .nil .declaration
  exact h

/-- Where a program may end, the tokens behind the state write it. -/
theorem program?_derives {s : State} {ts : List Token} {p : Program} (h : StateTook s ts)
    (hs : s.program? = some p) : ProgramOf .standard ts p := by
  obtain ⟨folders, place⟩ := s
  obtain ⟨hfolders, hplace⟩ := h
  unfold State.program? at hs
  cases hplace <;> cases hs
  · rwa [List.append_nil]
  · next hc has => simpa [ProgramOf] using hfolders.snoc (folderOf_closeRule hc has)

/-- What is parsed is a program of the grammar. -/
theorem programOf_of_parse {ts : List Token} {p : Program} (h : Program.parse ts = .ok p) :
    ProgramOf .standard (beforeEnd ts) p := by
  rw [Program.parse, run_eq] at h
  obtain ⟨s, hread, hfinish⟩ := bind_eq_ok h
  have htook := feed_invariant stateTook_step _ stateTook_initial hread
  exact program?_derives htook (program?_of_finish hfinish)

/-- Parsing accepts exactly the grammar and builds exactly the program that the grammar prescribes,
within the nesting limits: a group or a NOT stands inside fewer than `maxNesting` others, and AND
and OR build conditions of at most that height. -/
theorem parse_eq_ok_iff (ts : List Token) (p : Program) :
    Program.parse ts = .ok p ↔ ProgramOf .standard (beforeEnd ts) p :=
  ⟨programOf_of_parse, fun h => (agrees_parse h).eq⟩

end MailRules.Grammar
