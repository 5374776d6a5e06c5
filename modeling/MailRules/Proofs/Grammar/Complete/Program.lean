import MailRules.Proofs.Grammar.Complete.Condition

/-!
Completeness for programs. Every phrase takes the parser from the places where it may begin to the
places where the next one may: rules from where WHEN opens one, folders from where FOLDER does.
-/

namespace MailRules.Grammar

open MailRules.Parser

variable {lim : Limits}

/-- The tokens before the first end of the input. -/
def beforeEnd (ts : List Token) : List Token := ts.takeWhile (·.kind ≠ .eof)

/-- The token that stands for the end of the input: the first of that kind, or one at the place of
the last token. -/
def endOf (last : Position) : List Token → Token
  | [] => .eof last
  | t :: ts => if t.kind = .eof then t else endOf t.pos ts

/-- Parsing reads the tokens before the end of the input, and finishes there. -/
theorem run_eq (ts : List Token) : ∀ (s : State) (last : Position),
    s.run last ts = feed State.step s (beforeEnd ts) >>= (·.finish (endOf last ts)) := by
  induction ts with
  | nil => intro s last; rfl
  | cons t ts ih =>
    intro s last
    by_cases ht : t.kind = .eof
    · simp [State.run, beforeEnd, endOf, ht, feed]
    · have hbefore : beforeEnd (t :: ts) = t :: beforeEnd ts := by simp [beforeEnd, ht]
      rw [State.run, if_neg ht, hbefore, endOf, if_neg ht, feed_cons]
      cases hs : s.step t with
      | error e => rfl
      | ok s' => exact ih s' t.pos

theorem program?_of_finish {p : Program} {s : State} {t : Token} (h : s.finish t = .ok p) :
    s.program? = some p := by
  unfold State.finish at h
  split at h
  · next hs => cases h; exact hs
  · cases h

/-! ### Conditions inside rules -/

/-- Inside a condition every token goes to its automaton, but THEN where the condition may end. The
automaton refuses THEN there with the error of the finished condition, or asks for it. -/
theorem stepCondition_eq (d : FolderDraft) (s : ConditionState) (t : Token)
    (h : s.step t ≠ .error (.of t .conclusion)) :
    State.stepCondition d s t = s.step t >>= fun s => .ok (.condition d s) := by
  unfold State.stepCondition
  split
  · next result hresult hthen =>
    unfold ConditionState.result? at hresult
    split at hresult
    · next level c =>
      cases hresult
      have hstep : (ConditionState.joined ⟨level, []⟩ c).step t =
          .error (ConditionState.refuse (.joined ⟨level, []⟩ c) t) := by
        simp [ConditionState.step, hthen]
      rw [hstep] at h ⊢
      unfold ConditionState.refuse at h ⊢
      cases hclose : level.closeOr c with
      | error e => simp only [hclose]; rfl
      | ok c' => simp only [hclose] at h; exact absurd rfl h
    · cases hresult
  · rfl

/-- As long as no token asks for the end of the condition, the program follows its automaton. -/
theorem feed_condition_eq (folders : List Folder) (d : FolderDraft) (ts : List Token) :
    ∀ s : ConditionState,
    (∀ t, feed ConditionState.step s ts ≠ .error (.of t .conclusion)) →
    feed State.step ⟨folders, .condition d s⟩ ts =
      feed ConditionState.step s ts >>= fun s => .ok ⟨folders, .condition d s⟩ := by
  induction ts with
  | nil => exact fun s _ => rfl
  | cons t ts ih =>
    intro s h
    have hstep : (⟨folders, .condition d s⟩ : State).step t =
        State.stepCondition d s t >>= fun p => .ok ⟨folders, p⟩ := rfl
    rw [feed_cons] at h
    have hgoes : s.step t ≠ .error (.of t .conclusion) := fun hs => h t (by rw [hs]; rfl)
    rw [feed_cons, feed_cons, hstep, stepCondition_eq d s t hgoes]
    cases hs : s.step t with
    | ok s₁ =>
      rw [hs] at h
      exact ih s₁ h
    | error e => rfl

theorem feed_condition (folders : List Folder) (d : FolderDraft) {s' : ConditionState}
    (ts : List Token) (s : ConditionState)
    (h : Agrees lim (feed ConditionState.step s ts) (.ok s')) :
    Agrees lim (feed State.step ⟨folders, .condition d s⟩ ts) (.ok ⟨folders, .condition d s'⟩) := by
  have hgoes : ∀ t, feed ConditionState.step s ts ≠ .error (.of t .conclusion) := by
    intro t ht
    generalize feed ConditionState.step s ts = x at h ht
    cases h with
    | same => cases ht
    | tooDeep => simp [ParseError.of] at ht
  rw [feed_condition_eq folders d ts s hgoes]
  exact h.bind .same

/-! ### Rules -/

section
variable {folders : List Folder} {d : FolderDraft} {c : Condition}

theorem feed_action {ts : List Token} {a : Action} (h : ActionOf ts a) (actions : List Action) :
    feed State.step ⟨folders, .action d c actions .initial⟩ ts =
      .ok ⟨folders, .afterAction d c (a :: actions)⟩ := by
  have hstep : ∀ (s : ActionState) (t : Token),
      (⟨folders, .action d c actions s⟩ : State).step t =
        State.stepAction d c actions s t >>= fun p => .ok ⟨folders, p⟩ := fun _ _ => rfl
  cases h with
  | moveTo h₁ h₂ hname | removeFrom h₁ h₂ hname =>
    obtain ⟨hk | hk, rfl⟩ := hname <;>
      simp [feed, hstep, State.stepAction, ActionState.step, h₁, h₂, hk, bind, Except.bind, pure,
        Except.pure]
  | markRead h₁ h₂ h₃ | markUnread h₁ h₂ h₃ =>
    simp [feed, hstep, State.stepAction, ActionState.step, h₁, h₂, h₃, bind, Except.bind, pure,
      Except.pure]
  | notify h₁ | call h₁ | remind h₁ | auto h₁ =>
    simp [feed, hstep, State.stepAction, ActionState.step, h₁, bind, Except.bind, pure, Except.pure]

theorem feed_actions {ts : List Token} {as : List Action}
    (h : Separated (.keyword .and) ActionOf ts as) : ∀ actions,
    feed State.step ⟨folders, .action d c actions .initial⟩ ts =
      .ok ⟨folders, .afterAction d c (as.reverse ++ actions)⟩ := by
  induction h with
  | one ha => exact feed_action ha
  | @more _ _ o a _ ha ho _ ih =>
    intro actions
    have hand : (⟨folders, .afterAction d c (a :: actions)⟩ : State).step o =
        .ok ⟨folders, .action d c (a :: actions) .initial⟩ := by
      simp only [State.step, ho]
    rw [feed_append_of_ok (feed_action ha actions), feed_of_step hand, ih]
    simp

/-- WHEN opens a rule of the draft here. -/
def OpensRule (p : Place) (d : FolderDraft) : Prop :=
  ∀ (folders : List Folder) (w : Token), w.kind = .keyword .when →
    State.step ⟨folders, p⟩ w = .ok ⟨folders, .condition d .initial⟩

theorem opensRule_afterAction (d : FolderDraft) (c : Condition) (actions : List Action) :
    OpensRule (.afterAction d c actions) (State.closeRule d c actions) :=
  fun folders w hw => by simp only [State.step, hw]

theorem feed_rule {p : Place} {ts : List Token} {r : Rule} (hp : OpensRule p d)
    (h : RuleOf lim ts r) (folders : List Folder) : Agrees lim (feed State.step ⟨folders, p⟩ ts)
      (.ok ⟨folders, .afterAction d r.condition r.actions.reverse⟩) := by
  cases h with
  | @mk w t ts us c actions hw hts ht hus =>
    obtain ⟨disjunct, b, hb, hclose⟩ := reads_of_derives hts [] rfl
    have hthen : (⟨folders, .condition d (.joined ⟨⟨disjunct, none, 0⟩, []⟩ b)⟩ : State).step t =
        Level.closeOr ⟨disjunct, none, 0⟩ b >>=
          fun c => .ok ⟨folders, .action d c [] .initial⟩ := by
      simp only [State.step, State.stepCondition, ConditionState.result?, ht]
      exact bind_assoc ..
    rw [feed_of_step (hp folders w hw)]
    refine (feed_condition folders d ts _ hb).feed_append ?_
    rw [feed_cons, hthen]
    refine Agrees.bind (hclose.bind .same) ?_
    rw [feed_actions hus, List.append_nil]
    exact .same

/-- The rules after the first go behind the ones that the folder has when its last action ends. -/
theorem feed_moreRules (folders : List Folder) {ts : List Token} {rules : List Rule}
    (h : Many (RuleOf lim) ts rules) :
    ∀ {d : FolderDraft} {c : Condition} {actions : List Action} {done : List Rule},
    State.closeRule d c actions = ⟨d.name, d.priority, done⟩ → ∃ d' c' actions',
      Agrees lim (feed State.step ⟨folders, .afterAction d c actions⟩ ts)
        (.ok ⟨folders, .afterAction d' c' actions'⟩) ∧
      State.closeRule d' c' actions' = ⟨d.name, d.priority, rules.reverse ++ done⟩ := by
  induction h with
  | nil => exact fun hdone => ⟨_, _, _, .same, hdone⟩
  | @cons _ _ r rules hr _ ih =>
    intro d c actions done hdone
    have hr := feed_rule (opensRule_afterAction d c actions) hr folders
    rw [hdone] at hr
    have hnext : State.closeRule ⟨d.name, d.priority, done⟩ r.condition r.actions.reverse =
        ⟨d.name, d.priority, r :: done⟩ := by
      simp [State.closeRule, FolderDraft.addRule]
    obtain ⟨d', c', actions', hread, hclose⟩ := ih hnext
    refine ⟨d', c', actions', hr.feed_append hread, ?_⟩
    rw [hclose, List.reverse_cons, List.append_assoc, List.singleton_append]

end

/-! ### Folders -/

/-- FOLDER opens a folder here, behind the finished ones, and the input may end. -/
structure OpensFolder (s : State) (folders : List Folder) : Prop where
  step : ∀ f : Token, f.kind = .keyword .folder → s.step f = .ok ⟨folders, .folderName⟩
  program : s.program? = some ⟨folders.reverse⟩

theorem opensFolder_initial : OpensFolder .initial [] :=
  ⟨fun f hf => by simp only [State.step, State.initial, hf], rfl⟩

theorem opensFolder_afterAction (folders : List Folder) (d : FolderDraft) (c : Condition)
    (actions : List Action) : OpensFolder ⟨folders, .afterAction d c actions⟩
      ((State.closeRule d c actions).folder :: folders) :=
  ⟨fun f hf => by simp only [State.step, hf], rfl⟩

theorem feed_header {s : State} {folders : List Folder} {ts : List Token} {name : String}
    {priority : Int64} (hs : OpensFolder s folders) (h : HeaderOf ts name priority) :
    ∃ p, feed State.step s ts = .ok ⟨folders, p⟩ ∧ OpensRule p ⟨name, priority, []⟩ := by
  cases h with
  | @mk f n ts _ _ hf hn hp =>
    have hname : (⟨folders, .folderName⟩ : State).step n = .ok ⟨folders, .afterName name⟩ := by
      obtain ⟨hk | hk, rfl⟩ := hn <;> simp only [State.step, hk]
    rw [feed_of_step (hs.step f hf), feed_of_step hname]
    cases hp with
    | none => exact ⟨_, rfl, fun folders w hw => by simp only [State.step, hw]⟩
    | @some k i _ hk hi hint =>
      have hpriority : (⟨folders, .afterName name⟩ : State).step k =
          .ok ⟨folders, .priorityValue name⟩ := by
        simp only [State.step, hk]
      have hvalue : (⟨folders, .priorityValue name⟩ : State).step i =
          .ok ⟨folders, .firstRule ⟨name, priority, []⟩⟩ := by
        simp only [State.step, hi, readInt64?_eq_some_iff.2 hint]
      rw [feed_of_step hpriority, feed_singleton, hvalue]
      exact ⟨_, rfl, fun folders w hw => by simp only [State.step, hw]⟩

theorem feed_folder {s : State} {folders : List Folder} {ts : List Token} {f : Folder}
    (hs : OpensFolder s folders) (h : FolderOf lim ts f) :
    ∃ s', Agrees lim (feed State.step s ts) (.ok s') ∧ OpensFolder s' (f :: folders) := by
  cases h with
  | @mk ts us name priority rules hhead hrules hne =>
    obtain ⟨p, hread, hp⟩ := feed_header hs hhead
    cases hrules with
    | nil => exact absurd rfl hne
    | @cons _ _ r rules hr hmore =>
      have hfirst : State.closeRule ⟨name, priority, []⟩ r.condition r.actions.reverse =
          ⟨name, priority, [r]⟩ := by
        simp [State.closeRule, FolderDraft.addRule]
      obtain ⟨d, c, actions, hlast, hclose⟩ := feed_moreRules folders hmore hfirst
      refine ⟨⟨folders, .afterAction d c actions⟩, ?_, ?_⟩
      · rw [feed_append_of_ok hread]
        exact (feed_rule hp hr folders).feed_append hlast
      · have hopens := opensFolder_afterAction folders d c actions
        rw [hclose] at hopens
        simpa [FolderDraft.folder] using hopens

theorem feed_folders {ts : List Token} {fs : List Folder} (h : Many (FolderOf lim) ts fs) :
    ∀ {s : State} {folders : List Folder}, OpensFolder s folders →
      ∃ s', Agrees lim (feed State.step s ts) (.ok s') ∧
        OpensFolder s' (fs.reverse ++ folders) := by
  induction h with
  | nil => exact fun hs => ⟨_, .same, hs⟩
  | @cons _ _ f fs hf _ ih =>
    intro s folders hs
    obtain ⟨s₁, hread, hs₁⟩ := feed_folder hs hf
    obtain ⟨s₂, hrest, hs₂⟩ := ih hs₁
    refine ⟨s₂, hread.feed_append hrest, ?_⟩
    simpa using hs₂

/-- A program of the grammar is parsed, unless the parser's nesting limits are tighter. -/
theorem agrees_parse {ts : List Token} {p : Program} (h : ProgramOf lim (beforeEnd ts) p) :
    Agrees lim (Program.parse ts) (.ok p) := by
  obtain ⟨s, hread, hs⟩ := feed_folders h opensFolder_initial
  rw [Program.parse, run_eq]
  refine hread.bind ?_
  rw [State.finish, hs.program]
  simpa using Agrees.same

end MailRules.Grammar
