import MailRules.Parser.Program
import MailRules.Proofs.Lockstep

/-!
What parsing looks at. Two lists of tokens that are alike one by one take the parser through the
same places, whatever the positions of the tokens and however keywords are written. What differs is
held only in the operators that wait for their right side, and in the tokens that errors point at.
-/

namespace MailRules

/-- Tokens that the parser cannot tell apart, but by their errors. -/
structure Token.Alike (t t' : Token) : Prop where
  kind : t'.kind = t.kind
  field : t'.field? = t.field?
  spelling : t.kind.isKeyword = false → t'.spelling = t.spelling

namespace Grammar

open MailRules.Parser

/-! ### Corresponding states -/

section
variable (R : Token → Token → Prop)

/-- The same condition waits, at operators that correspond. -/
inductive AlikeWaiting : Option (Condition × Token) → Option (Condition × Token) → Prop
  | none : AlikeWaiting none none
  | some {c : Condition} {o o' : Token} : R o o' → AlikeWaiting (some (c, o)) (some (c, o'))

structure AlikeLevel (l l' : Level) : Prop where
  disjunct : AlikeWaiting R l.disjunct l'.disjunct
  conjunct : AlikeWaiting R l.conjunct l'.conjunct
  negations : l.negations = l'.negations

structure AlikeNesting (n n' : Nesting) : Prop where
  level : AlikeLevel R n.level n'.level
  outer : List.Forall₂ (AlikeLevel R) n.outer n'.outer

inductive AlikeCondition : ConditionState → ConditionState → Prop
  | operand {n n' : Nesting} : AlikeNesting R n n' → AlikeCondition (.operand n) (.operand n')
  | comparison {n n' : Nesting} {field : String} : AlikeNesting R n n' →
      AlikeCondition (.comparison n field) (.comparison n' field)
  | pattern {n n' : Nesting} {field : String} {c : Comparison} : AlikeNesting R n n' →
      AlikeCondition (.pattern n field c) (.pattern n' field c)
  | item {n n' : Nesting} {field : String} {c : Comparison} {read : List String} :
      AlikeNesting R n n' → AlikeCondition (.item n field c read) (.item n' field c read)
  | nextItem {n n' : Nesting} {field : String} {c : Comparison} {read : List String} :
      AlikeNesting R n n' → AlikeCondition (.nextItem n field c read) (.nextItem n' field c read)
  | joined {n n' : Nesting} {c : Condition} : AlikeNesting R n n' →
      AlikeCondition (.joined n c) (.joined n' c)

/-- Only conditions hold on to tokens. -/
inductive AlikePlace : Place → Place → Prop
  | declaration : AlikePlace .declaration .declaration
  | folderName : AlikePlace .folderName .folderName
  | afterName {name : String} : AlikePlace (.afterName name) (.afterName name)
  | priorityValue {name : String} : AlikePlace (.priorityValue name) (.priorityValue name)
  | firstRule {d : FolderDraft} : AlikePlace (.firstRule d) (.firstRule d)
  | condition {d : FolderDraft} {s s' : ConditionState} : AlikeCondition R s s' →
      AlikePlace (.condition d s) (.condition d s')
  | action {d : FolderDraft} {c : Condition} {actions : List Action} {s : ActionState} :
      AlikePlace (.action d c actions s) (.action d c actions s)
  | afterAction {d : FolderDraft} {c : Condition} {actions : List Action} :
      AlikePlace (.afterAction d c actions) (.afterAction d c actions)

/-- The second state has read the given folders before. -/
structure AlikeState (before : List Folder) (s s' : State) : Prop where
  folders : s'.folders = s.folders ++ before
  place : AlikePlace R s.place s'.place

/-- The same is missing, at tokens that correspond. -/
inductive AlikeError : ParseError → ParseError → Prop
  | of {t t' : Token} {x : Expectation} : R t t' → AlikeError (.of t x) (.of t' x)

end

variable {R : Token → Token → Prop}

theorem AlikeError.expected_eq {e e' : ParseError} (h : AlikeError R e e') :
    e'.expected = e.expected := by
  obtain ⟨-⟩ := h
  rfl

theorem alikeLevel_fresh : AlikeLevel R .fresh .fresh := ⟨.none, .none, rfl⟩

theorem alikeNesting_fresh : AlikeNesting R ⟨.fresh, []⟩ ⟨.fresh, []⟩ := ⟨alikeLevel_fresh, .nil⟩

theorem AlikeNesting.depth_eq {n n' : Nesting} (h : AlikeNesting R n n') :
    n.depth = n'.depth := by
  have houter := h.outer
  unfold Nesting.depth
  rw [h.level.negations]
  generalize n.outer = outer, n'.outer = outer' at houter
  induction houter with
  | nil => rfl
  | cons hup _ ih => simp only [List.foldr_cons, ih, hup.negations]

/-! ### Conditions -/

section
variable {l l' : Level} {n n' : Nesting} {s s' : ConditionState} {c : Condition} {t t' : Token}

theorem related_limited (h : R t t') :
    Related (AlikeError R) Eq (limited c t) (limited c t') := by
  unfold limited
  split
  · exact .error (.of h)
  · exact .ok rfl

theorem related_closeAnd (h : AlikeLevel R l l') :
    Related (AlikeError R) Eq (l.closeAnd c) (l'.closeAnd c) := by
  obtain ⟨disjunct, conjunct, negations⟩ := l
  obtain ⟨disjunct', conjunct', negations'⟩ := l'
  obtain ⟨-, hconjunct, hnegations⟩ := h
  cases hnegations
  cases hconjunct with
  | none => exact .ok rfl
  | some ho => exact related_limited ho

theorem related_closeOr (h : AlikeLevel R l l') :
    Related (AlikeError R) Eq (l.closeOr c) (l'.closeOr c) := by
  obtain ⟨disjunct, conjunct, negations⟩ := l
  obtain ⟨disjunct', conjunct', negations'⟩ := l'
  obtain ⟨hdisjunct, -, -⟩ := h
  cases hdisjunct with
  | none => exact .ok rfl
  | some ho => exact related_limited ho

theorem related_complete (h : AlikeNesting R n n') :
    Related (AlikeError R) (AlikeCondition R) (ConditionState.complete n c)
      (ConditionState.complete n' c) := by
  refine (related_closeAnd h.level).bind ?_
  rintro c _ rfl
  exact .ok (.joined ⟨⟨h.level.disjunct, .none, rfl⟩, h.outer⟩)

theorem AlikeCondition.expectation_eq (h : AlikeCondition R s s') :
    s.expectation = s'.expectation := by
  cases h with
  | @joined n n' c hn =>
    obtain ⟨level, outer⟩ := n
    obtain ⟨level', outer'⟩ := n'
    obtain ⟨-, houter⟩ := hn
    cases houter <;> rfl
  | _ => rfl

theorem related_refuse {α α' : Type} {S : α → α' → Prop} (h : AlikeCondition R s s') (ht : R t t') :
    Related (AlikeError R) S (.error (s.refuse t)) (.error (s'.refuse t')) := by
  have hsame : AlikeError R (.of t s.expectation) (.of t' s'.expectation) := by
    rw [h.expectation_eq]
    exact .of ht
  cases h with
  | @joined n n' c hn =>
    -- A pending OR comes first: both states close it, or both fail at its operator.
    have hclose := related_closeOr hn.level (c := c)
    simp only [ConditionState.refuse]
    generalize n.level.closeOr c = x at hclose ⊢
    generalize n'.level.closeOr c = x' at hclose ⊢
    cases hclose with
    | ok _ => exact .error hsame
    | error he => exact .error he
  | _ => exact .error hsame

theorem alike_openGroup (h : AlikeNesting R n n') : AlikeNesting R n.openGroup n'.openGroup :=
  ⟨alikeLevel_fresh, .cons h.level h.outer⟩

theorem alike_openNegation (h : AlikeNesting R n n') :
    AlikeNesting R n.openNegation n'.openNegation :=
  ⟨⟨h.level.disjunct, h.level.conjunct, congrArg (· + 1) h.level.negations⟩, h.outer⟩

theorem related_begin (h : AlikeNesting R n n') (ht : R t t') (halike : t.Alike t') :
    Related (AlikeError R) (AlikeCondition R) (ConditionState.begin n t)
      (ConditionState.begin n' t') := by
  unfold ConditionState.begin
  rw [halike.kind, halike.field, ← h.depth_eq]
  split
  · split
    · exact .ok (.operand (alike_openGroup h))
    · exact .error (.of ht)
  · split
    · exact .ok (.operand (alike_openNegation h))
    · exact .error (.of ht)
  · split
    · exact .ok (.comparison h)
    · exact related_refuse (.operand h) ht

theorem alike_joinAnd (h : AlikeNesting R n n') (ht : R t t') :
    AlikeNesting R (n.joinAnd c t) (n'.joinAnd c t') :=
  ⟨⟨h.level.disjunct, .some ht, h.level.negations⟩, h.outer⟩

theorem alike_joinOr (h : AlikeNesting R n n') (ht : R t t') :
    AlikeNesting R (n.joinOr c t) (n'.joinOr c t') :=
  ⟨⟨.some ht, h.level.conjunct, h.level.negations⟩, h.outer⟩

/-- A closing parenthesis ends the innermost group, where one is open. -/
theorem related_closeGroup (h : AlikeNesting R n n') (ht : R t t')
    (hk : t.kind = .symbol .rightParen) (halike : t.Alike t') :
    Related (AlikeError R) (AlikeCondition R) ((ConditionState.joined n c).step t)
      ((ConditionState.joined n' c).step t') := by
  have hk' := halike.kind.trans hk
  have hrefuse := related_refuse (S := AlikeCondition R) (AlikeCondition.joined h (c := c)) ht
  obtain ⟨level, outer⟩ := n
  obtain ⟨level', outer'⟩ := n'
  obtain ⟨hlevel, houter⟩ := h
  cases houter with
  | nil =>
    simp only [ConditionState.step, hk, hk']
    exact hrefuse
  | cons hup houter =>
    simp only [ConditionState.step, hk, hk']
    refine (related_closeOr hlevel).bind ?_
    rintro c _ rfl
    exact related_complete ⟨hup, houter⟩

theorem related_conditionStep (h : AlikeCondition R s s') (ht : R t t') (halike : t.Alike t') :
    Related (AlikeError R) (AlikeCondition R) (s.step t) (s'.step t') := by
  have hrefuse := related_refuse (S := AlikeCondition R) h ht
  have hspelling := halike.spelling
  obtain ⟨kind, text, pos⟩ := t
  obtain ⟨kind', text', pos'⟩ := t'
  obtain rfl : kind' = kind := halike.kind
  cases h with
  | operand hn => exact related_begin hn ht halike
  | comparison hn =>
    cases kind' with
    | keyword k =>
      cases k with
      | contains | inWord => exact .ok (.pattern hn)
      | _ => exact hrefuse
    | _ => exact hrefuse
  | pattern hn =>
    cases kind' with
    | string =>
      simp only [ConditionState.step, hspelling rfl]
      exact related_complete hn
    | symbol s =>
      cases s with
      | leftBracket => exact .ok (.item hn)
      | _ => exact hrefuse
    | _ => exact hrefuse
  | item hn =>
    cases kind' with
    | string =>
      simp only [ConditionState.step, hspelling rfl]
      exact .ok (.nextItem hn)
    | _ => exact hrefuse
  | nextItem hn =>
    cases kind' with
    | symbol s =>
      cases s with
      | comma => exact .ok (.item hn)
      | rightBracket => exact related_complete hn
      | _ => exact hrefuse
    | _ => exact hrefuse
  | joined hn =>
    cases kind' with
    | keyword k =>
      cases k with
      | and => exact .ok (.operand (alike_joinAnd hn ht))
      | or =>
        refine (related_closeOr hn.level).bind ?_
        rintro c _ rfl
        exact .ok (.operand (alike_joinOr hn ht))
      | _ => exact hrefuse
    | symbol s =>
      cases s with
      | rightParen => exact related_closeGroup hn ht rfl halike
      | _ => exact hrefuse
    | _ => exact hrefuse

/-- Both conditions may end, or neither may. -/
theorem alike_result (h : AlikeCondition R s s') :
    Option.Rel (Related (AlikeError R) Eq) s.result? s'.result? := by
  cases h with
  | @joined n n' c hn =>
    obtain ⟨level, outer⟩ := n
    obtain ⟨level', outer'⟩ := n'
    obtain ⟨hlevel, houter⟩ := hn
    cases houter with
    | nil => exact .some (related_closeOr hlevel)
    | cons _ _ => exact .none
  | _ => exact .none

end

/-! ### Actions -/

theorem related_actionStep {s : ActionState} {t t' : Token} (ht : R t t') (halike : t.Alike t') :
    Related (AlikeError R) Eq (s.step t) (s.step t') := by
  have hrefuse : Related (AlikeError R) Eq (.error (s.refuse t) : Except _ (ActionState ⊕ Action))
    (.error (s.refuse t')) := .error (.of ht)
  have hspelling := halike.spelling
  obtain ⟨kind, text, pos⟩ := t
  obtain ⟨kind', text', pos'⟩ := t'
  obtain rfl : kind' = kind := halike.kind
  cases s with
  | initial | moveTo | removeFrom | markAs | markState =>
    cases kind' with
    | keyword k => cases k <;> first | exact .ok rfl | exact hrefuse
    | _ => exact hrefuse
  | moveTarget | removeTarget =>
    cases kind' with
    | identifier | string =>
      simp only [ActionState.step, hspelling rfl]
      exact .ok rfl
    | _ => exact hrefuse

/-! ### Programs -/

section
variable {before : List Folder} {s s' : State} {t t' : Token}

theorem related_stepAction {d : FolderDraft} {c : Condition} {actions : List Action}
    {s : ActionState} (ht : R t t') (halike : t.Alike t') :
    Related (AlikeError R) (AlikePlace R) (State.stepAction d c actions s t)
      (State.stepAction d c actions s t') := by
  refine (related_actionStep ht halike).bind ?_
  rintro x _ rfl
  cases x with
  | inl s => exact .ok .action
  | inr a => exact .ok .afterAction

theorem stepCondition_of_ne {d : FolderDraft} {s : ConditionState}
    (h : t.kind ≠ .keyword .thenWord) :
    State.stepCondition d s t = s.step t >>= fun s => .ok (.condition d s) := by
  unfold State.stepCondition
  split
  · next hthen => exact absurd hthen h
  · rfl

theorem related_stepCondition {d : FolderDraft} {s s' : ConditionState}
    (h : AlikeCondition R s s') (ht : R t t') (halike : t.Alike t') :
    Related (AlikeError R) (AlikePlace R) (State.stepCondition d s t)
      (State.stepCondition d s' t') := by
  have hgoes : Related (AlikeError R) (AlikePlace R)
      (s.step t >>= fun s => .ok (.condition d s)) (s'.step t' >>= fun s => .ok (.condition d s)) :=
    (related_conditionStep h ht halike).bind fun hs => .ok (.condition hs)
  by_cases hthen : t.kind = .keyword .thenWord
  · have hthen' := halike.kind.trans hthen
    have hresult := alike_result h
    unfold State.stepCondition
    generalize s.result? = r, s'.result? = r' at hresult ⊢
    cases hresult with
    | none => exact hgoes
    | some hr =>
      simp only [hthen, hthen']
      refine hr.bind ?_
      rintro c _ rfl
      exact .ok .action
  · rw [stepCondition_of_ne hthen, stepCondition_of_ne (halike.kind ▸ hthen)]
    exact hgoes

theorem related_step (h : AlikeState R before s s') (ht : R t t') (halike : t.Alike t') :
    Related (AlikeError R) (AlikeState R before) (s.step t) (s'.step t') := by
  obtain ⟨folders, place⟩ := s
  obtain ⟨_, place'⟩ := s'
  obtain ⟨rfl, hplace⟩ := h
  have hspelling := halike.spelling
  obtain ⟨kind, text, pos⟩ := t
  obtain ⟨kind', text', pos'⟩ := t'
  obtain rfl : kind' = kind := halike.kind
  have hrefuse : ∀ x, Related (AlikeError R) (AlikeState R before)
      (.error (.of ⟨kind', text, pos⟩ x)) (.error (.of ⟨kind', text', pos'⟩ x)) :=
    fun x => .error (.of ht)
  cases hplace with
  | condition hc =>
    exact (related_stepCondition hc ht halike).bind fun hp => .ok ⟨rfl, hp⟩
  | action => exact (related_stepAction ht halike).bind fun hp => .ok ⟨rfl, hp⟩
  | declaration =>
    cases kind' with
    | keyword k =>
      cases k with
      | folder => exact .ok ⟨rfl, .folderName⟩
      | _ => exact hrefuse _
    | _ => exact hrefuse _
  | folderName =>
    cases kind' with
    | identifier | string =>
      simp only [State.step, hspelling rfl]
      exact .ok ⟨rfl, .afterName⟩
    | _ => exact hrefuse _
  | afterName =>
    cases kind' with
    | keyword k =>
      cases k with
      | priority => exact .ok ⟨rfl, .priorityValue⟩
      | when => exact .ok ⟨rfl, .condition (.operand alikeNesting_fresh)⟩
      | _ => exact hrefuse _
    | _ => exact hrefuse _
  | priorityValue =>
    cases kind' with
    | identifier =>
      simp only [State.step, hspelling rfl]
      split
      · exact .ok ⟨rfl, .firstRule⟩
      · exact hrefuse _
    | _ => exact hrefuse _
  | firstRule =>
    cases kind' with
    | keyword k =>
      cases k with
      | when => exact .ok ⟨rfl, .condition (.operand alikeNesting_fresh)⟩
      | _ => exact hrefuse _
    | _ => exact hrefuse _
  | afterAction =>
    cases kind' with
    | keyword k =>
      cases k with
      | and => exact .ok ⟨rfl, .action⟩
      | when => exact .ok ⟨rfl, .condition (.operand alikeNesting_fresh)⟩
      | folder => exact .ok ⟨rfl, .folderName⟩
      | _ => exact hrefuse _
    | _ => exact hrefuse _

/-- Where tokens are alike, so is what the parser makes of them. -/
theorem related_feed (hR : ∀ {t t'}, R t t' → t.Alike t') {ts ts' : List Token}
    (hts : List.Forall₂ R ts ts') (hs : AlikeState R before s s') :
    Related (AlikeError R) (AlikeState R before) (feed State.step s ts)
      (feed State.step s' ts') :=
  Related.feed (fun hs ht => related_step hs ht (hR ht)) hts hs

theorem related_finish (hs : AlikeState R before s s') (ht : R t t') :
    Related (AlikeError R) (fun p p' => p'.folders = before.reverse ++ p.folders)
      (s.finish t) (s'.finish t') := by
  obtain ⟨folders, place⟩ := s
  obtain ⟨_, place'⟩ := s'
  obtain ⟨rfl, hplace⟩ := hs
  cases hplace with
  | declaration | afterAction => exact .ok (by simp)
  | condition hc => exact related_refuse hc ht
  | _ => exact .error (.of ht)

end
end Grammar
end MailRules
