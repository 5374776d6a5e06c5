import MailRules.Proofs.Grammar.Complete.Condition

/-!
What the automaton of conditions accepts, the grammar derives. The invariant says of every state
which tokens it has taken up, and what they write: each open group, each side that waits for its
join, each negation and each text holds on to a stretch of the input. A step adds its token at the
end.
-/

namespace MailRules.Grammar

open MailRules.Parser MailRules.Parser.ConditionState

/-! ### The tokens behind a state -/

/-- The left side of a join and its operator, if one waits. -/
inductive Waiting (layer : Layer) (k : Keyword) (d : Nat) :
    Option (Condition × Token) → List Token → Prop
  | none : Waiting layer k d none []
  | some {ts : List Token} {c : Condition} {o : Token} : Derives .standard layer d ts c →
      o.kind = .keyword k → Waiting layer k d (some (c, o)) (ts ++ [o])

/-- The negations in front of an operand. -/
inductive Negations (d : Nat) : Nat → List Token → Prop
  | zero : Negations d 0 []
  | succ {n : Nat} {ts : List Token} {o : Token} : Negations d n ts → d + n < maxNesting →
      o.kind = .keyword .not → Negations d (n + 1) (ts ++ [o])

/-- What the tokens inside a group have come to, where `d` groups and negations are open around. -/
inductive LevelTook (d : Nat) (l : Level) : List Token → Prop
  | mk {us vs ws : List Token} : Waiting .or .or d l.disjunct us →
      Waiting .and .and d l.conjunct vs → Negations d l.negations ws →
        LevelTook d l (us ++ (vs ++ ws))

/-- The tokens up to the innermost open group. -/
inductive OuterTook : List Level → List Token → Prop
  | nil : OuterTook [] []
  | cons {l : Level} {outer : List Level} {us vs : List Token} {o : Token} : OuterTook outer us →
      LevelTook (Nesting.depth ⟨.fresh, outer⟩) l vs → o.kind = .symbol .leftParen →
      Nesting.depth ⟨l, outer⟩ < maxNesting → OuterTook (l :: outer) (us ++ (vs ++ [o]))

/-- The tokens up to an operand. -/
inductive NestingTook (n : Nesting) : List Token → Prop
  | mk {us vs : List Token} : OuterTook n.outer us →
      LevelTook (Nesting.depth ⟨.fresh, n.outer⟩) n.level vs → NestingTook n (us ++ vs)

/-- The word of a comparison. -/
def IsComparison (k : Token) : Comparison → Prop
  | .contains => k.kind = .keyword .contains
  | .isIn => k.kind = .keyword .inWord

/-- A field and its comparison behind what came before. -/
inductive HeadTook (n : Nesting) (field : String) (c : Comparison) : List Token → Prop
  | mk {us : List Token} {f k : Token} : NestingTook n us → IsField f field → IsComparison k c →
      HeadTook n field c (us ++ [f, k])

/-- The tokens behind each state, with what they write. -/
inductive ConditionTook : ConditionState → List Token → Prop
  | operand {n : Nesting} {ts : List Token} : NestingTook n ts → ConditionTook (.operand n) ts
  | comparison {n : Nesting} {field : String} {ts : List Token} {f : Token} : NestingTook n ts →
      IsField f field → ConditionTook (.comparison n field) (ts ++ [f])
  | pattern {n : Nesting} {field : String} {c : Comparison} {ts : List Token} :
      HeadTook n field c ts → ConditionTook (.pattern n field c) ts
  | firstItem {n : Nesting} {field : String} {c : Comparison} {ts : List Token} {o : Token} :
      HeadTook n field c ts → o.kind = .symbol .leftBracket →
      ConditionTook (.item n field c []) (ts ++ [o])
  | item {n : Nesting} {field : String} {c : Comparison} {read : List String} {ts us : List Token}
      {o comma : Token} : HeadTook n field c ts → o.kind = .symbol .leftBracket →
      Separated (.symbol .comma) Text us read.reverse → comma.kind = .symbol .comma →
      ConditionTook (.item n field c read) (ts ++ o :: (us ++ [comma]))
  | nextItem {n : Nesting} {field : String} {c : Comparison} {read : List String}
      {ts us : List Token} {o : Token} : HeadTook n field c ts → o.kind = .symbol .leftBracket →
      Separated (.symbol .comma) Text us read.reverse →
      ConditionTook (.nextItem n field c read) (ts ++ o :: us)
  | joined {disjunct : Option (Condition × Token)} {outer : List Level} {c : Condition}
      {us vs ws : List Token} : OuterTook outer us →
      Waiting .or .or (Nesting.depth ⟨.fresh, outer⟩) disjunct vs →
      Derives .standard .and (Nesting.depth ⟨.fresh, outer⟩) ws c →
      ConditionTook (.joined ⟨⟨disjunct, none, 0⟩, outer⟩ c) (us ++ (vs ++ ws))

theorem levelTook_fresh (d : Nat) : LevelTook d .fresh [] := by
  have h : LevelTook d .fresh ([] ++ ([] ++ [])) := .mk .none .none .zero
  exact h

theorem conditionTook_initial : ConditionTook .initial [] := by
  have h : NestingTook ⟨.fresh, []⟩ ([] ++ []) := .mk .nil (levelTook_fresh _)
  exact .operand h

/-! ### Completed operands -/

theorem limited_eq_ok {c c' : Condition} {o : Token} (h : limited c o = .ok c') :
    c' = c ∧ c.height ≤ maxNesting := by
  unfold limited at h
  split at h
  · cases h
  · next hlow =>
    cases h
    exact ⟨rfl, Nat.not_lt.1 hlow⟩

theorem Negations.derives {d n : Nat} {ts : List Token} (h : Negations d n ts) :
    ∀ {us : List Token} {c : Condition}, Derives .standard .not (d + n) us c →
      Derives .standard .not d (ts ++ us) (c.negate n) := by
  induction h with
  | zero => exact id
  | @succ n ts o _ hdeep ho ih =>
    intro us c hc
    have hnot : Derives .standard .not (d + n) (o :: us) c.not := .not hdeep ho hc
    rw [Condition.negate, ← Condition.negate_not, List.append_assoc]
    exact ih hnot

/-- An operand takes up its negations and the AND on its left. -/
theorem closeAnd_derives {d : Nat} {l : Level} {us vs ts : List Token} {c c' : Condition}
    (hand : Waiting .and .and d l.conjunct us) (hneg : Negations d l.negations vs)
    (hc : Derives .standard .not (d + l.negations) ts c) (hclose : l.closeAnd c = .ok c') :
    Derives .standard .and d (us ++ (vs ++ ts)) c' := by
  have hoperand := hneg.derives hc
  unfold Level.closeAnd at hclose
  split at hclose
  · next hl =>
    rw [hl] at hand
    cases hand
    cases hclose
    exact .andOfNot hoperand
  · next left o hl =>
    rw [hl] at hand
    obtain ⟨rfl, hlow⟩ := limited_eq_ok hclose
    cases hand with
    | some hleft ho =>
      rw [List.append_assoc]
      exact .and hleft ho hoperand hlow

/-- A chain of ANDs takes up the OR on its left. -/
theorem closeOr_derives {d : Nat} {l : Level} {us ts : List Token} {c c' : Condition}
    (hor : Waiting .or .or d l.disjunct us) (hc : Derives .standard .and d ts c)
    (hclose : l.closeOr c = .ok c') : Derives .standard .or d (us ++ ts) c' := by
  unfold Level.closeOr at hclose
  split at hclose
  · next hl =>
    rw [hl] at hor
    cases hor
    cases hclose
    exact .orOfAnd hc
  · next left o hl =>
    rw [hl] at hor
    obtain ⟨rfl, hlow⟩ := limited_eq_ok hclose
    cases hor with
    | some hleft ho =>
      rw [List.append_assoc]
      exact .or hleft ho hc hlow

theorem conditionTook_complete {n : Nesting} {ts us : List Token} {c : Condition}
    {s : ConditionState} (hn : NestingTook n ts) (hc : Derives .standard .not n.depth us c)
    (hs : complete n c = .ok s) : ConditionTook s (ts ++ us) := by
  obtain ⟨level, outer⟩ := n
  rw [depth_eq_add] at hc
  obtain ⟨houter, ⟨hor, hand, hneg⟩⟩ := hn
  obtain ⟨c', hclose, hs⟩ := bind_eq_ok hs
  cases hs
  have hjoined := closeAnd_derives hand hneg hc hclose
  simpa only [List.append_assoc] using ConditionTook.joined houter hor hjoined

/-! ### Steps -/

theorem nestingTook_openGroup {n : Nesting} {ts : List Token} {o : Token} (hn : NestingTook n ts)
    (ho : o.kind = .symbol .leftParen) (hdeep : n.depth < maxNesting) :
    NestingTook n.openGroup (ts ++ [o]) := by
  obtain ⟨houter, hlevel⟩ := hn
  have hgroup := OuterTook.cons houter hlevel ho hdeep
  simpa using NestingTook.mk (n := n.openGroup) hgroup (levelTook_fresh _)

theorem nestingTook_openNegation {n : Nesting} {ts : List Token} {o : Token} (hn : NestingTook n ts)
    (ho : o.kind = .keyword .not) (hdeep : n.depth < maxNesting) :
    NestingTook n.openNegation (ts ++ [o]) := by
  obtain ⟨level, outer⟩ := n
  rw [depth_eq_add] at hdeep
  obtain ⟨houter, ⟨hor, hand, hneg⟩⟩ := hn
  have hlevel : LevelTook _ (Nesting.openNegation ⟨level, outer⟩).level _ :=
    .mk hor hand (.succ hneg hdeep ho)
  simpa using NestingTook.mk (n := Nesting.openNegation ⟨level, outer⟩) houter hlevel

/-- The token at an operand's start opens a group or a negation, or names a field. -/
theorem conditionTook_begin {n : Nesting} {ts : List Token} {t : Token} {s : ConditionState}
    (hn : NestingTook n ts) (h : begin n t = .ok s) : ConditionTook s (ts ++ [t]) := by
  unfold begin at h
  split at h
  · next ho =>
    split at h
    · next hdeep =>
      cases h
      exact .operand (nestingTook_openGroup hn ho hdeep)
    · cases h
  · next ho =>
    split at h
    · next hdeep =>
      cases h
      exact .operand (nestingTook_openNegation hn ho hdeep)
    · cases h
  · split at h
    · next field hf =>
      cases h
      exact .comparison hn (field?_eq_some_iff.1 hf)
    · cases h

theorem HeadTook.predicate {n : Nesting} {field : String} {c : Comparison} {ts us : List Token}
    {p : Condition} {s : ConditionState} (hhead : HeadTook n field c ts)
    (hp : ∀ f k, IsField f field → IsComparison k c → Predicate (f :: k :: us) p)
    (hs : complete n p = .ok s) : ConditionTook s (ts ++ us) := by
  obtain ⟨hn, hf, hk⟩ := hhead
  rw [List.append_assoc]
  exact conditionTook_complete hn (.predicate (hp _ _ hf hk)) hs

theorem predicate_one {f k t : Token} {field : String} {c : Comparison} (hf : IsField f field)
    (hk : IsComparison k c) (ht : t.kind = .string) :
    Predicate [f, k, t] (c.one field t.spelling) := by
  cases c with
  | contains => exact .contains hf hk (.mk ht)
  | isIn => exact .isIn hf hk (.mk ht)

theorem predicate_list {f k : Token} {field : String} {c : Comparison} {ts : List Token}
    {texts : List String} (hf : IsField f field) (hk : IsComparison k c) (ht : TextList ts texts) :
    Predicate (f :: k :: ts) (c.list field texts) := by
  cases c with
  | contains => exact .containsList hf hk ht
  | isIn => exact .isInList hf hk ht

/-! ### What a step can do -/

section
variable {n : Nesting} {field : String} {c : Comparison} {read : List String} {p : Condition}
  {t : Token} {s : ConditionState}

theorem step_comparison (h : (comparison n field).step t = .ok s) :
    ∃ c, IsComparison t c ∧ s = .pattern n field c := by
  simp only [ConditionState.step] at h
  split at h <;> try contradiction
  · next hs hk => cases hs; cases h; exact ⟨.contains, hk, rfl⟩
  · next hs hk => cases hs; cases h; exact ⟨.isIn, hk, rfl⟩

theorem step_pattern (h : (pattern n field c).step t = .ok s) :
    t.kind = .string ∧ complete n (c.one field t.spelling) = .ok s ∨
      t.kind = .symbol .leftBracket ∧ s = .item n field c [] := by
  simp only [ConditionState.step] at h
  split at h <;> try contradiction
  · next hs hk => cases hs; exact .inl ⟨hk, h⟩
  · next hs hk => cases hs; cases h; exact .inr ⟨hk, rfl⟩

theorem step_item (h : (item n field c read).step t = .ok s) :
    t.kind = .string ∧ s = .nextItem n field c (t.spelling :: read) := by
  simp only [ConditionState.step] at h
  split at h <;> try contradiction
  next hs hk => cases hs; cases h; exact ⟨hk, rfl⟩

theorem step_nextItem (h : (nextItem n field c read).step t = .ok s) :
    t.kind = .symbol .comma ∧ s = .item n field c read ∨
      t.kind = .symbol .rightBracket ∧ complete n (c.list field read.reverse) = .ok s := by
  simp only [ConditionState.step] at h
  split at h <;> try contradiction
  · next hs hk => cases hs; cases h; exact .inl ⟨hk, rfl⟩
  · next hs hk => cases hs; exact .inr ⟨hk, h⟩

theorem step_joined (h : (joined n p).step t = .ok s) :
    t.kind = .keyword .and ∧ s = .operand (n.joinAnd p t) ∨
      (∃ p', n.level.closeOr p = .ok p' ∧
        (t.kind = .keyword .or ∧ s = .operand (n.joinOr p' t) ∨
          t.kind = .symbol .rightParen ∧ ∃ up outer, n.outer = up :: outer ∧
            complete ⟨up, outer⟩ p' = .ok s)) := by
  simp only [ConditionState.step] at h
  split at h <;> try contradiction
  · next hs hk => cases hs; cases h; exact .inl ⟨hk, rfl⟩
  · next hs hk =>
    cases hs
    obtain ⟨p', hclose, h⟩ := bind_eq_ok h
    cases h
    exact .inr ⟨p', hclose, .inl ⟨hk, rfl⟩⟩
  · next level up outer _ hs hk =>
    cases hs
    obtain ⟨p', hclose, h⟩ := bind_eq_ok h
    exact .inr ⟨p', hclose, .inr ⟨hk, up, outer, rfl, h⟩⟩

end

theorem conditionTook_step {s s' : ConditionState} {ts : List Token} {t : Token}
    (h : ConditionTook s ts) (hs : s.step t = .ok s') : ConditionTook s' (ts ++ [t]) := by
  cases h with
  | operand hn => exact conditionTook_begin hn hs
  | comparison hn hf =>
    obtain ⟨c, hk, rfl⟩ := step_comparison hs
    rw [List.append_assoc]
    exact .pattern (.mk hn hf hk)
  | pattern hhead =>
    obtain ⟨hk, hs⟩ | ⟨hk, rfl⟩ := step_pattern hs
    · exact hhead.predicate (fun _ _ hf hc => predicate_one hf hc hk) hs
    · exact .firstItem hhead hk
  | firstItem hhead ho =>
    obtain ⟨hk, rfl⟩ := step_item hs
    rw [List.append_assoc]
    exact .nextItem hhead ho (.one (.mk hk))
  | item hhead ho htexts hcomma =>
    obtain ⟨hk, rfl⟩ := step_item hs
    have hmore := htexts.snoc hcomma (.mk hk)
    rw [← List.reverse_cons] at hmore
    simpa using ConditionTook.nextItem hhead ho hmore
  | nextItem hhead ho htexts =>
    obtain ⟨hk, rfl⟩ | ⟨hk, hs⟩ := step_nextItem hs
    · rw [List.append_assoc]
      exact .item hhead ho htexts hk
    · rw [List.append_assoc]
      exact hhead.predicate (fun _ _ hf hc => predicate_list hf hc (.mk ho htexts hk)) hs
  | @joined disjunct outer c us vs ws houter hor hc =>
    obtain ⟨hk, rfl⟩ | ⟨c', hclose, ⟨hk, rfl⟩ | ⟨hk, up, outer, rfl, hup⟩⟩ := step_joined hs
    · have hlevel : LevelTook _ ⟨disjunct, some (c, t), 0⟩ _ := .mk hor (.some hc hk) .zero
      have hn : NestingTook ⟨⟨disjunct, some (c, t), 0⟩, outer⟩ _ := .mk houter hlevel
      simpa [Nesting.joinAnd] using ConditionTook.operand hn
    · have hleft := closeOr_derives hor hc hclose
      have hlevel : LevelTook _ ⟨some (c', t), none, 0⟩ _ := .mk (.some hleft hk) .none .zero
      have hn : NestingTook ⟨⟨some (c', t), none, 0⟩, outer⟩ _ := .mk houter hlevel
      simpa [Nesting.joinOr] using ConditionTook.operand hn
    · have hinner := closeOr_derives hor hc hclose
      cases houter with
      | cons houter hlevel ho hdeep =>
        have hgroup := Derives.group hdeep ho (depth_openGroup ⟨up, outer⟩ ▸ hinner) hk
        simpa using conditionTook_complete (.mk houter hlevel) hgroup hup

/-- Where a condition may end, the tokens behind the state write it. -/
theorem result?_derives {s : ConditionState} {ts : List Token} {c : Condition}
    (h : ConditionTook s ts) (hs : s.result? = some (.ok c)) : Derives .standard .or 0 ts c := by
  unfold result? at hs
  split at hs
  · next level c' =>
    have hclose : level.closeOr c' = .ok c := Option.some.inj hs
    cases h with
    | joined houter hor hc =>
      cases houter
      have hwhole := closeOr_derives hor hc hclose
      exact hwhole
  · cases hs

end MailRules.Grammar
