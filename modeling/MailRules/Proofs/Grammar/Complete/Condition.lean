import MailRules.Proofs.Automaton
import MailRules.Proofs.Grammar.Words

/-!
What the grammar derives, the parser reads. One induction on the derivation of a condition says
where each layer leaves the automaton; programs follow phrase by phrase.

The limits of a derivation may be looser than the parser's own. Then the parser either reads the
phrase or stops at a nesting limit, and no other error can come up.
-/

namespace MailRules

/-- Negations in front of a negated condition. -/
theorem Condition.negate_not (c : Condition) : ∀ n, c.not.negate n = (c.negate n).not
  | 0 => rfl
  | n + 1 => congrArg Condition.not (negate_not c n)

namespace Grammar

open MailRules.Parser MailRules.Parser.ConditionState

/-- `x` is `y`, or it fails at a nesting limit that `lim` does not keep. -/
inductive Agrees {α : Type} (lim : Limits) : Except ParseError α → Except ParseError α → Prop
  | same {x : Except ParseError α} : Agrees lim x x
  | tooDeep {y : Except ParseError α} {t : Token} :
      lim ≠ .standard → Agrees lim (.error (.of t .lessNesting)) y

namespace Agrees

variable {α β : Type} {lim : Limits}

theorem bind {x : Except ParseError α} {a : α} {f : α → Except ParseError β}
    {y : Except ParseError β} (hx : Agrees lim x (.ok a)) (hf : Agrees lim (f a) y) :
    Agrees lim (x >>= f) y := by
  cases hx with
  | same => exact hf
  | tooDeep hlim => exact .tooDeep hlim

theorem trans {x y z : Except ParseError α} (hxy : Agrees lim x y) (hyz : Agrees lim y z) :
    Agrees lim x z := by
  cases hxy with
  | same => exact hyz
  | tooDeep hlim => exact .tooDeep hlim

theorem eq {x y : Except ParseError α} (h : Agrees .standard x y) : x = y := by
  cases h with
  | same => rfl
  | tooDeep hlim => exact absurd rfl hlim

end Agrees

variable {lim : Limits}

theorem agrees_limited {c : Condition} (h : lim.joins c) (o : Token) :
    Agrees lim (limited c o) (.ok c) := by
  unfold limited
  split
  · next hhigh =>
    refine .tooDeep fun hlim => ?_
    rw [hlim] at h
    exact absurd h (Nat.not_le.2 hhigh)
  · exact .same

theorem agrees_open {d : Nat} (h : lim.opens d) (t : Token) (s : ConditionState) :
    Agrees lim (if d < maxNesting then .ok s else .error (.of t .lessNesting)) (.ok s) := by
  split
  · exact .same
  · next hdeep =>
    refine .tooDeep fun hlim => ?_
    rw [hlim] at h
    exact absurd h hdeep

/-- Phrases in a row, each read or stopped at a limit. -/
theorem Agrees.feed_append {σ : Type} {step : σ → Token → Except ParseError σ} {s s' : σ}
    {ts us : List Token} {y : Except ParseError σ}
    (h : Agrees lim (feed step s ts) (.ok s')) (hus : Agrees lim (feed step s' us) y) :
    Agrees lim (feed step s (ts ++ us)) y := by
  rw [MailRules.feed_append]
  exact h.bind hus

/-! ### Predicates -/

variable {n : Nesting} {field : String} {c : Comparison}

theorem feed_separated {ts : List Token} {texts : List String}
    (h : Separated (.symbol .comma) Text ts texts) : ∀ read,
    feed step (.item n field c read) ts = .ok (.nextItem n field c (texts.reverse ++ read)) := by
  have hitem : ∀ (read : List String) {t : Token}, t.kind = .string →
      (ConditionState.item n field c read).step t =
        .ok (.nextItem n field c (t.spelling :: read)) :=
    fun read t hk => by simp [ConditionState.step, hk]
  induction h with
  | one ht =>
    intro read
    obtain ⟨hk⟩ := ht
    rw [feed_singleton, hitem read hk]; rfl
  | @more _ _ o _ _ ht ho _ ih =>
    intro read
    obtain ⟨hk⟩ := ht
    have hcomma : ∀ read, (nextItem n field c read).step o = .ok (.item n field c read) :=
      fun read => by simp [ConditionState.step, ho]
    rw [List.singleton_append, feed_of_step (hitem read hk), feed_of_step (hcomma _), ih]
    simp

theorem feed_textList {ts : List Token} {texts : List String} (h : TextList ts texts) :
    feed step (.pattern n field c) ts = complete n (c.list field texts) := by
  cases h with
  | @mk o e ts _ ho hts he =>
    have hopen : (pattern n field c).step o = .ok (.item n field c []) := by
      simp only [ConditionState.step, ho]
    rw [feed_of_step hopen, feed_append_of_ok (feed_separated hts []), feed_singleton]
    simp [ConditionState.step, he]

theorem feed_text {s : Token} {text : String} (h : Text [s] text) :
    feed step (.pattern n field c) [s] = complete n (c.one field text) := by
  obtain ⟨hk⟩ := h
  rw [feed_singleton]
  simp [ConditionState.step, hk]

/-- A field begins neither a group nor a negation. -/
theorem step_field {f : Token} (h : IsField f field) :
    (operand n).step f = .ok (.comparison n field) := by
  have hf := field?_eq_some_iff.2 h
  change begin n f = _
  unfold begin
  split
  · next hk => simp [Token.field?, hk] at hf
  · next hk => simp [Token.field?, hk] at hf
  · simp [hf]

theorem feed_predicate {ts : List Token} {p : Condition} (h : Predicate ts p) :
    feed step (.operand n) ts = complete n p := by
  have hcontains : ∀ {k : Token} (field : String), k.kind = .keyword .contains →
      (comparison n field).step k = .ok (.pattern n field .contains) :=
    fun field hk => by simp [ConditionState.step, hk]
  have hin : ∀ {k : Token} (field : String), k.kind = .keyword .inWord →
      (comparison n field).step k = .ok (.pattern n field .isIn) :=
    fun field hk => by simp [ConditionState.step, hk]
  cases h with
  | contains hf hk ht =>
    rw [feed_of_step (step_field hf), feed_of_step (hcontains _ hk), feed_text ht]; rfl
  | containsList hf hk ht =>
    rw [feed_of_step (step_field hf), feed_of_step (hcontains _ hk), feed_textList ht]; rfl
  | isIn hf hk ht =>
    rw [feed_of_step (step_field hf), feed_of_step (hin _ hk), feed_text ht]; rfl
  | isInList hf hk ht =>
    rw [feed_of_step (step_field hf), feed_of_step (hin _ hk), feed_textList ht]; rfl

/-! ### Groups, negations and joins -/

/-- Where each layer leaves the automaton. A negation or operand is completed at once, with what
waits for it. A chain of ANDs stands joined, and an OR on its left still waits. -/
def Reads (lim : Limits) : Layer → Nat → List Token → Condition → Prop
  | .not, d, ts, c => ∀ n : Nesting, n.depth = d →
      Agrees lim (feed step (.operand n) ts) (complete n c)
  | .and, d, ts, c => ∀ (disjunct : Option (Condition × Token)) (outer : List Level),
    Nesting.depth ⟨⟨disjunct, none, 0⟩, outer⟩ = d →
    Agrees lim (feed step (.operand ⟨⟨disjunct, none, 0⟩, outer⟩) ts)
      (.ok (.joined ⟨⟨disjunct, none, 0⟩, outer⟩ c))
  | .or, d, ts, c => ∀ outer : List Level, Nesting.depth ⟨.fresh, outer⟩ = d →
    ∃ disjunct b, Agrees lim (feed step (.operand ⟨.fresh, outer⟩) ts)
        (.ok (.joined ⟨⟨disjunct, none, 0⟩, outer⟩ b)) ∧
      Agrees lim (Level.closeOr ⟨disjunct, none, 0⟩ b) (.ok c)

/-- A negation in front of an operand may as well be part of it. -/
theorem complete_openNegation (n : Nesting) (c : Condition) :
    complete n.openNegation c = complete n c.not := by
  simp [complete, Level.closeAnd, Nesting.openNegation, Condition.negate, Condition.negate_not]

theorem depth_eq_add (l : Level) : ∀ outer : List Level,
    Nesting.depth ⟨l, outer⟩ = Nesting.depth ⟨.fresh, outer⟩ + l.negations
  | [] => (Nat.zero_add _).symm
  | up :: outer => by
    have ih := depth_eq_add l outer
    simp only [Nesting.depth, List.foldr_cons] at ih ⊢
    omega

theorem depth_openNegation (n : Nesting) : n.openNegation.depth = n.depth + 1 := by
  rw [Nesting.openNegation, depth_eq_add, depth_eq_add n.level n.outer, Nat.add_assoc]

theorem depth_openGroup (n : Nesting) : n.openGroup.depth = n.depth + 1 := by
  have hgroup : n.openGroup.depth = Nesting.depth ⟨.fresh, n.outer⟩ + 1 + n.level.negations := rfl
  rw [hgroup, depth_eq_add n.level n.outer, Nat.add_right_comm]

theorem reads_of_derives {layer : Layer} {d : Nat} {ts : List Token} {c : Condition}
    (h : Derives lim layer d ts c) : Reads lim layer d ts c := by
  induction h with
  | orOfAnd _ ih => exact fun outer hd => ⟨none, _, ih none outer hd, .same⟩
  | @or d ts us o a b _ ho _ hjoin iha ihb =>
    intro outer hd
    obtain ⟨disjunct, a', ha, hclose⟩ := iha outer hd
    have hstep : (joined ⟨⟨disjunct, none, 0⟩, outer⟩ a').step o =
        Level.closeOr ⟨disjunct, none, 0⟩ a' >>=
          fun c => .ok (.operand ⟨⟨some (c, o), none, 0⟩, outer⟩) := by
      simp only [ConditionState.step, ho]; rfl
    refine ⟨some (a, o), b, ha.feed_append ?_, agrees_limited hjoin o⟩
    rw [feed_cons, hstep]
    exact Agrees.bind (hclose.bind .same) (ihb (some (a, o)) outer hd)
  | andOfNot _ ih => exact fun disjunct outer hd => ih ⟨⟨disjunct, none, 0⟩, outer⟩ hd
  | @and d ts us o a b _ ho _ hjoin iha ihb =>
    intro disjunct outer hd
    have hstep : (joined ⟨⟨disjunct, none, 0⟩, outer⟩ a).step o =
        .ok (.operand ⟨⟨disjunct, some (a, o), 0⟩, outer⟩) := by
      simp only [ConditionState.step, ho]; rfl
    refine (iha disjunct outer hd).feed_append ?_
    rw [feed_of_step hstep]
    refine (ihb ⟨⟨disjunct, some (a, o), 0⟩, outer⟩ hd).trans ?_
    exact (agrees_limited hjoin o).bind .same
  | @not d ts o a hopen ho _ ih =>
    intro n hd
    have hstep : (operand n).step o = if n.depth < maxNesting
        then .ok (.operand n.openNegation) else .error (.of o .lessNesting) := by
      simp only [ConditionState.step, begin, ho]
    rw [feed_cons, hstep, ← complete_openNegation]
    refine (agrees_open (hd ▸ hopen) o _).bind ?_
    exact ih n.openNegation ((depth_openNegation n).trans (congrArg (· + 1) hd))
  | @group d ts o c a hopen ho _ hc ih =>
    intro n hd
    have hstep : (operand n).step o = if n.depth < maxNesting
        then .ok (.operand n.openGroup) else .error (.of o .lessNesting) := by
      simp only [ConditionState.step, begin, ho]
    obtain ⟨disjunct, b, hb, hclose⟩ :=
      ih (n.level :: n.outer) ((depth_openGroup n).trans (congrArg (· + 1) hd))
    have hend : (joined ⟨⟨disjunct, none, 0⟩, n.level :: n.outer⟩ b).step c =
        Level.closeOr ⟨disjunct, none, 0⟩ b >>= complete n := by
      simp only [ConditionState.step, hc]
    rw [feed_cons, hstep]
    refine (agrees_open (hd ▸ hopen) o _).bind (hb.feed_append ?_)
    rw [feed_singleton, hend]
    exact hclose.bind .same
  | predicate hp =>
    intro n _
    rw [feed_predicate hp]
    exact .same

end Grammar
end MailRules
