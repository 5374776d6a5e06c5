import MailRules.Proofs.Grammar.Samples
import MailRules.Proofs.Grammar.Sentence
import MailRules.Proofs.Grammar.Sound.Program

/-!
How high accepted conditions are. The parser bounds the groups and negations that are open while a
condition is read, and the height of every join. It does not measure the height of a negation, so a
stack of negations in front of a group adds to the height of what stands inside.

    x contains "y" AND ... AND x contains "y"            height 128, the limit
    NOT (x contains "y" AND ... AND x contains "y")      height 129, accepted
    NOT ... NOT (x contains "y" AND ... )                height 255, and no more
-/

namespace MailRules

namespace Condition

/-- The number of negations in front. -/
def negations : Condition → Nat
  | not a => a.negations + 1
  | _ => 0

/-- What stands behind the negations in front. -/
def core : Condition → Condition
  | not a => a.core
  | c => c

theorem negate_core : ∀ c : Condition, c.core.negate c.negations = c
  | contains .. | isIn .. | and .. | or .. => rfl
  | not a => congrArg not (negate_core a)

theorem height_negate (c : Condition) : ∀ n, (c.negate n).height = c.height + n
  | 0 => rfl
  | n + 1 => congrArg (· + 1) (height_negate c n)

theorem height_eq_add (c : Condition) : c.height = c.core.height + c.negations := by
  rw [← height_negate, negate_core]

end Condition

namespace Grammar

/-! ### The bound -/

/-- The core keeps the limit. The negations in front of it share theirs with what is open around the
condition, and a join needs a group of its own behind them. -/
structure Bounded (layer : Layer) (depth : Nat) (c : Condition) : Prop where
  core : c.core.height ≤ maxNesting
  negations : c.negations + depth ≤ maxNesting
  grouped : 0 < c.core.height →
    c.negations + depth < maxNesting ∨ layer ≠ .not ∧ c.negations = 0

/-- What bounds an operand bounds it as a chain of its own. -/
theorem Bounded.layer {layer layer' : Layer} {d : Nat} {c : Condition} (h : Bounded layer d c)
    (hlayer : layer' ≠ .not) : Bounded layer' d c :=
  ⟨h.core, h.negations, fun hjoin => (h.grouped hjoin).imp_right fun hno => ⟨hlayer, hno.2⟩⟩

/-- A join within the limit bounds itself as a chain. -/
theorem bounded_of_join {layer : Layer} {d : Nat} {c : Condition} (hlayer : layer ≠ .not)
    (hnone : c.negations = 0) (hcore : c.core.height ≤ maxNesting) (hd : d ≤ maxNesting) :
    Bounded layer d c :=
  ⟨hcore, by omega, fun _ => .inr ⟨hlayer, hnone⟩⟩

theorem bounded_of_derives {layer : Layer} {d : Nat} {ts : List Token} {c : Condition}
    (h : Derives .standard layer d ts c) : d ≤ maxNesting → Bounded layer d c := by
  induction h with
  | orOfAnd _ ih => exact fun hd => (ih hd).layer Layer.noConfusion
  | andOfNot _ ih => exact fun hd => (ih hd).layer Layer.noConfusion
  | or _ _ _ hlow | and _ _ _ hlow => exact bounded_of_join Layer.noConfusion rfl hlow
  | @not d _ _ a hopen _ _ ih =>
    intro _
    have hopen : d < maxNesting := hopen
    obtain ⟨hcore, hnegations, hgrouped⟩ := ih hopen
    refine ⟨hcore, ?_, fun hjoin => .inl ?_⟩
    · simp only [Condition.negations]
      omega
    · -- The operand is of the tightest layer, so a join in it has a group of its own.
      rcases hgrouped hjoin with hless | ⟨hlayer, -⟩
      · simp only [Condition.negations]
        omega
      · exact absurd rfl hlayer
  | @group d _ _ _ a hopen _ _ _ ih =>
    intro _
    have hopen : d < maxNesting := hopen
    obtain ⟨hcore, hnegations, hgrouped⟩ := ih hopen
    refine ⟨hcore, by omega, fun hjoin => .inl ?_⟩
    rcases hgrouped hjoin with hless | ⟨-, hnone⟩ <;> omega
  | predicate hp =>
    intro hd
    cases hp <;> exact ⟨Nat.zero_le _, by simpa [Condition.negations] using hd, nofun⟩

/-- The nesting of an accepted condition. The documented limit holds of it unless negations stand in
front of a join. -/
structure Nested (c : Condition) : Prop where
  core : c.core.height ≤ maxNesting
  negations : c.negations ≤ maxNesting
  grouped : 0 < c.core.height → c.negations < maxNesting
  height : c.height < 2 * maxNesting
  kept : c.negations = 0 ∨ c.core.height = 0 → c.height ≤ maxNesting

theorem nested_of_derives {ts : List Token} {c : Condition} (h : Derives .standard .or 0 ts c) :
    Nested c := by
  obtain ⟨hcore, hnegations, hgrouped⟩ := bounded_of_derives h (Nat.zero_le _)
  have hheight := c.height_eq_add
  have hpositive : 0 < maxNesting := by decide
  have hless : 0 < c.core.height → c.negations < maxNesting := fun hjoin => by
    rcases hgrouped hjoin with hless | ⟨-, hnone⟩ <;> omega
  exact ⟨hcore, hnegations, hless, by omega, by omega⟩

/-- Every condition of a parsed program is nested within these bounds. -/
theorem nesting_of_parse {ts : List Token} {p : Program} (h : Program.parse ts = .ok p) {f : Folder}
    (hf : f ∈ p.folders) {r : Rule} (hr : r ∈ f.rules) : Nested r.condition := by
  obtain ⟨us, -, hus⟩ := Many.exists_of_mem (programOf_of_parse h) f hf
  obtain ⟨vs, -, hvs⟩ := hus.derives r hr
  exact nested_of_derives hvs

/-! ### The bound is reached -/

/-- A chain of ANDs on predicates, and its tokens. -/
def chainCondition : Nat → Condition
  | 0 => plainCondition
  | n + 1 => (chainCondition n).and plainCondition

def chain : Nat → List Token
  | 0 => plain
  | n + 1 => chain n ++ word .and :: plain

/-- NOT, some times over, in front of a chain in a group. -/
def negated (k n : Nat) : List Token :=
  List.replicate k (word .not) ++ mark .leftParen :: (chain n ++ [mark .rightParen])

theorem height_chainCondition : ∀ n, (chainCondition n).height = n
  | 0 => rfl
  | n + 1 => by
    simp only [chainCondition, plainCondition, Condition.height, height_chainCondition n,
      Nat.max_zero]

theorem derives_chain {d n : Nat} (hn : n ≤ maxNesting) :
    Derives .standard .and d (chain n) (chainCondition n) := by
  have hplain : Derives .standard .not d plain plainCondition := .predicate predicate_plain
  induction n with
  | zero => exact .andOfNot hplain
  | succ n ih =>
    have hlow : (chainCondition (n + 1)).height ≤ maxNesting := by rwa [height_chainCondition]
    exact .and (ih (Nat.le_of_succ_le hn)) rfl hplain hlow

theorem derives_negated {k n : Nat} (hk : k < maxNesting) (hn : n ≤ maxNesting) :
    Derives .standard .not 0 (negated k n) ((chainCondition n).negate k) := by
  have hopens : ∀ i < k, Limits.standard.opens (0 + i) := fun i hi => by
    rw [Nat.zero_add]
    exact Nat.lt_trans hi hk
  have hgroup : Limits.standard.opens (0 + k) := by rwa [Nat.zero_add]
  exact derives_nots hopens (.group hgroup rfl (.orOfAnd (derives_chain hn)) rfl)

/-- Nothing measures negations in front of a join, so conditions of every height below twice the
limit are accepted. -/
theorem parse_negated {k n : Nat} (hk : k < maxNesting) (hn : n ≤ maxNesting) :
    Program.parse (programAround (negated k n)) = .ok (sole ((chainCondition n).negate k)) := by
  have hp := programOf_around (.orOfAnd (.andOfNot (derives_negated hk hn)))
  rw [← beforeEnd_eq_self hp.unended] at hp
  exact (agrees_parse hp).eq

theorem height_negated (k n : Nat) : ((chainCondition n).negate k).height = n + k := by
  rw [Condition.height_negate, height_chainCondition]

/-- The highest accepted conditions. -/
theorem nesting_of_parse_highest : Nested ((chainCondition maxNesting).negate (maxNesting - 1)) ∧
    ((chainCondition maxNesting).negate (maxNesting - 1)).height = 2 * maxNesting - 1 := by
  have hlast : maxNesting - 1 < maxNesting := by decide
  have hparse := parse_negated hlast (Nat.le_refl maxNesting)
  constructor
  · exact nesting_of_parse hparse (List.mem_singleton.2 rfl) (List.mem_singleton.2 rfl)
  · exact height_negated _ _

/-- One negation in front of the highest chain: accepted, and higher than the documented limit. -/
theorem exceeds_maxNesting : ∃ p, Program.parse (programAround (negated 1 maxNesting)) = .ok p ∧
    ∃ f ∈ p.folders, ∃ r ∈ f.rules, maxNesting < r.condition.height := by
  have hone : 1 < maxNesting := by decide
  have hparse := parse_negated hone (Nat.le_refl maxNesting)
  refine ⟨_, hparse, _, List.mem_singleton.2 rfl, _, List.mem_singleton.2 rfl, ?_⟩
  rw [height_negated]
  exact Nat.lt_succ_self maxNesting

end Grammar
end MailRules
