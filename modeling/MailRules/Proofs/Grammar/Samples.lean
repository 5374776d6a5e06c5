import MailRules.Proofs.Grammar.Basic

/-!
Plain tokens, and the shortest phrases made of them. They stand where some phrase is needed and any
would do: behind the beginning of a program that is to be completed, or around a condition.
-/

namespace MailRules.Grammar

def word (k : Keyword) : Token := ⟨.keyword k, some k.spelling, .start⟩

def mark (s : Symbol) : Token := ⟨.symbol s, some (String.singleton s.char), .start⟩

def name (s : String) : Token := ⟨.identifier, some s, .start⟩

def text (s : String) : Token := ⟨.string, some s, .start⟩

theorem isName_name (s : String) : IsName (name s) s := ⟨.inl rfl, rfl⟩

theorem isField_name (s : String) : IsField (name s) s := .identifier rfl

theorem text_text (s : String) : Text [text s] s := .mk rfl

/-! ### Around a condition -/

/-- A rule of the condition that the tokens write. -/
def ruleAround (ts : List Token) : List Token :=
  word .when :: (ts ++ [word .thenWord, word .auto])

/-- A program whose only rule has the condition that the tokens write. -/
def programAround (ts : List Token) : List Token := [word .folder, name "A"] ++ ruleAround ts

/-- The program of one rule with the condition. -/
def sole (c : Condition) : Program := ⟨[⟨"A", 0, [⟨c, [.auto]⟩]⟩]⟩

variable {lim : Limits} {ts : List Token} {c : Condition}

theorem ruleOf_around (h : Derives lim .or 0 ts c) : RuleOf lim (ruleAround ts) ⟨c, [.auto]⟩ :=
  .mk rfl h rfl (.one (.auto rfl))

theorem programOf_around (h : Derives lim .or 0 ts c) :
    ProgramOf lim (programAround ts) (sole c) := by
  have hheader : HeaderOf [word .folder, name "A"] "A" 0 := .mk rfl (isName_name "A") .none
  have hrules : Many (RuleOf lim) (ruleAround ts ++ []) [⟨c, [.auto]⟩] :=
    .cons (ruleOf_around h) .nil
  rw [List.append_nil] at hrules
  have hfolders := Many.cons (FolderOf.mk hheader hrules (List.cons_ne_nil _ _)) .nil
  rwa [List.append_nil] at hfolders

/-! ### A predicate -/

/-- A predicate on the field `x`. -/
def plain : List Token := [name "x", word .contains, text "y"]

def plainCondition : Condition := .contains "x" (.one "y")

theorem predicate_plain : Predicate plain plainCondition :=
  .contains (isField_name "x") rfl (text_text "y")

/-- NOT, some times over, in front of a phrase. -/
theorem derives_nots {k : Nat} : ∀ {d : Nat}, (∀ i < k, lim.opens (d + i)) →
    Derives lim .not (d + k) ts c →
      Derives lim .not d (List.replicate k (word .not) ++ ts) (c.negate k) := by
  induction k with
  | zero => exact fun _ h => h
  | succ k ih =>
    intro d hopens h
    have hinner : ∀ i < k, lim.opens (d + 1 + i) := fun i hi => by
      rw [Nat.add_assoc, Nat.add_comm 1]
      exact hopens (i + 1) (Nat.succ_lt_succ hi)
    rw [Nat.add_comm k, ← Nat.add_assoc] at h
    exact .not (hopens 0 k.succ_pos) rfl (ih hinner h)

end MailRules.Grammar
