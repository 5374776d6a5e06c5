import MailRules.Proofs.Grammar.Basic

/-!
Fields and integers: the readers of single words accept exactly what the grammar says of them.
-/

namespace MailRules.Grammar

open Decimal (natural? integer? int64?_eq_some_iff readInt64?)

theorem field?_eq_some_iff {t : Token} {field : String} :
    t.field? = some field ↔ IsField t field := by
  constructor
  · intro h
    unfold Token.field? at h
    split at h
    · cases h
    · next k hne hk =>
      cases h
      exact .keyword hk hne
    · next hk =>
      cases h
      exact .identifier hk
    · cases h
  · intro h
    cases h with
    | keyword hk hne =>
      unfold Token.field?
      split
      · next hnot => exact absurd (Token.Kind.keyword.inj (hk.symm.trans hnot)) hne
      · rfl
      · next hid => rw [hk] at hid; cases hid
      · next hno _ => exact absurd hk (hno _)
    | identifier hk => simp [Token.field?, hk]

/-! ### Integers -/

theorem isDigit_iff {c : Char} : c.isDigit = true ↔ '0' ≤ c ∧ c ≤ '9' := by
  simp [Char.isDigit, Char.le_def]

theorem natural?_eq_some_iff {digits : List Char} {n : Nat} : natural? digits = some n ↔
    digits ≠ [] ∧ (∀ c ∈ digits, '0' ≤ c ∧ c ≤ '9') ∧ Nat.ofDigitChars 10 digits 0 = n := by
  have hall : digits.all Char.isDigit = true ↔ ∀ c ∈ digits, '0' ≤ c ∧ c ≤ '9' := by
    simp only [List.all_eq_true, isDigit_iff]
  unfold natural?
  by_cases hd : digits = [] <;> by_cases ha : digits.all Char.isDigit = true <;> grind

/-- A sign is no digit, so the two readings of a text that begins with one exclude each other. -/
theorem integer?_eq_some_iff {text : List Char} {i : Int} :
    integer? text = some i ↔ Integer text i := by
  constructor
  · intro h
    unfold integer? at h
    split at h
    all_goals
      simp only [Option.map_eq_some_iff, Option.bind_eq_bind, Option.bind_eq_some_iff,
        Option.pure_def, Option.some.injEq, natural?_eq_some_iff] at h
      obtain ⟨_, ⟨_, ⟨hne, hall, rfl⟩, rfl⟩, rfl⟩ := h
    · exact .minus hne hall
    · exact .plus hne hall
    · exact .unsigned hne hall
  · intro h
    have hread : ∀ digits : List Char, digits ≠ [] → (∀ c ∈ digits, '0' ≤ c ∧ c ≤ '9') →
        natural? digits = some (Nat.ofDigitChars 10 digits 0) :=
      fun digits hne hall => natural?_eq_some_iff.2 ⟨hne, hall, rfl⟩
    cases h with
    | unsigned hne hall =>
      unfold integer?
      split
      · exact absurd (hall '-' List.mem_cons_self) (by decide)
      · exact absurd (hall '+' List.mem_cons_self) (by decide)
      · simp [hread _ hne hall]
    | plus hne hall => simp [integer?, hread _ hne hall]
    | minus hne hall => simp [integer?, hread _ hne hall]

/-- An integer is read as a priority exactly when 64 bits hold it. -/
theorem readInt64?_eq_some_iff {text : String} {p : Int64} :
    readInt64? text = some p ↔ Integer text.toList p.toInt := by
  rw [readInt64?, Option.bind_eq_some_iff]
  constructor
  · rintro ⟨i, hi, hp⟩
    rw [int64?_eq_some_iff.1 hp]
    exact integer?_eq_some_iff.1 hi
  · exact fun h => ⟨_, integer?_eq_some_iff.2 h, int64?_eq_some_iff.2 rfl⟩

end MailRules.Grammar
