import MailRules.Proofs.Lexical.Basic

/-!
The four classes of characters that begin something between lexemes: white space, quotes, word
characters and symbols. They exclude each other, so the lexer's choice among them is the only one.
-/

namespace MailRules

theorem Keyword.spelling_injective : Function.Injective Keyword.spelling := by
  have h : ∀ j ∈ Keyword.all, ∀ k ∈ Keyword.all, j.spelling = k.spelling → j = k := by decide
  exact fun j k => h j j.mem_all k k.mem_all

theorem Keyword.map_toLower_spelling (k : Keyword) :
    k.spelling.toList.map Char.toLower = k.spelling.toList := by
  cases k <;> decide

theorem Keyword.ofSpelling?_eq_some_iff {word : String} {k : Keyword} :
    ofSpelling? word = some k ↔ k.spelling = word := by
  unfold ofSpelling?
  constructor
  · intro h
    simpa using List.find?_some h
  · intro h
    cases hfind : Keyword.all.find? (·.spelling = word) with
    | none => exact absurd h (by simpa using List.find?_eq_none.1 hfind k k.mem_all)
    | some j =>
      have hj : j.spelling = word := by simpa using List.find?_some hfind
      rw [Keyword.spelling_injective (hj.trans h.symm)]

theorem Symbol.ofChar?_eq_some_iff {c : Char} {s : Symbol} :
    ofChar? c = some s ↔ s.char = c := by
  constructor
  · intro h
    simpa using List.find?_some h
  · rintro rfl
    cases s <;> rfl

namespace Lexical

open Lexer

theorem isWordChar_iff {c : Char} : isWordChar c = true ↔ IsWordChar c := by
  have hclass : isWordChar c = (((decide ('A' ≤ c ∧ c ≤ 'Z') ||
      decide ('a' ≤ c) && decide (c ≤ 'z')) || decide ('0' ≤ c) && decide (c ≤ '9')) ||
      decide (c = '_')) := rfl
  simp only [hclass, IsWordChar, Bool.or_eq_true, Bool.and_eq_true, decide_eq_true_eq, or_assoc]

/-- The lexer gives a word the kind that its spelling has. -/
theorem wordKind_eq_iff {w : List Char} {kind : Token.Kind} :
    wordKind (String.ofList w) = kind ↔ WordKind w kind := by
  have hlower : ∀ k : Keyword, k.spelling = (String.ofList w).map Char.toLower ↔
      k.spelling.toList = w.map Char.toLower := fun k => by
    rw [← String.toList_inj, String.toList_map, String.toList_ofList]
  unfold wordKind
  cases hfind : Keyword.ofSpelling? ((String.ofList w).map Char.toLower) with
  | some k =>
    have hk := (hlower k).1 (Keyword.ofSpelling?_eq_some_iff.1 hfind)
    constructor
    · rintro rfl; exact .keyword hk
    · intro h
      cases h with
      | @keyword j hj =>
        rw [Keyword.spelling_injective (String.toList_inj.1 (hk.trans hj.symm))]
      | identifier hno => exact absurd hk (hno k)
  | none =>
    have hno : ∀ k : Keyword, k.spelling.toList ≠ w.map Char.toLower := fun k hk => by
      rw [Keyword.ofSpelling?_eq_some_iff.2 ((hlower k).2 hk)] at hfind
      cases hfind
    constructor
    · rintro rfl; exact .identifier hno
    · intro h
      cases h with
      | keyword hj => exact absurd hj (hno _)
      | identifier => rfl

theorem not_isWordChar_symbol (s : Symbol) : ¬ IsWordChar s.char := by
  rw [← isWordChar_iff]
  cases s <;> decide

/-! ### Between lexemes -/

theorem IsWordChar.bounds {c : Char} (h : IsWordChar c) : 48 ≤ c.toNat ∧ c.toNat ≤ 122 := by
  simp only [IsWordChar, Char.le_def, UInt32.le_iff_toNat_le] at h
  obtain ⟨hlo, hhi⟩ | ⟨hlo, hhi⟩ | ⟨hlo, hhi⟩ | rfl := h
  · exact ⟨Nat.le_trans (by decide) hlo, Nat.le_trans hhi (by decide)⟩
  · exact ⟨Nat.le_trans (by decide) hlo, Nat.le_trans hhi (by decide)⟩
  · exact ⟨hlo, Nat.le_trans hhi (by decide)⟩
  · decide

theorem IsWordChar.not_isBlank {c : Char} (h : IsWordChar c) : Text.isBlank c = false := by
  have hc := h.bounds
  simp only [Text.isBlank, Text.listed, Text.blankTable, Text.Range.covers, List.any_cons,
    List.any_nil, Bool.or_eq_false_iff, Bool.and_eq_false_iff, decide_eq_false_iff_not, and_true]
  omega

theorem IsWordChar.ne_quote {c : Char} (h : IsWordChar c) : c ≠ '"' := by
  rintro rfl
  exact absurd h.bounds.1 (by decide)

theorem begin_quote (pos : Position) (ts : List Token) :
    begin pos ts '"' = .ok ⟨pos.next '"', .quoted pos [], ts⟩ := rfl

theorem begin_symbol (pos : Position) (ts : List Token) (s : Symbol) :
    begin pos ts s.char = .ok ⟨pos.next s.char, .between, symbolToken pos s :: ts⟩ := by
  cases s <;> rfl

theorem begin_word {c : Char} (h : IsWordChar c) (pos : Position) (ts : List Token) :
    begin pos ts c = .ok ⟨pos.next c, .word pos [c], ts⟩ := by
  rw [begin, h.not_isBlank, if_neg Bool.false_ne_true, if_neg h.ne_quote,
    if_pos (isWordChar_iff.2 h)]

theorem begin_blank {c : Char} (h : Text.isBlank c = true) (pos : Position) (ts : List Token) :
    begin pos ts c = .ok ⟨pos.next c, .between, ts⟩ := by
  rw [begin, if_pos h]

/-- What the lexer does with a character between lexemes, where it takes it. -/
theorem begin_eq_ok {pos : Position} {ts : List Token} {c : Char} {s : State}
    (h : begin pos ts c = .ok s) :
    Text.isBlank c = true ∧ s = ⟨pos.next c, .between, ts⟩ ∨
      c = '"' ∧ s = ⟨pos.next c, .quoted pos [], ts⟩ ∨
      IsWordChar c ∧ s = ⟨pos.next c, .word pos [c], ts⟩ ∨
      ∃ sym : Symbol, sym.char = c ∧ s = ⟨pos.next c, .between, symbolToken pos sym :: ts⟩ := by
  unfold begin at h
  split at h
  · next hc => cases h; exact .inl ⟨hc, rfl⟩
  · split at h
    · next hc => cases h; exact .inr (.inl ⟨hc, rfl⟩)
    · split at h
      · next hc => cases h; exact .inr (.inr (.inl ⟨isWordChar_iff.1 hc, rfl⟩))
      · split at h
        · next sym hsym =>
          cases h
          exact .inr (.inr (.inr ⟨sym, Symbol.ofChar?_eq_some_iff.1 hsym, rfl⟩))
        · cases h

end Lexical
end MailRules
