import MailRules.Json.Parser
import MailRules.Json.Printer

/-!
Texts through JSON. A string literal reads back as the text it was written for, whatever characters
the text holds. Only the control characters without a letter of their own are written as UTF-16
units; none of those is a surrogate, so each comes back by itself.
-/

namespace MailRules.Json

/-! ### Characters -/

/-- A piece of a literal that stands for the character. -/
inductive Denotes (c : Char) : Piece → Prop
  | char : Denotes c (.char c)
  | unit : c.toNat < 0x20 → Denotes c (.unit c.toNat)

theorem hexValue?_hexDigit (n : Nat) : hexValue? (hexDigit n) = some (n % 16) := by
  have hdigits : ∀ d < 16, hexValue? (Nat.digitChar d) = some d := by decide
  exact hdigits (n % 16) (Nat.mod_lt n (by decide))

theorem unit?_control {n : Nat} (h : n < 0x20) :
    unit? '0' '0' (hexDigit (n / 16)) (hexDigit n) = some n := by
  have hzero : hexValue? '0' = some 0 := by decide
  simp only [unit?, hzero, hexValue?_hexDigit, Option.bind_eq_bind, Option.bind_some,
    Option.pure_def, Option.some.injEq]
  omega

/-- A letter behind a backslash is read as the character it stands for. -/
theorem readPieces_escaped {e c : Char} (h : escaped? e = some c) (read : List Piece)
    (rest : List Char) :
    readPieces read ('\\' :: e :: rest) = readPieces (.char c :: read) rest := by
  have hu : e ≠ 'u' := by
    rintro rfl
    cases h
  simp [readPieces, hu, h]

/-- A character is written as one piece, which stands for it. -/
theorem readPieces_printChar (c : Char) : ∃ p, Denotes c p ∧
    ∀ read rest, readPieces read (printChar c ++ rest) = readPieces (p :: read) rest := by
  have hletter : ∀ {e : Char}, escaped? e = some c → printChar c = ['\\', e] →
      ∃ p, Denotes c p ∧
        ∀ read rest, readPieces read (printChar c ++ rest) = readPieces (p :: read) rest := by
    intro e he hprint
    refine ⟨.char c, .char, fun read rest => ?_⟩
    rw [hprint]
    exact readPieces_escaped he read rest
  by_cases hquote : c = '"'
  · exact hletter (e := '"') (by rw [hquote]; rfl) (by rw [hquote]; rfl)
  by_cases hback : c = '\\'
  · exact hletter (e := '\\') (by rw [hback]; rfl) (by rw [hback]; rfl)
  by_cases hplain : 0x20 ≤ c.toNat
  · refine ⟨.char c, .char, fun read rest => ?_⟩
    simp [printChar, readPieces, hquote, hback, hplain, Nat.not_lt.2 hplain]
  by_cases hb : c = '\x08'
  · exact hletter (e := 'b') (by rw [hb]; rfl) (by rw [hb]; rfl)
  by_cases hf : c = '\x0c'
  · exact hletter (e := 'f') (by rw [hf]; rfl) (by rw [hf]; rfl)
  by_cases hn : c = '\n'
  · exact hletter (e := 'n') (by rw [hn]; rfl) (by rw [hn]; rfl)
  by_cases hr : c = '\r'
  · exact hletter (e := 'r') (by rw [hr]; rfl) (by rw [hr]; rfl)
  by_cases ht : c = '\t'
  · exact hletter (e := 't') (by rw [ht]; rfl) (by rw [ht]; rfl)
  · have hlow : c.toNat < 0x20 := Nat.not_le.1 hplain
    refine ⟨.unit c.toNat, .unit hlow, fun read rest => ?_⟩
    simp [printChar, readPieces, hquote, hback, hplain, hb, hf, hn, hr, ht, unit?_control hlow]

theorem assemble?_denotes {c : Char} {p : Piece} (h : Denotes c p) (read : List Char)
    (pieces : List Piece) :
    assemble? none read (p :: pieces) = assemble? none (c :: read) pieces := by
  cases h with
  | char => rfl
  | unit hlow =>
    have hhigh : isHighSurrogate c.toNat = false := by
      simp only [isHighSurrogate, Bool.and_eq_false_iff, decide_eq_false_iff_not]
      omega
    have hlow' : isLowSurrogate c.toNat = false := by
      simp only [isLowSurrogate, Bool.and_eq_false_iff, decide_eq_false_iff_not]
      omega
    rw [assemble?, hhigh, hlow', Char.ofNat_toNat]
    rfl

/-! ### Literals -/

/-- The pieces of a whole literal stand for its characters one by one. -/
theorem readPieces_print (s : List Char) : ∃ pieces : List Piece,
    (∀ read rest, readPieces read (s.flatMap printChar ++ '"' :: rest) =
      some (read.reverse ++ pieces, rest)) ∧
    ∀ read, assemble? none read pieces = some (read.reverse ++ s) := by
  induction s with
  | nil => exact ⟨[], fun read rest => by simp [readPieces], fun read => by simp [assemble?]⟩
  | cons c s ih =>
    obtain ⟨p, hp, hread⟩ := readPieces_printChar c
    obtain ⟨pieces, hpieces, htext⟩ := ih
    refine ⟨p :: pieces, fun read rest => ?_, fun read => ?_⟩
    · rw [List.flatMap_cons, List.append_assoc, hread, hpieces]
      simp
    · rw [assemble?_denotes hp, htext]
      simp

theorem readString_print (s : String) (rest : List Char) :
    readString (s.toList.flatMap printChar ++ '"' :: rest) = some (some s, rest) := by
  obtain ⟨pieces, hpieces, htext⟩ := readPieces_print s.toList
  simp [readString, hpieces, htext]

/-- The text of a literal with more text behind it. -/
theorem printString_append (s : String) (rest : List Char) :
    printString (some s) ++ rest = '"' :: (s.toList.flatMap printChar ++ '"' :: rest) := by
  show '"' :: (s.toList.flatMap printChar ++ ['"']) ++ rest = _
  rw [List.cons_append, List.append_assoc, List.singleton_append]

end MailRules.Json
