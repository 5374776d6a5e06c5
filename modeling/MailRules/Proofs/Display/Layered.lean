import MailRules.Proofs.Display.Reparse

/-!
Conditions with parentheses only where a looser layer stands in a tighter one. A group opens in such
a text only for an AND or an OR below another operator, so on the way to a predicate no more groups
and negations are open than there are operators in the tree. Every writable condition within the
nesting limit can be written this way, where the text with all parentheses may go beyond it.

    a contains "x" OR b in ["y"] AND NOT c contains "z"
    ( a contains "x" OR b in ["y"] ) AND NOT ( c contains "z" AND d contains "w" )
-/

namespace MailRules

namespace Grammar

/-- A phrase of the second layer is one of the first as it stands. -/
def Layer.admits : Layer → Layer → Bool
  | .or, _ | _, .not | .and, .and => true
  | _, _ => false

theorem Layer.admits_not (layer : Layer) : layer.admits .not = true := by cases layer <;> rfl

theorem Derives.admitted {lim : Limits} {layer own : Layer} {d : Nat} {ts : List Token}
    {c : Condition} (h : Derives lim own d ts c) (hadmits : layer.admits own = true) :
    Derives lim layer d ts c := by
  cases layer <;> cases own
  case or.or | and.and | not.not => exact h
  case or.and => exact .orOfAnd h
  case or.not => exact .orOfAnd (.andOfNot h)
  case and.not => exact .andOfNot h
  case and.or | not.or | not.and => cases hadmits

end Grammar

namespace Lexical

/-- Parts that may follow anything: well formed, and detached from what stands in front. -/
structure Spaced (parts : List Part) : Prop where
  wellFormed : WellFormed parts
  detached : Detached parts

theorem spaced_nil : Spaced [] := ⟨wellFormed_nil, nofun⟩

theorem Spaced.append {ps qs : List Part} (hps : Spaced ps) (hqs : Spaced qs) :
    Spaced (ps ++ qs) := by
  refine ⟨hps.wellFormed.append hqs.wellFormed hqs.detached, ?_⟩
  cases ps with
  | nil => exact hqs.detached
  | cons p ps => exact hps.detached

theorem Spaced.flatMap {α : Type} {write : α → List Part} {as : List α}
    (h : ∀ a ∈ as, Spaced (write a)) : Spaced (as.flatMap write) := by
  induction as with
  | nil => exact spaced_nil
  | cons a as ih =>
    obtain ⟨ha, has⟩ := List.forall_mem_cons.1 h
    exact ha.append (ih has)

end Lexical

namespace Display

open Grammar Lexical

theorem spaced_word {w : String} {ps : List Part} (hw : (Lexeme.word w.toList).Valid)
    (h : Spaced ps) : Spaced (word [' '] w :: ps) :=
  ⟨wellFormed_word h.wellFormed isGap_blank hw h.detached, detached_word w ps⟩

theorem spaced_quoted {s : String} {ps : List Part} (hs : '"' ∉ s.toList) (h : Spaced ps) :
    Spaced (quoted [' '] s :: ps) := by
  refine ⟨wellFormed_quoted h.wellFormed isGap_blank hs, ?_⟩
  rintro p ⟨⟩ hword
  cases hword

/-! ### Texts with few parentheses -/

/-- A phrase of its own layer where another one stands: in parentheses unless it is admitted. -/
def enclose (layer own : Layer) (inside : List Part) : List Part :=
  if layer.admits own then inside else grouped [' '] inside

/-- The parts of a condition as a phrase of the layer, with a blank in front. -/
def layered : Layer → Condition → List Part
  | _, .contains field pattern => word [' '] field :: word [' '] "contains" :: patternParts pattern
  | _, .isIn field needles => word [' '] field :: word [' '] "in" :: listParts needles
  | layer, .and a b =>
    enclose layer .and (layered .and a ++ word [' '] "AND" :: layered .not b)
  | layer, .or a b => enclose layer .or (layered .or a ++ word [' '] "OR" :: layered .and b)
  | _, .not a => word [' '] "NOT" :: layered .not a

theorem spaced_enclose {layer own : Layer} {inside : List Part} (h : Spaced inside) :
    Spaced (enclose layer own inside) := by
  unfold enclose
  split
  · exact h
  · exact ⟨wellFormed_grouped isGap_blank h.wellFormed, detached_symbol _ _ _⟩

theorem spaced_layered {c : Condition} : Writable c → ∀ layer, Spaced (layered layer c) := by
  induction c with
  | contains field pattern =>
    intro h layer
    have hfield := h.fields field List.mem_cons_self
    exact ⟨wellFormed_predicate isGap_blank hfield (valid_word (by decide))
      (wellFormed_patternParts h.texts) (detached_patternParts pattern), detached_word _ _⟩
  | isIn field needles =>
    intro h layer
    have hfield := h.fields field List.mem_cons_self
    exact ⟨wellFormed_predicate isGap_blank hfield (valid_word (by decide))
      (wellFormed_listParts h.texts) (detached_listParts needles), detached_word _ _⟩
  | and a b iha ihb =>
    intro h layer
    obtain ⟨ha, hb⟩ := writable_and.1 h
    have hright := spaced_word (w := "AND") (valid_word (by decide)) (ihb hb .not)
    exact spaced_enclose ((iha ha .and).append hright)
  | or a b iha ihb =>
    intro h layer
    obtain ⟨ha, hb⟩ := writable_or.1 h
    have hright := spaced_word (w := "OR") (valid_word (by decide)) (ihb hb .and)
    exact spaced_enclose ((iha ha .or).append hright)
  | not a ih => exact fun h _ => spaced_word (valid_word (by decide)) (ih (writable_not.1 h) .not)

/-! ### They are derived -/

/-- Parentheses cost one level, which an operator always leaves. -/
theorem derives_enclose {lim : Limits} {layer own : Layer} {d : Nat} {inside : List Part}
    {c : Condition} (hopen : lim.opens d)
    (h : ∀ d', d' ≤ d + 1 → ∀ before, Derives lim own d' (tokensOf before inside) c)
    (before : List Char) : Derives lim layer d (tokensOf before (enclose layer own inside)) c := by
  unfold enclose
  split
  · next hadmits => exact (h d (Nat.le_succ d) before).admitted hadmits
  · have hinside : ∀ before, Derives lim .or (d + 1) (tokensOf before inside) c :=
      fun before => (h (d + 1) (Nat.le_refl _) before).admitted rfl
    exact (derives_grouped hopen hinside before [' ']).admitted layer.admits_not

/-- Inside `d` groups and negations there is room for a condition of `maxNesting - d` operators on
every way down. -/
theorem derives_layered {c : Condition} : Writable c → ∀ {d : Nat}, d + c.height ≤ maxNesting →
    ∀ layer before, Derives .standard layer d (tokensOf before (layered layer c)) c := by
  induction c with
  | contains field pattern =>
    intro h d _ layer before
    exact (Derives.predicate (predicate_contains h before [' '])).admitted layer.admits_not
  | isIn field needles =>
    intro h d _ layer before
    exact (Derives.predicate (predicate_isIn h before [' '])).admitted layer.admits_not
  | and a b iha ihb =>
    intro h d hd layer before
    obtain ⟨ha, hb⟩ := writable_and.1 h
    have hheight : (a.and b).height ≤ maxNesting := by omega
    simp only [Condition.height] at hd
    refine derives_enclose (show d < maxNesting by omega) (fun d' hd' before => ?_) before
    have hleft := iha ha (show d' + a.height ≤ maxNesting by omega) .and before
    rw [tokensOf_append, tokensOf]
    exact .and hleft (kind_and _) (ihb hb (by omega) .not _) hheight
  | or a b iha ihb =>
    intro h d hd layer before
    obtain ⟨ha, hb⟩ := writable_or.1 h
    have hheight : (a.or b).height ≤ maxNesting := by omega
    simp only [Condition.height] at hd
    refine derives_enclose (show d < maxNesting by omega) (fun d' hd' before => ?_) before
    have hleft := iha ha (show d' + a.height ≤ maxNesting by omega) .or before
    rw [tokensOf_append, tokensOf]
    exact .or hleft (kind_or _) (ihb hb (by omega) .and _) hheight
  | not a ih =>
    intro h d hd layer before
    simp only [Condition.height] at hd
    have hopen : d < maxNesting := by omega
    have hinside := ih (writable_not.1 h) (show d + 1 + a.height ≤ maxNesting by omega) .not
    exact (Derives.not hopen (kind_not _) (hinside _)).admitted layer.admits_not

end Display

end MailRules
