import Mathlib.Data.List.Basic
import MailRules.Text.Lower

/-!
Lower-casing of a stretch inside a text. Only a capital sigma looks at what stands around it, so a
stretch comes out as it does alone but for its sigmas, and of these only the ones whose form hangs on
characters outside the stretch.

    Σ     alone  σ      behind Α        ς      the form hangs on what is in front
    ΑΣ    alone  ας     in front of Α   ασ     the form hangs on what is behind
    ΑΣ,   alone  ας,    anywhere        ας,
-/

namespace MailRules.Text

/-! ### What a sigma sees -/

/-- The first character that is not case-ignorable. -/
def Nearest (s : List Char) (c : Char) : Prop :=
  ∃ ignored rest, s = ignored ++ c :: rest ∧ (∀ d ∈ ignored, isIgnorable d = true) ∧
    isIgnorable c = false

theorem nearest_or_ignorable (s : List Char) :
    (∃ c, Nearest s c) ∨ ∀ d ∈ s, isIgnorable d = true := by
  induction s with
  | nil => exact .inr nofun
  | cons c s ih =>
    cases hc : isIgnorable c with
    | false => exact .inl ⟨c, [], s, rfl, nofun, hc⟩
    | true =>
      obtain ⟨d, ignored, rest, rfl, hignored, hd⟩ | hs := ih
      · exact .inl ⟨d, c :: ignored, rest, rfl, List.forall_mem_cons.2 ⟨hc, hignored⟩, hd⟩
      · exact .inr (List.forall_mem_cons.2 ⟨hc, hs⟩)

/-- Nothing is seen past the nearest character. -/
theorem Nearest.meetsCased_append {s : List Char} {c : Char} (h : Nearest s c) (t : List Char) :
    meetsCased (s ++ t) = isCased c := by
  obtain ⟨ignored, rest, rfl, hignored, hc⟩ := h
  have hdrop : (ignored ++ c :: rest ++ t).dropWhile isIgnorable = c :: (rest ++ t) := by
    rw [List.append_assoc, List.dropWhile_append_of_pos hignored]
    simp [hc]
  rw [meetsCased, hdrop]

theorem Nearest.meetsCased_eq {s : List Char} {c : Char} (h : Nearest s c) :
    meetsCased s = isCased c := by
  simpa using h.meetsCased_append []

theorem meetsCased_append_of_ignorable {s : List Char} (h : ∀ d ∈ s, isIgnorable d = true)
    (t : List Char) : meetsCased (s ++ t) = meetsCased t := by
  rw [meetsCased, meetsCased, List.dropWhile_append_of_pos h]

theorem meetsCased_of_ignorable {s : List Char} (h : ∀ d ∈ s, isIgnorable d = true) :
    meetsCased s = false := by
  simpa [meetsCased] using meetsCased_append_of_ignorable h []

/-- More text further out hides nothing that is cased. -/
theorem meetsCased_append_of_meetsCased {s : List Char} (h : meetsCased s = true) (t : List Char) :
    meetsCased (s ++ t) = true := by
  obtain ⟨c, hc⟩ | hs := nearest_or_ignorable s
  · rwa [hc.meetsCased_append, ← hc.meetsCased_eq]
  · rw [meetsCased_of_ignorable hs] at h
    cases h

theorem lowerSigma_eq_final_iff {before after : List Char} :
    lowerSigma before after = 'ς' ↔ meetsCased before = true ∧ meetsCased after = false := by
  unfold lowerSigma
  cases meetsCased before <;> cases meetsCased after <;> decide

theorem lowerSigma_ne_final_iff {before after : List Char} :
    lowerSigma before after = 'σ' ↔ ¬ lowerSigma before after = 'ς' := by
  unfold lowerSigma
  split <;> decide

/-- The end of a word stays one where the text behind it is cut off. -/
theorem lowerSigma_eq_final_of_append {before after x : List Char}
    (h : lowerSigma before (after ++ x) = 'ς') : lowerSigma before after = 'ς' := by
  rw [lowerSigma_eq_final_iff] at h ⊢
  refine ⟨h.1, Bool.eq_false_iff.2 fun hcased => ?_⟩
  rw [meetsCased_append_of_meetsCased hcased x] at h
  exact Bool.noConfusion h.2

/-- A sigma that ends no word ends none where the text in front of it is cut off. -/
theorem lowerSigma_ne_final_of_append {before after x : List Char}
    (h : lowerSigma (before ++ x) after = 'σ') : lowerSigma before after = 'σ' := by
  rw [lowerSigma_ne_final_iff, lowerSigma_eq_final_iff] at h ⊢
  intro hfinal
  exact h ⟨meetsCased_append_of_meetsCased hfinal.1 x, hfinal.2⟩

/-! ### Sigmas of their own form -/

/-- What stands next to a sigma settles its form, whatever stands further out. -/
inductive Settled (before after : List Char) : Prop
  | leading {c : Char} : Nearest before c → isCased c = false → Settled before after
  | medial {c : Char} : Nearest after c → isCased c = true → Settled before after
  | enclosed {c d : Char} : Nearest before c → Nearest after d → Settled before after

theorem Settled.lowerSigma_append {before after : List Char} (h : Settled before after)
    (x y : List Char) : lowerSigma (before ++ x) (after ++ y) = lowerSigma before after := by
  unfold lowerSigma
  cases h with
  | leading hb hcased => rw [hb.meetsCased_append, hb.meetsCased_eq, hcased]; rfl
  | medial ha hcased =>
    rw [ha.meetsCased_append, ha.meetsCased_eq, hcased, Bool.not_true, Bool.and_false, Bool.and_false]
  | enclosed hb ha =>
    rw [hb.meetsCased_append, hb.meetsCased_eq, ha.meetsCased_append, ha.meetsCased_eq]

/-- A sigma that is not settled changes its form next to a letter, behind it or in front of it. -/
theorem form_changes_of_not_settled {before after : List Char} (h : ¬ Settled before after) :
    lowerSigma before after = 'ς' ∧ lowerSigma before (after ++ ['a']) ≠ 'ς' ∨
      lowerSigma before after = 'σ' ∧ lowerSigma (before ++ ['a']) after ≠ 'σ' := by
  have hletter : meetsCased ['a'] = true := by decide +kernel
  simp only [lowerSigma_ne_final_iff, Ne, not_not, lowerSigma_eq_final_iff]
  obtain ⟨c, hb⟩ | hb := nearest_or_ignorable before <;>
    obtain ⟨d, ha⟩ | ha := nearest_or_ignorable after
  · exact absurd (.enclosed hb ha) h
  · -- A letter is in front, and nothing is behind but the end of the stretch.
    have hcased : isCased c = true := by
      by_contra hno
      exact h (.leading hb (Bool.eq_false_iff.2 hno))
    left
    rw [hb.meetsCased_eq, meetsCased_of_ignorable ha, meetsCased_append_of_ignorable ha]
    simp [hcased, hletter]
  · -- Nothing is in front, and what is behind is no letter.
    have hcased : isCased d = false := by
      by_contra hno
      exact h (.medial ha (Bool.not_eq_false _ ▸ hno))
    right
    rw [ha.meetsCased_eq, meetsCased_of_ignorable hb, meetsCased_append_of_ignorable hb]
    simp [hcased, hletter]
  · right
    rw [meetsCased_of_ignorable ha, meetsCased_of_ignorable hb, meetsCased_append_of_ignorable hb]
    simp [hletter]

/-! ### Stretches -/

/-- Lower-cases `s` between the text `before` it, nearest character first, and the text `after` it. -/
def lowerBetween : List Char → List Char → List Char → List Char
  | _, [], _ => []
  | before, c :: s, after =>
    (if c = 'Σ' then [lowerSigma before (s ++ after)] else lowerChar c) ++
      lowerBetween (c :: before) s after

theorem lowerBetween_nil (s : List Char) :
    ∀ before, lowerBetween before s [] = lowerAfter before s := by
  induction s with
  | nil => exact fun _ => rfl
  | cons c s ih =>
    intro before
    rw [lowerBetween, lowerAfter, ih, List.append_nil]

theorem lower_eq (s : List Char) : lower s = lowerBetween [] s [] := (lowerBetween_nil s []).symm

theorem lowerBetween_append (s t after : List Char) :
    ∀ before, lowerBetween before (s ++ t) after =
      lowerBetween before s (t ++ after) ++ lowerBetween (s.reverse ++ before) t after := by
  induction s with
  | nil => exact fun _ => rfl
  | cons c s ih =>
    intro before
    rw [List.cons_append, lowerBetween, lowerBetween, ih]
    simp

/-- A stretch stands in the lower-cased text as it is lower-cased in its place. -/
theorem lower_append (a s b : List Char) : lower (a ++ s ++ b) =
    lowerBetween [] a (s ++ b) ++ lowerBetween a.reverse s b ++
      lowerBetween (s.reverse ++ a.reverse) b [] := by
  rw [lower_eq, List.append_assoc, lowerBetween_append, lowerBetween_append, List.append_assoc]
  simp

section
variable {s before before' after after' : List Char}

/-- Only the forms of its sigmas tell what becomes of a stretch. -/
theorem lowerBetween_congr (h : ∀ p q, s = p ++ 'Σ' :: q →
      lowerSigma (p.reverse ++ before) (q ++ after) =
        lowerSigma (p.reverse ++ before') (q ++ after')) :
    lowerBetween before s after = lowerBetween before' s after' := by
  induction s generalizing before before' with
  | nil => rfl
  | cons c s ih =>
    have hrest : lowerBetween (c :: before) s after = lowerBetween (c :: before') s after' := by
      refine ih fun p q hs => ?_
      simpa using h (c :: p) q (congrArg (c :: ·) hs)
    rw [lowerBetween, lowerBetween, hrest]
    by_cases hc : c = 'Σ'
    · subst hc
      have hfirst : lowerSigma before (s ++ after) = lowerSigma before' (s ++ after') :=
        h [] s rfl
      rw [hfirst]
    · rw [if_neg hc, if_neg hc]

/-- Where every sigma that has the form in one place has it in the other, the form comes up there at
least as often. -/
theorem count_lowerBetween_le {form : Char} (h : ∀ p q, s = p ++ 'Σ' :: q →
      lowerSigma (p.reverse ++ before) (q ++ after) = form →
        lowerSigma (p.reverse ++ before') (q ++ after') = form) :
    (lowerBetween before s after).count form ≤ (lowerBetween before' s after').count form := by
  induction s generalizing before before' with
  | nil => exact Nat.le_refl _
  | cons c s ih =>
    have hrest : (lowerBetween (c :: before) s after).count form ≤
        (lowerBetween (c :: before') s after').count form := by
      refine ih fun p q hs => ?_
      simpa using h (c :: p) q (congrArg (c :: ·) hs)
    rw [lowerBetween, lowerBetween, List.count_append, List.count_append]
    refine Nat.add_le_add ?_ hrest
    by_cases hc : c = 'Σ'
    · subst hc
      have hfirst : lowerSigma before (s ++ after) = form → lowerSigma before' (s ++ after') = form :=
        h [] s rfl
      rw [if_pos rfl, if_pos rfl, List.count_singleton, List.count_singleton]
      by_cases hform : lowerSigma before (s ++ after) = form
      · exact Nat.le_of_eq (by rw [hfirst hform, hform])
      · simp [hform]
    · exact Nat.le_of_eq (by rw [if_neg hc, if_neg hc])

/-- And more often, if one more sigma has it there. -/
theorem count_lowerBetween_lt {form : Char} {p q : List Char} (h : ∀ p q, s = p ++ 'Σ' :: q →
      lowerSigma (p.reverse ++ before) (q ++ after) = form →
        lowerSigma (p.reverse ++ before') (q ++ after') = form)
    (hs : s = p ++ 'Σ' :: q) (hform : lowerSigma (p.reverse ++ before) (q ++ after) ≠ form)
    (hform' : lowerSigma (p.reverse ++ before') (q ++ after') = form) :
    (lowerBetween before s after).count form < (lowerBetween before' s after').count form := by
  subst hs
  have hleft : (lowerBetween before p ('Σ' :: q ++ after)).count form ≤
      (lowerBetween before' p ('Σ' :: q ++ after')).count form :=
    count_lowerBetween_le fun u v hu => by simpa [hu] using h u (v ++ 'Σ' :: q) (by simp [hu])
  have hright : (lowerBetween ('Σ' :: (p.reverse ++ before)) q after).count form ≤
      (lowerBetween ('Σ' :: (p.reverse ++ before')) q after').count form :=
    count_lowerBetween_le fun u v hu => by simpa [hu] using h (p ++ 'Σ' :: u) v (by simp [hu])
  rw [lowerBetween_append, lowerBetween_append, lowerBetween, lowerBetween, if_pos rfl, if_pos rfl,
    hform']
  simp only [List.count_append, List.count_singleton_self, List.count_singleton, beq_iff_eq, hform,
    if_false]
  omega

end

end MailRules.Text
