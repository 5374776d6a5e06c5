import Mathlib.Data.List.Forall2
import MailRules.Text.Lower

/-!
The ASCII case of letters in a text, and why lower-casing does away with it. Only a capital sigma
looks at what stands around it, and it asks two things of a character: whether it is cased, and
whether it is looked past. For an ASCII letter neither hangs on the letter's case.

    ΑΣ.x ΑΣ.     ασ.x ας.      the letter behind the dot is seen by the first sigma
    ΑΣ.X ΑΣ.     ασ.x ας.
-/

namespace MailRules.Text

/-- The same character, but for the case of an ASCII letter. -/
def SameLetter (c d : Char) : Prop := c.toLower = d.toLower

/-- The same text, but for the case of ASCII letters. -/
def Recased (s t : String) : Prop := List.Forall₂ SameLetter s.toList t.toList

theorem Recased.refl (s : String) : Recased s s := List.forall₂_same.2 fun _ _ => rfl

/-! ### One character -/

/-- An ASCII letter, in either case. -/
def IsLetter (c : Char) : Prop := 65 ≤ c.toNat ∧ c.toNat ≤ 90 ∨ 97 ≤ c.toNat ∧ c.toNat ≤ 122

theorem toNat_toLower (c : Char) :
    c.toLower.toNat = if 65 ≤ c.toNat ∧ c.toNat ≤ 90 then c.toNat + 32 else c.toNat := by
  have hval : ∀ n : UInt32, n ≤ c.val ↔ n.toNat ≤ c.toNat := fun _ => UInt32.le_iff_toNat_le
  have hval' : ∀ n : UInt32, c.val ≤ n ↔ c.toNat ≤ n.toNat := fun _ => UInt32.le_iff_toNat_le
  unfold Char.toLower
  split
  · next hupper =>
    have hrange : 65 ≤ c.toNat ∧ c.toNat ≤ 90 := ⟨(hval _).1 hupper.1, (hval' _).1 hupper.2⟩
    rw [if_pos hrange]
    change (c.val + 32).toNat = c.val.toNat + 32
    have hbound : c.val.toNat ≤ 90 := hrange.2
    rw [UInt32.toNat_add]
    change (c.val.toNat + 32) % 2 ^ 32 = _
    omega
  · next hupper =>
    rw [if_neg fun hrange => hupper ⟨(hval _).2 hrange.1, (hval' _).2 hrange.2⟩]

section
variable {c d : Char}

/-- Only letters come in two cases. -/
theorem SameLetter.eq_or_letters (h : SameLetter c d) : c = d ∨ IsLetter c ∧ IsLetter d := by
  have hcode := congrArg Char.toNat h
  rw [toNat_toLower, toNat_toLower] at hcode
  by_cases heq : c.toNat = d.toNat
  · exact .inl (Char.toNat_inj.1 heq)
  · right
    unfold IsLetter
    split at hcode <;> split at hcode <;> omega

theorem IsLetter.isCased (h : IsLetter c) : isCased c = true := by
  have htable : ⟨65, 90⟩ ∈ casedTable ∧ ⟨97, 122⟩ ∈ casedTable := by decide
  obtain ⟨hlow, hhigh⟩ | ⟨hlow, hhigh⟩ := h
  · exact List.any_eq_true.2 ⟨⟨65, 90⟩, htable.1, by simp [Range.covers, hlow, hhigh]⟩
  · exact List.any_eq_true.2 ⟨⟨97, 122⟩, htable.2, by simp [Range.covers, hlow, hhigh]⟩

theorem IsLetter.not_isIgnorable (h : IsLetter c) : isIgnorable c = false := by
  have htable : ∀ r ∈ ignorableTable,
      r.last < 65 ∨ 90 < r.first ∧ r.last < 97 ∨ 122 < r.first := by decide +kernel
  refine List.any_eq_false.2 fun r hr hcovers => ?_
  obtain ⟨hfirst, hlast⟩ : r.first ≤ c.toNat ∧ c.toNat ≤ r.last := by
    simpa [Range.covers] using hcovers
  have hgap := htable r hr
  unfold IsLetter at h
  omega

theorem IsLetter.lowerChar (h : IsLetter c) : lowerChar c = [c.toLower] := by
  have hascii : c.toNat < 0x80 := by unfold IsLetter at h; omega
  rw [Text.lowerChar, if_pos hascii]

theorem IsLetter.ne_sigma (h : IsLetter c) : c ≠ 'Σ' := by
  rintro rfl
  have hcode : ('Σ' : Char).toNat = 931 := rfl
  unfold IsLetter at h
  omega

theorem SameLetter.isCased_eq (h : SameLetter c d) : isCased c = isCased d := by
  obtain rfl | ⟨hc, hd⟩ := h.eq_or_letters
  · rfl
  · rw [hc.isCased, hd.isCased]

theorem SameLetter.isIgnorable_eq (h : SameLetter c d) : isIgnorable c = isIgnorable d := by
  obtain rfl | ⟨hc, hd⟩ := h.eq_or_letters
  · rfl
  · rw [hc.not_isIgnorable, hd.not_isIgnorable]

theorem SameLetter.lowerChar_eq (h : SameLetter c d) : lowerChar c = lowerChar d := by
  obtain rfl | ⟨hc, hd⟩ := h.eq_or_letters
  · rfl
  · rw [hc.lowerChar, hd.lowerChar, h]

theorem SameLetter.eq_sigma_iff (h : SameLetter c d) : c = 'Σ' ↔ d = 'Σ' := by
  obtain rfl | ⟨hc, hd⟩ := h.eq_or_letters
  · rfl
  · exact iff_of_false hc.ne_sigma hd.ne_sigma

end

/-! ### Whole texts -/

theorem forall₂_sameLetter_iff {s t : List Char} :
    List.Forall₂ SameLetter s t ↔ s.map Char.toLower = t.map Char.toLower := by
  rw [← List.forall₂_eq_eq_eq, List.forall₂_map_left_iff, List.forall₂_map_right_iff]
  rfl

instance (s t : String) : Decidable (Recased s t) :=
  decidable_of_iff _ forall₂_sameLetter_iff.symm

theorem meetsCased_cons (c : Char) (s : List Char) :
    meetsCased (c :: s) = if isIgnorable c then meetsCased s else isCased c := by
  unfold meetsCased
  cases hc : isIgnorable c <;> simp [hc]

/-- However far a sigma looks, it sees the same. -/
theorem meetsCased_recased {s t : List Char} (h : List.Forall₂ SameLetter s t) :
    meetsCased s = meetsCased t := by
  induction h with
  | nil => rfl
  | cons hc _ ih => rw [meetsCased_cons, meetsCased_cons, hc.isIgnorable_eq, hc.isCased_eq, ih]

theorem lowerAfter_recased {s t : List Char} (h : List.Forall₂ SameLetter s t) :
    ∀ {before before' : List Char}, List.Forall₂ SameLetter before before' →
      lowerAfter before s = lowerAfter before' t := by
  induction h with
  | nil => exact fun _ => rfl
  | @cons c d s t hc hs ih =>
    intro before before' hbefore
    have hrest : lowerAfter (c :: before) s = lowerAfter (d :: before') t := ih (.cons hc hbefore)
    have hsigma : lowerSigma before s = lowerSigma before' t := by
      rw [lowerSigma, lowerSigma, meetsCased_recased hbefore, meetsCased_recased hs]
    simp only [lowerAfter, hc.eq_sigma_iff, hc.lowerChar_eq, hsigma, hrest]

/-- Lower-casing does not see the case of ASCII letters, whatever else the text holds. -/
theorem Recased.lower_eq {s t : String} (h : Recased s t) : lower s.toList = lower t.toList :=
  lowerAfter_recased h .nil

end MailRules.Text
