import MailRules.Condition.Eval
import MailRules.Proofs.Text.Lower

/-!
Texts found as they are written. A predicate compares lower-cased texts, and both of its sides are
lower-cased on their own. Where a needle stands in a text letter by letter it is still missed if one
of its sigmas takes another form there than by itself. So the needles that are never missed are the
ones whose sigmas all have their form from within.

    needle Σ, text ΑΣ       σ in ας     missed
    needle Α, text ΑΣ       α in ας     found
-/

namespace MailRules

namespace Text

/-! ### Texts with sigmas of their own form -/

/-- Every sigma of the text has its form from within the text. -/
def SelfContained (s : List Char) : Prop :=
  ∀ p q, s = p ++ 'Σ' :: q → Settled p.reverse q

theorem selfContained_of_not_mem {s : List Char} (h : 'Σ' ∉ s) : SelfContained s := by
  rintro p q rfl
  simp at h

/-- In a text with one sigma only that one counts. -/
theorem selfContained_of_settled {p q : List Char} (hp : 'Σ' ∉ p) (hq : 'Σ' ∉ q)
    (h : Settled p.reverse q) : SelfContained (p ++ 'Σ' :: q) := by
  intro u v huv
  obtain ⟨rfl, -, rfl⟩ := (List.append_cons_inj_of_notMem hp hq).1 huv
  exact h

theorem SelfContained.lowerBetween_eq {s : List Char} (h : SelfContained s)
    (before after : List Char) : lowerBetween before s after = lower s := by
  rw [lower_eq]
  refine lowerBetween_congr fun p q hs => ?_
  have hsettled := h p q hs
  rw [hsettled.lowerSigma_append, hsettled.lowerSigma_append]

/-- A self-contained text stands in every lower-cased text that holds it. -/
theorem SelfContained.lower_infix {s t : List Char} (h : SelfContained s) (hst : s <:+: t) :
    lower s <:+: lower t := by
  obtain ⟨a, b, rfl⟩ := hst
  rw [lower_append, h.lowerBetween_eq]
  exact List.infix_append _ _ _

/-! ### Texts next to a letter -/

section
variable {s : List Char} {form : Char}

theorem count_lower_letter_behind (hform : form ≠ 'a') :
    (lower (s ++ ['a'])).count form = (lowerBetween [] s ['a']).count form := by
  have hlower : lower (s ++ ['a']) = lowerBetween [] s ['a'] ++ ['a'] := lower_append [] s ['a']
  rw [hlower, List.count_append, List.count_singleton, if_neg (by simpa using hform.symm),
    Nat.add_zero]

theorem count_lower_letter_in_front (hform : form ≠ 'a') :
    (lower ('a' :: s)).count form = (lowerBetween ['a'] s []).count form := by
  have hlower : lower (['a'] ++ s ++ []) = ['a'] ++ lowerBetween ['a'] s [] ++ [] :=
    lower_append ['a'] s []
  rw [List.append_nil, List.append_nil, List.singleton_append, List.singleton_append] at hlower
  rw [hlower, List.count_cons_of_ne hform.symm]

theorem not_lower_infix_of_count (form : Char) {t : List Char}
    (h : (lower t).count form < (lower s).count form) : ¬ lower s <:+: lower t :=
  fun hwithin => Nat.not_le.2 h (hwithin.sublist.count_le form)

/-- Next to some letter a text that is not self-contained comes out otherwise. A letter behind it
takes away a word's end, and one in front of it makes one. -/
theorem exists_not_lower_infix (h : ¬ SelfContained s) : ∃ t, s <:+: t ∧ ¬ lower s <:+: lower t := by
  simp only [SelfContained, not_forall] at h
  obtain ⟨p, q, hs, hunsettled⟩ := h
  obtain ⟨hform, hother⟩ | ⟨hform, hother⟩ := form_changes_of_not_settled hunsettled
  · refine ⟨s ++ ['a'], List.infix_append' [] s ['a'], not_lower_infix_of_count 'ς' ?_⟩
    rw [count_lower_letter_behind (by decide), lower_eq]
    refine count_lowerBetween_lt (fun u v _ hfinal => ?_) hs (by simpa using hother)
      (by simpa using hform)
    rw [List.append_nil v]
    exact lowerSigma_eq_final_of_append hfinal
  · refine ⟨'a' :: s, List.infix_cons List.infix_rfl, not_lower_infix_of_count 'σ' ?_⟩
    rw [count_lower_letter_in_front (by decide), lower_eq]
    refine count_lowerBetween_lt (fun u v _ hmedial => ?_) hs (by simpa using hother)
      (by simpa using hform)
    rw [List.append_nil u.reverse]
    exact lowerSigma_ne_final_of_append hmedial

end

end Text

/-! ### Predicates -/

theorem containsAny_of_mem {text needle : String} {needles : List String} (hmem : needle ∈ needles)
    (h : Text.lower needle.toList <:+: Text.lower text.toList) : containsAny text needles = true :=
  List.any_eq_true.2 ⟨needle, hmem, Text.occursIn_iff.2 h⟩

namespace Condition

/-- Every predicate on the field that looks for the needle is true. -/
structure Finds (schema : Schema) (r : Record) (field needle : String) : Prop where
  one : (contains field (.one needle)).eval schema r = true
  any : ∀ needles, needle ∈ needles → (contains field (.any needles)).eval schema r = true
  isIn : ∀ needles, needle ∈ needles → (isIn field needles).eval schema r = true

theorem finds_iff {schema : Schema} {r : Record} {field needle : String} :
    Finds schema r field needle ↔
      Text.lower needle.toList <:+: Text.lower (schema.read r field).toList := by
  constructor
  · intro h
    have hone := h.one
    simpa [eval, holds, Pattern.needles, containsAny, Text.occursIn_iff] using hone
  · intro h
    exact ⟨containsAny_of_mem List.mem_cons_self h, fun _ hmem => containsAny_of_mem hmem h,
      fun _ hmem => containsAny_of_mem hmem h⟩

/-- A needle is found wherever it stands as it is written exactly if its sigmas have their form from
within. -/
theorem finds_literal_iff (needle : String) :
    (∀ (schema : Schema) (r : Record) (field : String),
      needle.toList <:+: (schema.read r field).toList → Finds schema r field needle) ↔
        Text.SelfContained needle.toList := by
  constructor
  · intro h
    by_contra hopen
    obtain ⟨t, hwithin, hmissed⟩ := Text.exists_not_lower_infix hopen
    -- The identifier can be any text, and it has a name of its own.
    have hread : (default : Schema).read (.new (String.ofList t)) "id" = String.ofList t := rfl
    have hfound := h default (.new (String.ofList t)) "id"
    rw [finds_iff, hread, String.toList_ofList] at hfound
    exact hmissed (hfound hwithin)
  · intro h schema r field hwithin
    exact finds_iff.2 (h.lower_infix hwithin)

/-- A needle with a sigma at the end of a word and the comma behind it, and one whose first letter
becomes two. -/
theorem finds_literal_iff_closed :
    let r := (Record.new "1").set "subject" (.string "ΣΤΗΝ ΟΔΟΣ, İ")
    Text.SelfContained "ΟΔΟΣ,".toList ∧ Finds default r "subject" "ΟΔΟΣ," ∧
      Text.SelfContained "İ".toList ∧ Finds default r "subject" "İ" := by
  intro r
  have hcomma : Text.SelfContained "ΟΔΟΣ,".toList := by
    have hbefore : Text.Nearest "ΟΔΟ".toList.reverse 'Ο' :=
      ⟨[], "ΔΟ".toList, rfl, nofun, by decide +kernel⟩
    have hafter : Text.Nearest ",".toList ',' := ⟨[], [], rfl, nofun, by decide +kernel⟩
    exact Text.selfContained_of_settled (p := "ΟΔΟ".toList) (q := ",".toList) (by decide) (by decide)
      (.enclosed hbefore hafter)
  have hdotted : Text.SelfContained "İ".toList := Text.selfContained_of_not_mem (by decide)
  have hread : (default : Schema).read r "subject" = "ΣΤΗΝ ΟΔΟΣ, İ" := by decide
  refine ⟨hcomma, (finds_literal_iff _).2 hcomma _ _ _ ?_, hdotted,
    (finds_literal_iff _).2 hdotted _ _ _ ?_⟩
  · rw [hread]
    exact ⟨"ΣΤΗΝ ".toList, " İ".toList, by decide⟩
  · rw [hread]
    exact ⟨"ΣΤΗΝ ΟΔΟΣ, ".toList, [], by decide⟩

/-- The end of a word that the needle does not see: the text is `ας` in lower case, the needle `σ`. -/
theorem misses_literal_sigma :
    let r := (Record.new "1").set "subject" (.string "ΑΣ")
    "Σ".toList <:+: (Schema.default.read r "subject").toList ∧
      (contains "subject" (.one "Σ")).eval Schema.default r = false := by
  intro r
  have hread : Schema.default.read r "subject" = "ΑΣ" := by decide
  refine ⟨?_, by decide +kernel⟩
  rw [hread]
  exact ⟨['Α'], [], by decide⟩

end Condition

end MailRules
