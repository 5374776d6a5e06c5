import MailRules.Proofs.Grammar.Alike
import MailRules.Proofs.Grammar.Refusal
import MailRules.Proofs.Text.Case

/-!
Tokens written otherwise: at other places, and keywords in other case. Parsing comes to the same
program, or fails at the token with the same index for the same reason.

    folder A      when sender then auto       no CONTAINS or IN behind the field 'sender':
    Folder A When SENDER      THEN auto       both fail at the token with index 4
-/

namespace MailRules

/-- The same token, perhaps at another place, and perhaps in other case where it is a keyword. -/
structure Token.Respelled (t t' : Token) : Prop where
  kind : t'.kind = t.kind
  text : t'.text = t.text ∨ t.kind.isKeyword = true ∧ Option.Rel Text.Recased t.text t'.text

/-- Keywords are fields by their lower case, and nothing else is asked of the text of a keyword. -/
theorem Token.Respelled.alike {t t' : Token} (h : t.Respelled t') : t.Alike t' := by
  obtain ⟨kind, text, pos⟩ := t
  obtain ⟨kind', text', pos'⟩ := t'
  obtain ⟨rfl, rfl | ⟨hkeyword, htext⟩⟩ := h
  · exact ⟨rfl, rfl, fun _ => rfl⟩
  · refine ⟨rfl, ?_, fun hno => absurd hkeyword (by simp [hno])⟩
    cases htext with
    | none => rfl
    | some hs =>
      cases kind' with
      | keyword k => cases k <;> simp [Token.field?, Token.spelling, ← Text.forall₂_sameLetter_iff.1 hs]
      | _ => cases hkeyword

namespace Grammar

open MailRules.Parser

/-! ### Indices -/

/-- The token with an index. One that stands for the end of the input is behind the others, where the
list has none. -/
inductive TokenAt (ts : List Token) : Nat → Token → Prop
  | inside {i : Nat} {t : Token} : ts[i]? = some t → TokenAt ts i t
  | behind : Unended ts → TokenAt ts ts.length (.eof ((ts.getLast?.map Token.pos).getD .start))

/-- Tokens of two lists with the same index. -/
def SameIndex (ts us : List Token) (t u : Token) : Prop := ∃ i, TokenAt ts i t ∧ TokenAt us i u

theorem tokenAt_endOf (ts : List Token) : TokenAt ts (beforeEnd ts).length (endOf .start ts) := by
  obtain ⟨t, rest, hts, -, hend⟩ | ⟨hts, hend⟩ := endOf_cases ts .start
  · have hget : (beforeEnd ts ++ t :: rest)[(beforeEnd ts).length]? = some t := by simp
    rw [← hts] at hget
    exact hend ▸ .inside hget
  · have hunended := unended_beforeEnd ts
    rw [← hts] at hunended ⊢
    rw [hend]
    exact .behind hunended

section
variable {ts us : List Token} {t u : Token}

theorem SameIndex.respelled (h : List.Forall₂ Token.Respelled ts us) (hs : SameIndex ts us t u) :
    t.Respelled u := by
  obtain ⟨i, ht, hu⟩ := hs
  have hlength := h.length_eq
  cases ht with
  | inside ht =>
    obtain ⟨hi, rfl⟩ := List.getElem?_eq_some_iff.1 ht
    cases hu with
    | inside hu =>
      obtain ⟨hi', rfl⟩ := List.getElem?_eq_some_iff.1 hu
      exact (List.forall₂_iff_get.1 h).2 i hi hi'
    | behind => exact absurd hi (by omega)
  | behind =>
    generalize hi : ts.length = i at hu
    cases hu with
    | inside hu =>
      obtain ⟨hi', -⟩ := List.getElem?_eq_some_iff.1 hu
      exact absurd hi' (by omega)
    | behind => exact ⟨rfl, .inl rfl⟩

theorem forall₂_sameIndex (h : List.Forall₂ Token.Respelled ts us) :
    List.Forall₂ (SameIndex ts us) ts us :=
  List.forall₂_iff_get.2 ⟨h.length_eq, fun i hi hi' =>
    ⟨i, .inside (List.getElem?_eq_getElem hi), .inside (List.getElem?_eq_getElem hi')⟩⟩

theorem forall₂_beforeEnd {R : Token → Token → Prop} (hR : ∀ {t u}, R t u → u.kind = t.kind)
    (h : List.Forall₂ R ts us) : List.Forall₂ R (beforeEnd ts) (beforeEnd us) := by
  induction h with
  | nil => exact .nil
  | @cons t u ts us htu _ ih =>
    by_cases ht : t.kind = .eof
    · simp [beforeEnd, hR htu, ht]
    · simpa [beforeEnd, hR htu, ht, htu] using ih

/-- Tokens written otherwise come to the same program, or to the same error at the same index. -/
theorem parse_respelled (h : List.Forall₂ Token.Respelled ts us) :
    Related (AlikeError (SameIndex ts us)) Eq (Program.parse ts) (Program.parse us) := by
  have halike : ∀ {t u}, SameIndex ts us t u → t.Alike u := fun hs => (hs.respelled h).alike
  have hread : List.Forall₂ (SameIndex ts us) (beforeEnd ts) (beforeEnd us) :=
    forall₂_beforeEnd (fun hs => (halike hs).kind) (forall₂_sameIndex h)
  have hend : SameIndex ts us (endOf .start ts) (endOf .start us) :=
    ⟨(beforeEnd ts).length, tokenAt_endOf ts, hread.length_eq ▸ tokenAt_endOf us⟩
  have hinitial : AlikeState (SameIndex ts us) [] .initial .initial := ⟨rfl, .declaration⟩
  rw [Program.parse, Program.parse, run_eq, run_eq]
  refine (related_feed halike hread hinitial).bind fun hs => (related_finish hs hend).imp id ?_
  exact fun hfolders => congrArg Program.mk hfolders.symm

end
end Grammar
end MailRules
