import MailRules.Proofs.Grammar.Sentence
import MailRules.Proofs.Lexical.Tokenize

/-!
Programs of texts. The tokens of a text end with the only one that stands for the end of the input,
so the parser reads all of them, and what it makes of them is what the text comes to.
-/

namespace MailRules

namespace Lexical

open Grammar (Unended)

theorem Tokens.unended {before : List Char} {parts : List Part} {ts : List Token}
    (h : Tokens before parts ts) : Unended ts := by
  induction h with
  | nil => exact Grammar.unended_nil
  | cons hmake _ ih => exact Grammar.unended_cons.2 ⟨hmake.kind_ne_eof, ih⟩

theorem unended_of_tokenize {text : String} {ts : List Token} (h : tokenize text = .ok ts) :
    ∃ us pos, ts = us ++ [Token.eof pos] ∧ Unended us := by
  obtain ⟨s, hs, hfinish⟩ := bind_eq_ok h
  obtain ⟨parts, gap, tokens, -, -, -, htokens, rfl⟩ :=
    finish_eq_ok (feed_invariant took_step _ took_initial hs) hfinish
  exact ⟨tokens, _, rfl, htokens.unended⟩

end Lexical

namespace Program

theorem ofText_of_tokenize {text : String} {ts : List Token} (h : tokenize text = .ok ts) :
    ofText text = (parse ts).mapError .parse := by
  simp only [ofText, h]
  cases parse ts <;> rfl

theorem ofText_eq_ok {text : String} {p : Program} (h : ofText text = .ok p) :
    ∃ ts, tokenize text = .ok ts ∧ parse ts = .ok p := by
  unfold ofText at h
  split at h
  · cases h
  · next ts hts =>
    split at h
    · cases h
    · next hp =>
      cases h
      exact ⟨ts, hts, hp⟩

end Program
end MailRules
