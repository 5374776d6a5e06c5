import MailRules.Proofs.Grammar.Alike
import MailRules.Proofs.Grammar.Refusal

/-!
The end of the input. A list of tokens ends at its first token of that kind, whatever text it has and
whatever stands behind it, or where it has no more tokens. Parsing cannot tell the two apart: it comes
to the same program, or to the same error, which stands at the token of the end in one case and at the
last token in the other if it is the end that was found.

    folder A when x               no CONTAINS or IN behind the field, found end of input, at `x`
    folder A when x <end> ...     the same, at `<end>`
    folder A x                    no rule in folder A, found 'x', at `x`
    folder A x <end> ...          the same, at `x`
-/

namespace MailRules.Grammar

open MailRules.Parser

/-- Only the end of the input is shown as such. Words are shown as what they are or between quotes. -/
theorem display_eq_end_iff {t : Token} : t.display = "end of input" ↔ t.kind = .eof := by
  refine ⟨fun h => ?_, display_of_eof⟩
  obtain ⟨kind, text, pos⟩ := t
  have hchars := congrArg String.toList h
  cases kind with
  | eof => rfl
  | keyword k | symbol s | identifier | string =>
    cases text <;> simp [Token.display, Token.Kind.display] at hchars

/-! ### Two ends -/

section
variable {last : Position} {e : Token}

/-- A token that is read, on both sides, or what stands for the end of each. -/
inductive SamePlace (last : Position) (e : Token) : Token → Token → Prop
  | inside {t : Token} : t.kind ≠ .eof → SamePlace last e t t
  | atEnd : SamePlace last e (.eof last) e

/-- What two parses come to, of which the first ends behind a token at `last` and the second at the
token `e`. Only an error that found the end stands at different places. -/
inductive EndsAlike (last : Position) (e : Token) :
    Except ParseError Program → Except ParseError Program → Prop
  | program {p : Program} : EndsAlike last e (.ok p) (.ok p)
  | inside {err : ParseError} : err.found ≠ "end of input" →
      EndsAlike last e (.error err) (.error err)
  | atEnd {x : Expectation} :
      EndsAlike last e (.error ⟨last, x, "end of input"⟩) (.error ⟨e.pos, x, "end of input"⟩)

theorem endsAlike_of_related {x y : Except ParseError Program} (he : e.kind = .eof)
    (h : Related (AlikeError (SamePlace last e)) Eq x y) : EndsAlike last e x y := by
  cases h with
  | ok hp =>
    cases hp
    exact .program
  | error herr =>
    obtain ⟨hplace⟩ := herr
    cases hplace with
    | inside ht => exact .inside (mt display_eq_end_iff.1 ht)
    | atEnd =>
      have hfound : e.display = "end of input" := display_of_eof he
      rw [ParseError.of, ParseError.of, hfound]
      exact .atEnd

/-- Behind the same tokens both ends finish alike, since all that waits for its right side there are
operators among those tokens. -/
theorem related_ends {ts : List Token} (hts : Unended ts) :
    Related (AlikeError (SamePlace last e)) Eq
      (feed State.step .initial ts >>= (·.finish (.eof last)))
      (feed State.step .initial ts >>= (·.finish e)) := by
  have hinitial : AlikeState (SamePlace last e) [] .initial .initial := ⟨rfl, .declaration⟩
  have hread : List.Forall₂ (fun t u => t = u ∧ t.kind ≠ .eof) ts ts :=
    List.forall₂_same.2 fun t ht => ⟨rfl, hts t ht⟩
  refine (Related.feed ?_ hread hinitial).bind fun hs => (related_finish hs .atEnd).imp id ?_
  · rintro s s' t _ hs ⟨rfl, ht⟩
    exact related_step hs (.inside ht) ⟨rfl, rfl, fun _ => rfl⟩
  · exact fun hfolders => congrArg Program.mk hfolders.symm

end

/-- The position of the last token, or the start where there is none. -/
def lastPos (ts : List Token) : Position := (ts.getLast?.map Token.pos).getD .start

/-- Without a token for it, the end is at the last token. -/
theorem parse_of_unended {ts : List Token} (hts : Unended ts) :
    Program.parse ts = feed State.step .initial ts >>= (·.finish (.eof (lastPos ts))) := by
  have hend : endOf .start ts = .eof (lastPos ts) := by
    obtain ⟨t, rest, hsplit, ht, -⟩ | ⟨-, hend⟩ := endOf_cases ts .start
    · have hmem : t ∈ ts := hsplit ▸ List.mem_append_right _ List.mem_cons_self
      exact absurd ht (hts t hmem)
    · exact hend
  rw [Program.parse, run_eq, beforeEnd_eq_self hts, hend]

/-- The end of the input is one thing. Nothing behind its first token is looked at, and without such a
token parsing comes to the same program, or to an error with the same texts, at the same place unless
it found the end. -/
theorem parse_end_alike (ts : List Token) (unended : Unended ts) (e : Token) (ends : e.kind = .eof)
    (rest : List Token) :
    Program.parse (ts ++ e :: rest) = Program.parse (ts ++ [e]) ∧
      EndsAlike (lastPos ts) e (Program.parse ts) (Program.parse (ts ++ [e])) := by
  rw [parse_append unended ends rest, parse_append unended ends [], parse_of_unended unended]
  exact ⟨rfl, endsAlike_of_related ends (related_ends unended)⟩

/-- A rule that breaks off behind its condition. What stands behind the end would have completed it. -/
theorem parse_end_alike_cut :
    let ts := [word .folder, name "A", word .when, name "x", word .contains,
      ⟨.string, some "y", ⟨2, 7⟩⟩]
    let e : Token := ⟨.eof, some "then", ⟨5, 1⟩⟩
    let rest := [word .thenWord, word .auto]
    Unended ts ∧ e.kind = .eof ∧
      Program.parse (ts ++ e :: rest) = Program.parse (ts ++ [e]) ∧
      EndsAlike ⟨2, 7⟩ e (Program.parse ts) (Program.parse (ts ++ [e])) ∧
      Program.parse ts = .error ⟨⟨2, 7⟩, .conclusion, "end of input"⟩ ∧
      Program.parse (ts ++ e :: rest) = .error ⟨⟨5, 1⟩, .conclusion, "end of input"⟩ := by
  intro ts e rest
  have hts : Unended ts := by simp [ts, Unended, word, name]
  obtain ⟨hrest, halike⟩ := parse_end_alike ts hts e rfl rest
  exact ⟨hts, rfl, hrest, halike, rfl, rfl⟩

end MailRules.Grammar
