import MailRules.Proofs.Lexical.Tokenize
import MailRules.Proofs.Lockstep

/-!
Texts on consecutive lines. A line feed closes whatever the lexer was in the middle of, so behind it
the next text is read as if it stood alone, some lines further down.

    folder                [folder 1:1]
    A when                [A 2:1] [when 2:3]
-/

namespace MailRules

/-! ### Further down -/

/-- The place some lines further down. -/
def Position.down (p : Position) (n : Nat) : Position := ⟨p.line + n, p.column⟩

def Token.down (t : Token) (n : Nat) : Token := { t with pos := t.pos.down n }

def LexError.down (e : LexError) (n : Nat) : LexError :=
  match e with
  | .unexpectedChar c pos => .unexpectedChar c (pos.down n)
  | .unterminatedString pos => .unterminatedString (pos.down n)

theorem Position.next_down (p : Position) (c : Char) (n : Nat) :
    (p.next c).down n = (p.down n).next c := by
  unfold Position.next
  split
  · simp only [Position.down, Nat.add_right_comm]
  · rfl

namespace Lexer

def Pending.down (p : Pending) (n : Nat) : Pending :=
  match p with
  | .between => .between
  | .word start read => .word (start.down n) read
  | .quoted start read => .quoted (start.down n) read

/-- The state some lines further down, with the tokens of the lines above. -/
def State.below (s : State) (n : Nat) (above : List Token) : State :=
  ⟨s.pos.down n, s.pending.down n, s.tokens.map (·.down n) ++ above⟩

end Lexer

namespace Lexical

open Lexer

/-- The number of lines of a text. -/
def lineCount (text : String) : Nat := 1 + text.toList.count '\n'

section
variable (n : Nat) (above : List Token)

/-- The same state further down. -/
def Below (s s' : State) : Prop := s' = s.below n above

theorem related_begin (pos : Position) (ts : List Token) (c : Char) :
    Related (fun e e' => e' = e.down n) (Below n above) (begin pos ts c)
      (begin (pos.down n) (ts.map (·.down n) ++ above) c) := by
  unfold begin
  rw [← Position.next_down]
  split
  · exact .ok rfl
  · split
    · exact .ok rfl
    · split
      · exact .ok rfl
      · split
        · exact .ok rfl
        · exact .error rfl

theorem related_step (s : State) (c : Char) :
    Related (fun e e' => e' = e.down n) (Below n above) (step s c) (step (s.below n above) c) := by
  obtain ⟨pos, pending, tokens⟩ := s
  cases pending with
  | between => exact related_begin n above pos tokens c
  | word start read =>
    simp only [step, State.below, Pending.down]
    split
    · exact .ok (by rw [← Position.next_down]; rfl)
    · exact related_begin n above pos (wordToken start read :: tokens) c
  | quoted start read =>
    simp only [step, State.below, Pending.down, ← Position.next_down]
    split
    · exact .ok rfl
    · exact .ok rfl

theorem related_finish (s : State) :
    Related (fun e e' => e' = e.down n) (fun ts ts' => ts' = above.reverse ++ ts.map (·.down n))
      (finish s) (finish (s.below n above)) := by
  obtain ⟨pos, pending, tokens⟩ := s
  cases pending with
  | between => exact .ok (by simp [State.below, Token.down, Token.eof])
  | word start read => exact .ok (by simp [State.below, Token.down, Token.eof, wordToken])
  | quoted start read => exact .error rfl

/-- Further down a text is read as it is at the top. -/
theorem scan_below (s : State) (cs : List Char) : scan (s.below n above) cs =
    ((scan s cs).map fun ts => above.reverse ++ ts.map (·.down n)).mapError (·.down n) := by
  have hcs : List.Forall₂ Eq cs cs := List.forall₂_eq_eq_eq ▸ rfl
  have hread : Related (fun e e' => e' = LexError.down e n) (Below n above) (feed step s cs)
      (feed step (s.below n above) cs) := by
    refine Related.feed ?_ hcs rfl
    rintro s _ c _ rfl rfl
    exact related_step n above s c
  refine Related.eq_map (hread.bind ?_)
  rintro s _ rfl
  exact related_finish n above s

end

theorem begin_lineFeed (u : List Char) (ts : List Token) :
    begin (placeAfter u) ts '\n' = .ok (State.initial.below (1 + u.count '\n') ts) := by
  rw [begin_blank rfl]
  have hpos : (placeAfter u).next '\n' = Position.start.down (1 + u.count '\n') :=
    congrArg (Position.mk · 1) (Nat.add_comm ..)
  rw [hpos]
  rfl

/-- A line feed leaves the lexer between lexemes, if the text could end there. -/
theorem step_lineFeed {s : State} {u : List Char} {ts : List Token} (h : Took s u)
    (hs : finish s = .ok ts) :
    step s '\n' = .ok (State.initial.below (1 + u.count '\n') ts.dropLast.reverse) := by
  cases h with
  | between =>
    cases hs
    rw [List.reverse_cons, List.dropLast_concat, List.reverse_reverse]
    exact begin_lineFeed ..
  | word =>
    cases hs
    rw [List.reverse_cons, List.dropLast_concat, List.reverse_reverse]
    exact begin_lineFeed ..
  | quoted => cases hs

/-- Two texts with a line feed between them have the tokens of the first, but for its end, and those
of the second below. If the second has none, that is the error, below. -/
theorem tokenize_join {a : String} {ts : List Token} (h : tokenize a = .ok ts) (b : String) :
    tokenize (a ++ "\n" ++ b) =
      ((tokenize b).map fun us => ts.dropLast ++ us.map (·.down (lineCount a))).mapError
        (·.down (lineCount a)) := by
  obtain ⟨s, hs, hfinish⟩ := bind_eq_ok h
  have hline := step_lineFeed (feed_invariant took_step _ took_initial hs) hfinish
  have htext : (a ++ "\n" ++ b).toList = a.toList ++ '\n' :: b.toList := by simp
  have hread : feed step .initial (a.toList ++ '\n' :: b.toList) =
      feed step (State.initial.below (lineCount a) ts.dropLast.reverse) b.toList := by
    rw [feed_append_of_ok hs, feed_of_step hline]
    rfl
  change feed step .initial (a ++ "\n" ++ b).toList >>= finish = _
  rw [htext, hread]
  have hbelow := scan_below (lineCount a) ts.dropLast.reverse .initial b.toList
  rwa [List.reverse_reverse] at hbelow

end Lexical
end MailRules
