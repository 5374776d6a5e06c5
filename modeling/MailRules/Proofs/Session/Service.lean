import MailRules.Proofs.Routing.Fate
import MailRules.Session

/-!
Requests served by one session, one after the other. Which record of an identifier is routed depends
on the order in which the requests come. That it is routed, and once only, does not: the marks at
the end are those of the beginning and the identifiers that some request calls for.
-/

namespace MailRules.Session

open Routing

/-- A program to be run on records. -/
structure Request where
  program : Program
  schema : Schema
  records : List Record

/-- Serves the requests in order: their reports, and the session after them. -/
def serve : Session → List Request → List Report × Session
  | s, [] => ([], s)
  | s, q :: rest =>
    let (report, s) := s.runProgram q.program q.schema q.records
    let (reports, s) := serve s rest
    (report :: reports, s)

/-- Some request has a record of the identifier that a rule of its program is true of. -/
def Called (requests : List Request) (id : String) : Prop :=
  ∃ q ∈ requests, ∃ r ∈ q.records, r.id = id ∧ Matched q.program q.schema r

/-- The log entries of all reports, in order. -/
def logOf (reports : List Report) : List LogEntry := reports.flatMap (·.log)

/-- How often the reports name the identifier. -/
def entries (reports : List Report) (id : String) : Nat :=
  ((logOf reports).map (·.recordId)).count id

theorem called_cons {q : Request} {rest : List Request} {id : String} :
    Called (q :: rest) id ↔
      (∃ r ∈ q.records, r.id = id ∧ Matched q.program q.schema r) ∨ Called rest id := by
  simp [Called]

theorem called_perm {requests served : List Request} (h : served.Perm requests) (id : String) :
    Called served id ↔ Called requests id := by
  simp only [Called, h.mem_iff]

/-- The marks behind the requests, told without their order. -/
theorem contains_serve (requests : List Request) (id : String) : ∀ s : Session,
    (serve s requests).2.processed.contains id = true ↔
      s.processed.contains id = true ∨ Called requests id := by
  induction requests with
  | nil =>
    intro s
    simp [serve, Called]
  | cons q rest ih =>
    intro s
    have hrest := ih (s.runProgram q.program q.schema q.records).2
    rw [runProgram, contains_run, or_assoc, ← called_cons] at hrest
    exact hrest

/-- Served one after the other, the requests log what they mark, as one run does. -/
theorem accounted_serve (requests : List Request) : ∀ s : Session,
    Accounted s.processed (logOf (serve s requests).1) (serve s requests).2.processed := by
  induction requests with
  | nil => exact fun s => .refl s.processed
  | cons q rest ih =>
    intro s
    have hfirst := accounted_run q.program q.schema s.processed q.records
    exact hfirst.append (ih (s.runProgram q.program q.schema q.records).2)

/-- What the requests come to, told without the order in which they are served. -/
structure Settled (s : Session) (requests : List Request) (results : List Report × Session) :
    Prop where
  marked : ∀ id, results.2.processed.contains id = true ↔
    s.processed.contains id = true ∨ Called requests id
  once : ∀ id, s.processed.contains id = false → Called requests id → entries results.1 id = 1
  never : ∀ id, s.processed.contains id = true ∨ ¬ Called requests id → entries results.1 id = 0

/-- In whatever order the requests come, every identifier they call for is processed, and logged
once if it was not processed before. No other is logged, and the session ends the same. -/
theorem serve_any_order (s : Session) (requests served : List Request)
    (h : served.Perm requests) :
    Settled s requests (serve s served) ∧ (serve s served).2 = (serve s requests).2 := by
  have hmarked : ∀ id, (serve s served).2.processed.contains id = true ↔
      s.processed.contains id = true ∨ Called requests id := fun id => by
    rw [contains_serve, called_perm h]
  have haccount := accounted_serve served s
  refine ⟨⟨hmarked, fun id hnew hcalled => ?_, fun id hother => ?_⟩, ?_⟩
  · have hafter := (haccount.marked id).1 ((hmarked id).2 (.inr hcalled))
    refine List.count_eq_one_of_mem haccount.distinct (hafter.resolve_left ?_)
    rw [hnew]
    exact Bool.false_ne_true
  · refine List.count_eq_zero.2 fun hlogged => ?_
    have hnew := haccount.fresh id hlogged
    have hafter := (hmarked id).1 ((haccount.marked id).2 (.inr hlogged))
    rcases hother with hold | hno
    · rw [hold] at hnew
      cases hnew
    · rw [hnew] at hafter
      exact hno (hafter.resolve_left Bool.false_ne_true)
  · have hset : (serve s served).2.processed = (serve s requests).2.processed :=
      Processed.ext_contains fun id => by rw [hmarked, contains_serve]
    exact congrArg Session.mk hset

/-- Marks letters that hold an `a`. -/
def quick : Request where
  program := ⟨[⟨"A", 0, [⟨.contains "body" (.one "a"), [.notify]⟩]⟩]⟩
  schema := default
  records := [letter "m" "b", letter "m" "a", letter "x" "a"]

/-- Marks letters that hold a `b`, which this schema finds where the sender is asked for. -/
def careful : Request where
  program := ⟨[⟨"B", 1, [⟨.isIn "sender" ["b", "c"], [.moveTo "C"]⟩]⟩]⟩
  schema := .ofEntries [("sender", "body")]
  records := [letter "m" "b", letter "n" "z"]

/-- Both requests call for `m`, by letters of their own. -/
theorem serve_any_order_swapped :
    [careful, quick].Perm [quick, careful] ∧
      entries (serve ⟨.ofList ["x"]⟩ [careful, quick]).1 "m" = 1 ∧
      entries (serve ⟨.ofList ["x"]⟩ [careful, quick]).1 "x" = 0 ∧
      entries (serve ⟨.ofList ["x"]⟩ [careful, quick]).1 "n" = 0 ∧
      (serve ⟨.ofList ["x"]⟩ [careful, quick]).2 = (serve ⟨.ofList ["x"]⟩ [quick, careful]).2 := by
  have hswap : [careful, quick].Perm [quick, careful] := .swap quick careful []
  have hcalled : Called [quick, careful] "m" :=
    ⟨quick, by simp, letter "m" "a", by simp [quick], rfl, by decide⟩
  have hother : ¬ Called [quick, careful] "n" := by
    simp only [Called, quick, careful, List.mem_cons, List.not_mem_nil, or_false, exists_eq_or_imp,
      exists_eq_left]
    decide
  obtain ⟨hsettled, hsame⟩ := serve_any_order ⟨.ofList ["x"]⟩ [quick, careful] _ hswap
  exact ⟨hswap, hsettled.once "m" (by decide) hcalled, hsettled.never "x" (.inl (by decide)),
    hsettled.never "n" (.inr hother), hsame⟩

end MailRules.Session
