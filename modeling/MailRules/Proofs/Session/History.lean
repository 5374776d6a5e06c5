import MailRules.Proofs.Json.Values
import MailRules.Proofs.Routing.Run
import MailRules.Session
import Mathlib.Data.List.DropRight

/-!
Histories of a session: rule texts and programs are run, marks are forgotten, and the state is put
away as JSON and taken up again, in any order. A reset starts a period of its own. Within a period
the logs say by themselves which identifiers have been marked since it began.

    s ── run ──▸ · ── saveAndLoad ──▸ · ── run ──▸ · ── reset ──▸ · ── run ──▸ ·
    └───────────── marks of s, and the logs ───────┘              └─ the log ──┘
-/

namespace MailRules.Session

open Routing

/-! ### Saved states -/

/-- However the identifiers are listed, the listing loads as the session. -/
theorem load?_listing {s : Session} {ids : List String} (h : ids.Perm s.processed.ids) :
    load? (Json.ofTexts ids).render = some s := by
  have hsame : Processed.ofList ids = s.processed :=
    Processed.ofList_eq fun x => by rw [h.mem_iff, Processed.mem_ids_iff]
  rw [load?, Json.parse_render (Json.legible_ofTexts ids), Option.bind_some, Processed.ofJson?,
    Json.texts?_ofTexts, Option.map_some, hsame]
  rfl

theorem load?_save (s : Session) : load? s.save = some s :=
  load?_listing (.refl s.processed.ids)

/-! ### Steps -/

/-- What can be asked of a session. -/
inductive Step where
  | run (rules : String) (schema : Schema) (records : List Record)
  | runProgram (program : Program) (schema : Schema) (records : List Record)
  | reset
  | saveAndLoad

def Step.isReset : Step → Bool
  | .reset => true
  | _ => false

def Step.isSave : Step → Bool
  | .saveAndLoad => true
  | _ => false

inductive Answer where
  | report (report : Report)
  | refused (e : RuleError)
  | done
  | unreadable

def perform (s : Session) : Step → Answer × Session
  | .run rules schema records =>
    match s.run rules schema records with
    | (.ok report, s) => (.report report, s)
    | (.error e, s) => (.refused e, s)
  | .runProgram program schema records =>
    let (report, s) := s.runProgram program schema records
    (.report report, s)
  | .reset => (.done, s.reset)
  | .saveAndLoad =>
    match load? s.save with
    | some s => (.done, s)
    | none => (.unreadable, s)

/-- A step with its answer and the sessions it stands between. -/
structure Event where
  step : Step
  before : Session
  answer : Answer
  after : Session

def event (s : Session) (step : Step) : Event :=
  ⟨step, s, (s.perform step).1, (s.perform step).2⟩

/-- The entries logged by an event. Only runs that succeed log any. -/
def Event.log (e : Event) : List LogEntry :=
  match e.answer with
  | .report report => report.log
  | _ => []

def history : Session → List Step → List Event
  | _, [] => []
  | s, step :: steps => s.event step :: history (s.event step).after steps

/-- The session after some events. -/
def now (s : Session) (past : List Event) : Session := past.foldl (fun _ e => e.after) s

/-- A cut of the history: what follows is the history of the session at the cut. -/
theorem history_cut (past later : List Event) : ∀ (s : Session) (steps : List Step),
    s.history steps = past ++ later → ∃ rest, (s.now past).history rest = later := by
  induction past with
  | nil => exact fun s steps h => ⟨steps, h⟩
  | cons e past ih =>
    intro s steps h
    cases steps with
    | nil => cases h
    | cons step steps =>
      obtain ⟨rfl, hrest⟩ := List.cons.inj h
      exact ih _ steps hrest

/-- An event at the cut is a step of the session there. -/
theorem history_event {s : Session} {steps : List Step} {past later : List Event} {e : Event}
    (h : s.history steps = past ++ e :: later) : e = (s.now past).event e.step := by
  obtain ⟨rest, hrest⟩ := history_cut past (e :: later) s steps h
  cases rest with
  | nil => cases hrest
  | cons step rest =>
    obtain ⟨rfl, -⟩ := List.cons.inj hrest
    rfl

/-! ### Periods -/

/-- The marks that the current period began with. -/
def basis (s : Session) (past : List Event) : Processed :=
  if past.any (·.step.isReset) then .empty else s.processed

/-- The entries logged in the current period, in order. -/
def loggedSinceReset (past : List Event) : List LogEntry :=
  (past.rtakeWhile (!·.step.isReset)).flatMap Event.log

/-- The marks are those that the period began with and those that it logged, each once. -/
def Kept (s : Session) (past : List Event) : Prop :=
  Accounted (basis s past) (loggedSinceReset past) (s.now past).processed

/-- A step that is no reset logs what it marks, whether or not it succeeds. -/
theorem accounted_event (s : Session) {step : Step} (h : step.isReset = false) :
    Accounted s.processed (s.event step).log (s.event step).after.processed := by
  cases step with
  | run rules schema records =>
    cases htext : Program.ofText rules with
    | error e =>
      have hevent : s.event (.run rules schema records) =
          ⟨.run rules schema records, s, .refused e, s⟩ := by
        simp only [event, perform, run, htext]
      rw [hevent]
      exact .refl s.processed
    | ok program =>
      have hevent : s.event (.run rules schema records) =
          ⟨.run rules schema records, s, .report (s.runProgram program schema records).1,
            (s.runProgram program schema records).2⟩ := by
        simp only [event, perform, run, htext]
      rw [hevent]
      exact accounted_run program schema s.processed records
  | runProgram program schema records => exact accounted_run program schema s.processed records
  | reset => cases h
  | saveAndLoad =>
    have hevent : s.event .saveAndLoad = ⟨.saveAndLoad, s, .done, s⟩ := by
      simp only [event, perform, load?_save]
    rw [hevent]
    exact .refl s.processed

theorem Kept.step {s : Session} {past : List Event} (h : Kept s past) (step : Step) :
    Kept s (past ++ [(s.now past).event step]) := by
  have hnow : s.now (past ++ [(s.now past).event step]) = ((s.now past).event step).after := by
    simp [now]
  rw [Kept, hnow, loggedSinceReset, List.rtakeWhile_concat, basis, List.any_append]
  cases hreset : step.isReset with
  | false =>
    have hbasis : (past.any (·.step.isReset) || [(s.now past).event step].any (·.step.isReset)) =
        past.any (·.step.isReset) := by
      simp [event, hreset]
    have hsame : (!((s.now past).event step).step.isReset) = true := by
      rw [event, hreset]
      rfl
    rw [if_pos hsame, hbasis, List.flatMap_append, List.flatMap_singleton]
    exact h.append (accounted_event (s.now past) hreset)
  | true =>
    have hstep : step = .reset := by
      cases step with
      | reset => rfl
      | _ => cases hreset
    subst hstep
    -- The period begins with this event, so it has nothing to account for yet.
    simpa [event, Step.isReset, perform, reset, Session.empty] using Accounted.refl .empty

/-- The marks are accounted for after every event of a history. -/
theorem kept_history {s : Session} {steps : List Step} {past : List Event}
    (h : past <+: s.history steps) : Kept s past := by
  induction past using List.reverseRecOn with
  | nil => exact .refl s.processed
  | append_singleton past e ih =>
    obtain ⟨later, hcut⟩ := h
    rw [List.append_assoc, List.singleton_append] at hcut
    rw [history_event hcut.symm]
    exact (ih ⟨_, hcut⟩).step e.step

/-! ### Answers -/

/-- What an event shows is settled by its step and the session before it. -/
structure Faithful (e : Event) : Prop where
  refused : ∀ {rules schema records err}, e.step = .run rules schema records →
    Program.ofText rules = .error err → e.answer = .refused err ∧ e.after = e.before
  accepted : ∀ {rules schema records program}, e.step = .run rules schema records →
    Program.ofText rules = .ok program →
    (e.answer, e.after) = e.before.perform (.runProgram program schema records)
  saved : e.step = .saveAndLoad → e.answer = .done ∧ e.after = e.before ∧
    ∀ ids, ids.Perm e.before.processed.ids → load? (Json.ofTexts ids).render = some e.before

theorem faithful_event (s : Session) (step : Step) : Faithful (s.event step) := by
  refine ⟨?_, ?_, ?_⟩
  · rintro rules schema records err rfl htext
    simp only [event, perform, run, htext, and_self]
  · rintro rules schema records program rfl htext
    simp only [event, perform, run, htext]
  · rintro rfl
    refine ⟨?_, ?_, fun ids h => load?_listing h⟩ <;> simp only [event, perform, load?_save]

theorem faithful_history (steps : List Step) : ∀ s : Session,
    ∀ e ∈ s.history steps, Faithful e := by
  induction steps with
  | nil => exact fun s e he => absurd he List.not_mem_nil
  | cons step steps ih =>
    intro s e he
    rcases List.mem_cons.1 he with rfl | he
    · exact faithful_event s step
    · exact ih _ e he

/-- Nothing else tells whether the state was put away and taken up again in between. -/
theorem history_without_saves (steps : List Step) : ∀ s : Session,
    (s.history steps).filter (!·.step.isSave) = s.history (steps.filter (!·.isSave)) := by
  induction steps with
  | nil => exact fun s => rfl
  | cons step steps ih =>
    intro s
    have hstep : (s.event step).step = step := rfl
    rw [history, List.filter_cons, List.filter_cons, hstep, ih]
    cases hsave : step.isSave with
    | false => rfl
    | true =>
      have hsave' : step = .saveAndLoad := by
        cases step with
        | saveAndLoad => rfl
        | _ => cases hsave
      have hafter : (s.event step).after = s := by
        rw [hsave']
        exact ((faithful_event s .saveAndLoad).saved rfl).2.1
      rw [hafter]
      rfl

/-- What a history keeps to, whatever it is made of. -/
structure Consistent (s : Session) (steps : List Step) : Prop where
  faithful : ∀ e ∈ s.history steps, Faithful e
  kept : ∀ past, past <+: s.history steps → Kept s past
  unsaved : (s.history steps).filter (!·.step.isSave) = s.history (steps.filter (!·.isSave))

/-- Faulty rule texts, resets and saved states may come anywhere in a history: after every event
the marks are those that the period began with and those logged since, no identifier is logged
twice in a period or was marked before it, and the other answers stay the same without the saves. -/
theorem history_consistent (s : Session) (steps : List Step) : Consistent s steps :=
  ⟨faithful_history steps s, fun _ => kept_history, history_without_saves steps s⟩

end MailRules.Session
