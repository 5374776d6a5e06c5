import Mathlib.Data.List.Find
import MailRules.Proofs.Routing.Batches

/-!
What a run reads of its records: the identifier, and the texts that the rules' fields resolve to.
Two batches that agree on these, record by record, are routed alike. Nothing else in a record, and
no difference between a missing property, an empty text and a value that is no text, can show.

    rules mention `subject`     m: subject "a"             m: subject "a", size 3
                                n                          n: subject 7
    bucket X                    [m]                        [m]
    bucket Inbox                [n]                        [n]
-/

namespace MailRules

/-- The fields that the rules mention. -/
def Program.fields (p : Program) : List String :=
  p.folders.flatMap fun f => f.rules.flatMap (·.condition.fields)

theorem Program.mem_fields {p : Program} {f : Folder} {rule : Rule} {field : String}
    (hf : f ∈ p.folders) (hr : rule ∈ f.rules) (hfield : field ∈ rule.condition.fields) :
    field ∈ p.fields :=
  List.mem_flatMap.2 ⟨f, hf, List.mem_flatMap.2 ⟨rule, hr, hfield⟩⟩

/-- Only the texts of its own fields decide a condition. -/
theorem Condition.holds_congr {read read' : String → String} (c : Condition)
    (h : ∀ field ∈ c.fields, read field = read' field) : c.holds read = c.holds read' := by
  induction c with
  | contains field _ | isIn field _ => simp only [holds, h field List.mem_cons_self]
  | and a b iha ihb | or a b iha ihb =>
    obtain ⟨ha, hb⟩ := List.forall_mem_append.1 h
    simp only [holds, iha ha, ihb hb]
  | not a ih => simp only [holds, ih h]

namespace Routing

/-! ### Records that the rules cannot tell apart -/

/-- The text that predicates search in a property. The name `id` stands for the identifier, even
where a property of that name is set. What is missing or no text is searched as the empty text. -/
inductive PropertyText (r : Record) : String → String → Prop
  | id : PropertyText r "id" r.id
  | text {property s : String} : property ≠ "id" → r.get? property = some (.string s) →
      PropertyText r property s
  | missing {property : String} : property ≠ "id" → r.get? property = none →
      PropertyText r property ""
  | other {property : String} {v : Value} : property ≠ "id" → r.get? property = some v →
      (∀ s, v ≠ .string s) → PropertyText r property ""

theorem text?_getD_eq_iff {r : Record} {property t : String} :
    (r.text? property).getD "" = t ↔ PropertyText r property t := by
  constructor
  · rintro rfl
    by_cases hid : property = "id"
    · subst hid
      exact .id
    · cases hv : r.get? property with
      | none =>
        have htext : (r.text? property).getD "" = "" := by simp [Record.text?, hid, hv]
        rw [htext]
        exact .missing hid hv
      | some v =>
        have htext : (r.text? property).getD "" = v.text?.getD "" := by simp [Record.text?, hid, hv]
        rw [htext]
        cases v with
        | string s => exact .text hid hv
        | bool | int | float => exact .other hid hv nofun
  · intro h
    cases h with
    | id => rfl
    | text hid hv => simp [Record.text?, hid, hv, Value.text?]
    | missing hid hv => simp [Record.text?, hid, hv]
    | @other _ v hid hv hno =>
      have hnone : v.text? = none := by
        cases v with
        | string s => exact absurd rfl (hno s)
        | bool | int | float => rfl
      simp [Record.text?, hid, hv, hnone]

/-- A schema reads the text of the property that the field resolves to. -/
theorem read_eq_iff {schema : Schema} {r : Record} {field t : String} :
    schema.read r field = t ↔ PropertyText r (schema.resolve field) t :=
  text?_getD_eq_iff

/-- The same identifier, and the same text under every field that the rules mention. -/
structure Alike (program : Program) (schema : Schema) (x y : Record) : Prop where
  id : x.id = y.id
  texts : ∀ field ∈ program.fields, ∃ t,
    PropertyText x (schema.resolve field) t ∧ PropertyText y (schema.resolve field) t

section

variable {program : Program} {schema : Schema} {x y : Record}

theorem Alike.read_eq (h : Alike program schema x y) {field : String}
    (hfield : field ∈ program.fields) : schema.read x field = schema.read y field := by
  obtain ⟨t, hx, hy⟩ := h.texts field hfield
  exact (read_eq_iff.2 hx).trans (read_eq_iff.2 hy).symm

theorem alike_of_read (hid : x.id = y.id)
    (hread : ∀ field ∈ program.fields, schema.read x field = schema.read y field) :
    Alike program schema x y :=
  ⟨hid, fun field hfield => ⟨_, read_eq_iff.1 rfl, read_eq_iff.1 (hread field hfield).symm⟩⟩

/-! ### Their verdicts -/

theorem firstMatch_congr {holds holds' : Condition → Bool} : ∀ {order : List Folder},
    (∀ f ∈ order, ∀ rule ∈ f.rules, holds rule.condition = holds' rule.condition) →
      firstMatch order holds = firstMatch order holds'
  | [], _ => rfl
  | f :: order, h => by
    have hfind : (f.rules.find? fun rule => holds rule.condition) =
        f.rules.find? fun rule => holds' rule.condition :=
      List.find?_congr fun rule hr => h f List.mem_cons_self rule hr
    have hrest := firstMatch_congr fun g hg => h g (List.mem_cons_of_mem f hg)
    unfold firstMatch at hrest ⊢
    rw [List.findSome?_cons, List.findSome?_cons, hfind, hrest]

theorem Alike.judge_eq (h : Alike program schema x y) (p : Processed) :
    judge program.priorityOrder schema p x = judge program.priorityOrder schema p y := by
  have hmatch : firstMatch program.priorityOrder (·.eval schema x) =
      firstMatch program.priorityOrder (·.eval schema y) := by
    refine firstMatch_congr fun f hf rule hr => rule.condition.holds_congr fun field hfield => ?_
    exact h.read_eq (Program.mem_fields (mem_foldr_placeFolder.1 hf) hr hfield)
  rw [judge, judge, h.id, hmatch]

/-- Two records with their verdicts that differ at most in what no rule mentions. -/
structure SameOutcome (o o' : Outcome) : Prop where
  id : o.record.id = o'.record.id
  verdict : o.verdict = o'.verdict

/-- Record by record the verdicts agree, since the marks behind each agree. -/
theorem route_alike {xs ys : List Record} (h : List.Forall₂ (Alike program schema) xs ys) :
    ∀ p : Processed,
      List.Forall₂ SameOutcome (route program.priorityOrder schema p xs).1
        (route program.priorityOrder schema p ys).1 ∧
      (route program.priorityOrder schema p xs).2 =
        (route program.priorityOrder schema p ys).2 := by
  induction h with
  | nil => exact fun p => ⟨.nil, rfl⟩
  | @cons x y xs ys hxy _ ih =>
    intro p
    have hverdict := hxy.judge_eq p
    have hmarks : p.after y (judge program.priorityOrder schema p y) =
        p.after x (judge program.priorityOrder schema p x) := by
      rw [hverdict]
      cases judge program.priorityOrder schema p y <;> simp [Processed.after, hxy.id]
    obtain ⟨houtcomes, hafter⟩ := ih (p.after x (judge program.priorityOrder schema p x))
    simp only [route, hmarks]
    exact ⟨.cons ⟨hxy.id, hverdict⟩ houtcomes, hafter⟩

end

/-! ### What a report shows of the outcomes -/

theorem SameOutcome.bucket?_eq {o o' : Outcome} (h : SameOutcome o o') :
    o.bucket? = o'.bucket? := by
  rw [Outcome.bucket?, Outcome.bucket?, h.verdict]

theorem SameOutcome.logEntry?_eq {o o' : Outcome} (h : SameOutcome o o') :
    o.logEntry? = o'.logEntry? := by
  rw [Outcome.logEntry?, Outcome.logEntry?, h.verdict, h.id]

theorem SameOutcome.isSkipped_eq {o o' : Outcome} (h : SameOutcome o o') :
    o.isSkipped = o'.isSkipped := by
  rw [Outcome.isSkipped, Outcome.isSkipped, h.verdict]

theorem map_eq_of_sameOutcome {α : Type} {os os' : List Outcome} {view : Outcome → α}
    (hview : ∀ {o o'}, SameOutcome o o' → view o = view o')
    (h : List.Forall₂ SameOutcome os os') : os.map view = os'.map view := by
  induction h with
  | nil => rfl
  | cons ho _ ih => rw [List.map_cons, List.map_cons, hview ho, ih]

/-- The names of buckets grow with the places that the outcomes name. -/
theorem keys_foldl_deliverOutcome : ∀ (os : List Outcome) (b : Buckets),
    (os.foldl Report.deliverOutcome b).keys =
      (os.map Outcome.bucket?).foldl (fun keys n => keys ++ n.toList.filter (· ∉ keys)) b.keys
  | [], _ => rfl
  | o :: os, b => by
    rw [List.foldl_cons, keys_foldl_deliverOutcome os, keys_deliverOutcome]
    rfl

/-- The log and the counts of a report, and the names of its buckets, are told by what the outcomes
show one by one. -/
theorem ofOutcomes_alike (program : Program) {os os' : List Outcome}
    (h : List.Forall₂ SameOutcome os os') :
    (Report.ofOutcomes program os).log = (Report.ofOutcomes program os').log ∧
    (Report.ofOutcomes program os).summary = (Report.ofOutcomes program os').summary ∧
    (Report.ofOutcomes program os).buckets.keys = (Report.ofOutcomes program os').buckets.keys := by
  have hlog : os.map Outcome.logEntry? = os'.map Outcome.logEntry? :=
    map_eq_of_sameOutcome SameOutcome.logEntry?_eq h
  have hskipped : os.map Outcome.isSkipped = os'.map Outcome.isSkipped :=
    map_eq_of_sameOutcome SameOutcome.isSkipped_eq h
  have hplaces : os.map Outcome.bucket? = os'.map Outcome.bucket? :=
    map_eq_of_sameOutcome SameOutcome.bucket?_eq h
  refine ⟨?_, ?_, ?_⟩
  · have hread : ∀ l : List Outcome,
        l.filterMap Outcome.logEntry? = (l.map Outcome.logEntry?).filterMap id := by
      intro l
      rw [List.filterMap_map]
      rfl
    simp only [Report.ofOutcomes, hread, hlog]
  · have hread : ∀ l : List Outcome,
        l.countP Outcome.isSkipped = (l.map Outcome.isSkipped).countP id := by
      intro l
      rw [List.countP_map]
      rfl
    simp only [Report.ofOutcomes, hread, hskipped, h.length_eq]
  · simp only [Report.ofOutcomes, keys_foldl_deliverOutcome, hplaces]

/-! ### Positions -/

/-- Where each record goes, in the order of the records; nowhere, if it is skipped. -/
def places (program : Program) (schema : Schema) (prior : Processed) (records : List Record) :
    List (Option String) :=
  (route program.priorityOrder schema prior records).1.map Outcome.bucket?

/-- The records at the positions that go to a bucket. -/
def recordsAt (places : List (Option String)) (n : String) (records : List Record) : List Record :=
  ((places.zip records).filter (·.1 = some n)).map Prod.snd

theorem records_route (order : List Folder) (schema : Schema) : ∀ (records : List Record)
    (p : Processed), (route order schema p records).1.map (·.record) = records
  | [], _ => rfl
  | r :: rest, p => by
    simp only [route, List.map_cons, records_route order schema rest]

theorem recordsIn_ofOutcomes (program : Program) (os : List Outcome) (n : String) :
    recordsIn (Report.ofOutcomes program os) n =
      (os.filter (·.bucket? = some n)).map (·.record) := by
  induction os using List.reverseRecOn with
  | nil => exact recordsIn_nil program n
  | append_singleton os o ih =>
    rw [ofOutcomes_concat, recordsIn_withOutcome, ih, List.filter_append, List.map_append]
    by_cases ho : o.bucket? = some n <;> simp [ho]

/-- A bucket holds the records at its positions. -/
theorem recordsIn_run (program : Program) (schema : Schema) (prior : Processed)
    (records : List Record) (n : String) :
    recordsIn (program.run schema prior records).1 n =
      recordsAt (places program schema prior records) n records := by
  let os := (route program.priorityOrder schema prior records).1
  have hrecords : os.map (·.record) = records :=
    records_route program.priorityOrder schema records prior
  have hzip : (os.map Outcome.bucket?).zip records = os.map fun o => (o.bucket?, o.record) := by
    rw [← hrecords]
    exact List.zip_map' ..
  have hplaces : places program schema prior records = os.map Outcome.bucket? := rfl
  rw [recordsAt, hplaces, hzip, List.filter_map, List.map_map]
  exact recordsIn_ofOutcomes program os n

/-! ### Two runs -/

/-- What the runs of two batches have in common: all but the records themselves, which stand at the
same positions in buckets of the same names. -/
structure Coincide (program : Program) (schema : Schema) (prior : Processed)
    (xs ys : List Record) : Prop where
  log : (program.run schema prior xs).1.log = (program.run schema prior ys).1.log
  marks : (program.run schema prior xs).2 = (program.run schema prior ys).2
  counts : (program.run schema prior xs).1.summary = (program.run schema prior ys).1.summary
  names : (program.run schema prior xs).1.buckets.keys =
    (program.run schema prior ys).1.buckets.keys
  /-- Every record has a place, and those of the two batches are the same. -/
  length : (places program schema prior xs).length = xs.length
  places : places program schema prior xs = places program schema prior ys
  first : ∀ n, recordsIn (program.run schema prior xs).1 n =
    recordsAt (Routing.places program schema prior xs) n xs
  second : ∀ n, recordsIn (program.run schema prior ys).1 n =
    recordsAt (Routing.places program schema prior xs) n ys

/-- Runs read only what the rules mention. Where two batches have the same identifiers, record by
record, and the same texts under the fields of the rules, their runs differ in nothing but the
records that they carry to the same positions. -/
theorem run_reads_mentioned (program : Program) (schema : Schema) (prior : Processed)
    (xs ys : List Record) (alike : List.Forall₂ (Alike program schema) xs ys) :
    Coincide program schema prior xs ys := by
  obtain ⟨houtcomes, hmarks⟩ := route_alike alike prior
  obtain ⟨hlog, hsummary, hkeys⟩ := ofOutcomes_alike program houtcomes
  have hplaces : places program schema prior xs = places program schema prior ys :=
    map_eq_of_sameOutcome SameOutcome.bucket?_eq houtcomes
  have hlength : (places program schema prior xs).length = xs.length := by
    have hrecords := congrArg List.length (records_route program.priorityOrder schema xs prior)
    rw [List.length_map] at hrecords
    rw [places, List.length_map, hrecords]
  refine ⟨hlog, hmarks, hsummary, hkeys, hlength, hplaces, fun n => ?_, fun n => ?_⟩
  · exact recordsIn_run program schema prior xs n
  · rw [hplaces]
    exact recordsIn_run program schema prior ys n

/-- A folder for subjects with the letter `a` and for identifiers with the letter `m`. -/
def mentioning : Program where
  folders := [⟨"A", 0, [⟨.contains "subject" (.one "a"), [.moveTo "X"]⟩,
    ⟨.and (.isIn "id" ["m"]) (.not (.contains "flag" (.one "no"))), [.notify]⟩]⟩]

/-- Sizes do not count, nor what stands under `id`, nor a subject that is missing, empty or a
number. -/
theorem run_reads_mentioned_others :
    let xs := [(Record.new "k").set "subject" (.string "a"), Record.new "n",
      (Record.new "m").set "subject" (.int 7)]
    let ys := [((Record.new "k").set "subject" (.string "a")).set "size" (.int 3),
      (Record.new "n").set "id" (.string "m"),
      (Record.new "m").set "subject" (.string "")]
    List.Forall₂ (Alike mentioning default) xs ys ∧ xs ≠ ys ∧
      Coincide mentioning default .empty xs ys ∧
      places mentioning default .empty xs = [some "X", some inbox, some inbox] ∧
      (mentioning.run default .empty ys).2.ids = ["k", "m"] := by
  intro xs ys
  have halike : List.Forall₂ (Alike mentioning default) xs ys :=
    .cons (alike_of_read rfl (by decide)) (.cons (alike_of_read rfl (by decide))
      (.cons (alike_of_read rfl (by decide)) .nil))
  exact ⟨halike, by decide, run_reads_mentioned mentioning default .empty xs ys halike, by decide,
    by decide⟩

end Routing

end MailRules
