import MailRules.Proofs.Record.RoundTrip
import MailRules.Report.Json

/-!
Reports through JSON text. A report comes back as it was, with the order of its buckets and records
and with every value of its own kind, unless a record holds what the text cannot keep: a float,
which may move to a neighbour, or a property in the place of the identifier.

    {"buckets":{"Inbox":[{"id":"7","n":-1,"s":"-1"}]},"action_log":[],"meta":{"engine":"cxr", ... }}
-/

namespace MailRules

namespace Json

/-! ### Fields -/

theorem valuesOf_eq_nil {name : String} {members : List (Option String × Json)}
    (h : some name ∉ members.map Prod.fst) : valuesOf name members = [] := by
  refine List.filterMap_eq_nil_iff.2 fun m hm => if_neg ?_
  rintro hname
  exact h (List.mem_map.2 ⟨m, hm, hname⟩)

/-- Where no name is repeated, every member is the only one of its name. -/
theorem valueOf?_of_mem {members : List (Option String × Json)} {name : String} {j : Json}
    (hdistinct : (members.map Prod.fst).Nodup) (h : (some name, j) ∈ members) :
    valueOf? members name = some j := by
  have honly : valuesOf name members = [j] := by
    induction members with
    | nil => cases h
    | cons m members ih =>
      obtain ⟨hnew, hrest⟩ := List.nodup_cons.1 hdistinct
      rcases List.mem_cons.1 h with rfl | h
      · simpa [valuesOf] using valuesOf_eq_nil hnew
      · have hne : m.1 ≠ some name := fun hm => hnew (List.mem_map.2 ⟨_, h, hm.symm⟩)
        simpa [valuesOf, hne] using ih hrest h
  rw [valueOf?, honly]

/-- An object of distinct fields is read by their names. -/
theorem fields?_object (fields : List (String × Json)) (h : (fields.map Prod.fst).Nodup) :
    fields? (fields.map Prod.fst) (.object (fields.map fun f => field f.1 f.2)) =
      some (fields.map Prod.snd) := by
  have hnamed : (fields.map fun f => field f.1 f.2).any (·.1.isNone) = false := by
    simp [field]
  have hdistinct : ((fields.map fun f => field f.1 f.2).map Prod.fst).Nodup := by
    have hnames : (fields.map fun f => field f.1 f.2).map Prod.fst =
        (fields.map Prod.fst).map some := by simp [field]
    rw [hnames]
    exact List.Pairwise.map some (fun _ _ hne heq => hne (Option.some.inj heq)) h
  rw [fields?, hnamed, if_neg Bool.false_ne_true]
  exact mapM_map_eq_some fun f hf => valueOf?_of_mem hdistinct (List.mem_map.2 ⟨f, hf, rfl⟩)

theorem Number.count?_ofNat {n : Nat} (h : n < UInt64.size) : (ofNat n).count? = some n := if_pos h

end Json

open Json

/-! ### Log entries -/

namespace LogEntry

theorem legible_toJson (e : LogEntry) : Legible e.toJson := by
  have hfields : ∀ f ∈ [("record_id", Json.str e.recordId), ("folder", Json.str e.folder),
      ("actions", Json.ofTexts e.actions)], Legible f.2 := by
    simp only [List.forall_mem_cons]
    exact ⟨.string, .string, legible_ofTexts e.actions, nofun⟩
  exact legible_object hfields

theorem ofJson?_toJson (e : LogEntry) : ofJson? e.toJson = some e := by
  have hfields : e.toJson.fields? fieldNames =
      some [.str e.recordId, .str e.folder, .ofTexts e.actions] :=
    fields?_object [("record_id", .str e.recordId), ("folder", .str e.folder),
      ("actions", .ofTexts e.actions)] (show fieldNames.Nodup by decide)
  simp [ofJson?, hfields, Json.str, text?, texts?_ofTexts]

end LogEntry

/-! ### Buckets -/

namespace Buckets

theorem legible_toJson {b : Buckets} (h : ∀ e ∈ b.entries, ∀ r ∈ e.2, r.Faithful) :
    Legible b.toJson := by
  have hbuckets : ∀ f ∈ b.entries.map (fun e => (e.1, Json.array (e.2.map Record.toJson))),
      Legible f.2 := by
    intro f hf
    obtain ⟨e, he, rfl⟩ := List.mem_map.1 hf
    exact legible_array fun r hr => Record.legible_toJson (h e he r hr).exact
  have hlegible := legible_object hbuckets
  rwa [List.map_map] at hlegible

/-- Buckets of new names are added in order. -/
theorem foldlM_readMember? {es : List (String × List Record)}
    (h : ∀ e ∈ es, ∀ r ∈ e.2, r.Faithful) : ∀ b : Buckets,
    ((b.entries ++ es).map Prod.fst).Nodup → ∃ b' : Buckets,
      (es.map fun e => Json.field e.1 (.array (e.2.map Record.toJson))).foldlM readMember? b =
        some b' ∧ b'.entries = b.entries ++ es := by
  induction es with
  | nil => exact fun b _ => ⟨b, rfl, by simp⟩
  | cons e es ih =>
    intro b hdistinct
    obtain ⟨he, hrest⟩ := List.forall_mem_cons.1 h
    have hrecords : (e.2.map Record.toJson).mapM Record.ofJson? = some e.2 :=
      mapM_map_eq_self fun r hr => Record.ofJson?_toJson (he r hr)
    have hstep : readMember? b (Json.field e.1 (.array (e.2.map Record.toJson))) =
        some (b.put e.1 e.2) := by
      simp [Json.field, readMember?, items?, hrecords]
    have hnew : e.1 ∉ b.entries.map Prod.fst := by
      intro hmem
      rw [List.map_append, List.map_cons] at hdistinct
      exact (List.nodup_append.1 hdistinct).2.2 _ hmem _ List.mem_cons_self rfl
    have hput : (b.put e.1 e.2).entries = b.entries ++ [e] := OrderedMap.alterEntry_of_new hnew
    obtain ⟨b', hfold, hentries⟩ := ih hrest (b.put e.1 e.2)
      (by rwa [hput, List.append_assoc])
    refine ⟨b', ?_, by rw [hentries, hput, List.append_assoc]; rfl⟩
    rw [List.map_cons, List.foldlM_cons, hstep]
    exact hfold

theorem ofJson?_toJson {b : Buckets} (h : ∀ e ∈ b.entries, ∀ r ∈ e.2, r.Faithful) :
    ofJson? b.toJson = some b := by
  obtain ⟨b', hfold, hentries⟩ := foldlM_readMember? h .empty b.distinct
  obtain rfl : b' = b := OrderedMap.eq_of_entries hentries
  exact hfold

end Buckets

/-! ### Summaries -/

theorem Timestamp.ofText?_text (t : Timestamp) : ofText? t.text = some t := dif_pos t.wellFormed

namespace Summary

/-- A summary whose counts fit 64 bits. -/
structure Counted (s : Summary) : Prop where
  rules : s.ruleCount < UInt64.size
  records : s.recordCount < UInt64.size
  skipped : s.skippedCount < UInt64.size

/-- The fields of a summary with the moment of the run. -/
def fields (s : Summary) (t : Timestamp) : List (String × Json) :=
  [("engine", .str s.engine), ("version", .str s.version), ("processed_at", .str t.text),
    ("rule_count", .number (.ofNat s.ruleCount)), ("record_count", .number (.ofNat s.recordCount)),
    ("skipped_count", .number (.ofNat s.skippedCount))]

theorem legible_toJson (s : Summary) (t : Timestamp) : Legible (s.toJson (some t)) := by
  have hfields : ∀ f ∈ s.fields t, Legible f.2 := by
    simp only [fields, List.forall_mem_cons]
    exact ⟨.string, .string, .string, .number nofun, .number nofun, .number nofun, nofun⟩
  exact legible_object hfields

theorem ofJson?_toJson {s : Summary} (h : s.Counted) (t : Timestamp) :
    ofJson? (s.toJson (some t)) = some (s, t) := by
  have hfields : (s.toJson (some t)).fields? fieldNames = some ((s.fields t).map Prod.snd) :=
    fields?_object (s.fields t) (show fieldNames.Nodup by decide)
  simp [ofJson?, hfields, fields, Json.str, text?, number?, Number.count?_ofNat h.rules,
    Number.count?_ofNat h.records, Number.count?_ofNat h.skipped, Timestamp.ofText?_text]

end Summary

/-! ### Reports -/

namespace StampedReport

/-- A report that JSON text keeps. -/
structure Faithful (r : StampedReport) : Prop where
  records : ∀ b ∈ r.report.buckets.entries, ∀ record ∈ b.2, record.Faithful
  counts : r.report.summary.Counted

theorem legible_toJson {r : StampedReport} (h : r.Faithful) : Legible r.toJson := by
  have hfields : ∀ f ∈ [("buckets", r.report.buckets.toJson),
      ("action_log", Json.array (r.report.log.map LogEntry.toJson)),
      ("meta", r.report.summary.toJson (some r.processedAt))], Legible f.2 := by
    simp only [List.forall_mem_cons]
    exact ⟨Buckets.legible_toJson h.records, legible_array fun e _ => e.legible_toJson,
      r.report.summary.legible_toJson r.processedAt, nofun⟩
  exact legible_object hfields

theorem ofJson?_toJson {r : StampedReport} (h : r.Faithful) : ofJson? r.toJson = some r := by
  have hfields : r.toJson.fields? Report.fieldNames = some [r.report.buckets.toJson,
      .array (r.report.log.map LogEntry.toJson), r.report.summary.toJson (some r.processedAt)] :=
    fields?_object [("buckets", r.report.buckets.toJson),
      ("action_log", .array (r.report.log.map LogEntry.toJson)),
      ("meta", r.report.summary.toJson (some r.processedAt))]
      (show Report.fieldNames.Nodup by decide)
  have hlog : (r.report.log.map LogEntry.toJson).mapM LogEntry.ofJson? = some r.report.log :=
    mapM_map_eq_self fun e _ => e.ofJson?_toJson
  simp [ofJson?, hfields, Buckets.ofJson?_toJson h.records, items?, hlog,
    Summary.ofJson?_toJson h.counts]

/-- A report comes back from its JSON text. -/
theorem read_written {r : StampedReport} (h : r.Faithful) :
    (Json.parse r.toJson.render).bind ofJson? = some r := by
  rw [parse_render (legible_toJson h), Option.bind_some]
  exact ofJson?_toJson h

/-- A record of values that are easily taken for others, whose texts need escapes. -/
def awkwardRecord : Record :=
  ⟨"\"1\\", ⟨[("", .string "true"), ("ID", .string "-1"), ("flag", .bool false),
    ("least", .int Int64.minValue), ("most", .int Int64.maxValue)], by decide⟩⟩

/-- A report with an empty bucket between others, and with the highest count. -/
def awkwardReport : StampedReport where
  report :=
    { buckets := ⟨[("Inbox", [awkwardRecord, .new "id"]), ("\n\u0001", []), ("é😀", [.new ""])],
        by decide⟩
      log := [⟨"", "é😀", ["move to é😀", "notify"]⟩, ⟨"\"1\\", "\n\u0001", []⟩]
      summary := ⟨Report.engineName, Report.engineVersion, 0, 3, UInt64.size - 1⟩ }
  processedAt := ⟨"2024-02-29T23:59:59.500Z", by decide⟩

theorem read_written_awkward : awkwardReport.Faithful ∧
    (Json.parse awkwardReport.toJson.render).bind ofJson? = some awkwardReport := by
  have hnew : ∀ id, (Record.new id).Faithful := fun id => ⟨rfl, nofun⟩
  have hrecord : awkwardRecord.Faithful := by
    refine ⟨rfl, ?_⟩
    simp only [awkwardRecord, List.forall_mem_cons]
    exact ⟨nofun, nofun, nofun, nofun, nofun, nofun⟩
  have hrecords : ∀ b ∈ awkwardReport.report.buckets.entries, ∀ record ∈ b.2,
      record.Faithful := by
    simp only [awkwardReport, List.forall_mem_cons]
    exact ⟨⟨hrecord, hnew _, nofun⟩, nofun, ⟨hnew _, nofun⟩, nofun⟩
  have hfaithful : awkwardReport.Faithful := ⟨hrecords, by decide, by decide, by decide⟩
  exact ⟨hfaithful, read_written hfaithful⟩

end StampedReport

end MailRules
