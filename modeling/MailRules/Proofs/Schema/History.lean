import MailRules.Proofs.Json.Values
import MailRules.Schema

/-!
Histories of a schema. It starts from the defaults and some overrides, and then takes in entries and
is turned into a plain map and back, directly or through JSON text, in any order. A map is merged over
the defaults again when it is read, and that changes nothing: the entries of a schema cover them.

    defaults          sender: from    subject: subject    body: body
    sender: to        sender: to      subject: subject    body: body
    size: length      sender: to      subject: subject    body: body    size: length
    as map and back   sender: to      subject: subject    body: body    size: length
-/

namespace MailRules.Schema

/-! ### What a field reads -/

/-- What a field reads by the entries given for it: the property given last, else its default, else the
property of its own name. -/
inductive Reads (given : List (String × String)) (field : String) : String → Prop
  | latest {before after : List (String × String)} {property : String} :
      given = before ++ (field, property) :: after → field ∉ after.map Prod.fst →
      Reads given field property
  | default {property : String} : field ∉ given.map Prod.fst → (field, property) ∈ defaultEntries →
      Reads given field property
  | own : field ∉ given.map Prod.fst → field ∉ defaultEntries.map Prod.fst → Reads given field field

/-- Behind any entries, a schema resolves each field to what it reads by them. -/
theorem reads_of_properties {s : Schema} {given : List (String × String)}
    (h : s.properties = SortedMap.empty.insertAll (defaultEntries ++ given)) (field : String) :
    Reads given field (s.resolve field) := by
  have hread : s.resolve field =
      ((given.reverse.lookup field).or (defaultEntries.reverse.lookup field)).getD field := by
    rw [resolve, h, SortedMap.get?_insertAll, SortedMap.get?_empty, Option.or_none,
      List.reverse_append, List.lookup_append]
  rw [hread]
  cases hgiven : given.reverse.lookup field with
  | some property =>
    obtain ⟨before, after, hsplit, hlater⟩ := split_of_lookup_reverse hgiven
    exact .latest hsplit hlater
  | none =>
    have hno := lookup_reverse_eq_none_iff.1 hgiven
    cases hdefault : defaultEntries.reverse.lookup field with
    | some property =>
      obtain ⟨before, after, hsplit, -⟩ := split_of_lookup_reverse hdefault
      exact .default hno (hsplit ▸ List.mem_append_right before List.mem_cons_self)
    | none => exact .own hno (lookup_reverse_eq_none_iff.1 hdefault)

/-! ### Plain maps -/

/-- A map is laid over the defaults. -/
theorem get?_toMap_ofMap (m : SortedMap String) (field : String) :
    (ofMap m).toMap.get? field = (m.get? field).or (Schema.default.toMap.get? field) := by
  have hproperties : (ofMap m).toMap = Schema.default.toMap.insertAll m.entries := by
    rw [toMap, ofMap, properties_ofEntries, SortedMap.insertAll_append]
    rfl
  rw [hproperties, SortedMap.get?_insertAll, SortedMap.lookup_reverse_entries]

/-- The entries of a schema cover the defaults, so nothing shows through. -/
theorem ofMap_toMap (s : Schema) : ofMap s.toMap = s := by
  refine eq_of_properties (SortedMap.ext_get? fun field => ?_)
  refine (get?_toMap_ofMap s.toMap field).trans ?_
  cases hread : s.toMap.get? field with
  | some property => exact hread.symm
  | none =>
    have hdefault : field ∉ defaultEntries.map Prod.fst := by
      intro hmem
      obtain ⟨e, he, rfl⟩ := List.mem_map.1 hmem
      have hsome := s.complete e he
      rw [toMap] at hread
      simp [hread] at hsome
    have hnone : Schema.default.toMap.get? field = none := by
      refine SortedMap.get?_insertAll_eq_none_iff.2 ⟨hdefault, rfl⟩
    rw [Option.none_or, hnone]
    exact hread.symm

/-! ### JSON -/

theorem foldlM_readMember? (entries : List (String × String)) : ∀ m : SortedMap String,
    (entries.map fun e => Json.field e.1 (.str e.2)).foldlM readMember? m =
      some (m.insertAll entries) := by
  induction entries with
  | nil => exact fun _ => rfl
  | cons e entries ih => exact fun m => ih (m.insert e.1 e.2)

/-- The schema that a schema's JSON text is read as. -/
def reload? (s : Schema) : Option Schema := (Json.parse s.toJson.render).bind ofJson?

theorem reload?_eq (s : Schema) : s.reload? = some s := by
  have hlegible : Json.Legible s.toJson := by
    have hfields : ∀ f ∈ s.properties.entries.map (fun e => (e.1, Json.str e.2)),
        Json.Legible f.2 := by
      intro f hf
      obtain ⟨e, -, rfl⟩ := List.mem_map.1 hf
      exact .string
    have hobject := Json.legible_object hfields
    rwa [List.map_map] at hobject
  have hmembers := foldlM_readMember? s.properties.entries .empty
  rw [SortedMap.insertAll_empty] at hmembers
  rw [reload?, Json.parse_render hlegible, Option.bind_some]
  simp only [ofJson?, toJson, Json.members?, Option.bind_eq_bind, Option.bind_some, hmembers]
  exact congrArg some (ofMap_toMap s)

/-! ### Histories -/

/-- What may be done with a schema. -/
inductive Step where
  | insert (field property : String)
  | rebuild
  | reload

/-- The entry that a step gives. -/
def Step.entry? : Step → Option (String × String)
  | .insert field property => some (field, property)
  | _ => none

def perform? (s : Schema) : Step → Option Schema
  | .insert field property => some (s.insert field property)
  | .rebuild => some (ofMap s.toMap)
  | .reload => s.reload?

/-- A step takes in the entry that it gives, and no other changes anything. -/
theorem perform?_eq (s : Schema) (step : Step) : ∃ s', s.perform? step = some s' ∧
    s'.properties = s.properties.insertAll step.entry?.toList := by
  cases step with
  | insert field property => exact ⟨_, rfl, rfl⟩
  | rebuild => exact ⟨_, rfl, congrArg properties (ofMap_toMap s)⟩
  | reload => exact ⟨s, reload?_eq s, rfl⟩

theorem foldlM_perform? (steps : List Step) : ∀ s : Schema,
    ∃ s', steps.foldlM perform? s = some s' ∧
      s'.properties = s.properties.insertAll (steps.filterMap Step.entry?) := by
  induction steps with
  | nil => exact fun s => ⟨s, rfl, rfl⟩
  | cons step steps ih =>
    intro s
    obtain ⟨s₁, hstep, hentry⟩ := perform?_eq s step
    obtain ⟨s₂, hsteps, hentries⟩ := ih s₁
    refine ⟨s₂, ?_, ?_⟩
    · rw [List.foldlM_cons, hstep]
      exact hsteps
    · rw [hentries, hentry, ← SortedMap.insertAll_append]
      cases hgiven : step.entry? <;> simp [hgiven]

/-- What holds of a schema that the entries were given to. -/
structure Faithful (given : List (String × String)) (s : Schema) : Prop where
  resolves : ∀ field, Reads given field (s.resolve field)
  rebuilt : ofMap s.toMap = s
  reloaded : s.reload? = some s

/-- A schema keeps its defaults whatever is done with it. Every history goes through, to a schema that
reads the entries given and comes back from a plain map and from JSON text. Any map comes back as the
defaults overlaid by it, and as that for good. -/
theorem history_keeps_defaults :
    (∀ (overrides : List (String × String)) (steps : List Step),
      ∃ s, steps.foldlM perform? (ofEntries overrides) = some s ∧
        Faithful (overrides ++ steps.filterMap Step.entry?) s) ∧
    ∀ m : SortedMap String,
      (∀ field, (ofMap m).toMap.get? field =
        (m.get? field).or (Schema.default.toMap.get? field)) ∧
      (ofMap (ofMap m).toMap).toMap = (ofMap m).toMap := by
  refine ⟨fun overrides steps => ?_, fun m => ⟨get?_toMap_ofMap m, ?_⟩⟩
  · obtain ⟨s, hsteps, hproperties⟩ := foldlM_perform? steps (ofEntries overrides)
    rw [properties_ofEntries, ← SortedMap.insertAll_append, List.append_assoc] at hproperties
    exact ⟨s, hsteps, reads_of_properties hproperties, ofMap_toMap s, reload?_eq s⟩
  · rw [ofMap_toMap]

end MailRules.Schema
