import MailRules.Proofs.Json.Values
import MailRules.Record

/-!
Records through JSON text. A record is one flat object, in which the identifier stands under the name
`id` beside the properties. It comes back as it was unless a property has that name too: then the text
has two members `id`, and no record is read from it.

    {"id":"7","n":-1,"s":"-1"}       comes back, `n` as an integer and `s` as a text
    {"id":"7","id":"8"}              is written for a record, and none is read
-/

namespace MailRules

open Json

/-! ### Values -/

namespace Value

theorem legible_toJson {v : Value} (h : ∀ x, v ≠ .float x) : Legible v.toJson := by
  cases v with
  | bool b => exact .bool
  | int i => exact .number nofun
  | float x => exact absurd rfl (h x)
  | string s => exact .string

/-- Every integer of 64 bits stays one, and a text stays a text, whatever it looks like. -/
theorem ofJson?_toJson {v : Value} (h : ∀ x, v ≠ .float x) : ofJson? v.toJson = some v := by
  cases v with
  | bool b => rfl
  | int i =>
    have hint : (Number.ofInt i.toInt).int?.bind Decimal.int64? = some i := by
      rw [Number.int?_ofInt, Option.bind_some]
      exact Decimal.int64?_eq_some_iff.2 rfl
    rw [toJson, ofJson?, ofNumber?, hint]
  | float x => exact absurd rfl (h x)
  | string s => rfl

end Value

/-! ### Records -/

namespace Record

/-- A record that JSON text keeps: no property stands for the identifier, and none is a float. -/
structure Faithful (r : Record) : Prop where
  named : r.get? "id" = none
  exact : ∀ p ∈ r.properties.entries, ∀ x, p.2 ≠ .float x

theorem Faithful.ne_id {r : Record} (h : r.Faithful) : ∀ p ∈ r.properties.entries, p.1 ≠ "id" := by
  rintro p hp hid
  have hnone := List.lookup_eq_none_iff.1 h.named p hp
  simp [hid] at hnone

theorem legible_toJson {r : Record} (h : ∀ p ∈ r.properties.entries, ∀ x, p.2 ≠ .float x) :
    Legible r.toJson := by
  have hproperties : ∀ f ∈ ("id", Json.str r.id) ::
      r.properties.entries.map (fun p => (p.1, p.2.toJson)), Legible f.2 := by
    refine List.forall_mem_cons.2 ⟨.string, fun f hf => ?_⟩
    obtain ⟨p, hp, rfl⟩ := List.mem_map.1 hf
    exact Value.legible_toJson (h p hp)
  have hlegible := legible_object hproperties
  rwa [List.map_cons, List.map_map] at hlegible

theorem readMember?_of_ne {name : String} (h : name ≠ "id") (id : Option String)
    (m : SortedMap Value) (j : Json) : readMember? (id, m) (some name, j) =
      (Value.ofJson? j).map fun v => (id, m.insert name v) := by
  simp [readMember?, h]

/-- Properties are set one after the other. -/
theorem foldlM_readMember? (id : String) {properties : List (String × Value)}
    (h : ∀ p ∈ properties, p.1 ≠ "id" ∧ ∀ x, p.2 ≠ .float x) : ∀ m : SortedMap Value,
    (properties.map fun p => Json.field p.1 p.2.toJson).foldlM readMember? (some id, m) =
      some (some id, m.insertAll properties) := by
  induction properties with
  | nil => exact fun _ => rfl
  | cons p properties ih =>
    intro m
    obtain ⟨⟨hid, hexact⟩, hrest⟩ := List.forall_mem_cons.1 h
    have hstep : readMember? (some id, m) (Json.field p.1 p.2.toJson) =
        some (some id, m.insert p.1 p.2) := by
      rw [Json.field, readMember?_of_ne hid, Value.ofJson?_toJson hexact, Option.map_some]
    rw [List.map_cons, List.foldlM_cons, hstep]
    exact ih hrest _

theorem ofJson?_toJson {r : Record} (h : r.Faithful) : ofJson? r.toJson = some r := by
  have hproperties :=
    foldlM_readMember? r.id (fun p hp => ⟨h.ne_id p hp, h.exact p hp⟩) .empty
  have hread : (Json.field "id" (.str r.id) :: r.properties.entries.map fun p =>
      Json.field p.1 p.2.toJson).foldlM readMember? (none, .empty) =
        some (some r.id, r.properties) := by
    rw [SortedMap.insertAll_empty] at hproperties
    exact hproperties
  simp only [ofJson?, toJson, members?, Option.bind_eq_bind, Option.bind_some, hread]

/-! ### Two members for the identifier -/

/-- Once the identifier is read, a second member of its name is refused, whatever else there is. -/
theorem foldlM_readMember?_again (id : String) {members : List (Option String × Json)}
    (h : some "id" ∈ members.map Prod.fst) :
    ∀ m : SortedMap Value, members.foldlM readMember? (some id, m) = none := by
  induction members with
  | nil => cases h
  | cons member members ih =>
    intro m
    obtain ⟨name, j⟩ := member
    rw [List.foldlM_cons]
    by_cases hname : name = some "id"
    · subst hname
      have hstep : readMember? (some id, m) (some "id", j) = none := by simp [readMember?]
      rw [hstep]
      rfl
    · have hlater : some "id" ∈ members.map Prod.fst := by
        simpa [Ne.symm hname] using h
      cases hstep : readMember? (some id, m) (name, j) with
      | none => rfl
      | some next =>
        obtain ⟨m', rfl⟩ : ∃ m', next = (some id, m') := by
          cases name with
          | none => cases hstep
          | some name =>
            rw [readMember?_of_ne fun h => hname (congrArg some h)] at hstep
            obtain ⟨v, -, rfl⟩ := Option.map_eq_some_iff.1 hstep
            exact ⟨_, rfl⟩
        exact ih hlater m'

theorem ofJson?_toJson_eq_none {r : Record} (h : r.get? "id" ≠ none) : ofJson? r.toJson = none := by
  have hagain : some "id" ∈ (r.properties.entries.map fun p =>
      Json.field p.1 p.2.toJson).map Prod.fst := by
    have hkey : "id" ∈ r.properties.keys :=
      SortedMap.mem_keys_iff.2 (Option.isSome_iff_ne_none.2 h)
    rw [List.map_map]
    obtain ⟨p, hp, hid⟩ := List.mem_map.1 hkey
    exact List.mem_map.2 ⟨p, hp, congrArg some hid⟩
  have hread : (Json.field "id" (.str r.id) :: r.properties.entries.map fun p =>
      Json.field p.1 p.2.toJson).foldlM readMember? (none, .empty) = none :=
    foldlM_readMember?_again r.id hagain .empty
  simp only [ofJson?, toJson, members?, Option.bind_eq_bind, Option.bind_some, hread,
    Option.bind_none]

/-! ### Records set up one property after the other -/

/-- A record with its properties set in order, each in place of an earlier value. -/
def built (id : String) (sets : List (String × Value)) : Record :=
  sets.foldl (fun r s => r.set s.1 s.2) (.new id)

theorem built_eq (id : String) (sets : List (String × Value)) :
    built id sets = ⟨id, SortedMap.empty.insertAll sets⟩ := by
  have hset : ∀ r : Record, sets.foldl (fun r s => r.set s.1 s.2) r =
      ⟨r.id, r.properties.insertAll sets⟩ := by
    induction sets with
    | nil => exact fun _ => rfl
    | cons s sets ih => exact fun r => ih (r.set s.1 s.2)
  exact hset (.new id)

/-- A record comes back from its JSON text if no property has the name of the identifier, whatever
else was set, and in whatever order. If one has, nothing comes back. -/
theorem read_written_built (id : String) (sets : List (String × Value))
    (exact : ∀ s ∈ sets, ∀ x, s.2 ≠ .float x) :
    (Json.parse (built id sets).toJson.render).bind ofJson? =
      if "id" ∈ sets.map Prod.fst then none else some (built id sets) := by
  have hexact : ∀ p ∈ (built id sets).properties.entries, ∀ x, p.2 ≠ .float x := by
    intro p hp
    rw [built_eq] at hp
    exact exact p ((SortedMap.mem_entries_insertAll hp).resolve_right List.not_mem_nil)
  have hnamed : (built id sets).get? "id" = none ↔ "id" ∉ sets.map Prod.fst := by
    rw [built_eq, get?, SortedMap.get?_insertAll_eq_none_iff]
    exact and_iff_left rfl
  rw [parse_render (legible_toJson hexact), Option.bind_some]
  split
  · next hid => exact ofJson?_toJson_eq_none (mt hnamed.1 (not_not_intro hid))
  · next hid => exact ofJson?_toJson ⟨hnamed.2 hid, hexact⟩

/-- Texts that look like other values, an integer at the end of the range, a name that is empty and
a name that is set twice. -/
def awkwardSets : List (String × Value) :=
  [("n", .int Int64.minValue), ("", .string "true"), ("flag", .bool false), ("n", .string "-1"),
    ("é\\\n", .int Int64.maxValue), ("ID", .string "\"\u0001😀")]

theorem read_written_built_awkward : (∀ s ∈ awkwardSets, ∀ x, s.2 ≠ .float x) ∧
    (Json.parse (built "\"id" awkwardSets).toJson.render).bind ofJson? =
      some (built "\"id" awkwardSets) := by
  have hexact : ∀ s ∈ awkwardSets, ∀ x, s.2 ≠ .float x := by
    simp only [awkwardSets, List.forall_mem_cons]
    exact ⟨nofun, nofun, nofun, nofun, nofun, nofun, nofun⟩
  exact ⟨hexact, (read_written_built _ _ hexact).trans (if_neg (by decide))⟩

/-- A property in the place of the identifier is set and written, and costs the whole record. -/
theorem built_with_id_lost : (built "1" [("id", .string "2")]).get? "id" = some (.string "2") ∧
    (built "1" [("id", .string "2")]).toJson.render = "\x7b\"id\":\"1\",\"id\":\"2\"\x7d" ∧
    (Json.parse (built "1" [("id", .string "2")]).toJson.render).bind ofJson? = none := by
  have hlegible : Legible (built "1" [("id", .string "2")]).toJson :=
    legible_toJson (List.forall_mem_singleton.2 nofun)
  refine ⟨rfl, rfl, ?_⟩
  rw [parse_render hlegible, Option.bind_some]
  exact ofJson?_toJson_eq_none (by decide)

end Record

end MailRules
