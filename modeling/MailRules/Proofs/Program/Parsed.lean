import MailRules.Proofs.Display.Programs
import MailRules.Proofs.Program.Declared

/-!
Parsed programs and declared ones. The parser makes only folders that may be declared: each has a
rule, each rule an action, and no list in a condition is empty, whatever the tokens are. Where they
are the tokens of a text, no name in the program holds a quote and its conditions are legible.

    folder "In tray" when NOT from in ["a"] then auto      parsed
    In tray: rule (NOT (from in ["a"])) [auto]             declared, the same program
-/

namespace MailRules

namespace Grammar

section
variable {lim : Limits}

theorem RuleOf.actions_ne_nil {ts : List Token} {r : Rule} (h : RuleOf lim ts r) :
    r.actions ≠ [] := by
  obtain ⟨-, -, -, hactions⟩ := h
  exact hactions.ne_nil

theorem FolderOf.complete {ts : List Token} {f : Folder} (h : FolderOf lim ts f) : f.Complete := by
  refine ⟨?_, fun r hr => ?_⟩
  · obtain ⟨-, -, hne⟩ := h
    exact hne
  · obtain ⟨us, -, hrule⟩ := h.exists_of_rule r hr
    exact hrule.actions_ne_nil

end

end Grammar

namespace Display

open Grammar

/-! ### Folders of a text -/

structure LegibleRule (r : Rule) : Prop where
  targets : ∀ a ∈ r.actions, ∀ target ∈ a.named?, '"' ∉ target.toList
  condition : Legible r.condition

structure LegibleFolder (f : Folder) : Prop where
  name : '"' ∉ f.name.toList
  rules : ∀ r ∈ f.rules, LegibleRule r

section
variable {lim : Limits}

theorem noQuote_of_actionOf {ts : List Token} {a : Action} (h : ActionOf ts a)
    (hts : ∀ t ∈ ts, IsLexed t) : ∀ target ∈ a.named?, '"' ∉ target.toList := by
  cases h with
  | moveTo _ _ hname | removeFrom _ _ hname =>
    rintro target ⟨⟩
    exact noQuote_of_isName hname (hts _ (by simp))
  | markRead | markUnread | notify | call | remind | auto => nofun

theorem legible_of_ruleOf {ts : List Token} {r : Rule} (h : RuleOf lim ts r)
    (hts : ∀ t ∈ ts, IsLexed t) : LegibleRule r := by
  cases h with
  | mk _ hc _ hactions =>
    refine ⟨fun a ha => ?_, ?_⟩
    · obtain ⟨us, hus, haction⟩ := hactions.exists_of_mem a ha
      exact noQuote_of_actionOf haction fun t ht => hts t (by simp [hus ht])
    · exact (writable_of_derives hc fun t ht => hts t (by simp [ht])).legible

theorem legible_of_folderOf {ts : List Token} {f : Folder} (h : FolderOf lim ts f)
    (hts : ∀ t ∈ ts, IsLexed t) : LegibleFolder f := by
  refine ⟨?_, fun r hr => ?_⟩
  · obtain ⟨⟨-, hname, -⟩, -, -⟩ := h
    exact noQuote_of_isName hname (hts _ (by simp))
  · obtain ⟨us, hus, hrule⟩ := h.exists_of_rule r hr
    exact legible_of_ruleOf hrule fun t ht => hts t (hus ht)

end

end Display

namespace Program

open Grammar Display Lexical

/-- Declaring gives the folders as they are described, where all of them are complete, and else the
first thing that the first of the others lacks. What is parsed is complete, so it may be declared as
well; no list in it is empty, and read from a text it is legible. -/
theorem declare_and_parse_agree :
    (∀ ds : List Declaration,
      (∀ p, declare ds = .ok p ↔
        (∀ d ∈ ds, d.described.Complete) ∧ p = ⟨ds.map Declaration.described⟩) ∧
      ∀ e, declare ds = .error e ↔ ∃ earlier d later, ds = earlier ++ d :: later ∧
        (∀ d' ∈ earlier, d'.described.Complete) ∧ d.described.Lacks e) ∧
    ∀ ts p, parse ts = .ok p →
      declare (p.folders.map Declaration.ofFolder) = .ok p ∧
      (∀ f ∈ p.folders, ∀ r ∈ f.rules, ∀ l ∈ r.condition.lists, l ≠ []) ∧
      ∀ text, tokenize text = .ok ts → ∀ f ∈ p.folders, LegibleFolder f := by
  refine ⟨fun ds => ⟨fun _ => declare_eq_ok_iff, fun _ => declare_eq_error_iff⟩, fun ts p h => ?_⟩
  have hfolders := Many.exists_of_mem (programOf_of_parse h)
  refine ⟨?_, fun f hf r hr => ?_, fun text htext f hf => ?_⟩
  · have hdeclared : (p.folders.map Declaration.ofFolder).map Declaration.folder = p.folders := by
      rw [List.map_map]
      exact List.map_id'' Declaration.folder_ofFolder p.folders
    rw [declare, hdeclared, build_eq_ok_iff]
    refine ⟨fun f hf => ?_, rfl⟩
    obtain ⟨us, -, hfolder⟩ := hfolders f hf
    exact hfolder.complete
  · obtain ⟨us, -, hfolder⟩ := hfolders f hf
    obtain ⟨vs, -, hc⟩ := hfolder.derives r hr
    exact lists_of_derives hc
  · obtain ⟨us, hus, hfolder⟩ := hfolders f hf
    exact legible_of_folderOf hfolder fun t ht => isLexed_of_tokenize htext t (hus ht)

/-- A declaration whose second rule has no actions, in front of one without rules, and a text with a
name between quotes. -/
theorem declare_and_parse_agree_tray :
    let c : Condition := .isIn "from" ["a", ""]
    let text :=
      "folder \"In tray\" priority 7 when NOT from in [\"a\", \"\"] then move to Done and call"
    let p : Program := ⟨[⟨"In tray", 7, [⟨c.not, [.moveTo "Done", .call]⟩]⟩]⟩
    declare [⟨"A", [.rule c [.auto], .priority 3, .rule c []]⟩, ⟨"B", []⟩] =
        .error (.noActions "A" 1) ∧
      (∃ ts, tokenize text = .ok ts ∧ parse ts = .ok p) ∧
      declare (p.folders.map Declaration.ofFolder) = .ok p ∧ ∀ f ∈ p.folders, LegibleFolder f := by
  intro c text p
  obtain ⟨hdeclare, hparse⟩ := declare_and_parse_agree
  have htext : ofText text = .ok p := by decide +kernel
  obtain ⟨ts, hts, hp⟩ := ofText_eq_ok htext
  obtain ⟨hsame, -, hlegible⟩ := hparse ts p hp
  refine ⟨((hdeclare _).2 _).2 ⟨[], _, _, rfl, nofun, ?_⟩, ⟨ts, hts, hp⟩, hsame, hlegible text hts⟩
  exact @Folder.Lacks.actions _ [⟨c, [.auto]⟩] [] ⟨c, []⟩ rfl (by decide) rfl

end Program

end MailRules
