import MailRules.Proofs.Display.Layered

/-!
Programs as rule text. Names and targets stand between quotes, priorities in decimal digits, actions
behind each other with AND, and conditions with parentheses only where they are needed. A program
whose folders have rules, whose rules have actions and whose names hold no quote is read back from
this text, up to the nesting limit and with every priority that is not negative.

    FOLDER "Work" PRIORITY 7 WHEN sender contains "boss" THEN MOVE TO "Urgent" AND NOTIFY
-/

namespace MailRules

/-- The folder that an action names. -/
def Action.named? : Action → Option String
  | moveTo target | removeFrom target => some target
  | _ => none

namespace Display

open Grammar Lexical

/-! ### Programs with a text -/

structure ExpressibleRule (r : Rule) : Prop where
  actions : r.actions ≠ []
  targets : ∀ a ∈ r.actions, ∀ target ∈ a.named?, '"' ∉ target.toList
  condition : Writable r.condition
  height : r.condition.height ≤ maxNesting

structure ExpressibleFolder (f : Folder) : Prop where
  name : '"' ∉ f.name.toList
  priority : 0 ≤ f.priority
  nonempty : f.rules ≠ []
  rules : ∀ r ∈ f.rules, ExpressibleRule r

def Expressible (p : Program) : Prop := ∀ f ∈ p.folders, ExpressibleFolder f

/-! ### Their parts -/

def partsOfAction : Action → List Part
  | .moveTo target => [word [' '] "MOVE", word [' '] "TO", quoted [' '] target]
  | .removeFrom target => [word [' '] "REMOVE", word [' '] "FROM", quoted [' '] target]
  | .notify => [word [' '] "NOTIFY"]
  | .call => [word [' '] "CALL"]
  | .remind => [word [' '] "REMIND"]
  | .markRead => [word [' '] "MARK", word [' '] "AS", word [' '] "READ"]
  | .markUnread => [word [' '] "MARK", word [' '] "AS", word [' '] "UNREAD"]
  | .auto => [word [' '] "AUTO"]

def partsOfActions : List Action → List Part
  | [] => []
  | [a] => partsOfAction a
  | a :: rest => partsOfAction a ++ word [' '] "AND" :: partsOfActions rest

def partsOfRule (r : Rule) : List Part :=
  word [' '] "WHEN" :: (layered .or r.condition ++ word [' '] "THEN" :: partsOfActions r.actions)

/-- The digits of a priority that is not negative. -/
def priorityDigits (priority : Int64) : String := priority.toInt.toNat.repr

def partsOfHeader (f : Folder) : List Part :=
  [word [' '] "FOLDER", quoted [' '] f.name, word [' '] "PRIORITY",
    word [' '] (priorityDigits f.priority)]

def partsOfFolder (f : Folder) : List Part := partsOfHeader f ++ f.rules.flatMap partsOfRule

def partsOfProgram (p : Program) : List Part := p.folders.flatMap partsOfFolder

/-- The program as rule text. -/
def programText (p : Program) : String := String.ofList (spell (partsOfProgram p))

/-! ### They are well formed -/

theorem spaced_keyword {w : String} {ps : List Part} (h : Spaced ps)
    (hw : w.toList ≠ [] ∧ w.toList.all Lexer.isWordChar = true := by decide) :
    Spaced (word [' '] w :: ps) :=
  spaced_word (valid_word hw) h

theorem spaced_partsOfAction {a : Action} (h : ∀ target ∈ a.named?, '"' ∉ target.toList) :
    Spaced (partsOfAction a) := by
  cases a with
  | moveTo target | removeFrom target =>
    exact spaced_keyword (spaced_keyword (spaced_quoted (h target rfl) spaced_nil))
  | markRead | markUnread => exact spaced_keyword (spaced_keyword (spaced_keyword spaced_nil))
  | notify | call | remind | auto => exact spaced_keyword spaced_nil

theorem spaced_partsOfActions {as : List Action}
    (h : ∀ a ∈ as, ∀ target ∈ a.named?, '"' ∉ target.toList) : Spaced (partsOfActions as) := by
  induction as with
  | nil => exact spaced_nil
  | cons a rest ih =>
    obtain ⟨ha, hrest⟩ := List.forall_mem_cons.1 h
    cases rest with
    | nil => exact spaced_partsOfAction ha
    | cons b rest => exact (spaced_partsOfAction ha).append (spaced_keyword (ih hrest))

theorem spaced_partsOfRule {r : Rule} (h : ExpressibleRule r) : Spaced (partsOfRule r) := by
  have hactions := spaced_keyword (w := "THEN") (spaced_partsOfActions h.targets)
  exact spaced_keyword ((spaced_layered h.condition .or).append hactions)

theorem toList_priorityDigits (priority : Int64) :
    (priorityDigits priority).toList = Nat.toDigits 10 priority.toInt.toNat :=
  Nat.toList_repr

theorem priorityDigits_ne_nil (priority : Int64) : (priorityDigits priority).toList ≠ [] := by
  rw [toList_priorityDigits]
  exact Nat.toDigits_ne_nil

theorem digit_of_mem_priorityDigits {priority : Int64} {c : Char}
    (hc : c ∈ (priorityDigits priority).toList) : '0' ≤ c ∧ c ≤ '9' := by
  rw [toList_priorityDigits] at hc
  exact isDigit_iff.1 (Nat.isDigit_of_mem_toDigits (by decide) (by decide) hc)

theorem valid_priorityDigits (priority : Int64) :
    (Lexeme.word (priorityDigits priority).toList).Valid :=
  ⟨priorityDigits_ne_nil priority, fun _ hc => .inr (.inr (.inl (digit_of_mem_priorityDigits hc)))⟩

theorem spaced_partsOfHeader {f : Folder} (h : ExpressibleFolder f) :
    Spaced (partsOfHeader f) := by
  have hpriority := spaced_word (valid_priorityDigits f.priority) spaced_nil
  exact spaced_keyword (spaced_quoted h.name (spaced_keyword hpriority))

theorem spaced_partsOfProgram {p : Program} (h : Expressible p) : Spaced (partsOfProgram p) :=
  Spaced.flatMap fun f hf => (spaced_partsOfHeader (h f hf)).append
    (Spaced.flatMap fun r hr => spaced_partsOfRule ((h f hf).rules r hr))

/-! ### The grammar derives them -/

theorem many_flatMap {α : Type} {R : List Token → α → Prop} {write : α → List Part}
    {as : List α} (h : ∀ a ∈ as, ∀ before, R (tokensOf before (write a)) a) :
    ∀ before, Many R (tokensOf before (as.flatMap write)) as := by
  induction as with
  | nil => exact fun _ => .nil
  | cons a as ih =>
    intro before
    obtain ⟨ha, has⟩ := List.forall_mem_cons.1 h
    rw [List.flatMap_cons, tokensOf_append]
    exact .cons (ha before) (ih has _)

theorem isName_quoted (pos : Position) (s : String) :
    IsName (tokenOf pos (.quoted s.toList)) s :=
  ⟨.inr rfl, String.ofList_toList⟩

theorem actionOf_partsOfAction (a : Action) (before : List Char) :
    ActionOf (tokensOf before (partsOfAction a)) a := by
  cases a with
  | moveTo target => exact .moveTo (kind_keyword _) (kind_keyword _) (isName_quoted _ target)
  | removeFrom target =>
    exact .removeFrom (kind_keyword _) (kind_keyword _) (isName_quoted _ target)
  | markRead => exact .markRead (kind_keyword _) (kind_keyword _) (kind_keyword _)
  | markUnread => exact .markUnread (kind_keyword _) (kind_keyword _) (kind_keyword _)
  | notify => exact .notify (kind_keyword _)
  | call => exact .call (kind_keyword _)
  | remind => exact .remind (kind_keyword _)
  | auto => exact .auto (kind_keyword _)

theorem separated_partsOfActions {as : List Action} (h : as ≠ []) : ∀ before,
    Separated (.keyword .and) ActionOf (tokensOf before (partsOfActions as)) as := by
  induction as with
  | nil => exact absurd rfl h
  | cons a rest ih =>
    intro before
    cases rest with
    | nil => exact .one (actionOf_partsOfAction a before)
    | cons b rest =>
      rw [partsOfActions, tokensOf_append, tokensOf]
      · exact .more (actionOf_partsOfAction a before) (kind_and _) (ih (List.cons_ne_nil _ _) _)
      · exact List.cons_ne_nil _ _

theorem ruleOf_partsOfRule {r : Rule} (h : ExpressibleRule r) (before : List Char) :
    RuleOf .standard (tokensOf before (partsOfRule r)) r := by
  have hdepth : 0 + r.condition.height ≤ maxNesting := by
    rw [Nat.zero_add]
    exact h.height
  rw [partsOfRule, tokensOf, tokensOf_append, tokensOf]
  exact .mk (kind_keyword _) (derives_layered h.condition hdepth .or _) (kind_keyword _)
    (separated_partsOfActions h.actions _)

/-- No keyword begins with a digit, so digits are an identifier. -/
theorem kind_priorityDigits (priority : Int64) (pos : Position) :
    (tokenOf pos (.word (priorityDigits priority).toList)).kind = .identifier := by
  refine wordKind_eq_iff.2 (.identifier fun k hk => ?_)
  obtain ⟨d, rest, hdigits⟩ := List.exists_cons_of_ne_nil (priorityDigits_ne_nil priority)
  have hd := digit_of_mem_priorityDigits (hdigits ▸ List.mem_cons_self : d ∈ _)
  have hlower : d.toLower = d :=
    dif_neg fun hupper => absurd (Char.le_trans (a := 'A') hupper.1 hd.2) (by decide)
  have hhead : k.spelling.toList.head?.all (fun c => '9' < c) = true := by cases k <;> decide
  rw [hk, hdigits, List.map_cons, hlower] at hhead
  exact Char.not_le.2 (of_decide_eq_true hhead) hd.2

theorem priorityOf_digits {priority : Int64} (h : 0 ≤ priority) (pos pos' : Position) :
    PriorityOf [tokenOf pos (.word "PRIORITY".toList),
      tokenOf pos' (.word (priorityDigits priority).toList)] priority := by
  have hspelling : (tokenOf pos' (.word (priorityDigits priority).toList)).spelling =
      priorityDigits priority := String.ofList_toList
  have hvalue : (Nat.ofDigitChars 10 (priorityDigits priority).toList 0 : Int) =
      priority.toInt := by
    rw [toList_priorityDigits, Nat.ofDigitChars_ten_toDigits]
    exact Int.toNat_of_nonneg (Int64.le_iff_toInt_le.1 h)
  refine .some (kind_keyword pos) (kind_priorityDigits priority pos') ?_
  rw [hspelling, ← hvalue]
  exact .unsigned (priorityDigits_ne_nil priority) fun _ hc => digit_of_mem_priorityDigits hc

theorem headerOf_partsOfHeader {f : Folder} (h : ExpressibleFolder f) (before : List Char) :
    HeaderOf (tokensOf before (partsOfHeader f)) f.name f.priority :=
  .mk (kind_keyword _) (isName_quoted _ f.name) (priorityOf_digits h.priority _ _)

theorem folderOf_partsOfFolder {f : Folder} (h : ExpressibleFolder f) (before : List Char) :
    FolderOf .standard (tokensOf before (partsOfFolder f)) f := by
  have hrules := many_flatMap (fun r hr => ruleOf_partsOfRule (h.rules r hr))
  rw [partsOfFolder, tokensOf_append]
  exact .mk (headerOf_partsOfHeader h before) (hrules _) h.nonempty

/-- A program within the limits is what its text is read as. -/
theorem ofText_programText {p : Program} (h : Expressible p) :
    Program.ofText (programText p) = .ok p := by
  have hspell : (programText p).toList = spell (partsOfProgram p) := String.toList_ofList
  have htokens := tokenize_spell (spaced_partsOfProgram h).wellFormed hspell
  have hprogram : ProgramOf .standard (tokensOf [] (partsOfProgram p)) p :=
    many_flatMap (fun f hf => folderOf_partsOfFolder (h f hf)) []
  rw [← beforeEnd_tokensOf (partsOfProgram p) (placeAfter (programText p).toList)] at hprogram
  rw [Program.ofText_of_tokenize htokens, (agrees_parse hprogram).eq]
  rfl

/-! ### At the limits -/

/-- A predicate on a field whose name is a keyword, in lower case. -/
def bySender : Condition := .contains "sender" (.any ["boss", ""])

/-- A predicate on another field, with a text that looks like more of the rule. -/
def byLabel : Condition := .isIn "Label_2" ["x) AND\n[", "THEN"]

/-- A chain that leans to the right, so that every AND but the first stands in parentheses. -/
def leaning : Nat → Condition
  | 0 => bySender
  | n + 1 => byLabel.and (leaning n)

theorem height_leaning : ∀ n, (leaning n).height = n
  | 0 => rfl
  | n + 1 => by simp only [leaning, byLabel, Condition.height, height_leaning n, Nat.zero_max]

theorem writable_bySender : Writable bySender where
  fields := List.forall_mem_singleton.2 (isFieldName_spelling (k := .sender) nofun)
  texts := by decide
  lists := by decide

theorem writable_byLabel : Writable byLabel where
  fields := by
    refine List.forall_mem_singleton.2 ⟨by decide, ?_, by decide, fun k => by cases k <;> decide⟩
    exact fun c hc => isWordChar_iff.1 (List.all_eq_true.1 (by decide) c hc)
  texts := by decide
  lists := by decide

theorem writable_leaning : ∀ n, Writable (leaning n)
  | 0 => writable_bySender
  | n + 1 => writable_and.2 ⟨writable_byLabel, writable_leaning n⟩

/-- As many operators below each other as there may be, the highest priority, and names that are
empty, of two lines or a keyword. -/
def utmost : Program :=
  ⟨[⟨"", Int64.maxValue,
      [⟨(bySender.or byLabel).and (leaning (maxNesting - 2)).not,
        [.moveTo "THEN", .removeFrom "two\nlines", .markUnread]⟩]⟩,
    ⟨"", 0, [⟨bySender, [.auto]⟩, ⟨byLabel.not.not, [.notify, .notify]⟩]⟩]⟩

theorem ofText_programText_utmost :
    Expressible utmost ∧ Program.ofText (programText utmost) = .ok utmost := by
  have hjoin : Writable (bySender.or byLabel) := writable_or.2 ⟨writable_bySender, writable_byLabel⟩
  have hlast : Writable (leaning (maxNesting - 2)).not := writable_not.2 (writable_leaning _)
  have hhigh : ((bySender.or byLabel).and (leaning (maxNesting - 2)).not).height ≤ maxNesting := by
    simp only [Condition.height, height_leaning]
    decide
  have hfirst : ExpressibleRule ⟨(bySender.or byLabel).and (leaning (maxNesting - 2)).not,
      [.moveTo "THEN", .removeFrom "two\nlines", .markUnread]⟩ :=
    ⟨by decide, by decide, writable_and.2 ⟨hjoin, hlast⟩, hhigh⟩
  have hsecond : ExpressibleRule ⟨bySender, [.auto]⟩ :=
    ⟨by decide, by decide, writable_bySender, by decide⟩
  have hthird : ExpressibleRule ⟨byLabel.not.not, [.notify, .notify]⟩ :=
    ⟨by decide, by decide, writable_not.2 (writable_not.2 writable_byLabel), by decide⟩
  have hexpressible : Expressible utmost := List.forall_mem_cons.2
    ⟨⟨by decide, by decide, by decide, List.forall_mem_singleton.2 hfirst⟩,
      List.forall_mem_singleton.2 ⟨by decide, by decide, by decide,
        List.forall_mem_cons.2 ⟨hsecond, List.forall_mem_singleton.2 hthird⟩⟩⟩
  exact ⟨hexpressible, ofText_programText hexpressible⟩

end Display

end MailRules
