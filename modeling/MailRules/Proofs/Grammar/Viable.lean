import MailRules.Proofs.Grammar.Samples
import MailRules.Proofs.Grammar.Sentence
import MailRules.Proofs.Grammar.Sound.Program

/-!
What the parser has read so far always begins a sentence. For every state there are tokens that
finish what it is in the middle of: a missing operand is some predicate, open groups are closed one
by one, and a rule is closed by an action.

    folder A when x in          state: a pattern must follow
    folder A when x in "y" then auto
-/

namespace MailRules.Grammar

open MailRules.Parser

/-! ### Conditions -/

/-- A phrase of the layer, whatever it writes. -/
def Phrase (layer : Layer) (ts : List Token) : Prop := ∃ c, Derives .free layer 0 ts c

section
variable {d : Nat} {us : List Token}

theorem phrase_predicate {c : Condition} (h : Predicate us c) : Phrase .not us :=
  ⟨c, .predicate h⟩

theorem Phrase.group {o c : Token} (h : Phrase .or us) (ho : o.kind = .symbol .leftParen)
    (hc : c.kind = .symbol .rightParen) : Phrase .not (o :: (us ++ [c])) := by
  obtain ⟨a, ha⟩ := h
  exact ⟨a, .group trivial ho (ha.free 1) hc⟩

theorem Negations.phrase {n : Nat} {ts : List Token} (h : Negations d n ts) :
    ∀ {us : List Token}, Phrase .not us → Phrase .not (ts ++ us) := by
  induction h with
  | zero => exact id
  | @succ n ts o _ _ ho ih =>
    rintro us ⟨a, ha⟩
    have hnot : Phrase .not (o :: us) := ⟨a.not, .not trivial ho (ha.free 1)⟩
    rw [List.append_assoc]
    exact ih hnot

theorem Waiting.phraseAnd {w : Option (Condition × Token)} {ts : List Token}
    (h : Waiting .and .and d w ts) (hus : Phrase .not us) : Phrase .and (ts ++ us) := by
  obtain ⟨b, hb⟩ := hus
  cases h with
  | none => exact ⟨b, .andOfNot hb⟩
  | some ha ho =>
    rw [List.append_assoc]
    exact ⟨_, .and (ha.free 0) ho hb trivial⟩

theorem Waiting.phraseOr {w : Option (Condition × Token)} {ts : List Token}
    (h : Waiting .or .or d w ts) (hus : Phrase .and us) : Phrase .or (ts ++ us) := by
  obtain ⟨b, hb⟩ := hus
  cases h with
  | none => exact ⟨b, .orOfAnd hb⟩
  | some ha ho =>
    rw [List.append_assoc]
    exact ⟨_, .or (ha.free 0) ho hb trivial⟩

/-- An operand closes what waits for it in its group. -/
theorem LevelTook.phrase {l : Level} {ts : List Token} (h : LevelTook d l ts)
    (hus : Phrase .not us) : Phrase .or (ts ++ us) := by
  obtain ⟨hor, hand, hneg⟩ := h
  rw [List.append_assoc, List.append_assoc]
  exact hor.phraseOr (hand.phraseAnd (hneg.phrase hus))

/-- Open groups are closed from the innermost outwards. -/
theorem OuterTook.phrase {outer : List Level} {ts : List Token} (h : OuterTook outer ts) :
    ∀ {us : List Token}, Phrase .or us → ∃ vs, Phrase .or (ts ++ us ++ vs) := by
  induction h with
  | nil =>
    intro us hus
    exact ⟨[], by rwa [List.append_nil]⟩
  | cons _ hlevel ho _ ih =>
    -- With its parenthesis the group is an operand of the group around it.
    intro us hus
    obtain ⟨vs, hvs⟩ := ih (hlevel.phrase (hus.group ho (c := mark .rightParen) rfl))
    exact ⟨mark .rightParen :: vs, by simpa using hvs⟩

theorem NestingTook.phrase {n : Nesting} {ts : List Token} (h : NestingTook n ts)
    (hus : Phrase .not us) : ∃ vs, Phrase .or (ts ++ us ++ vs) := by
  obtain ⟨houter, hlevel⟩ := h
  obtain ⟨vs, hvs⟩ := houter.phrase (hlevel.phrase hus)
  exact ⟨vs, by simpa using hvs⟩

/-- Whatever completes a predicate behind its head completes the condition. -/
theorem HeadTook.phrase {n : Nesting} {field : String} {c : Comparison} {ts : List Token}
    {p : Condition} (h : HeadTook n field c ts)
    (hp : ∀ f k, IsField f field → IsComparison k c → Predicate (f :: k :: us) p) :
    ∃ vs, Phrase .or (ts ++ us ++ vs) := by
  obtain ⟨hn, hf, hk⟩ := h
  obtain ⟨vs, hvs⟩ := hn.phrase (phrase_predicate (hp _ _ hf hk))
  exact ⟨vs, by simpa using hvs⟩

end

/-- Behind every state, some tokens complete the condition. -/
theorem ConditionTook.phrase {s : ConditionState} {ts : List Token} (h : ConditionTook s ts) :
    ∃ us, Phrase .or (ts ++ us) := by
  have htext : (text "y").kind = .string := rfl
  cases h with
  | operand hn =>
    obtain ⟨vs, hvs⟩ := hn.phrase (phrase_predicate predicate_plain)
    exact ⟨plain ++ vs, by simpa using hvs⟩
  | comparison hn hf =>
    have hp := predicate_one hf (k := word .contains) (c := .contains) rfl htext
    obtain ⟨vs, hvs⟩ := hn.phrase (phrase_predicate hp)
    exact ⟨word .contains :: text "y" :: vs, by simpa using hvs⟩
  | pattern hhead =>
    obtain ⟨vs, hvs⟩ := hhead.phrase fun _ _ hf hk => predicate_one hf hk htext
    exact ⟨text "y" :: vs, by simpa using hvs⟩
  | firstItem hhead ho =>
    have hlist : TextList _ _ := .mk ho (.one (text_text "y")) (c := mark .rightBracket) rfl
    obtain ⟨vs, hvs⟩ := hhead.phrase fun _ _ hf hk => predicate_list hf hk hlist
    exact ⟨text "y" :: mark .rightBracket :: vs, by simpa using hvs⟩
  | item hhead ho htexts hcomma =>
    have hlist : TextList _ _ :=
      .mk ho (htexts.snoc hcomma (text_text "y")) (c := mark .rightBracket) rfl
    obtain ⟨vs, hvs⟩ := hhead.phrase fun _ _ hf hk => predicate_list hf hk hlist
    exact ⟨text "y" :: mark .rightBracket :: vs, by simpa using hvs⟩
  | nextItem hhead ho htexts =>
    have hlist : TextList _ _ := .mk ho htexts (c := mark .rightBracket) rfl
    obtain ⟨vs, hvs⟩ := hhead.phrase fun _ _ hf hk => predicate_list hf hk hlist
    exact ⟨mark .rightBracket :: vs, by simpa using hvs⟩
  | joined houter hor hc =>
    obtain ⟨vs, hvs⟩ := houter.phrase (hor.phraseOr ⟨_, hc.free 0⟩)
    exact ⟨vs, by simpa using hvs⟩

/-! ### Programs -/

theorem ActionTook.completes {s : ActionState} {ts : List Token} (h : ActionTook s ts) :
    ∃ us a, ActionOf (ts ++ us) a := by
  cases h with
  | initial => exact ⟨[word .auto], _, .auto rfl⟩
  | moveTo ha => exact ⟨[word .toWord, name "A"], _, .moveTo ha rfl (isName_name "A")⟩
  | moveTarget ha hb => exact ⟨[name "A"], _, .moveTo ha hb (isName_name "A")⟩
  | removeFrom ha => exact ⟨[word .fromWord, name "A"], _, .removeFrom ha rfl (isName_name "A")⟩
  | removeTarget ha hb => exact ⟨[name "A"], _, .removeFrom ha hb (isName_name "A")⟩
  | markAs ha => exact ⟨[word .asWord, word .read], _, .markRead ha rfl rfl⟩
  | markState ha hb => exact ⟨[word .read], _, .markRead ha hb rfl⟩

theorem ruleOf_plain : RuleOf .free (ruleAround plain) ⟨plainCondition, [.auto]⟩ :=
  ruleOf_around (.orOfAnd (.andOfNot (.predicate predicate_plain)))

/-- A draft with a rule more is a folder. -/
theorem DraftTook.folderOf {d : FolderDraft} {ts us : List Token} {r : Rule} (h : DraftTook d ts)
    (hr : RuleOf .free us r) : ∃ f, FolderOf .free (ts ++ us) f := by
  obtain ⟨hhead, hrules⟩ := h
  rw [List.append_assoc]
  exact ⟨_, .mk hhead ((hrules.imp RuleOf.free).snoc hr) (by simp)⟩

theorem folderOf_header {ts : List Token} {folder : String} {priority : Int64}
    (h : HeaderOf ts folder priority) : ∃ f, FolderOf .free (ts ++ ruleAround plain) f :=
  (draftTook_header h).folderOf ruleOf_plain

/-- The actions of a rule complete its folder. -/
theorem ConclusionTook.folderOf {d : FolderDraft} {c : Condition} {actions : List Action}
    {ts us : List Token} (h : ConclusionTook d c ts)
    (ha : Separated (.keyword .and) ActionOf us actions) : ∃ f, FolderOf .free (ts ++ us) f := by
  obtain ⟨hd, hw, hc, ht⟩ := h
  obtain ⟨f, hf⟩ := hd.folderOf (.mk hw (hc.free 0) ht ha)
  exact ⟨f, by simpa using hf⟩

theorem priorityOf_zero {k : Token} (hk : k.kind = .keyword .priority) :
    PriorityOf [k, name "0"] 0 := by
  have hdigits : ∀ c ∈ ['0'], '0' ≤ c ∧ c ≤ '9' := by simp
  have hzero : Integer ['0'] ((0 : Int64).toInt) := .unsigned (List.cons_ne_nil _ _) hdigits
  exact .some hk rfl hzero

/-- Behind every place but the first, some tokens complete the folder. -/
theorem PlaceTook.folderOf {p : Place} {ts : List Token} (h : PlaceTook p ts)
    (hp : p ≠ .declaration) : ∃ us f, FolderOf .free (ts ++ us) f := by
  cases h with
  | declaration => exact absurd rfl hp
  | folderName hf =>
    exact ⟨name "A" :: ruleAround plain, folderOf_header (.mk hf (isName_name "A") .none)⟩
  | afterName hf hn => exact ⟨_, folderOf_header (.mk hf hn .none)⟩
  | priorityValue hf hn hk =>
    obtain ⟨f, hf⟩ := folderOf_header (.mk hf hn (priorityOf_zero hk))
    exact ⟨name "0" :: ruleAround plain, f, hf⟩
  | firstRule hd => exact ⟨_, hd.folderOf ruleOf_plain⟩
  | condition hd hw hc =>
    have hauto : ActionOf [word .auto] .auto := .auto rfl
    obtain ⟨us, c, hc⟩ := hc.phrase
    obtain ⟨f, hf⟩ := hd.folderOf (.mk hw hc (t := word .thenWord) rfl (.one hauto))
    exact ⟨us ++ [word .thenWord, word .auto], f, by simpa using hf⟩
  | firstAction hc ha =>
    obtain ⟨us, a, ha⟩ := ha.completes
    obtain ⟨f, hf⟩ := hc.folderOf (.one ha)
    exact ⟨us, f, by simpa using hf⟩
  | action hc has ho ha =>
    obtain ⟨us, a, ha⟩ := ha.completes
    obtain ⟨f, hf⟩ := hc.folderOf (has.snoc ho ha)
    exact ⟨us, f, by simpa using hf⟩
  | afterAction hc has =>
    obtain ⟨f, hf⟩ := hc.folderOf has
    exact ⟨[], f, by simpa using hf⟩

/-- What stands behind a state begins a sentence. -/
theorem StateTook.viable {s : State} {ts : List Token} (h : StateTook s ts) : Viable ts := by
  obtain ⟨folders, place⟩ := s
  obtain ⟨hfolders, hplace⟩ := h
  have hdone : Many (FolderOf .free) _ folders.reverse := hfolders.imp FolderOf.free
  by_cases hp : place = .declaration
  · subst hp
    cases hplace
    rw [List.append_nil]
    exact Sentence.viable ⟨⟨_⟩, hdone⟩
  · obtain ⟨us, f, hf⟩ := hplace.folderOf hp
    refine ⟨us, ⟨folders.reverse ++ [f]⟩, ?_⟩
    rw [List.append_assoc]
    exact hdone.snoc hf

end MailRules.Grammar
