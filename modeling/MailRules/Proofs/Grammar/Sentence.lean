import Mathlib.Data.List.TakeWhile
import MailRules.Proofs.Grammar.Complete.Program

/-!
Sentences: the token lists that the grammar derives when nesting is not limited. Whatever is derived
under some limits is one, and the end of the input is no token of any of them.
-/

namespace MailRules.Grammar

open MailRules.Parser

/-- Any depth and any height. -/
def Limits.free : Limits := ⟨fun _ => True, fun _ => True⟩

/-- A program of the grammar, nested as deep as it may be. -/
def Sentence (ts : List Token) : Prop := ∃ p, ProgramOf .free ts p

/-- The beginning of a sentence. -/
def Viable (ts : List Token) : Prop := ∃ us, Sentence (ts ++ us)

theorem Sentence.viable {ts : List Token} (h : Sentence ts) : Viable ts :=
  ⟨[], by rwa [List.append_nil]⟩

/-! ### Without limits -/

section
variable {lim : Limits}

/-- Without limits, how deep a phrase stands is no matter. -/
theorem Derives.free {layer : Layer} {d : Nat} {ts : List Token} {c : Condition}
    (h : Derives lim layer d ts c) : ∀ d', Derives .free layer d' ts c := by
  induction h with
  | orOfAnd _ ih => exact fun d' => .orOfAnd (ih d')
  | or _ ho _ _ iha ihb => exact fun d' => .or (iha d') ho (ihb d') trivial
  | andOfNot _ ih => exact fun d' => .andOfNot (ih d')
  | and _ ho _ _ iha ihb => exact fun d' => .and (iha d') ho (ihb d') trivial
  | not _ ho _ ih => exact fun d' => .not trivial ho (ih (d' + 1))
  | group _ ho _ hc ih => exact fun d' => .group trivial ho (ih (d' + 1)) hc
  | predicate hp => exact fun _ => .predicate hp

theorem RuleOf.free {ts : List Token} {r : Rule} (h : RuleOf lim ts r) : RuleOf .free ts r := by
  obtain ⟨hw, hc, ht, ha⟩ := h
  exact .mk hw (hc.free 0) ht ha

theorem Many.imp {α : Type} {R S : List Token → α → Prop} (hRS : ∀ {ts a}, R ts a → S ts a)
    {ts : List Token} {as : List α} (h : Many R ts as) : Many S ts as := by
  induction h with
  | nil => exact .nil
  | cons ha _ ih => exact .cons (hRS ha) ih

theorem FolderOf.free {ts : List Token} {f : Folder} (h : FolderOf lim ts f) :
    FolderOf .free ts f := by
  obtain ⟨hhead, hrules, hne⟩ := h
  exact .mk hhead (hrules.imp RuleOf.free) hne

end

/-! ### No end inside -/

/-- None of the tokens stands for the end of the input. -/
def Unended (ts : List Token) : Prop := ∀ t ∈ ts, t.kind ≠ .eof

theorem beforeEnd_eq_self {ts : List Token} (h : Unended ts) : beforeEnd ts = ts :=
  List.takeWhile_eq_self_iff.2 fun t ht => decide_eq_true (h t ht)

theorem unended_nil : Unended [] := fun _ ht => absurd ht List.not_mem_nil

theorem unended_cons {t : Token} {ts : List Token} :
    Unended (t :: ts) ↔ t.kind ≠ .eof ∧ Unended ts :=
  List.forall_mem_cons

theorem unended_append {ts us : List Token} : Unended (ts ++ us) ↔ Unended ts ∧ Unended us :=
  List.forall_mem_append

theorem unended_beforeEnd (ts : List Token) : Unended (beforeEnd ts) := by
  intro t ht
  have hbefore := List.mem_takeWhile_imp ht
  simpa using hbefore

section
variable {α : Type} {R : List Token → α → Prop}

theorem Many.unended (hR : ∀ {ts a}, R ts a → Unended ts) {ts : List Token} {as : List α}
    (h : Many R ts as) : Unended ts := by
  induction h with
  | nil => exact unended_nil
  | cons ha _ ih => exact unended_append.2 ⟨hR ha, ih⟩

theorem Separated.unended {separator : Token.Kind} {ts : List Token} {as : List α}
    (h : Separated separator R ts as) (hsep : separator ≠ .eof)
    (hR : ∀ {ts a}, R ts a → Unended ts) : Unended ts := by
  induction h with
  | one ha => exact hR ha
  | more ha ho _ ih => exact unended_append.2 ⟨hR ha, unended_cons.2 ⟨ho ▸ hsep, ih⟩⟩

end

theorem IsName.kind_ne_eof {t : Token} {name : String} (h : IsName t name) : t.kind ≠ .eof := by
  obtain ⟨hk | hk, -⟩ := h <;> simp [hk]

theorem IsField.kind_ne_eof {t : Token} {field : String} (h : IsField t field) :
    t.kind ≠ .eof := by
  cases h with
  | keyword hk _ | identifier hk => simp [hk]

theorem Text.unended {ts : List Token} {text : String} (h : Text ts text) : Unended ts := by
  obtain ⟨hk⟩ := h
  exact unended_cons.2 ⟨by simp [hk], unended_nil⟩

theorem TextList.unended {ts : List Token} {texts : List String} (h : TextList ts texts) :
    Unended ts := by
  obtain ⟨ho, hts, hc⟩ := h
  have htexts := hts.unended nofun Text.unended
  simp [unended_cons, unended_append, unended_nil, ho, hc, htexts]

theorem Predicate.unended {ts : List Token} {c : Condition} (h : Predicate ts c) :
    Unended ts := by
  cases h with
  | contains hf hk ht | isIn hf hk ht =>
    exact unended_cons.2 ⟨hf.kind_ne_eof, unended_cons.2 ⟨by simp [hk], ht.unended⟩⟩
  | containsList hf hk ht | isInList hf hk ht =>
    exact unended_cons.2 ⟨hf.kind_ne_eof, unended_cons.2 ⟨by simp [hk], ht.unended⟩⟩

section
variable {lim : Limits}

theorem Derives.unended {layer : Layer} {d : Nat} {ts : List Token} {c : Condition}
    (h : Derives lim layer d ts c) : Unended ts := by
  induction h with
  | orOfAnd _ ih | andOfNot _ ih => exact ih
  | or _ ho _ _ iha ihb | and _ ho _ _ iha ihb =>
    exact unended_append.2 ⟨iha, unended_cons.2 ⟨by simp [ho], ihb⟩⟩
  | not _ ho _ ih => exact unended_cons.2 ⟨by simp [ho], ih⟩
  | group _ ho _ hc ih => simp [unended_cons, unended_append, unended_nil, ho, hc, ih]
  | predicate hp => exact hp.unended

theorem ActionOf.unended {ts : List Token} {a : Action} (h : ActionOf ts a) : Unended ts := by
  cases h with
  | moveTo h₁ h₂ hn | removeFrom h₁ h₂ hn =>
    simp [unended_cons, unended_nil, h₁, h₂, hn.kind_ne_eof]
  | markRead h₁ h₂ h₃ | markUnread h₁ h₂ h₃ => simp [unended_cons, unended_nil, h₁, h₂, h₃]
  | notify h₁ | call h₁ | remind h₁ | auto h₁ => simp [unended_cons, unended_nil, h₁]

theorem RuleOf.unended {ts : List Token} {r : Rule} (h : RuleOf lim ts r) : Unended ts := by
  obtain ⟨hw, hc, ht, ha⟩ := h
  have hactions := ha.unended nofun ActionOf.unended
  simp [unended_cons, unended_append, hw, ht, hc.unended, hactions]

theorem HeaderOf.unended {ts : List Token} {name : String} {priority : Int64}
    (h : HeaderOf ts name priority) : Unended ts := by
  obtain ⟨hf, hn, hp⟩ := h
  refine unended_cons.2 ⟨by simp [hf], unended_cons.2 ⟨hn.kind_ne_eof, ?_⟩⟩
  cases hp with
  | none => exact unended_nil
  | some hk hi _ => simp [unended_cons, unended_nil, hk, hi]

theorem FolderOf.unended {ts : List Token} {f : Folder} (h : FolderOf lim ts f) : Unended ts := by
  obtain ⟨hhead, hrules, -⟩ := h
  exact unended_append.2 ⟨hhead.unended, hrules.unended RuleOf.unended⟩

theorem ProgramOf.unended {ts : List Token} {p : Program} (h : ProgramOf lim ts p) : Unended ts :=
  Many.unended FolderOf.unended h

end

/-! ### The first end -/

section
variable {ts : List Token} {t : Token}

theorem beforeEnd_append (hts : Unended ts) (ht : t.kind = .eof) (rest : List Token) :
    beforeEnd (ts ++ t :: rest) = ts := by
  have hall : ∀ u ∈ ts, decide (u.kind ≠ .eof) = true := fun u hu => decide_eq_true (hts u hu)
  rw [beforeEnd, List.takeWhile_append_of_pos hall, List.takeWhile_cons_of_neg (by simp [ht]),
    List.append_nil]

theorem endOf_append (hts : Unended ts) (ht : t.kind = .eof) (rest : List Token) :
    ∀ last, endOf last (ts ++ t :: rest) = t := by
  induction ts with
  | nil => exact fun last => if_pos ht
  | cons u us ih =>
    obtain ⟨hu, hus⟩ := unended_cons.1 hts
    intro last
    rw [List.cons_append, endOf, if_neg hu, ih hus]

/-- Parsing ends at the first end of the input. -/
theorem parse_append (hts : Unended ts) (ht : t.kind = .eof) (rest : List Token) :
    Program.parse (ts ++ t :: rest) = feed State.step .initial ts >>= (·.finish t) := by
  rw [Program.parse, run_eq, beforeEnd_append hts ht, endOf_append hts ht]

end

theorem Sentence.beforeEnd_eq {ts : List Token} (h : Sentence ts) : beforeEnd ts = ts := by
  obtain ⟨p, hp⟩ := h
  exact beforeEnd_eq_self hp.unended

end MailRules.Grammar
