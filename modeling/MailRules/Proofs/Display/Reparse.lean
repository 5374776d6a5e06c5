import MailRules.Proofs.Display.Parts
import MailRules.Proofs.Grammar.Complete.Program

/-!
Conditions through their text. The text puts parentheses around every predicate and every operator,
so reading it back opens more groups than the condition is high, and NOT opens two at a time. Up to
the nesting limit a writable condition comes back as it was; beyond it the parser stops there.

    weight    1 ( sender contains "x" )
              2 ( ( a in ["b"] ) AND ( c contains "d" ) )
              3 ( NOT ( a in ["b"] ) )
-/

namespace MailRules

namespace Condition

/-- The groups and negations open at the deepest place of the text. -/
def weight : Condition → Nat
  | contains .. | isIn .. => 1
  | and a b | or a b => 1 + max a.weight b.weight
  | not a => 2 + a.weight

theorem height_lt_weight (c : Condition) : c.height < c.weight := by
  induction c with
  | contains | isIn => exact Nat.zero_lt_one
  | and a b iha ihb | or a b iha ihb => simp only [height, weight]; omega
  | not a ih => simp only [height, weight]; omega

end Condition

namespace Display

open Grammar Lexical MailRules.Parser MailRules.Parser.ConditionState

/-! ### Predicates -/

/-- Words that spell a keyword in some case make it. -/
theorem kind_keyword {k : Keyword} {w : String} (pos : Position)
    (h : k.spelling.toList = w.toList.map Char.toLower := by decide) :
    (tokenOf pos (.word w.toList)).kind = .keyword k :=
  wordKind_eq_iff.2 (.keyword h)

theorem isField_tokenOf {f : String} (h : IsFieldName f) (pos : Position) :
    IsField (tokenOf pos (.word f.toList)) f := by
  have htext : (tokenOf pos (.word f.toList)).spelling = f := String.ofList_toList
  have hkind : WordKind f.toList (tokenOf pos (.word f.toList)).kind := wordKind_eq_iff.1 rfl
  generalize hk : (tokenOf pos (.word f.toList)).kind = kind at hkind
  cases hkind with
  | @keyword k hspell =>
    have hnot : k ≠ .not := fun hnot => h.notNot (by rw [← hspell, hnot]; rfl)
    have hfield := IsField.keyword hk hnot
    rwa [htext, h.lower k hspell.symm, String.ofList_toList] at hfield
  | identifier =>
    have hfield := IsField.identifier hk
    rwa [htext] at hfield

theorem text_tokenOf (pos : Position) (s : String) : Text [tokenOf pos (.quoted s.toList)] s := by
  have htext : (tokenOf pos (.quoted s.toList)).spelling = s := String.ofList_toList
  have h := Text.mk (t := tokenOf pos (.quoted s.toList)) rfl
  rwa [htext] at h

/-- The texts of a list, up to its closing bracket. -/
theorem separated_restParts (rest : List String) : ∀ before gap s, ∃ ts c,
    tokensOf before (quoted gap s :: restParts rest) = ts ++ [c] ∧
      Separated (.symbol .comma) Text ts (s :: rest) ∧ c.kind = .symbol .rightBracket := by
  induction rest with
  | nil => exact fun before gap s => ⟨[_], _, rfl, .one (text_tokenOf _ s), rfl⟩
  | cons s' rest ih =>
    intro before gap s
    obtain ⟨ts, c, hts, hsep, hc⟩ := ih _ [' '] s'
    exact ⟨_ :: _ :: ts, c, congrArg (fun ts => _ :: _ :: ts) hts,
      .more (text_tokenOf _ s) rfl hsep, hc⟩

theorem textList_listParts {needles : List String} (h : needles ≠ []) (before : List Char) :
    TextList (tokensOf before (listParts needles)) needles := by
  cases needles with
  | nil => exact absurd rfl h
  | cons s rest =>
    obtain ⟨ts, c, hts, hsep, hc⟩ := separated_restParts rest _ [] s
    rw [listParts, tokensOf, hts]
    exact .mk rfl hsep hc

theorem predicate_contains {field : String} {pattern : Pattern}
    (h : Writable (.contains field pattern)) (before gap : List Char) :
    Predicate (tokensOf before (word gap field :: word [' '] "contains" :: patternParts pattern))
      (.contains field pattern) := by
  have hfield := isField_tokenOf (h.fields field List.mem_cons_self)
  have hword := fun pos => kind_keyword (k := .contains) (w := "contains") pos
  cases pattern with
  | one needle => exact .contains (hfield _) (hword _) (text_tokenOf _ needle)
  | any needles =>
    have hlist := textList_listParts (h.lists needles List.mem_cons_self)
    exact .containsList (hfield _) (hword _) (hlist _)

theorem predicate_isIn {field : String} {needles : List String}
    (h : Writable (.isIn field needles)) (before gap : List Char) :
    Predicate (tokensOf before (word gap field :: word [' '] "in" :: listParts needles))
      (.isIn field needles) := by
  have hfield := isField_tokenOf (h.fields field List.mem_cons_self)
  have hword := fun pos => kind_keyword (k := .inWord) (w := "in") pos
  have hlist := textList_listParts (h.lists needles List.mem_cons_self)
  exact .isInList (hfield _) (hword _) (hlist _)

/-! ### Operators -/

theorem kind_and (pos : Position) : (tokenOf pos (.word "AND".toList)).kind = .keyword .and :=
  kind_keyword pos

theorem kind_or (pos : Position) : (tokenOf pos (.word "OR".toList)).kind = .keyword .or :=
  kind_keyword pos

theorem kind_not (pos : Position) : (tokenOf pos (.word "NOT".toList)).kind = .keyword .not :=
  kind_keyword pos

/-! ### Within the limit -/

theorem tokensOf_grouped (before gap : List Char) (inside : List Part) : ∃ o c before',
    tokensOf before (grouped gap inside) = o :: (tokensOf before' inside ++ [c]) ∧
      o.kind = .symbol .leftParen ∧ c.kind = .symbol .rightParen := by
  rw [grouped, tokensOf, tokensOf_append]
  exact ⟨_, _, _, rfl, rfl, rfl⟩

theorem derives_grouped {lim : Limits} {d : Nat} {inside : List Part} {c : Condition}
    (hopen : lim.opens d) (h : ∀ before, Derives lim .or (d + 1) (tokensOf before inside) c)
    (before gap : List Char) : Derives lim .not d (tokensOf before (grouped gap inside)) c := by
  obtain ⟨o, e, before', hts, ho, he⟩ := tokensOf_grouped before gap inside
  rw [hts]
  exact .group hopen ho (h before') he

/-- The grammar derives a condition from its text, as one operand. -/
theorem derives_parts {c : Condition} : Writable c → ∀ {d : Nat}, d + c.weight ≤ maxNesting →
    ∀ before gap, Derives .standard .not d (tokensOf before (parts gap c)) c := by
  induction c with
  | contains field pattern =>
    intro h d hd
    exact derives_grouped (Nat.lt_of_succ_le hd) fun before =>
      .orOfAnd (.andOfNot (.predicate (predicate_contains h before [])))
  | isIn field needles =>
    intro h d hd
    exact derives_grouped (Nat.lt_of_succ_le hd) fun before =>
      .orOfAnd (.andOfNot (.predicate (predicate_isIn h before [])))
  | and a b iha ihb =>
    intro h d hd
    obtain ⟨ha, hb⟩ := writable_and.1 h
    have hheight : (a.and b).height ≤ maxNesting := by
      have hlt := (a.and b).height_lt_weight
      omega
    simp only [Condition.weight] at hd
    refine derives_grouped (show d < maxNesting by omega) fun before => ?_
    rw [tokensOf_append, tokensOf]
    have hleft := Derives.andOfNot (iha ha (show d + 1 + a.weight ≤ maxNesting by omega) before [])
    exact .orOfAnd (.and hleft (kind_and _) (ihb hb (by omega) _ _) hheight)
  | or a b iha ihb =>
    intro h d hd
    obtain ⟨ha, hb⟩ := writable_or.1 h
    have hheight : (a.or b).height ≤ maxNesting := by
      have hlt := (a.or b).height_lt_weight
      omega
    simp only [Condition.weight] at hd
    refine derives_grouped (show d < maxNesting by omega) fun before => ?_
    rw [tokensOf_append, tokensOf]
    have hleft := Derives.andOfNot (iha ha (show d + 1 + a.weight ≤ maxNesting by omega) before [])
    exact .or (.orOfAnd hleft) (kind_or _) (.andOfNot (ihb hb (by omega) _ _)) hheight
  | not a ih =>
    intro h d hd
    simp only [Condition.weight] at hd
    refine derives_grouped (show d < maxNesting by omega) fun before => ?_
    have hopen : d + 1 < maxNesting := by omega
    have hinside := ih (writable_not.1 h) (show d + 1 + 1 + a.weight ≤ maxNesting by omega)
    exact .orOfAnd (.andOfNot (.not hopen (kind_not _) (hinside _ _)))

/-! ### Beyond the limit -/

/-- Reading stops at the nesting limit. -/
def Stops (n : Nesting) (ts : List Token) : Prop :=
  ∃ t, feed step (.operand n) ts = .error (.of t .lessNesting)

theorem Stops.append {n : Nesting} {ts : List Token} (h : Stops n ts) (us : List Token) :
    Stops n (ts ++ us) := by
  obtain ⟨t, ht⟩ := h
  refine ⟨t, ?_⟩
  rw [feed_append, ht]
  rfl

/-- Behind phrases and tokens that are read, and leave the reading at another operand. -/
theorem Stops.behind {n n' : Nesting} {ts us : List Token} (h : Stops n' us)
    (hts : feed step (.operand n) ts = .ok (.operand n')) : Stops n (ts ++ us) := by
  obtain ⟨t, ht⟩ := h
  exact ⟨t, (feed_append_of_ok hts us).trans ht⟩

/-- At a token that opens a group or a negation reading stops, or else inside. -/
theorem stops_open {n n' : Nesting} {o : Token} {us : List Token}
    (hstep : (operand n).step o =
      if n.depth < maxNesting then .ok (.operand n') else .error (.of o .lessNesting))
    (h : n.depth < maxNesting → Stops n' us) : Stops n (o :: us) := by
  by_cases hd : n.depth < maxNesting
  · rw [if_pos hd] at hstep
    exact (h hd).behind ((feed_singleton _ _).trans hstep)
  · rw [if_neg hd] at hstep
    exact ⟨o, by rw [feed_cons, hstep]; rfl⟩

theorem stops_grouped {n : Nesting} {inside : List Part}
    (h : n.depth < maxNesting → ∀ before, Stops n.openGroup (tokensOf before inside))
    (before gap : List Char) : Stops n (tokensOf before (grouped gap inside)) := by
  obtain ⟨o, e, before', hts, ho, -⟩ := tokensOf_grouped before gap inside
  rw [hts]
  exact stops_open (by simp only [step, begin, ho]) fun hd => (h hd before').append [e]

theorem stops_negation {n : Nesting} {ps : List Part}
    (h : n.depth < maxNesting → ∀ before, Stops n.openNegation (tokensOf before ps))
    (before : List Char) : Stops n (tokensOf before (word [] "NOT" :: ps)) := by
  rw [word, tokensOf]
  exact stops_open (by simp only [step, begin, kind_not]) fun hd => h hd _

/-- An operand that fits is read up to the operator behind it, which leaves the depth as it is. -/
theorem stops_right {n : Nesting} {a : Condition} {ts us : List Token} {o : Token}
    (hts : Derives .standard .not n.openGroup.depth ts a)
    (ho : o.kind = .keyword .and ∨ o.kind = .keyword .or)
    (hus : ∀ n', n'.depth = n.openGroup.depth → Stops n' us) :
    Stops n.openGroup (ts ++ o :: us) := by
  have hread : feed step (.operand n.openGroup) ts =
      .ok (.joined ⟨.fresh, n.level :: n.outer⟩ a) :=
    (reads_of_derives (.andOfNot hts) none (n.level :: n.outer) rfl).eq
  obtain ⟨n', hstep, hdepth⟩ : ∃ n',
      (joined ⟨.fresh, n.level :: n.outer⟩ a).step o = .ok (.operand n') ∧
        n'.depth = n.openGroup.depth := by
    rcases ho with ho | ho
    · exact ⟨n.openGroup.joinAnd a o, by simp only [step, ho]; rfl, rfl⟩
    · exact ⟨n.openGroup.joinOr a o, by simp only [step, ho]; rfl, rfl⟩
  have hoperator : feed step (.operand n.openGroup) (ts ++ [o]) = .ok (.operand n') := by
    rw [feed_append_of_ok hread, feed_singleton]
    exact hstep
  simpa using (hus n' hdepth).behind hoperator

/-- One side of a join is too deep: the left one, or the right one behind a left one that fits. -/
theorem stops_join {n : Nesting} {a b : Condition} {w : String} (ha : Writable a)
    (iha : ∀ n : Nesting, maxNesting < n.depth + a.weight →
      ∀ before gap, Stops n (tokensOf before (parts gap a)))
    (ihb : ∀ n : Nesting, maxNesting < n.depth + b.weight →
      ∀ before gap, Stops n (tokensOf before (parts gap b)))
    (hw : ∀ pos, (tokenOf pos (.word w.toList)).kind = .keyword .and ∨
      (tokenOf pos (.word w.toList)).kind = .keyword .or)
    (hdeep : maxNesting < n.openGroup.depth + max a.weight b.weight) (before : List Char) :
    Stops n.openGroup (tokensOf before (parts [] a ++ word [' '] w :: parts [' '] b)) := by
  rw [tokensOf_append, tokensOf]
  by_cases hleft : maxNesting < n.openGroup.depth + a.weight
  · exact (iha n.openGroup hleft before []).append _
  · refine stops_right (derives_parts ha (Nat.le_of_not_lt hleft) before []) (hw _) ?_
    exact fun n' hdepth => ihb n' (by omega) _ [' ']

/-- A text that goes below the limit is not read, and nothing else keeps it from that. -/
theorem stops_parts {c : Condition} : Writable c →
    ∀ n : Nesting, maxNesting < n.depth + c.weight →
    ∀ before gap, Stops n (tokensOf before (parts gap c)) := by
  induction c with
  | contains | isIn =>
    intro _ n hdeep
    refine stops_grouped fun hd => ?_
    simp only [Condition.weight] at hdeep
    omega
  | and a b iha ihb =>
    intro h n hdeep
    obtain ⟨ha, hb⟩ := writable_and.1 h
    refine stops_grouped fun _ => stops_join ha (iha ha) (ihb hb) (fun _ => .inl (kind_and _)) ?_
    simp only [Condition.weight] at hdeep
    rw [depth_openGroup]
    omega
  | or a b iha ihb =>
    intro h n hdeep
    obtain ⟨ha, hb⟩ := writable_or.1 h
    refine stops_grouped fun _ => stops_join ha (iha ha) (ihb hb) (fun _ => .inr (kind_or _)) ?_
    simp only [Condition.weight] at hdeep
    rw [depth_openGroup]
    omega
  | not a ih =>
    intro h n hdeep
    refine stops_grouped fun _ => stops_negation fun _ before =>
      ih (writable_not.1 h) n.openGroup.openNegation ?_ before [' ']
    simp only [Condition.weight] at hdeep
    rw [depth_openNegation, depth_openGroup]
    omega

/-! ### Rule texts -/

theorem beforeEnd_tokensOf (ps : List Part) (pos : Position) (before : List Char) :
    beforeEnd (tokensOf before ps ++ [Token.eof pos]) = tokensOf before ps :=
  beforeEnd_append (tokens_tokensOf ps before).unended rfl []

/-- A writable condition's rule text has the tokens of its parts, so the parser decides. -/
theorem ofText_eq_parse {c : Condition} (h : Writable c) : ∃ pos,
    Program.ofText (ruleText c) =
      (Program.parse (tokensOf [] (ruleParts c) ++ [Token.eof pos])).mapError .parse := by
  have htokens := tokenize_spell (wellFormed_ruleParts h) (spell_ruleParts c)
  exact ⟨_, Program.ofText_of_tokenize htokens⟩

theorem tokensOf_ruleParts (c : Condition) : ∃ f n w t a before,
    tokensOf [] (ruleParts c) = [f, n] ++ w :: (tokensOf before (parts [' '] c) ++ [t, a]) ∧
      HeaderOf [f, n] "F" 0 ∧ w.kind = .keyword .when ∧ t.kind = .keyword .thenWord ∧
      a.kind = .keyword .auto := by
  have hname : ∀ pos, IsName (tokenOf pos (.word "F".toList)) "F" := fun pos =>
    ⟨.inl (wordKind_eq_iff.2 (.identifier fun k => by cases k <;> decide)), String.ofList_toList⟩
  simp only [ruleParts, tokensOf, tokensOf_append]
  exact ⟨_, _, _, _, _, _, rfl, .mk (kind_keyword _) (hname _) .none, kind_keyword _,
    kind_keyword _, kind_keyword _⟩

/-- The program that the rule text is about. -/
def ruleProgram (c : Condition) : Program := ⟨[⟨"F", 0, [⟨c, [.auto]⟩]⟩]⟩

theorem ofText_ruleText {c : Condition} (h : Writable c) (hlow : c.weight ≤ maxNesting) :
    Program.ofText (ruleText c) = .ok (ruleProgram c) := by
  obtain ⟨pos, htext⟩ := ofText_eq_parse h
  obtain ⟨f, n, w, t, a, before, hts, hheader, hw, ht, ha⟩ := tokensOf_ruleParts c
  have hc := derives_parts h (show 0 + c.weight ≤ maxNesting by omega) before [' ']
  have hrule := RuleOf.mk hw (.orOfAnd (.andOfNot hc)) ht (.one (.auto ha))
  have hfolder := FolderOf.mk hheader (.cons hrule .nil) (List.cons_ne_nil _ _)
  have hprogram : ProgramOf .standard (tokensOf [] (ruleParts c)) (ruleProgram c) := by
    rw [hts]
    simpa [ruleProgram, ProgramOf] using Many.cons hfolder .nil
  rw [← beforeEnd_tokensOf (ruleParts c) pos] at hprogram
  rw [htext, (agrees_parse hprogram).eq]
  rfl

/-- A text that is nested too deep is refused for that. -/
theorem ofText_ruleText_tooDeep {c : Condition} (h : Writable c) (hdeep : maxNesting < c.weight) :
    ∃ t, Program.ofText (ruleText c) = .error (.parse (.of t .lessNesting)) := by
  obtain ⟨pos, htext⟩ := ofText_eq_parse h
  obtain ⟨f, n, w, t, a, before, hts, hheader, hw, -, -⟩ := tokensOf_ruleParts c
  obtain ⟨p, hread, hp⟩ := feed_header opensFolder_initial hheader
  have hdepth : maxNesting < Nesting.depth ⟨.fresh, []⟩ + c.weight := by
    rwa [show Nesting.depth ⟨.fresh, []⟩ = 0 from rfl, Nat.zero_add]
  obtain ⟨o, ho⟩ := stops_parts h ⟨.fresh, []⟩ hdepth before [' ']
  have hcondition : feed State.step ⟨[], .condition ⟨"F", 0, []⟩ .initial⟩
      (tokensOf before (parts [' '] c)) = .error (.of o .lessNesting) := by
    rw [feed_condition_eq, ConditionState.initial, ho]
    · rfl
    · intro t ht
      rw [ConditionState.initial, ho] at ht
      simp [ParseError.of] at ht
  have hfeed : feed State.step .initial (tokensOf [] (ruleParts c)) =
      .error (.of o .lessNesting) := by
    rw [hts, feed_append_of_ok hread, feed_of_step (hp [] w hw), feed_append, hcondition]
    rfl
  refine ⟨o, ?_⟩
  rw [htext, Program.parse, run_eq, beforeEnd_tokensOf, hfeed]
  rfl

/-- The condition comes back from its text, as the condition of the only rule. -/
def Reparses (c : Condition) : Prop :=
  ∃ p rule, Program.ofText (ruleText c) = .ok p ∧ p.folders.flatMap (·.rules) = [rule] ∧
    rule.condition = c

/-- Exactly the writable conditions come back from their text, up to the nesting limit. -/
theorem reparses_iff (c : Condition) : Reparses c ↔ Writable c ∧ c.weight ≤ maxNesting := by
  constructor
  · rintro ⟨p, rule, hp, hrules, rfl⟩
    have hmem : rule ∈ p.folders.flatMap (·.rules) := by
      rw [hrules]
      exact List.mem_cons_self
    obtain ⟨f, hf, hr⟩ := List.mem_flatMap.1 hmem
    have hwritable := writable_of_ofText hp hf hr
    refine ⟨hwritable, Nat.le_of_not_lt fun hdeep => ?_⟩
    obtain ⟨t, ht⟩ := ofText_ruleText_tooDeep hwritable hdeep
    rw [ht] at hp
    cases hp
  · rintro ⟨hwritable, hlow⟩
    exact ⟨_, _, ofText_ruleText hwritable hlow, rfl, rfl⟩

end Display

end MailRules
