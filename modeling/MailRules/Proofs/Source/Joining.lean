import MailRules.Source.Basic
import MailRules.Proofs.Grammar.Alike
import MailRules.Proofs.Grammar.Texts
import MailRules.Proofs.Lexical.Joining

/-!
Programs from several texts. Behind a text that is a program, another one on the next line is read as
if it stood alone: the folders of both stand one behind the other, and an error of the second is the
one that it has by itself, further down. Only where the second begins with AND or WHEN could it go on
with the last rule or the last folder of the first.
-/

namespace MailRules

def ParseError.down (e : ParseError) (n : Nat) : ParseError := { e with pos := e.pos.down n }

def RuleError.down (e : RuleError) (n : Nat) : RuleError :=
  match e with
  | .lex e => .lex (e.down n)
  | .parse e => .parse (e.down n)

/-- The folders of both programs. -/
def Program.append (p q : Program) : Program := ⟨p.folders ++ q.folders⟩

namespace Grammar

open MailRules.Parser

/-! ### Behind a program -/

section
variable {R : Token → Token → Prop} {p : Program} {s : State} {t t' : Token}

/-- Behind a program the next token does what it does at the beginning, unless it goes on with the
last folder. -/
theorem related_seam (hs : s.program? = some p) (ht : R t t') (halike : t.Alike t')
    (hfresh : p.folders = [] ∨ t.kind ≠ .keyword .and ∧ t.kind ≠ .keyword .when) :
    Related (AlikeError R) (AlikeState R p.folders.reverse) (State.initial.step t) (s.step t') := by
  obtain ⟨folders, place⟩ := s
  cases place with
  | declaration =>
    cases hs
    have hstate : AlikeState R folders .initial ⟨folders, .declaration⟩ := ⟨rfl, .declaration⟩
    rw [List.reverse_reverse]
    exact related_step hstate ht halike
  | afterAction d c actions =>
    cases hs
    -- The first program has this folder, so its neighbour does not begin with AND or WHEN.
    obtain ⟨kind, text, pos⟩ := t
    obtain ⟨kind', text', pos'⟩ := t'
    obtain rfl : kind' = kind := halike.kind
    obtain ⟨hand, hwhen⟩ := hfresh.resolve_left (by simp)
    cases kind' with
    | keyword k =>
      cases k with
      | and => exact absurd rfl hand
      | when => exact absurd rfl hwhen
      | folder => exact .ok ⟨by simp [State.initial], .folderName⟩
      | _ => exact .error (.of ht)
    | _ => exact .error (.of ht)
  | _ => cases hs

/-- Behind a program another one is read as from the beginning. -/
theorem related_behind (hR : ∀ {t t'}, R t t' → t.Alike t') (hs : s.program? = some p)
    {ts ts' : List Token} (hts : List.Forall₂ R ts ts') (ht : R t t')
    (hfresh : p.folders = [] ∨
      ∀ u ∈ ts.head?, u.kind ≠ .keyword .and ∧ u.kind ≠ .keyword .when) :
    Related (AlikeError R) (fun q q' => q' = p.append q)
      (feed State.step .initial ts >>= (·.finish t)) (feed State.step s ts' >>= (·.finish t')) := by
  cases hts with
  | nil =>
    have hend : s.finish t' = .ok p := by rw [State.finish, hs]
    have hempty : State.initial.finish t = .ok ⟨[]⟩ := rfl
    change Related _ _ (State.initial.finish t) (s.finish t')
    rw [hempty, hend]
    exact .ok (by simp [Program.append])
  | cons hu hus =>
    -- From the first token on the states correspond, with the folders of `p` before.
    rw [feed_cons, feed_cons, bind_assoc, bind_assoc]
    refine (related_seam hs hu (hR hu) (hfresh.imp_right fun h => h _ rfl)).bind fun hstate => ?_
    refine (related_feed hR hus hstate).bind fun hstate => ?_
    refine (related_finish hstate ht).imp id fun hfolders => ?_
    rw [List.reverse_reverse] at hfolders
    exact congrArg Program.mk hfolders

end

/-! ### Further down -/

/-- The same token further down. -/
def IsBelow (n : Nat) (t t' : Token) : Prop := t' = t.down n

theorem IsBelow.alike {n : Nat} {t t' : Token} (h : IsBelow n t t') : t.Alike t' := by
  cases h
  exact ⟨rfl, rfl, fun _ => rfl⟩

theorem AlikeError.eq_down {n : Nat} {e e' : ParseError} (h : AlikeError (IsBelow n) e e') :
    e' = e.down n := by
  obtain ⟨rfl⟩ := h
  rfl

/-- Tokens further down, behind those of a program. -/
theorem parse_behind {p : Program} {ts us : List Token} {t u : Token} {n : Nat}
    (hts : Unended ts) (ht : t.kind = .eof) (hp : Program.parse (ts ++ [t]) = .ok p)
    (hus : Unended us) (hu : u.kind = .eof) (hfresh : p.folders = [] ∨
      ∀ v ∈ us.head?, v.kind ≠ .keyword .and ∧ v.kind ≠ .keyword .when) :
    Program.parse (ts ++ (us ++ [u]).map (·.down n)) =
      ((Program.parse (us ++ [u])).map p.append).mapError (·.down n) := by
  rw [parse_append hts ht] at hp
  obtain ⟨s, hs, hfinish⟩ := bind_eq_ok hp
  have hend : (u.down n).kind = .eof := hu
  have hdown : Unended (ts ++ us.map (·.down n)) :=
    unended_append.2 ⟨hts, by simpa [Unended, Token.down] using hus⟩
  have hread : Program.parse (ts ++ (us ++ [u]).map (·.down n)) =
      feed State.step s (us.map (·.down n)) >>= (·.finish (u.down n)) := by
    rw [List.map_append, ← List.append_assoc, List.map_singleton, parse_append hdown hend,
      feed_append_of_ok hs]
  have hpairs : List.Forall₂ (IsBelow n) us (us.map (·.down n)) := by
    simp [IsBelow]
  have hboth := related_behind IsBelow.alike (program?_of_finish hfinish) hpairs
    (rfl : IsBelow n u (u.down n)) hfresh
  rw [hread, parse_append hus hu]
  exact (hboth.imp AlikeError.eq_down id).eq_map

end Grammar

/-! ### Texts -/

namespace Source

open Grammar Lexical

/-- The first token of a text goes on with no folder. -/
def Fresh (text : String) : Prop := ∀ t ts, tokenize text = .ok (t :: ts) →
  t.kind ≠ .keyword .and ∧ t.kind ≠ .keyword .when

theorem ofText_join {a b : String} {p : Program} (ha : Program.ofText a = .ok p)
    (hb : p.folders = [] ∨ Fresh b) : Program.ofText (a ++ "\n" ++ b) =
      ((Program.ofText b).map p.append).mapError (·.down (lineCount a)) := by
  obtain ⟨ts, hts, hp⟩ := Program.ofText_eq_ok ha
  obtain ⟨read, pos, rfl, hread⟩ := unended_of_tokenize hts
  have hjoin := tokenize_join hts b
  cases hus : tokenize b with
  | error e =>
    rw [hus] at hjoin
    simp only [Program.ofText, hus, hjoin]
    rfl
  | ok us =>
    rw [hus, List.dropLast_concat] at hjoin
    rw [Program.ofText_of_tokenize hjoin, Program.ofText_of_tokenize hus]
    obtain ⟨more, pos', rfl, hmore⟩ := unended_of_tokenize hus
    have hfresh : p.folders = [] ∨
        ∀ v ∈ more.head?, v.kind ≠ .keyword .and ∧ v.kind ≠ .keyword .when := by
      refine hb.imp_right fun hfresh v hv => ?_
      obtain ⟨rest, rfl⟩ := List.head?_eq_some_iff.1 hv
      exact hfresh v _ hus
    rw [parse_behind hread rfl hp hmore rfl hfresh]
    cases Program.parse (more ++ [Token.eof pos']) <;> rfl

/-- A text that is a program goes on with no folder. -/
theorem fresh_of_ofText {text : String} {p : Program} (h : Program.ofText text = .ok p) :
    Fresh text := by
  intro t ts hts
  obtain ⟨_, hts', hp⟩ := Program.ofText_eq_ok h
  cases hts.symm.trans hts'
  constructor <;> intro hk <;>
    simp [Program.parse, Parser.State.run, Parser.State.step, Parser.State.initial, hk] at hp

/-! ### Several sources -/

theorem ofText_intercalate {texts : List String} {programs : List Program}
    (h : List.Forall₂ (fun text p => Program.ofText text = .ok p) texts programs) :
    Program.ofText ("\n".intercalate texts) = .ok ⟨programs.flatMap (·.folders)⟩ := by
  induction h with
  | nil => rfl
  | @cons text p texts programs hp hrest ih =>
    cases hrest with
    | nil => simpa using hp
    | cons _ _ =>
      rw [String.intercalate_cons_cons, ofText_join hp (.inr (fresh_of_ofText ih)), ih]
      rfl

section
variable {read : String → Except FileFault String} {sources : List RuleSource}

theorem mapM_load {texts : List String}
    (h : List.Forall₂ (fun source text => RuleSource.load read source = .ok text) sources texts) :
    sources.mapM (RuleSource.load read) = .ok texts := by
  induction h with
  | nil => rfl
  | cons htext _ ih =>
    rw [List.mapM_cons, htext, ih]
    rfl

theorem loadAll_eq_ok {texts : List String}
    (h : List.Forall₂ (fun source text => RuleSource.load read source = .ok text) sources texts) :
    RuleSource.loadAll read sources = .ok ("\n".intercalate texts) := by
  rw [RuleSource.loadAll, mapM_load h]
  rfl

/-- Sources that are programs one by one have texts that are. -/
theorem exists_texts {programs : List Program}
    (h : List.Forall₂ (fun source p => ∃ text, RuleSource.load read source = .ok text ∧
      Program.ofText text = .ok p) sources programs) :
    ∃ texts,
      List.Forall₂ (fun source text => RuleSource.load read source = .ok text) sources texts ∧
        List.Forall₂ (fun text p => Program.ofText text = .ok p) texts programs := by
  induction h with
  | nil => exact ⟨[], .nil, .nil⟩
  | cons hp _ ih =>
    obtain ⟨text, htext, hp⟩ := hp
    obtain ⟨texts, hload, hparse⟩ := ih
    exact ⟨text :: texts, .cons htext hload, .cons hp hparse⟩

theorem ofSources_eq {programs : List Program}
    (h : List.Forall₂ (fun source p => ∃ text, RuleSource.load read source = .ok text ∧
      Program.ofText text = .ok p) sources programs) :
    Program.ofSources read sources = .ok ⟨programs.flatMap (·.folders)⟩ := by
  obtain ⟨texts, hload, hparse⟩ := exists_texts h
  simp only [Program.ofSources, loadAll_eq_ok hload, ofText_intercalate hparse]
  rfl

end

/-- Joining by line feeds composes. The tokens of two texts stand one behind the other, and so do
the folders of two programs, if the second text goes on with no folder of the first; where the
second text fails, it does so as it does alone, further down. So sources that are programs one by
one make up the program of all their folders, in their order, wherever their files are and whatever
else there is to read. -/
theorem joining_composes :
    (∀ (a b : String) (ts : List Token), tokenize a = .ok ts → tokenize (a ++ "\n" ++ b) =
      ((tokenize b).map fun us => ts.dropLast ++ us.map (·.down (lineCount a))).mapError
        (·.down (lineCount a))) ∧
    (∀ (a b : String) (p : Program), Program.ofText a = .ok p →
      (p.folders = [] ∨ ∀ t ts, tokenize b = .ok (t :: ts) →
        t.kind ≠ .keyword .and ∧ t.kind ≠ .keyword .when) →
      Program.ofText (a ++ "\n" ++ b) =
        ((Program.ofText b).map p.append).mapError (·.down (lineCount a))) ∧
    (∀ (read : String → Except FileFault String) (sources : List RuleSource)
      (programs : List Program),
      List.Forall₂ (fun source p => ∃ text, RuleSource.load read source = .ok text ∧
        Program.ofText text = .ok p) sources programs →
      Program.ofSources read sources = .ok ⟨programs.flatMap (·.folders)⟩) := by
  refine ⟨?_, ?_, ?_⟩
  · intro a b ts ha
    exact tokenize_join ha b
  · intro a b p ha hb
    exact ofText_join ha hb
  · intro read sources programs h
    exact ofSources_eq h

/-- A character below the first text, an end of input below the first program, and three programs.
Two of them are in files: one has a path from the root, the other lies above the working directory
and ends in a line feed. -/
theorem joining_composes_lines :
    let a := "folder A when x in \"y\"\nthen auto"
    let read : String → Except FileFault String := fun path =>
      if path = "/rules/b.cxr" then .ok "folder B when x in \"z\" then auto"
      else if path = "../c.cxr" then .ok "folder C when x in \"w\" then auto\n"
      else .error .notFound
    tokenize (a ++ "\n" ++ "%") = .error (.unexpectedChar '%' ⟨3, 1⟩) ∧
      Program.ofText (a ++ "\n" ++ "folder") =
        .error (.parse ⟨⟨3, 7⟩, .folderName, "end of input"⟩) ∧
      Program.ofSources read [.file "/rules/b.cxr", .inline a, .file "../c.cxr"] =
        .ok ⟨[⟨"B", 0, [⟨.isIn "x" ["z"], [.auto]⟩]⟩, ⟨"A", 0, [⟨.isIn "x" ["y"], [.auto]⟩]⟩,
          ⟨"C", 0, [⟨.isIn "x" ["w"], [.auto]⟩]⟩]⟩ := by
  intro a read
  have ha : Program.ofText a = .ok ⟨[⟨"A", 0, [⟨.isIn "x" ["y"], [.auto]⟩]⟩]⟩ := by
    decide +kernel
  have hb : Program.ofText "folder B when x in \"z\" then auto" =
      .ok ⟨[⟨"B", 0, [⟨.isIn "x" ["z"], [.auto]⟩]⟩]⟩ := by decide +kernel
  have hc : Program.ofText "folder C when x in \"w\" then auto\n" =
      .ok ⟨[⟨"C", 0, [⟨.isIn "x" ["w"], [.auto]⟩]⟩]⟩ := by decide +kernel
  have hlines : lineCount a = 2 := by decide +kernel
  refine ⟨?_, ?_, ?_⟩
  · obtain ⟨ts, hts, -⟩ := Program.ofText_eq_ok ha
    have hstray : tokenize "%" = .error (.unexpectedChar '%' .start) := by decide +kernel
    rw [joining_composes.1 a "%" ts hts, hstray, hlines]
    rfl
  · have htokens : tokenize "folder" =
        .ok [⟨.keyword .folder, some "folder", .start⟩, .eof ⟨1, 7⟩] := by decide +kernel
    have hfresh : Fresh "folder" := fun t ts h => by
      cases htokens.symm.trans h
      exact ⟨by decide, by decide⟩
    rw [joining_composes.2.1 a "folder" _ ha (.inr hfresh), hlines]
    decide +kernel
  · exact joining_composes.2.2 read _ _
      (.cons ⟨_, rfl, hb⟩ (.cons ⟨a, rfl, ha⟩ (.cons ⟨_, rfl, hc⟩ .nil)))

end Source
end MailRules
