import MailRules.Proofs.Lexical.Strings
import MailRules.Proofs.Source.Joining

/-!
Rule texts and paths told apart. A text that ends in `.cxr`, apart from white space, is taken for a
path. No text that has tokens ends so: the dot could stand in a string only, and behind it there is no
quote to end the string. So rule texts are loaded as they stand, however files are read.
-/

namespace MailRules

namespace Text

/-- Trimming takes white space away at both ends and nothing else. -/
theorem trim_split (s : List Char) :
    ∃ lead tail, s = lead ++ trim s ++ tail ∧ Lexical.IsGap lead ∧ Lexical.IsGap tail := by
  let body := s.dropWhile isBlank
  have hbody : body = trim s ++ (body.reverse.takeWhile isBlank).reverse := by
    rw [trim, ← List.reverse_append, List.takeWhile_append_dropWhile, List.reverse_reverse]
  refine ⟨s.takeWhile isBlank, (body.reverse.takeWhile isBlank).reverse, ?_, ?_, ?_⟩
  · rw [List.append_assoc, ← hbody, List.takeWhile_append_dropWhile]
  · exact fun c hc => List.mem_takeWhile_imp hc
  · exact fun c hc => List.mem_takeWhile_imp (List.mem_reverse.1 hc)

end Text

namespace Source

open Lexical

theorem onlyQuoted_dot : OnlyQuoted '.' where
  notBlank := by decide
  notQuote := by decide
  notWord := by rw [← isWordChar_iff]; decide
  notSymbol s := by cases s <;> decide

theorem noQuote_of_isGap {gap : List Char} (h : IsGap gap) : '"' ∉ gap := by
  intro hmem
  have hblank := h _ hmem
  rw [show Text.isBlank '"' = false by decide] at hblank
  cases hblank

/-- What is taken for a path has no tokens. -/
theorem tokenize_eq_error_of_ending {text : String}
    (h : RuleSource.fileEnding <:+ Text.trim text.toList) : ∃ e, tokenize text = .error e := by
  obtain ⟨lead, tail, htext, -, htail⟩ := Text.trim_split text.toList
  obtain ⟨stem, hstem⟩ := h
  have hdot : text.toList = lead ++ stem ++ '.' :: ("cxr".toList ++ tail) := by
    rw [htext, ← hstem]
    simp [RuleSource.fileEnding]
  refine tokenize_eq_error_of_onlyQuoted onlyQuoted_dot hdot ?_
  rw [List.mem_append, not_or]
  exact ⟨by decide, noQuote_of_isGap htail⟩

theorem detect_eq_inline {text : String} {ts : List Token} (h : tokenize text = .ok ts) :
    RuleSource.detect text = .inline text := by
  have hending : RuleSource.fileEnding.isSuffixOf (Text.trim text.toList) = false := by
    rw [← Bool.not_eq_true, List.isSuffixOf_iff_suffix]
    intro hsuffix
    obtain ⟨e, he⟩ := tokenize_eq_error_of_ending hsuffix
    rw [h] at he
    cases he
  rw [RuleSource.detect, hending, if_neg Bool.false_ne_true]

theorem loadAll_inline (read : String → Except FileFault String) (texts : List String) :
    RuleSource.loadAll read (texts.map .inline) = .ok ("\n".intercalate texts) := by
  have hload : List.Forall₂ (fun source text => RuleSource.load read source = .ok text)
      (texts.map .inline) texts := by
    rw [List.forall₂_map_left_iff]
    exact List.forall₂_same.2 fun _ _ => rfl
  exact loadAll_eq_ok hload

/-- A text with tokens, such as one that is a program, is never taken for a path: no text that ends in
`.cxr` apart from white space has tokens. So the sources detected in such texts name no file, and
loading them gives the texts joined by line feeds, however files are read. -/
theorem rule_text_is_inline :
    (∀ (text : String) (ts : List Token), tokenize text = .ok ts →
      RuleSource.detect text = .inline text) ∧
    (∀ (text : String) (p : Program), Program.ofText text = .ok p →
      RuleSource.detect text = .inline text) ∧
    (∀ text : String, RuleSource.fileEnding <:+ Text.trim text.toList →
      ∃ e, tokenize text = .error e) ∧
    (∀ (read : String → Except FileFault String) (texts : List String),
      (∀ text ∈ texts, ∃ ts, tokenize text = .ok ts) →
      texts.map RuleSource.detect = texts.map .inline ∧
        RuleSource.loadAll read (texts.map RuleSource.detect) = .ok ("\n".intercalate texts)) := by
  refine ⟨fun _ _ => detect_eq_inline, ?_, fun _ => tokenize_eq_error_of_ending, ?_⟩
  · intro text p hp
    obtain ⟨ts, hts, -⟩ := Program.ofText_eq_ok hp
    exact detect_eq_inline hts
  · intro read texts htokens
    have hdetect : texts.map RuleSource.detect = texts.map .inline := by
      refine List.map_congr_left fun text hmem => ?_
      obtain ⟨ts, hts⟩ := htokens text hmem
      exact detect_eq_inline hts
    exact ⟨hdetect, hdetect ▸ loadAll_inline read texts⟩

/-- The ending inside a string is part of a rule text, also where only white space follows the
quote; no file is asked for, so it does not matter that there is none. -/
theorem rule_text_is_inline_quoted :
    let a := "folder A when x in \"mail.cxr\" then auto"
    let b := "\"\n.cxr\"\u3000"
    let read : String → Except FileFault String := fun _ => .error .notFound
    RuleSource.detect a = .inline a ∧ (∃ e, tokenize "\"mail.cxr\u3000" = .error e) ∧
      RuleSource.loadAll read [RuleSource.detect a, RuleSource.detect b] =
        .ok (a ++ "\n" ++ b) := by
  intro a b read
  have ha : Program.ofText a = .ok ⟨[⟨"A", 0, [⟨.isIn "x" ["mail.cxr"], [.auto]⟩]⟩]⟩ := by
    decide +kernel
  have hb : tokenize b =
      .ok [⟨.string, some "\n.cxr", ⟨1, 1⟩⟩, .eof ⟨2, 7⟩] := by decide +kernel
  have hsuffix : RuleSource.fileEnding <:+ Text.trim "\"mail.cxr\u3000".toList :=
    ⟨"\"mail".toList, by decide⟩
  obtain ⟨-, hprogram, hpath, hload⟩ := rule_text_is_inline
  refine ⟨hprogram a _ ha, hpath _ hsuffix, (hload read [a, b] ?_).2⟩
  obtain ⟨ts, hts, -⟩ := Program.ofText_eq_ok ha
  exact List.forall_mem_cons.2 ⟨⟨ts, hts⟩, List.forall_mem_singleton.2 ⟨_, hb⟩⟩

end Source

end MailRules
