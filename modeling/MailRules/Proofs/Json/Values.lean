import MailRules.Proofs.Json.Texts

/-!
Values through JSON. Whatever value has a text of its own comes back from the text written for it:
numbers in the form they have, members in their order. What stands behind a value never goes on with
it, since it is a comma, a closing bracket or a closing brace, or nothing.
-/

namespace MailRules.Json

/-! ### What stands behind -/

/-- A text that is empty or begins with one of the characters. -/
def BeginsIn (allowed s : List Char) : Prop := ∀ c ∈ s.head?, c ∈ allowed

/-- What may stand behind a value. -/
def closers : List Char := [',', ']', '}']

section
variable {allowed s : List Char}

theorem beginsIn_nil : BeginsIn allowed [] := nofun

theorem beginsIn_cons {c : Char} (h : c ∈ allowed) : BeginsIn allowed (c :: s) := by
  rintro d ⟨⟩
  exact h

/-- What begins with some character goes on with none of the others. -/
theorem BeginsIn.avoids {p : Char → Bool} (h : BeginsIn allowed s)
    (hp : allowed.all (!p ·) = true) : ∀ c ∈ s.head?, p c = false := by
  intro c hc
  simpa using List.all_eq_true.1 hp c (h c hc)

end

/-! ### Numbers -/

section
variable {rest : List Char}

theorem readDigits_append {digits : List Char} (hne : digits ≠ [])
    (hdigits : ∀ c ∈ digits, c.isDigit = true) (hrest : ∀ c ∈ rest.head?, c.isDigit = false) :
    readDigits (digits ++ rest) = some (digits, rest) := by
  have hstop : rest.takeWhile Char.isDigit = [] ∧ rest.dropWhile Char.isDigit = rest := by
    cases rest with
    | nil => exact ⟨rfl, rfl⟩
    | cons c rest => simp [hrest c rfl]
  unfold readDigits
  rw [List.takeWhile_append_of_pos hdigits, List.dropWhile_append_of_pos hdigits, hstop.1, hstop.2,
    List.append_nil]
  simp [hne]

theorem digits_toDigits (n : Nat) : ∀ c ∈ Nat.toDigits 10 n, c.isDigit = true :=
  fun _ hc => Nat.isDigit_of_mem_toDigits (by decide) (by decide) hc

theorem readDigits_toDigits (n : Nat) (hrest : ∀ c ∈ rest.head?, c.isDigit = false) :
    readDigits (Nat.toDigits 10 n ++ rest) = some (Nat.toDigits 10 n, rest) :=
  readDigits_append Nat.toDigits_ne_nil (digits_toDigits n) hrest

theorem exists_toDigits (n : Nat) :
    ∃ d ds, Nat.toDigits 10 n = d :: ds ∧ d.isDigit = true := by
  obtain ⟨d, ds, hds⟩ := List.exists_cons_of_ne_nil (Nat.toDigits_ne_nil (b := 10) (n := n))
  exact ⟨d, ds, hds, digits_toDigits n d (hds ▸ List.mem_cons_self)⟩

/-- Only zero is written with a zero in front. -/
theorem head_toDigits_ne_zero {n : Nat} (h : n ≠ 0) : (Nat.toDigits 10 n).head? ≠ some '0' := by
  induction n using Nat.strongRecOn with
  | ind n ih =>
    rcases Nat.lt_or_ge n 10 with hlow | hhigh
    · have hdigit : ∀ d < 10, d ≠ 0 → [Nat.digitChar d].head? ≠ some '0' := by decide
      rw [Nat.toDigits_of_lt_base hlow]
      exact hdigit n hlow h
    · have hfirst := ih (n / 10) (by omega) (by omega)
      obtain ⟨d, ds, hds, -⟩ := exists_toDigits (n / 10)
      rw [hds] at hfirst
      rwa [Nat.toDigits_of_base_le (by decide) hhigh, hds]

theorem readWhole_toDigits (n : Nat) (hrest : ∀ c ∈ rest.head?, c.isDigit = false) :
    readWhole (Nat.toDigits 10 n ++ rest) = some (n, rest) := by
  by_cases hn : n = 0
  · rw [hn]
    rfl
  · unfold readWhole
    split
    · next tail htail =>
      have hhead := head_toDigits_ne_zero hn
      obtain ⟨d, ds, hds, -⟩ := exists_toDigits n
      rw [hds] at htail hhead
      exact absurd (congrArg some (List.cons.inj htail).1) hhead
    · simp [readDigits_toDigits n hrest, Nat.ofDigitChars_ten_toDigits]

theorem readFraction_print {fraction : List Char} (h : ∀ c ∈ fraction, c.isDigit = true)
    (hrest : BeginsIn ('e' :: closers) rest) :
    readFraction ((if fraction.isEmpty then [] else '.' :: fraction) ++ rest) =
      some (fraction, rest) := by
  cases fraction with
  | nil =>
    show readFraction rest = some ([], rest)
    unfold readFraction
    split
    · next tail => exact absurd (hrest '.' rfl) (by decide)
    · rfl
  | cons c fraction =>
    exact readDigits_append (List.cons_ne_nil c fraction) h (hrest.avoids (by decide))

theorem readExponent_print (exponent : Option Int) (hrest : BeginsIn closers rest) :
    readExponent (printExponent exponent ++ rest) = some (exponent, rest) := by
  cases exponent with
  | none =>
    show readExponent rest = some (none, rest)
    unfold readExponent
    split
    · exact absurd (hrest 'e' rfl) (by decide)
    · exact absurd (hrest 'E' rfl) (by decide)
    · rfl
  | some e =>
    have hread := readDigits_toDigits e.natAbs (hrest.avoids (by decide))
    have hvalue : Nat.ofDigitChars 10 (Nat.toDigits 10 e.natAbs) 0 = e.natAbs :=
      Nat.ofDigitChars_ten_toDigits
    by_cases he : e < 0
    · have hneg : -(e.natAbs : Int) = e := by omega
      simp only [printExponent, if_pos he, List.cons_append, readExponent, readSignedExponent,
        hread, Option.map_some, hvalue, hneg]
    · have hpos : (e.natAbs : Int) = e := by omega
      simp only [printExponent, if_neg he, List.cons_append, readExponent, readSignedExponent,
        hread, Option.map_some, hvalue, hpos]

theorem readMagnitude_print (n : Number) (h : ∀ c ∈ n.fraction, c.isDigit = true)
    (hrest : BeginsIn closers rest) :
    readMagnitude n.negative (Nat.toDigits 10 n.whole ++
      ((if n.fraction.isEmpty then [] else '.' :: n.fraction) ++
        (printExponent n.exponent ++ rest))) = some (n, rest) := by
  have hexponent : BeginsIn ('e' :: closers) (printExponent n.exponent ++ rest) := by
    cases n.exponent with
    | none => exact fun c hc => List.mem_cons_of_mem 'e' (hrest c hc)
    | some e => exact beginsIn_cons List.mem_cons_self
  have hfraction : BeginsIn ('.' :: 'e' :: closers)
      ((if n.fraction.isEmpty then [] else '.' :: n.fraction) ++
        (printExponent n.exponent ++ rest)) := by
    cases n.fraction with
    | nil => exact fun c hc => List.mem_cons_of_mem '.' (hexponent c hc)
    | cons c fraction => exact beginsIn_cons List.mem_cons_self
  unfold readMagnitude
  rw [readWhole_toDigits n.whole (hfraction.avoids (by decide))]
  simp only [Option.bind_eq_bind, Option.bind_some]
  rw [readFraction_print h hexponent]
  simp only [Option.bind_some]
  rw [readExponent_print n.exponent hrest]
  rfl

/-- A number comes back in the form in which it is written. -/
theorem readNumber_print (n : Number) (h : ∀ c ∈ n.fraction, c.isDigit = true)
    (hrest : BeginsIn closers rest) : readNumber (n.print ++ rest) = some (n, rest) := by
  have hread := readMagnitude_print n h hrest
  unfold Number.print
  simp only [List.append_assoc]
  cases hsign : n.negative with
  | true =>
    rw [hsign] at hread
    exact hread
  | false =>
    rw [hsign] at hread
    obtain ⟨d, ds, hds, hd⟩ := exists_toDigits n.whole
    rw [hds] at hread ⊢
    show readNumber (d :: _) = _
    unfold readNumber
    split
    · next heq =>
      obtain rfl := (List.cons.inj heq).1
      exact absurd hd (by decide)
    · exact hread

end

/-! ### Values -/

/-- A value with a text of its own: no floats, texts for all strings and names, digits behind the
points. -/
inductive Legible : Json → Prop
  | null : Legible .null
  | bool {b : Bool} : Legible (.bool b)
  | number {n : Number} : (∀ c ∈ n.fraction, c.isDigit = true) → Legible (.number n)
  | string {s : String} : Legible (.string (some s))
  | array {items : List Json} : (∀ j ∈ items, Legible j) → Legible (.array items)
  | object {members : List (Option String × Json)} : (∀ m ∈ members, m.1 ≠ none) →
      (∀ m ∈ members, Legible m.2) → Legible (.object members)

/-- What the text of a number begins with. -/
def BeginsNumber (c : Char) : Prop := c = '-' ∨ c.isDigit = true

instance : DecidablePred BeginsNumber := fun _ => inferInstanceAs (Decidable (_ ∨ _))

theorem BeginsNumber.ne {c d : Char} (h : BeginsNumber c) (hd : ¬ BeginsNumber d) : c ≠ d :=
  fun hcd => hd (hcd ▸ h)

theorem BeginsNumber.isBlank_eq {c : Char} (h : BeginsNumber c) : isBlank c = false := by
  simp only [isBlank, Bool.or_eq_false_iff, decide_eq_false_iff_not]
  exact ⟨⟨⟨h.ne (by decide), h.ne (by decide)⟩, h.ne (by decide)⟩, h.ne (by decide)⟩

theorem skipBlanks_cons {c : Char} (h : isBlank c = false) (s : List Char) :
    skipBlanks (c :: s) = c :: s :=
  List.dropWhile_cons_of_neg (by simp [h])

theorem readValue_number {c : Char} (hc : BeginsNumber c) (fuel : Nat) (s : List Char) :
    readValue (fuel + 1) (c :: s) =
      (readNumber (c :: s)).map fun read => (.number read.1, read.2) := by
  rw [readValue, skipBlanks_cons hc.isBlank_eq]
  split
  case h_7 => rfl
  all_goals
    next heq => exact absurd (List.cons.inj heq).1 (hc.ne (by decide))

theorem print_number (n : Number) : ∃ c s, BeginsNumber c ∧ n.print = c :: s := by
  obtain ⟨d, ds, hds, hd⟩ := exists_toDigits n.whole
  unfold Number.print
  cases n.negative with
  | true => exact ⟨'-', _, .inl rfl, rfl⟩
  | false => exact ⟨d, _, .inr hd, by rw [hds]; rfl⟩

/-- No text of a value begins with a blank, nor with the bracket that closes an empty array. -/
theorem print_begins {j : Json} (h : Legible j) :
    ∃ c s, print j = c :: s ∧ isBlank c = false ∧ c ≠ ']' := by
  cases h with
  | null => exact ⟨'n', _, rfl, by decide, by decide⟩
  | @bool b =>
    cases b with
    | true => exact ⟨'t', _, rfl, by decide, by decide⟩
    | false => exact ⟨'f', _, rfl, by decide, by decide⟩
  | @number n _ =>
    obtain ⟨c, s, hc, hprint⟩ := print_number n
    exact ⟨c, s, hprint, hc.isBlank_eq, hc.ne (by decide)⟩
  | string => exact ⟨'"', _, rfl, by decide, by decide⟩
  | @array items _ => cases items <;> exact ⟨'[', _, rfl, by decide, by decide⟩
  | @object members _ _ => rcases members with _ | ⟨⟨name, j⟩, members⟩ <;>
      exact ⟨'{', _, rfl, by decide, by decide⟩

/-- The text of a value is read as the value, by as many steps as it has characters. -/
def Reads (j : Json) : Prop := ∀ fuel rest, (print j).length ≤ fuel → BeginsIn closers rest →
  readValue fuel (print j ++ rest) = some (j, rest)

/-- The first step goes by the first character. -/
theorem reads_of_step {j : Json} {c : Char} {s : List Char} (hprint : print j = c :: s)
    (hread : ∀ fuel rest, s.length ≤ fuel → BeginsIn closers rest →
      readValue (fuel + 1) (c :: (s ++ rest)) = some (j, rest)) : Reads j := by
  intro fuel rest hfuel hrest
  rw [hprint] at hfuel ⊢
  cases fuel with
  | zero => cases hfuel
  | succ fuel => exact hread fuel rest (Nat.le_of_succ_le_succ hfuel) hrest

theorem reads_number {n : Number} (h : ∀ c ∈ n.fraction, c.isDigit = true) :
    Reads (.number n) := by
  obtain ⟨c, s, hc, hprint⟩ := print_number n
  refine reads_of_step hprint fun fuel rest _ hrest => ?_
  rw [readValue_number hc, ← List.cons_append, ← hprint, readNumber_print n h hrest]
  rfl

/-! ### Arrays -/

section
variable {fuel : Nat} {s s' rest : List Char} {j : Json} {items : List Json}

theorem readItems_comma {read : List Json} (h : readValue fuel s = some (j, ',' :: rest)) :
    readItems (fuel + 1) read s = readItems fuel (j :: read) rest := by
  rw [readItems, h]; rfl

theorem readItems_close {read : List Json} (h : readValue fuel s = some (j, ']' :: rest)) :
    readItems (fuel + 1) read s = some (.array (j :: read).reverse, rest) := by
  rw [readItems, h]; rfl

theorem printItems_cons (j : Json) (items : List Json) :
    printItems (j :: items) = ',' :: (print j ++ printItems items) := rfl

/-- Every item takes one round of the reader, and its own steps are among those left. -/
theorem readItems_print (rest : List Char) (items : List Json) :
    ∀ (j : Json) (fuel : Nat) (read : List Json), (∀ i ∈ j :: items, Reads i) →
    (print j ++ printItems items).length ≤ fuel →
    readItems fuel read (print j ++ (printItems items ++ rest)) =
      some (.array (read.reverse ++ j :: items), rest) := by
  induction items with
  | nil =>
    intro j fuel read h hfuel
    simp only [printItems, List.length_append, List.length_singleton] at hfuel
    cases fuel with
    | zero => omega
    | succ fuel =>
      have hj := h j List.mem_cons_self fuel (']' :: rest) (by omega) (beginsIn_cons (by decide))
      exact (readItems_close hj).trans (by simp)
  | cons i items ih =>
    intro j fuel read h hfuel
    obtain ⟨hj, hitems⟩ := List.forall_mem_cons.1 h
    rw [printItems_cons] at hfuel ⊢
    simp only [List.length_append, List.length_cons] at hfuel
    cases fuel with
    | zero => omega
    | succ fuel =>
      have hread := hj fuel (',' :: (print i ++ printItems items ++ rest)) (by omega)
        (beginsIn_cons (by decide))
      have hmore := ih i fuel (j :: read) hitems (by rw [List.length_append]; omega)
      rw [List.cons_append, readItems_comma hread, List.append_assoc, hmore]
      simp

theorem reads_array {items : List Json} (hlegible : ∀ j ∈ items, Legible j)
    (h : ∀ j ∈ items, Reads j) : Reads (.array items) := by
  cases items with
  | nil => exact reads_of_step (c := '[') rfl fun _ _ _ _ => rfl
  | cons j items =>
    refine reads_of_step (c := '[') rfl fun fuel rest hfuel _ => ?_
    obtain ⟨c, s, hprint, hblank, hbracket⟩ := print_begins (hlegible j List.mem_cons_self)
    have hopen : ∀ body, readValue (fuel + 1) ('[' :: c :: body) =
        readItems fuel [] (c :: body) := by
      intro body
      have hbegin : skipBlanks ('[' :: c :: body) = '[' :: c :: body := rfl
      simp only [readValue, hbegin, skipBlanks_cons hblank]
      split
      · next heq => exact absurd (List.cons.inj heq).1 hbracket
      · rfl
    have hitems := readItems_print rest items j fuel [] h hfuel
    rw [hprint] at hitems ⊢
    rw [List.append_assoc]
    exact (hopen _).trans hitems

/-! ### Objects -/

theorem readMembers_comma {read : List (Option String × Json)} {name : Option String}
    (hname : readString s = some (name, ':' :: s'))
    (h : readValue fuel s' = some (j, ',' :: rest)) :
    readMembers (fuel + 1) read ('"' :: s) = readMembers fuel ((name, j) :: read) rest := by
  have hopen : skipBlanks ('"' :: s) = '"' :: s := rfl
  have hcolon : skipBlanks (':' :: s') = ':' :: s' := rfl
  simp only [readMembers, hopen, hname, hcolon, h]
  rfl

theorem readMembers_close {read : List (Option String × Json)} {name : Option String}
    (hname : readString s = some (name, ':' :: s'))
    (h : readValue fuel s' = some (j, '}' :: rest)) :
    readMembers (fuel + 1) read ('"' :: s) = some (.object ((name, j) :: read).reverse, rest) := by
  have hopen : skipBlanks ('"' :: s) = '"' :: s := rfl
  have hcolon : skipBlanks (':' :: s') = ':' :: s' := rfl
  simp only [readMembers, hopen, hname, hcolon, h]
  rfl

theorem printMembers_cons (name : Option String) (j : Json)
    (members : List (Option String × Json)) : printMembers ((name, j) :: members) =
      ',' :: (printString name ++ ':' :: (print j ++ printMembers members)) := rfl

theorem readMembers_print (rest : List Char) (members : List (Option String × Json)) :
    ∀ (name : String) (j : Json) (fuel : Nat) (read : List (Option String × Json)),
    (∀ m ∈ members, m.1 ≠ none) → Reads j → (∀ m ∈ members, Reads m.2) →
    (print j ++ printMembers members).length ≤ fuel →
    readMembers fuel read
        (printString (some name) ++ (':' :: (print j ++ (printMembers members ++ rest)))) =
      some (.object (read.reverse ++ (some name, j) :: members), rest) := by
  induction members with
  | nil =>
    intro name j fuel read _ hj _ hfuel
    simp only [printMembers, List.length_append, List.length_singleton] at hfuel
    cases fuel with
    | zero => omega
    | succ fuel =>
      have hread := hj fuel ('}' :: rest) (by omega) (beginsIn_cons (by decide))
      rw [printString_append]
      exact (readMembers_close (readString_print name _) hread).trans (by simp)
  | cons m members ih =>
    intro name j fuel read hall hj h hfuel
    obtain ⟨m, i⟩ := m
    obtain ⟨hname, hnames⟩ := List.forall_mem_cons.1 hall
    obtain ⟨name', rfl⟩ := Option.ne_none_iff_exists'.1 hname
    obtain ⟨hi, hvalues⟩ := List.forall_mem_cons.1 h
    rw [printMembers_cons] at hfuel ⊢
    simp only [List.length_append, List.length_cons] at hfuel
    cases fuel with
    | zero => omega
    | succ fuel =>
      have hread := hj fuel (',' :: (printString (some name') ++
        ':' :: (print i ++ printMembers members) ++ rest)) (by omega) (beginsIn_cons (by decide))
      have hmore := ih name' i fuel ((some name, j) :: read) hnames hi hvalues
        (by rw [List.length_append]; omega)
      rw [printString_append, List.cons_append,
        readMembers_comma (readString_print name _) hread]
      simp only [List.append_assoc, List.cons_append] at hmore ⊢
      rw [hmore]
      simp

theorem reads_object {members : List (Option String × Json)} (hnames : ∀ m ∈ members, m.1 ≠ none)
    (h : ∀ m ∈ members, Reads m.2) : Reads (.object members) := by
  cases members with
  | nil => exact reads_of_step (c := '{') rfl fun _ _ _ _ => rfl
  | cons m members =>
    obtain ⟨m, j⟩ := m
    obtain ⟨hname, hmore⟩ := List.forall_mem_cons.1 hnames
    obtain ⟨name, rfl⟩ := Option.ne_none_iff_exists'.1 hname
    obtain ⟨hj, hvalues⟩ := List.forall_mem_cons.1 h
    refine reads_of_step (c := '{') rfl fun fuel rest hfuel _ => ?_
    have hopen : ∀ body, readValue (fuel + 1) ('{' :: '"' :: body) =
        readMembers fuel [] ('"' :: body) := fun _ => rfl
    have hmembers := readMembers_print rest members name j fuel [] hmore hj hvalues
      (by simp only [List.length_append, List.length_cons] at hfuel ⊢; omega)
    rw [printString_append] at hmembers
    simp only [List.append_assoc, List.cons_append, printString_append]
    exact (hopen _).trans hmembers

end

/-! ### Whole values -/

theorem reads_of_legible {j : Json} (h : Legible j) : Reads j := by
  induction h with
  | null => exact reads_of_step (c := 'n') rfl fun _ _ _ _ => rfl
  | @bool b =>
    cases b with
    | true => exact reads_of_step (c := 't') rfl fun _ _ _ _ => rfl
    | false => exact reads_of_step (c := 'f') rfl fun _ _ _ _ => rfl
  | number hn => exact reads_number hn
  | @string s =>
    refine reads_of_step (c := '"') rfl fun fuel rest _ _ => ?_
    have hquote : ∀ body, readValue (fuel + 1) ('"' :: body) =
        (readString body).map fun read => (.string read.1, read.2) := fun _ => rfl
    rw [hquote, List.append_assoc, List.singleton_append, readString_print]
    rfl
  | array hitems ih => exact reads_array hitems ih
  | object hnames _ ih => exact reads_object hnames ih

/-- A value comes back from its text. -/
theorem parse_render {j : Json} (h : Legible j) : parse j.render = some j := by
  have htext : j.render.toList = print j := String.toList_ofList
  have hread := reads_of_legible h (2 * (print j).length + 2) [] (by omega) beginsIn_nil
  rw [List.append_nil] at hread
  rw [parse, htext, hread]
  rfl

/-! ### Lists and members -/

/-- A list that is written item by item is read item by item. -/
theorem mapM_map_eq_some {α β γ : Type} {l : List α} {write : α → β} {read? : β → Option γ}
    {value : α → γ} (h : ∀ a ∈ l, read? (write a) = some (value a)) :
    (l.map write).mapM read? = some (l.map value) := by
  induction l with
  | nil => rfl
  | cons a l ih =>
    obtain ⟨ha, hl⟩ := List.forall_mem_cons.1 h
    simp [List.mapM_cons, ha, ih hl]

theorem mapM_map_eq_self {α β : Type} {l : List α} {write : α → β} {read? : β → Option α}
    (h : ∀ a ∈ l, read? (write a) = some a) : (l.map write).mapM read? = some l := by
  rw [mapM_map_eq_some h, List.map_id']

theorem legible_object {fields : List (String × Json)} (h : ∀ f ∈ fields, Legible f.2) :
    Legible (.object (fields.map fun f => field f.1 f.2)) := by
  refine .object ?_ ?_
  all_goals
    intro m hm
    obtain ⟨f, hf, rfl⟩ := List.mem_map.1 hm
  · exact Option.some_ne_none f.1
  · exact h f hf

theorem legible_array {α : Type} {l : List α} {write : α → Json} (h : ∀ a ∈ l, Legible (write a)) :
    Legible (.array (l.map write)) := by
  refine .array fun j hj => ?_
  obtain ⟨a, ha, rfl⟩ := List.mem_map.1 hj
  exact h a ha

theorem legible_ofTexts (texts : List String) : Legible (ofTexts texts) :=
  .array fun _ hj => by
    obtain ⟨s, -, rfl⟩ := List.mem_map.1 hj
    exact .string

theorem texts?_ofTexts (texts : List String) : (ofTexts texts).texts? = some texts :=
  mapM_map_eq_self fun _ _ => rfl

end MailRules.Json
