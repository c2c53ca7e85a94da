import Mathlib.Algebra.Group.Nat.Defs
import CommentTags.Proofs.Yaml.Characters
import CommentTags.Yaml.Quoted

/-!
# Quoted scalars are read back

Between double quotes every text is read back: a character stands for itself, or its escape stands
for it.  Between single quotes a text is read back if no space stands beside a line break in it; the
lines that are begun by its line breaks are indented, and the indent does not count.

* `exists_escapeOf` — every escape that is written is read back.
* `printDoubleQuotedChar_cases` — a character is written with an escape unless it can stand for
  itself.
* `readQuoted_double` — between double quotes every text is read back.
* `SingleQuotedText` — the texts that are written between single quotes.
* `readQuoted_breaks`, `readQuoted_single_gap` — the gaps in such a text, at which lines begin.
* `readQuoted_single` — between single quotes these texts are read back.
-/

set_option autoImplicit false

namespace CommentTags.Yaml

/-! ## Parts of quoted scalars -/

section

variable {double : Bool} {line column : Nat}

theorem readQuoted_of_part {i next : Input} {part : List Char}
    (h : quotedPart double i = .ok (some part, next)) :
    readQuoted double i =
      (readQuoted double next).map fun (text, stop) => (part ++ text, stop) := by
  rw [readQuoted]
  split <;> simp_all

theorem readQuoted_of_end {i next : Input} (h : quotedPart double i = .ok (none, next)) :
    readQuoted double i = .ok ([], next) := by
  rw [readQuoted]
  split <;> simp_all

/-- Spaces inside a line. -/
theorem quotedPart_spaces (n : Nat) {r : List Char} (hr : BeginsWord r) (hcolumn : 0 < column) :
    quotedPart double ⟨spaces (n + 1) ++ r, line, column⟩ =
      .ok (some (spaces (n + 1)), ⟨r, line, column + (n + 1)⟩) := by
  rw [quotedPart, not_atDocumentMark _ _ hcolumn, Input.gap]
  dsimp only
  rw [readGap_spaces _ hr]
  simp [spaces_succ, isSpacing, isBlank, Except.map, Gap.text]

theorem readQuoted_spaces (n : Nat) {r : List Char} (hr : BeginsWord r) (hcolumn : 0 < column) :
    readQuoted double ⟨spaces n ++ r, line, column⟩ =
      (readQuoted double ⟨r, line, column + n⟩).map
        fun (text, stop) => (spaces n ++ text, stop) := by
  cases n with
  | zero =>
    show readQuoted double ⟨r, line, column⟩ = _
    cases readQuoted double ⟨r, line, column⟩ <;> rfl
  | succ n => exact readQuoted_of_part (quotedPart_spaces n hr hcolumn)

/-- A character that stands for itself. -/
theorem quotedPart_char {c : Char} {r : List Char} (hc : isSpacing c = false)
    (hquote : c ≠ if double then '"' else '\'') (hescape : double = true → c ≠ '\\')
    (hcolumn : 0 < column) :
    quotedPart double ⟨c :: r, line, column⟩ = .ok (some [c], ⟨r, line, column + 1⟩) := by
  rw [quotedPart, not_atDocumentMark _ _ hcolumn]
  cases double with
  | false => simp_all [Input.skip]
  | true => simp_all [Input.skip]

end

/-! ## Escapes -/

theorem digitValue?_digitChar : ∀ n < 16,
    Text.digitValue? 16 (Nat.digitChar n).toUpper = some n := by
  decide

theorem number?_hexDigits {width n : Nat} (h : n < 16 ^ width) :
    Text.number? 16 (hexDigits width n) = some n := by
  induction width generalizing n with
  | zero =>
    obtain rfl : n = 0 := by simpa using h
    rfl
  | succ width ih =>
    have hhigh : n / 16 < 16 ^ width := by
      rw [Nat.div_lt_iff_lt_mul (by decide), ← Nat.pow_succ]
      exact h
    rw [hexDigits, Text.number?, List.foldl_append]
    rw [show List.foldl _ _ (hexDigits width (n / 16)) = _ from ih hhigh]
    rw [List.foldl_cons, List.foldl_nil, Option.bind_some,
      digitValue?_digitChar _ (Nat.mod_lt _ (by decide)), Option.map_some, Nat.div_add_mod]

theorem length_hexDigits (width n : Nat) : (hexDigits width n).length = width := by
  induction width generalizing n with
  | zero => rfl
  | succ width ih => rw [hexDigits, List.length_append, ih, List.length_singleton]

/-- A character is read back from its number in hexadecimal digits. -/
theorem digitsChar?_hexDigits {width : Nat} {c : Char} (h : c.toNat < 16 ^ width) (t : List Char) :
    digitsChar? width (hexDigits width c.toNat ++ t) = some c := by
  have hlength : ¬ (hexDigits width c.toNat ++ t).length < width := by
    simp [length_hexDigits]
  rw [digitsChar?, if_neg hlength, List.take_left' (length_hexDigits _ _), number?_hexDigits h,
    Option.filter_some, if_pos (decide_eq_true (show c.toNat.isValidChar from c.valid)),
    Option.map_some, Char.ofNat_toNat]

theorem writtenEscapes_readable : ∀ p ∈ writtenEscapes,
    isBreak p.2 = false ∧ letterEscapes.lookup p.2 = some p.1 := by
  decide

/-- A letter and digits after a backslash. -/
theorem readEscape_digits {c letter : Char} {width : Nat} (t : List Char) (line column : Nat)
    (hletter : letterEscapes.lookup letter = none)
    (hdigits : digitEscapes.lookup letter = some width) (h : c.toNat < 16 ^ width) :
    readEscape ⟨letter :: hexDigits width c.toNat ++ t, line, column⟩ =
      .ok (c, ⟨t, line, column + (width + 1)⟩) := by
  rw [readEscape]
  dsimp only [List.cons_append]
  rw [hletter, hdigits]
  dsimp only
  rw [digitsChar?_hexDigits h]
  simp [Input.skip, List.drop_left' (length_hexDigits width c.toNat)]

/-- Every escape that is written is read back. -/
theorem exists_escapeOf (c : Char) (t : List Char) (line column : Nat) :
    ∃ letter s, escapeOf c = '\\' :: letter :: s ∧ isBreak letter = false ∧
      readEscape ⟨letter :: s ++ t, line, column⟩ =
        .ok (c, ⟨t, line, column + (s.length + 1)⟩) := by
  have hdigits (letter : Char) (width : Nat) (hl : letterEscapes.lookup letter = none)
      (hd : digitEscapes.lookup letter = some width) (h : c.toNat < 16 ^ width) :
      readEscape ⟨letter :: hexDigits width c.toNat ++ t, line, column⟩ =
        .ok (c, ⟨t, line, column + ((hexDigits width c.toNat).length + 1)⟩) := by
    rw [length_hexDigits]
    exact readEscape_digits t line column hl hd h
  rw [escapeOf]
  split
  · next letter hlookup =>
    obtain ⟨before, after, htable, -⟩ := List.lookup_eq_some_iff.1 hlookup
    obtain ⟨hbreak, hletter⟩ := writtenEscapes_readable (c, letter) (by simp [htable])
    refine ⟨letter, [], rfl, hbreak, ?_⟩
    simp [readEscape, hletter, Input.skip]
  · by_cases hbyte : c.toNat ≤ 0xFF
    · rw [if_pos hbyte]
      exact ⟨_, _, rfl, by decide, hdigits 'x' 2 (by decide) (by decide) (by omega)⟩
    by_cases hword : c.toNat ≤ 0xFFFF
    · rw [if_neg hbyte, if_pos hword]
      exact ⟨_, _, rfl, by decide, hdigits 'u' 4 (by decide) (by decide) (by omega)⟩
    · rw [if_neg hbyte, if_neg hword]
      refine ⟨_, _, rfl, by decide, hdigits 'U' 8 (by decide) (by decide) ?_⟩
      exact lt_of_lt_of_eq c.val.toNat_lt (by decide)

/-! ## Double quotes -/

/-- A character that is written with an escape. -/
theorem quotedPart_escape {letter c : Char} {r : List Char} {next : Input} {line column : Nat}
    (hbreak : isBreak letter = false) (hcolumn : 0 < column)
    (hread : readEscape ⟨letter :: r, line, column + 1⟩ = .ok (c, next)) :
    quotedPart true ⟨'\\' :: letter :: r, line, column⟩ = .ok (some [c], next) := by
  have hspacing : isSpacing '\\' = false := by decide
  have hskip : Input.skip ⟨'\\' :: letter :: r, line, column⟩ 1 =
      ⟨letter :: r, line, column + 1⟩ := rfl
  rw [quotedPart, not_atDocumentMark _ _ hcolumn]
  dsimp only
  rw [hspacing, hskip, hread]
  simp [hbreak, Except.map]

/-- A character is written with an escape unless it can stand for itself. -/
theorem printDoubleQuotedChar_cases (c : Char) :
    printDoubleQuotedChar c = escapeOf c ∨
      printDoubleQuotedChar c = [c] ∧ isPrintable c = true ∧ isBreak c = false ∧ c ≠ '"' ∧
        c ≠ '\\' := by
  rw [printDoubleQuotedChar]
  split
  · exact .inl rfl
  · next h => exact .inr ⟨rfl, by simpa [and_assoc] using h⟩

theorem flatMap_printed_spaces (n : Nat) :
    (spaces n).flatMap printDoubleQuotedChar = spaces n := by
  induction n with
  | zero => rfl
  | succ n ih =>
    rw [spaces_succ, List.flatMap_cons, ih]
    rfl

/-- What is written for a text begins with a space only if the text does. -/
theorem beginsWord_printed {s : List Char} (hs : Past (· == ' ') s) (t : List Char) :
    BeginsWord (s.flatMap printDoubleQuotedChar ++ '"' :: t) := by
  cases s with
  | nil => exact past_cons.2 (by decide)
  | cons c s =>
    rw [List.flatMap_cons]
    obtain hprinted | ⟨hprinted, hprintable, hbreak, -⟩ := printDoubleQuotedChar_cases c
    · obtain ⟨letter, r, hr, -⟩ := exists_escapeOf c [] 0 0
      rw [hprinted, hr]
      exact past_cons.2 (by decide)
    · rw [hprinted]
      exact past_cons.2 ((isSpacing_eq_false_iff hprintable).2
        ⟨beq_eq_false_iff_ne.1 (hs c rfl), hbreak⟩)

/-- A character between double quotes, whether it is written with an escape or not. -/
theorem exists_quotedPart_printed {c : Char} (hc : c ≠ ' ') (t : List Char) (line : Nat)
    {column : Nat} (hcolumn : 0 < column) :
    ∃ column' > 0, quotedPart true ⟨printDoubleQuotedChar c ++ t, line, column⟩ =
      .ok (some [c], ⟨t, line, column'⟩) := by
  obtain hprinted | ⟨hprinted, hprintable, hbreak, hquote, hescape⟩ := printDoubleQuotedChar_cases c
  · obtain ⟨letter, s, hs, hbreak, hread⟩ := exists_escapeOf c t line (column + 1)
    rw [hprinted, hs]
    exact ⟨_, by omega, quotedPart_escape hbreak hcolumn hread⟩
  · rw [hprinted]
    exact ⟨column + 1, Nat.succ_pos _, quotedPart_char
      ((isSpacing_eq_false_iff hprintable).2 ⟨hc, hbreak⟩) hquote (fun _ => hescape) hcolumn⟩

/-- A text that begins with no space is read back between double quotes. -/
theorem readQuoted_double_past {s : List Char} (hs : Past (· == ' ') s) (t : List Char)
    (line : Nat) {column : Nat} (hcolumn : 0 < column) :
    ∃ column', readQuoted true ⟨s.flatMap printDoubleQuotedChar ++ '"' :: t, line, column⟩ =
      .ok (s, ⟨t, line, column'⟩) := by
  induction s, hs using gaps_induction generalizing column with
  | nil =>
    have hend : quotedPart true ⟨'"' :: t, line, column⟩ = .ok (none, ⟨t, line, column + 1⟩) := by
      rw [quotedPart, not_atDocumentMark _ _ hcolumn]
      rfl
    exact ⟨column + 1, readQuoted_of_end hend⟩
  | word c gap r hc hr hgap ih =>
    obtain ⟨n, rfl⟩ := exists_eq_spaces hgap
    rw [List.flatMap_cons, List.flatMap_append, flatMap_printed_spaces, List.append_assoc,
      List.append_assoc]
    obtain ⟨column', hcolumn', hpart⟩ := exists_quotedPart_printed (beq_eq_false_iff_ne.1 hc)
      (spaces n ++ (r.flatMap printDoubleQuotedChar ++ '"' :: t)) line hcolumn
    obtain ⟨stop, hread⟩ := ih (show 0 < column' + n by omega)
    refine ⟨stop, ?_⟩
    rw [readQuoted_of_part hpart, readQuoted_spaces n (beginsWord_printed hr t) hcolumn', hread]
    rfl

/-- **Between double quotes every text is read back.** -/
theorem readQuoted_double (s t : List Char) (line : Nat) {column : Nat} (hcolumn : 0 < column) :
    ∃ column', readQuoted true ⟨s.flatMap printDoubleQuotedChar ++ '"' :: t, line, column⟩ =
      .ok (s, ⟨t, line, column'⟩) := by
  obtain ⟨gap, r, rfl, hgap, hr⟩ := exists_past (· == ' ') s
  obtain ⟨n, rfl⟩ := exists_eq_spaces hgap
  obtain ⟨stop, hread⟩ := readQuoted_double_past hr t line (show 0 < column + n by omega)
  refine ⟨stop, ?_⟩
  rw [List.flatMap_append, flatMap_printed_spaces, List.append_assoc,
    readQuoted_spaces n (beginsWord_printed hr t) hcolumn, hread]
  rfl

/-! ## Single quotes -/

/-- A text that is written between single quotes. -/
structure SingleQuotedText (s : List Char) : Prop where
  printable : ∀ c ∈ s, isPrintable c = true
  noLineFeed : '\n' ∉ s
  spaceBefore : hasSpaceBeforeBreak s = false
  spaceAfter : hasSpaceAfterBreak s = false

namespace SingleQuotedText

variable {c : Char} {a s : List Char}

theorem of_cons (h : SingleQuotedText (c :: s)) : SingleQuotedText s where
  printable d hd := h.printable d (List.mem_cons_of_mem _ hd)
  noLineFeed hd := h.noLineFeed (List.mem_cons_of_mem _ hd)
  spaceBefore := (Bool.or_eq_false_iff.1 h.spaceBefore).2
  spaceAfter := (Bool.or_eq_false_iff.1 h.spaceAfter).2

theorem of_append (h : SingleQuotedText (a ++ s)) : SingleQuotedText s := by
  induction a with
  | nil => exact h
  | cons c a ih => exact ih h.of_cons

/-- What follows a line break or a space is no space or line break. -/
theorem next {d : Char} (h : SingleQuotedText (c :: d :: s)) :
    (c = ' ' → isBreak d = false) ∧ (isBreak c = true → d ≠ ' ') := by
  have hbefore := (Bool.or_eq_false_iff.1 h.spaceBefore).1
  have hafter := (Bool.or_eq_false_iff.1 h.spaceAfter).1
  simp only [List.head?_cons, Option.any_some, Bool.and_eq_false_iff, decide_eq_false_iff_not,
    Option.some_inj] at hbefore hafter
  exact ⟨fun hc => hbefore.resolve_left (not_not_intro hc),
    fun hc => hafter.resolve_left (by simp [hc])⟩

/-- A gap consists of spaces or of line breaks. -/
theorem spaces_or_breaks (h : SingleQuotedText (a ++ s)) (ha : ∀ c ∈ a, isSpacing c = true) :
    (∃ n, a = spaces n) ∨ a ≠ [] ∧ ∀ c ∈ a, isBreak c = true := by
  induction a with
  | nil => exact .inl ⟨0, rfl⟩
  | cons c a ih =>
    have hrest := ih h.of_cons fun d hd => ha d (List.mem_cons_of_mem _ hd)
    obtain hc | hc : c = ' ' ∨ isBreak c = true :=
      (Bool.or_eq_true_iff.1 (ha c List.mem_cons_self)).imp_left
        (eq_space_of_isBlank (h.printable c List.mem_cons_self))
    · obtain ⟨n, rfl⟩ | ⟨hne, hbreaks⟩ := hrest
      · exact .inl ⟨n + 1, by rw [hc, spaces_succ]⟩
      · obtain ⟨d, a, rfl⟩ := List.exists_cons_of_ne_nil hne
        exact absurd (hbreaks d List.mem_cons_self) (by simp [h.next.1 hc])
    · refine .inr ⟨List.cons_ne_nil _ _, ?_⟩
      obtain ⟨n, rfl⟩ | ⟨-, hbreaks⟩ := hrest
      · cases n with
        | zero => exact List.forall_mem_singleton.2 hc
        | succ n => exact absurd rfl (h.next.2 hc)
      · exact List.forall_mem_cons.2 ⟨hc, hbreaks⟩

end SingleQuotedText

theorem printSingleQuotedFrom_spaces (indent : List Char) (n : Nat) (s : List Char) :
    printSingleQuotedFrom indent false (spaces n ++ s) =
      spaces n ++ printSingleQuotedFrom indent false s := by
  induction n with
  | zero => rfl
  | succ n ih =>
    rw [spaces_succ, List.cons_append, printSingleQuotedFrom, ih]
    rfl

/-- The line after line breaks is indented. -/
theorem printSingleQuotedFrom_breaks (indent : List Char) {breaks s : List Char}
    (hne : breaks ≠ []) (hbreaks : ∀ c ∈ breaks, isBreak c = true) (hs : Past isBreak s)
    (afterBreak : Bool) :
    printSingleQuotedFrom indent afterBreak (breaks ++ s) =
      breaks ++ (indent ++ printSingleQuotedFrom indent false s) := by
  induction breaks generalizing afterBreak with
  | nil => exact absurd rfl hne
  | cons c breaks ih =>
    rw [List.cons_append, printSingleQuotedFrom, if_pos (hbreaks c List.mem_cons_self)]
    by_cases hnil : breaks = []
    · subst hnil
      cases s with
      | nil => rfl
      | cons d s =>
        have hd : isBreak d = false := past_cons.1 hs
        simp [printSingleQuotedFrom, hd]
    · rw [ih hnil fun c hc => hbreaks c (List.mem_cons_of_mem _ hc)]
      rfl

/-- Line breaks, of which the first is no line feed, with the indent of the line after them. -/
theorem readQuoted_breaks {double : Bool} {line column : Nat} {breaks r : List Char}
    (hne : breaks ≠ []) (hbreaks : ∀ c ∈ breaks, isBreak c = true) (hfeed : '\n' ∉ breaks) (n : Nat)
    (hr : BeginsWord r) (hcolumn : 0 < column) :
    readQuoted double ⟨breaks ++ (spaces n ++ r), line, column⟩ =
      (readQuoted double ⟨r, line + breaks.length, n⟩).map fun (text, stop) =>
        (breaks ++ text, stop) := by
  refine readQuoted_of_part ?_
  have hgap := readGap_breaks 0 line column false hne hbreaks n hr
  cases breaks with
  | nil => exact absurd rfl hne
  | cons c breaks =>
    have htext (next : Input) : Gap.text ⟨[], c :: breaks, next⟩ = c :: breaks := by
      have hc : c ≠ '\n' := fun h => hfeed (h ▸ List.mem_cons_self)
      unfold Gap.text
      split <;> simp_all
    have hspacing : isSpacing c = true := by
      rw [isSpacing, hbreaks c List.mem_cons_self, Bool.or_true]
    rw [quotedPart, not_atDocumentMark _ _ hcolumn, Input.gap]
    dsimp only [List.cons_append] at hgap ⊢
    rw [hspacing, hgap]
    simp [Except.map, htext]

/-- A character between single quotes; the quote itself is written twice. -/
theorem quotedPart_single {c : Char} (hc : isSpacing c = false) (t : List Char) (line : Nat)
    {column : Nat} (hcolumn : 0 < column) :
    ∃ column' > 0, quotedPart false ⟨(if c = '\'' then ['\'', '\''] else [c]) ++ t, line, column⟩ =
      .ok (some [c], ⟨t, line, column'⟩) := by
  split
  · next h =>
    refine ⟨column + 2, by omega, ?_⟩
    rw [quotedPart, not_atDocumentMark _ _ hcolumn, h]
    rfl
  · next h =>
    exact ⟨column + 1, by omega, quotedPart_char hc h (fun h => Bool.noConfusion h) hcolumn⟩

/-- What is written for a text begins with a space or a line break only if the text does. -/
theorem beginsWord_printSingleQuotedFrom {indent s t : List Char} (hs : BeginsWord s) :
    BeginsWord (printSingleQuotedFrom indent false s ++ t) := by
  cases s with
  | nil => exact past_cons.2 (by decide)
  | cons c s =>
    have hc : isSpacing c = false := past_cons.1 hs
    have hbreak : isBreak c = false := (Bool.or_eq_false_iff.1 hc).2
    simp only [printSingleQuotedFrom, hbreak]
    by_cases hquote : c = '\''
    · subst hquote
      exact past_cons.2 (by decide)
    · simpa [hquote, Past] using hc

/-- The rest of a text is read back from the start of a gap in it. -/
theorem readQuoted_single_gap (line : Nat) {gap r t : List Char} {n column : Nat}
    (hgap : ∀ c ∈ gap, isSpacing c = true) (hs : SingleQuotedText (gap ++ r)) (hr : BeginsWord r)
    (hn : 0 < n) (hcolumn : 0 < column)
    (hread : ∀ line column, 0 < column → ∃ line' column',
      readQuoted false ⟨printSingleQuotedFrom (spaces n) false r ++ t, line, column⟩ =
        .ok (r, ⟨t, line', column'⟩)) :
    ∃ line' column',
      readQuoted false ⟨printSingleQuotedFrom (spaces n) false (gap ++ r) ++ t, line, column⟩ =
        .ok (gap ++ r, ⟨t, line', column'⟩) := by
  have hword : BeginsWord (printSingleQuotedFrom (spaces n) false r ++ t) :=
    beginsWord_printSingleQuotedFrom hr
  obtain ⟨k, rfl⟩ | ⟨hne, hbreaks⟩ := hs.spaces_or_breaks hgap
  · obtain ⟨line', column', hr⟩ := hread line (column + k) (by omega)
    refine ⟨line', column', ?_⟩
    rw [printSingleQuotedFrom_spaces, List.append_assoc, readQuoted_spaces k hword hcolumn, hr]
    rfl
  · have hpast : Past isBreak r := fun c hc => (Bool.or_eq_false_iff.1 (hr c hc)).2
    have hfeed : '\n' ∉ gap := fun h => hs.noLineFeed (List.mem_append_left _ h)
    obtain ⟨line', column', hr⟩ := hread (line + gap.length) n hn
    refine ⟨line', column', ?_⟩
    rw [printSingleQuotedFrom_breaks _ hne hbreaks hpast, List.append_assoc, List.append_assoc,
      readQuoted_breaks hne hbreaks hfeed n hword hcolumn, hr]
    rfl

/-- **Between single quotes a text is read back if no space stands beside a line break in it.** -/
theorem readQuoted_single {s t : List Char} {n : Nat} (hs : SingleQuotedText s) (hn : 0 < n)
    (ht : t.head? ≠ some '\'') (line : Nat) {column : Nat} (hcolumn : 0 < column) :
    ∃ line' column', readQuoted false ⟨printSingleQuotedFrom (spaces n) false s ++ t, line, column⟩ =
      .ok (s, ⟨t, line', column'⟩) := by
  obtain ⟨gap, r, rfl, hgap, hr⟩ := exists_past isSpacing s
  refine readQuoted_single_gap line hgap hs hr hn hcolumn ?_
  replace hs := hs.of_append
  clear hgap hcolumn
  induction r, hr using gaps_induction with
  | nil =>
    intro line column hcolumn
    have hend : quotedPart false ⟨'\'' :: t, line, column⟩ = .ok (none, ⟨t, line, column + 1⟩) := by
      rw [quotedPart, not_atDocumentMark _ _ hcolumn]
      simp [isSpacing, isBlank, isBreak, ht, Input.skip]
    exact ⟨line, column + 1, readQuoted_of_end hend⟩
  | word c gap r hc hr hgap ih =>
    intro line column hcolumn
    have hbreak : isBreak c = false := (Bool.or_eq_false_iff.1 hc).2
    obtain ⟨column', hcolumn', hpart⟩ := quotedPart_single hc
      (printSingleQuotedFrom (spaces n) false (gap ++ r) ++ t) line hcolumn
    obtain ⟨line', stop, hread⟩ := readQuoted_single_gap line hgap hs.of_cons hr hn hcolumn'
      (ih (hs.of_cons.of_append))
    refine ⟨line', stop, ?_⟩
    rw [printSingleQuotedFrom, if_neg (by simp [hbreak])]
    simp only [Bool.false_eq_true, if_false, List.nil_append, List.append_assoc]
    rw [readQuoted_of_part hpart, hread]
    rfl

end CommentTags.Yaml
