import CommentTags.Proofs.Yaml.Lexing

/-!
# Values are read back

The style in which a text is written is one in which it fits, and a scalar that fits its style is
read back from what is written after the colon of its key.

* `Scalar.Fits` — a scalar whose text can be written in its style, one constructor for each style.
* `fits_styleOf` — the style that is chosen for a text is one in which it fits.
* `Scalar.Fits.isPrintable_of_mem` — whatever the text is, only printable characters are written.
* `ReachesLine`, `reachesLine_value` — the lexer comes to the start of the next line with one token
  more.
-/

set_option autoImplicit false

namespace CommentTags.Yaml

/-! ## Styles that fit -/

/-- Scalars whose text can be written in their style. -/
inductive Scalar.Fits : Scalar → Prop
  | plain {s : List Char} : s ≠ [] → PlainText s → Fits ⟨s, .plain⟩
  | singleQuoted {s : List Char} : SingleQuotedText s → Fits ⟨s, .singleQuoted⟩
  | doubleQuoted (s : List Char) : Fits ⟨s, .doubleQuoted⟩
  | literal {s : List Char} : s ≠ [] → (∀ c ∈ s, isPrintable c = true) → Fits ⟨s, .literal⟩

/-- A scalar as the value of a key, up to the start of the next line. -/
def Scalar.print (indent : List Char) (x : Scalar) : List Char :=
  printAs x.style indent x.text ++
    (if x.style = .literal && x.text.getLast?.any isBreak then [] else ['\n'])

theorem Scalar.print_append_of_ne (indent s t : List Char) {style : ScalarStyle}
    (h : style ≠ .literal) :
    Scalar.print indent ⟨s, style⟩ ++ t = printAs style indent s ++ '\n' :: t := by
  simp [Scalar.print, h]

theorem Scalar.print_literal_append (indent s t : List Char) :
    Scalar.print indent ⟨s, .literal⟩ ++ t = '|' :: (indentSign s ++ chompingSign s ++ '\n' ::
      (printLines indent true s ++ finalBreak s ++ t)) := by
  simp [Scalar.print, printAs, printLiteral, finalBreak]

theorem isAmbiguous_nil : isAmbiguous [] = true := by decide

/-- A text that looks like something else is not written plain. -/
theorem isAmbiguous_eq_false_of_styleOf {s : List Char} (h : styleOf s = .plain) :
    isAmbiguous s = false := by
  unfold styleOf at h
  split at h
  · split at h <;> cases h
  · split at h
    · next hfits => simpa using (Bool.and_eq_true_iff.1 hfits).2
    · split at h <;> cases h

theorem needsEscapes_eq_false_iff {s : List Char} : needsEscapes s = false ↔
    (∀ c ∈ s, isPrintable c = true) ∧ hasSpaceBeforeBreak s = false := by
  simp [needsEscapes]

/-- **A text is written in a style in which it fits.** -/
theorem fits_styleOf (s : List Char) : Scalar.Fits ⟨s, styleOf s⟩ := by
  unfold styleOf
  split
  · next hfeed =>
    split
    · next h =>
      simp only [fitsLiteral, Bool.and_eq_true, Bool.not_eq_true', needsEscapes_eq_false_iff] at h
      exact .literal (by rintro rfl; exact Bool.noConfusion hfeed) h.1.1
    · exact .doubleQuoted s
  · next hfeed =>
    split
    · next h =>
      rw [Bool.and_eq_true, Bool.not_eq_true'] at h
      refine .plain ?_ (plainText_of_fitsPlain h.1)
      rintro rfl
      exact absurd h.2 (by simp [isAmbiguous_nil])
    · split
      · next h =>
        simp only [fitsSingleQuotes, Bool.and_eq_true, Bool.not_eq_true',
          needsEscapes_eq_false_iff] at h
        exact .singleQuoted ⟨h.1.1, by simpa using hfeed, h.1.2, h.2⟩
      · exact .doubleQuoted s

/-! ## What is written is printable -/

theorem isPrintable_of_mem_spaces {n : Nat} : ∀ c ∈ spaces n, isPrintable c = true :=
  fun c hc => mem_spaces hc ▸ by decide

theorem isPrintable_digitChar : ∀ n < 16, isPrintable (Nat.digitChar n).toUpper = true := by
  decide

theorem isPrintable_of_mem_hexDigits {width n : Nat} :
    ∀ c ∈ hexDigits width n, isPrintable c = true := by
  induction width generalizing n with
  | zero => exact List.forall_mem_nil _
  | succ width ih =>
    rw [hexDigits, List.forall_mem_append, List.forall_mem_singleton]
    exact ⟨ih, isPrintable_digitChar _ (Nat.mod_lt _ (by decide))⟩

theorem isPrintable_of_mem_writtenEscapes : ∀ p ∈ writtenEscapes, isPrintable p.2 = true :=
  List.all_eq_true.1 (by decide)

theorem isPrintable_of_mem_escapeOf {c : Char} : ∀ d ∈ escapeOf c, isPrintable d = true := by
  have hdigits (letter : Char) (hl : isPrintable letter = true) (width : Nat) :
      ∀ d ∈ '\\' :: letter :: hexDigits width c.toNat, isPrintable d = true :=
    List.forall_mem_cons.2
      ⟨by decide, List.forall_mem_cons.2 ⟨hl, isPrintable_of_mem_hexDigits⟩⟩
  rw [escapeOf]
  split
  · next letter hlookup =>
    obtain ⟨before, after, htable, -⟩ := List.lookup_eq_some_iff.1 hlookup
    have hl := isPrintable_of_mem_writtenEscapes (c, letter) (by simp [htable])
    exact List.forall_mem_cons.2 ⟨by decide, List.forall_mem_singleton.2 hl⟩
  · split
    · exact hdigits 'x' (by decide) 2
    · split
      · exact hdigits 'u' (by decide) 4
      · exact hdigits 'U' (by decide) 8

theorem isPrintable_of_mem_printDoubleQuotedChar {c : Char} :
    ∀ d ∈ printDoubleQuotedChar c, isPrintable d = true := by
  obtain h | ⟨h, hprintable, -⟩ := printDoubleQuotedChar_cases c
  · rw [h]
    exact isPrintable_of_mem_escapeOf
  · rw [h]
    exact List.forall_mem_singleton.2 hprintable

theorem isPrintable_of_mem_printSingleQuotedFrom {n : Nat} {s : List Char}
    (hs : ∀ c ∈ s, isPrintable c = true) (afterBreak : Bool) :
    ∀ c ∈ printSingleQuotedFrom (spaces n) afterBreak s, isPrintable c = true := by
  have hindent (afterBreak : Bool) :
      ∀ c ∈ if afterBreak then spaces n else [], isPrintable c = true := by
    cases afterBreak
    · exact List.forall_mem_nil _
    · exact isPrintable_of_mem_spaces
  induction s generalizing afterBreak with
  | nil =>
    exact List.forall_mem_append.2 ⟨hindent _, List.forall_mem_singleton.2 (by decide)⟩
  | cons c s ih =>
    obtain ⟨hc, hs⟩ := List.forall_mem_cons.1 hs
    rw [printSingleQuotedFrom]
    split
    · exact List.forall_mem_cons.2 ⟨hc, ih hs true⟩
    · refine List.forall_mem_append.2 ⟨List.forall_mem_append.2 ⟨hindent _, ?_⟩, ih hs false⟩
      split
      · exact List.all_eq_true.1 (by decide)
      · exact List.forall_mem_singleton.2 hc

theorem isPrintable_of_mem_printLines {n : Nat} {s : List Char}
    (hs : ∀ c ∈ s, isPrintable c = true) (lineStart : Bool) :
    ∀ c ∈ printLines (spaces n) lineStart s, isPrintable c = true := by
  induction s generalizing lineStart with
  | nil => exact List.forall_mem_nil _
  | cons c s ih =>
    obtain ⟨hc, hs⟩ := List.forall_mem_cons.1 hs
    rw [printLines]
    split
    · exact List.forall_mem_cons.2 ⟨hc, ih hs true⟩
    · refine List.forall_mem_append.2 ⟨?_, List.forall_mem_cons.2 ⟨hc, ih hs false⟩⟩
      cases lineStart
      · exact List.forall_mem_nil _
      · exact isPrintable_of_mem_spaces

theorem isPrintable_of_mem_signs {s : List Char} :
    ∀ c ∈ indentSign s ++ chompingSign s, isPrintable c = true := by
  refine List.forall_mem_append.2 ⟨?_, ?_⟩
  · unfold indentSign
    split <;> exact List.all_eq_true.1 (by decide)
  · unfold chompingSign
    repeat' split
    all_goals exact List.all_eq_true.1 (by decide)

/-- **Whatever its text is, a scalar is written with printable characters.** -/
theorem Scalar.Fits.isPrintable_of_mem {x : Scalar} (hx : x.Fits) (n : Nat) :
    ∀ c ∈ x.print (spaces n), isPrintable c = true := by
  have hend : ∀ c ∈ if x.style = .literal && x.text.getLast?.any isBreak then [] else ['\n'],
      isPrintable c = true := by
    split <;> exact List.all_eq_true.1 (by decide)
  refine List.forall_mem_append.2 ⟨?_, hend⟩
  clear hend
  cases hx with
  | plain hne hs => exact hs.printable
  | singleQuoted hs =>
    exact List.forall_mem_cons.2
      ⟨by decide, isPrintable_of_mem_printSingleQuotedFrom hs.printable false⟩
  | doubleQuoted s =>
    refine List.forall_mem_append.2 ⟨List.forall_mem_cons.2 ⟨by decide, ?_⟩,
      List.forall_mem_singleton.2 (by decide)⟩
    intro c hc
    obtain ⟨d, -, hd⟩ := List.mem_flatMap.1 hc
    exact isPrintable_of_mem_printDoubleQuotedChar c hd
  | literal hne hs =>
    refine List.forall_mem_append.2
      ⟨List.forall_mem_append.2 ⟨?_, List.forall_mem_singleton.2 (by decide)⟩,
      isPrintable_of_mem_printLines hs true⟩
    exact List.forall_mem_cons.2 ⟨by decide, isPrintable_of_mem_signs⟩

/-! ## Cutting a value -/

namespace Lexer

/-- A text whose first line begins to the left of a column, with a token or the end of the text. -/
def BeginsLeftOf (margin : Nat) (t : List Char) : Prop :=
  ∃ n r, t = spaces n ++ r ∧ n < margin ∧ BeginsToken r

/-- The lexer comes to the start of a line. -/
def ReachesLine (l : Lexer) (margins : List Nat) (tokens : List Token) (t : List Char) : Prop :=
  ∃ line, Reaches l (ready margins tokens ⟨t, line, 0⟩)

section

variable {margins : List Nat} {tokens : List Token} {s t : List Char} {line column : Nat}

theorem advance_value (hs : BeginsToken s) (hmargin : margins.headD 0 ≤ column) :
    (awaiting margins tokens ⟨' ' :: s, line, column⟩).advance =
      .ok (awaiting margins tokens ⟨s, line, column + 1⟩) := by
  have hspace := advance_spaces false margins tokens s line column 1
  exact hspace.trans (advance_token false tokens line hs (by omega))

/-- A value is one token, which ends in the line before the text that follows. -/
theorem reachesLine_of_token {x : Scalar} {c : Char} {r : List Char} {next : Lexer} (line' : Nat)
    (hr : BeginsToken (c :: r)) (hmargin : margins.headD 0 ≤ column)
    (htoken : (awaiting margins tokens ⟨c :: r, line, column + 1⟩).token c = .ok next)
    (hnext : next.advance = (ready margins (.scalar x :: tokens) ⟨t, line', 0⟩).advance)
    (hlen : t.length ≤ r.length) :
    ReachesLine (awaiting margins tokens ⟨' ' :: c :: r, line, column⟩) margins
      (.scalar x :: tokens) t := by
  refine ⟨line', .of_token (advance_value hr hmargin) rfl htoken hnext ?_⟩
  simp only [between_input, List.length_cons]
  omega

theorem advance_indented {tokens : List Token} {n : Nat} :
    (ready margins tokens ⟨s, line, n⟩).advance =
      (ready margins tokens ⟨spaces n ++ s, line, 0⟩).advance := by
  rw [advance_spaces, Nat.zero_add]

theorem plain_value (tokens : List Token) (line : Nat) (hs : PlainText s) {n : Nat} {r : List Char}
    (hmargin : margins.headD 0 ≤ column) (hn : n < margins.headD 0) (hr : BeginsToken r) :
    (awaiting margins tokens ⟨s ++ '\n' :: (spaces n ++ r), line, column⟩).plain =
      .ok (ready margins (.scalar ⟨s, .plain⟩ :: tokens) ⟨r, line + 1, n⟩) := by
  have hread : readPlain false (margins.headD 0) ⟨s ++ '\n' :: (spaces n ++ r), line, column⟩ = _ :=
    readPlain_append hs.toPlainWords hs.past (by omega) (plainPart_lineEnd hn hr.beginsWord)
  simp only [plain, saveKey, between, inFlow, margin, pure, Except.pure, bind, Except.bind,
    List.isEmpty_nil, Bool.not_true, Bool.false_eq_true, if_false, hread]
  rfl

theorem reachesLine_plain (hne : s ≠ []) (hs : PlainText s) (hmargin : margins.headD 0 ≤ column)
    (ht : BeginsLeftOf (margins.headD 0) t) :
    ReachesLine (awaiting margins tokens ⟨' ' :: (s ++ '\n' :: t), line, column⟩) margins
      (.scalar ⟨s, .plain⟩ :: tokens) t := by
  obtain ⟨n, r, rfl, hn, hr⟩ := ht
  have hplain := plain_value tokens line hs (Nat.le_succ_of_le hmargin) hn hr
  obtain ⟨c, s, rfl⟩ := List.exists_cons_of_ne_nil hne
  rw [List.cons_append]
  refine reachesLine_of_token (line + 1) (beginsToken_plain hs) hmargin
    ((token_plain hs rfl rfl (not_atDocumentMark _ _ (Nat.succ_pos _))).trans hplain)
    advance_indented ?_
  simp only [List.length_append, List.length_cons]
  omega

/-- The quote before and after a text. -/
def quote (double : Bool) : Char := if double then '"' else '\''

/-- The style of a text in quotes. -/
def quotedStyle (double : Bool) : ScalarStyle := if double then .doubleQuoted else .singleQuoted

theorem token_quote {l : Lexer} {double : Bool} {r : List Char}
    (h : l.input.rest = quote double :: r) : l.token (quote double) = l.quoted double := by
  cases double <;> simp [token, quote, h, Input.atMark]

/-- A text in quotes, of which `w` is what follows the opening one. -/
theorem reachesLine_quoted (double : Bool) (w : List Char) (hmargin : margins.headD 0 ≤ column)
    (hread : ∃ line' column', readQuoted double ⟨w ++ '\n' :: t, line, column + 2⟩ =
      .ok (s, ⟨'\n' :: t, line', column'⟩)) :
    ReachesLine (awaiting margins tokens ⟨' ' :: quote double :: (w ++ '\n' :: t), line, column⟩)
      margins (.scalar ⟨s, quotedStyle double⟩ :: tokens) t := by
  obtain ⟨line', column', hread⟩ := hread
  have hquoted : (awaiting margins tokens ⟨quote double :: (w ++ '\n' :: t), line,
      column + 1⟩).quoted double = .ok (awaiting margins (.scalar ⟨s, quotedStyle double⟩ :: tokens)
        ⟨'\n' :: t, line', column'⟩) := by
    simp only [quoted, keyPart, saveKey, between, Input.skip, List.drop_succ_cons, List.drop_zero,
      hread, bind, Except.bind, pure, Except.pure, Except.map, Bool.false_eq_true, if_false]
    rfl
  refine reachesLine_of_token (line' + 1) ?_ hmargin ((token_quote rfl).trans hquoted)
    (advance_break _ _ _ _ _ _) ?_
  · cases double <;> exact beginsToken_cons.2 (by decide)
  · simp only [List.length_append, List.length_cons]
    omega

theorem reachesLine_literal (hne : s ≠ []) (hs : ∀ c ∈ s, isPrintable c = true)
    (hpos : 0 < margins.headD 0) (hmargin : margins.headD 0 ≤ column)
    (ht : BeginsLeftOf (margins.headD 0) t) :
    ReachesLine (awaiting margins tokens
        ⟨' ' :: '|' :: (indentSign s ++ chompingSign s ++ '\n' ::
          (printLines (spaces (margins.headD 0 + 1)) true s ++ finalBreak s ++ t)), line, column⟩)
      margins (.scalar ⟨s, .literal⟩ :: tokens) t := by
  obtain ⟨n, r, rfl, hn, hr⟩ := ht
  obtain ⟨line', hread⟩ := readBlock_literal hne hs hpos (Nat.le_of_lt hn) hr.beginsWord line
    (column + 2)
  have htoken (l : Lexer) (hflow : l.outerKeys = []) {r : List Char}
      (hrest : l.input.rest = '|' :: r) : l.token '|' = l.block false := by
    simp [token, hrest, Input.atMark, inFlow, hflow]
  have hblock : (awaiting margins tokens ⟨'|' :: (indentSign s ++ chompingSign s ++ '\n' ::
          (printLines (spaces (margins.headD 0 + 1)) true s ++ finalBreak s ++ (spaces n ++ r))),
      line, column + 1⟩).block false = .ok (ready margins (.scalar ⟨s, .literal⟩ :: tokens)
        ⟨r, line', n⟩) := by
    simp only [block, dropKey, giveUp, margin, between, Input.skip, List.drop_succ_cons,
      List.drop_zero, hread, bind, Except.bind, pure, Except.pure, Option.any_none,
      Bool.false_eq_true, if_false]
    rfl
  refine reachesLine_of_token line' (beginsToken_cons.2 (by decide)) hmargin
    ((htoken _ rfl rfl).trans hblock) advance_indented ?_
  simp only [List.length_append, List.length_cons]
  omega

/-- **A value in a block is one token, after which the lexer comes to the start of the next line.** -/
theorem reachesLine_value {x : Scalar} (hx : x.Fits) {start : Nat}
    (hmargin : margins.headD 0 = start + 1) (hcolumn : start < column)
    (ht : BeginsLeftOf (start + 1) t) :
    ReachesLine (awaiting margins tokens
        ⟨' ' :: (x.print (spaces (start + 2)) ++ t), line, column⟩) margins
      (.scalar x :: tokens) t := by
  rw [← hmargin] at ht
  replace hcolumn : margins.headD 0 ≤ column := hmargin ▸ hcolumn
  cases hx with
  | plain hne hs =>
    rw [Scalar.print_append_of_ne _ _ _ (by decide)]
    exact reachesLine_plain hne hs hcolumn ht
  | singleQuoted hs =>
    have hread := readQuoted_single (t := '\n' :: t) hs (Nat.succ_pos (start + 1)) (by simp) line
      (Nat.succ_pos (column + 1))
    rw [Scalar.print_append_of_ne _ _ _ (by decide)]
    exact reachesLine_quoted false _ hcolumn hread
  | doubleQuoted s =>
    obtain ⟨column', hread⟩ := readQuoted_double s ('\n' :: t) line (Nat.succ_pos (column + 1))
    rw [Scalar.print_append_of_ne _ _ _ (by decide)]
    exact reachesLine_quoted true (s.flatMap printDoubleQuotedChar ++ ['"']) hcolumn
      ⟨line, column', by rwa [List.append_assoc]⟩
  | literal hne hs =>
    rw [Scalar.print_literal_append, show start + 2 = margins.headD 0 + 1 by rw [hmargin]]
    exact reachesLine_literal hne hs (hmargin ▸ Nat.succ_pos start) hcolumn ht

end

end Lexer

end CommentTags.Yaml
