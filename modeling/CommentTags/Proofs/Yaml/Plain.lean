import CommentTags.Proofs.Yaml.Characters
import CommentTags.Yaml.Plain

/-!
# Plain scalars are read back

A text whose characters fit a plain scalar is read back as far as it goes: nothing in it ends the
scalar or opens another line.

* `PlainWords`, `PlainText` — a text that goes on as a plain scalar, and one that is written as
  such.
* `plainPart_char`, `plainPart_spaces` — a plain scalar goes on with a character, or after spaces.
* `readPlain_append` — it is read back as far as it is written.
* `plainPart_colon`, `plainPart_lineEnd` — what ends it: a colon at the end of a word, as after a
  key, or the end of the line if the next line is not indented enough.
-/

set_option autoImplicit false

namespace CommentTags.Yaml

/-! ## Texts that fit -/

/-- A text that goes on as a plain scalar to its end. -/
structure PlainWords (s : List Char) : Prop where
  printable : ∀ c ∈ s, isPrintable c = true
  noBreak : ∀ c ∈ s, isBreak c = false
  last : s.getLast? ≠ some ' '
  noIndicator : holdsIndicator s = false

/-- A text that is written plain. -/
structure PlainText (s : List Char) : Prop extends PlainWords s where
  head : s.head? ≠ some ' '
  noMark : beginsLikeMark s = false
  beginning : beginsLikeIndicator s = false

theorem holdsIndicator_cons {c : Char} {s : List Char} (h : holdsIndicator (c :: s) = false) :
    (c = ':' → endsWord s = false) ∧ (isSpacing c = true → s.head? ≠ some '#') ∧
      holdsIndicator s = false := by
  simpa [holdsIndicator, and_assoc] using h

theorem PlainWords.of_append {a s : List Char} (h : PlainWords (a ++ s)) : PlainWords s where
  printable c hc := h.printable c (List.mem_append_right _ hc)
  noBreak c hc := h.noBreak c (List.mem_append_right _ hc)
  last hlast := h.last (by rw [List.getLast?_append, hlast]; rfl)
  noIndicator := by
    have hall := h.noIndicator
    clear h
    induction a with
    | nil => exact hall
    | cons c a ih => exact ih (holdsIndicator_cons hall).2.2

/-- A colon in the text does not stand at the end of a word, whatever comes after the text. -/
theorem PlainWords.endsWord_eq_false {a r : List Char} (h : PlainWords (a ++ ':' :: r))
    (t : List Char) : endsWord (r ++ t) = false := by
  have hends : endsWord r = false := (holdsIndicator_cons h.of_append.noIndicator).1 rfl
  cases r with
  | nil => exact absurd hends (by simp [endsWord])
  | cons _ _ => exact hends

/-- No comment begins in the text. -/
theorem PlainWords.ne_hash {a r : List Char} {d : Char} (h : PlainWords (a ++ ' ' :: d :: r)) :
    d ≠ '#' := by
  rintro rfl
  exact (holdsIndicator_cons h.of_append.noIndicator).2.1 rfl rfl

theorem PlainWords.isSpacing_eq_false {s : List Char} (h : PlainWords s) {d : Char} (hd : d ∈ s)
    (hne : (d == ' ') = false) : isSpacing d = false :=
  (isSpacing_eq_false_iff (h.printable d hd)).2 ⟨beq_eq_false_iff_ne.1 hne, h.noBreak d hd⟩

theorem plainText_of_fitsPlain {s : List Char} (h : fitsPlain s = true) : PlainText s := by
  simp only [fitsPlain, needsEscapes, Bool.not_or, Bool.not_not, Bool.and_eq_true,
    Bool.not_eq_true', List.all_eq_true, List.any_eq_false, bne_iff_ne, Bool.not_eq_true] at h
  obtain ⟨⟨⟨⟨⟨⟨⟨hprintable, -⟩, hbreak⟩, hhead⟩, hlast⟩, hmark⟩, hbeginning⟩, hindicator⟩ := h
  exact ⟨⟨hprintable, hbreak, hlast, hindicator⟩, hhead, hmark, hbeginning⟩

theorem PlainText.past {s : List Char} (h : PlainText s) : Past (· == ' ') s :=
  fun _ hc => beq_eq_false_iff_ne.2 fun hspace => h.head (hspace ▸ hc)

theorem PlainText.isSpacing_head {c : Char} {s : List Char} (h : PlainText (c :: s)) :
    isSpacing c = false :=
  h.isSpacing_eq_false List.mem_cons_self (h.past c rfl)

/-- What a text that is written plain begins with. -/
theorem PlainText.beginning_cons {c : Char} {s : List Char} (h : PlainText (c :: s)) :
    c ∉ plainBarriers ∧ (c = '?' ∨ c = ':' ∨ c = '-' → endsWord s = false) := by
  have hbeginning := h.beginning
  rw [beginsLikeIndicator, Bool.or_eq_false_iff, List.contains_eq_mem] at hbeginning
  simpa [or_imp, and_assoc] using hbeginning

/-! ## What comes next -/

section

variable {margin line column : Nat}

theorem readPlain_of_text {i next : Input} {part : List Char}
    (h : plainPart false margin i = .ok (.text part next)) :
    readPlain false margin i =
      (readPlain false margin next).map fun (text, stop) => (part ++ text, stop) := by
  rw [readPlain]
  split <;> simp_all

theorem readPlain_of_stop {i : Input} {e : PlainEnd}
    (h : plainPart false margin i = .ok (.stop e)) : readPlain false margin i = .ok ([], e) := by
  rw [readPlain]
  split <;> simp_all

theorem hasStrayColon_false (s : List Char) : hasStrayColon false s = false := by
  unfold hasStrayColon
  split <;> rfl

/-- A plain scalar goes on with a character of a word, unless that is the colon of a key. -/
theorem plainPart_char {c : Char} {r : List Char} (hc : isSpacing c = false)
    (hcolon : c = ':' → endsWord r = false) :
    plainPart false margin ⟨c :: r, line, column⟩ =
      .ok (.text [c] ⟨r, line, column + 1⟩) := by
  have hends : endsPlain false (c :: r) = false := by simpa [endsPlain] using hcolon
  rw [plainPart, hasStrayColon_false, hends, endsWord, hc]
  rfl

/-- A plain scalar goes on after spaces. -/
theorem plainPart_spaces {n : Nat} {c : Char} {r : List Char} (hc : isSpacing c = false)
    (hcolon : c = ':' → endsWord r = false) (hcomment : c ≠ '#') (hmargin : margin ≤ column + n) :
    plainPart false margin ⟨spaces (n + 1) ++ c :: r, line, column⟩ =
      .ok (.text (spaces (n + 1)) ⟨c :: r, line, column + (n + 1)⟩) := by
  have hends : endsPlain false (c :: r) = false := by simpa [endsPlain] using hcolon
  have hgoes : continuesPlain false margin ⟨c :: r, line, column + (n + 1)⟩ = true := by
    simp [continuesPlain, Input.atDocumentMark, Input.atMark, hasStrayColon_false, hends, hcomment]
    omega
  rw [plainPart, hasStrayColon_false, Input.gap]
  dsimp only
  rw [readGap_spaces _ (past_cons.2 hc)]
  simp [endsPlain, endsWord, Except.map, hgoes, Gap.text, isSpacing, isBlank, spaces_succ]

/-- **A plain scalar is read back as far as it is written.** -/
theorem readPlain_append {s t : List Char} {e : PlainEnd} (hs : PlainWords s)
    (hhead : Past (· == ' ') s) (hmargin : margin ≤ column + 1)
    (hstop : plainPart false margin ⟨t, line, column + s.length⟩ = .ok (.stop e)) :
    readPlain false margin ⟨s ++ t, line, column⟩ = .ok (s, e) := by
  induction s, hhead using gaps_induction generalizing column with
  | nil => exact readPlain_of_stop hstop
  | word c gap r hc hr hgap ih =>
    obtain ⟨n, rfl⟩ := exists_eq_spaces hgap
    have hcolon {d : Char} {a r' : List Char} (h : c :: (spaces n ++ r) = a ++ d :: r')
        (hd : d = ':') : endsWord (r' ++ t) = false := by
      rw [h, hd] at hs
      exact hs.endsWord_eq_false t
    have hread : readPlain false margin ⟨r ++ t, line, column + 1 + n⟩ = .ok (r, e) := by
      refine ih (.of_append (a := c :: spaces n) hs) (by omega) ?_
      rw [← hstop, List.length_cons, List.length_append, length_spaces]
      congr 2
      omega
    rw [List.cons_append, readPlain_of_text (plainPart_char
      (hs.isSpacing_eq_false List.mem_cons_self hc) (hcolon (a := []) rfl))]
    cases n with
    | zero =>
      rw [show spaces 0 ++ r ++ t = r ++ t from rfl, hread]
      rfl
    | succ n =>
      cases r with
      | nil =>
        refine absurd ?_ hs.last
        rw [List.append_nil, spaces, List.getLast?_cons, List.getLast?_replicate]
        rfl
      | cons d r =>
        have hd : isSpacing d = false := hs.isSpacing_eq_false (by simp) (hr d rfl)
        have hcomment : d ≠ '#' := PlainWords.ne_hash (a := c :: spaces n) (r := r) (by
          simpa [spaces, List.replicate_succ'] using hs)
        rw [List.append_assoc, List.cons_append, readPlain_of_text (plainPart_spaces hd
          (hcolon (a := c :: spaces (n + 1)) rfl) hcomment (by omega)), ← List.cons_append, hread]
        rfl

/-- The colon of a key ends a plain scalar. -/
theorem plainPart_colon {t : List Char} (ht : endsWord t = true) :
    plainPart false margin ⟨':' :: t, line, column⟩ =
      .ok (.stop ⟨false, ⟨':' :: t, line, column⟩⟩) := by
  rw [plainPart, hasStrayColon_false]
  simp [endsPlain, ht]

/-- The end of a line ends a plain scalar if the next line is not indented enough. -/
theorem plainPart_lineEnd {n : Nat} {r : List Char} (hn : n < margin) (hr : BeginsWord r) :
    plainPart false margin ⟨'\n' :: (spaces n ++ r), line, column⟩ =
      .ok (.stop ⟨true, ⟨r, line + 1, n⟩⟩) := by
  have hends : continuesPlain false margin ⟨r, line + 1, n⟩ = false := by
    simp [continuesPlain, Nat.not_le.2 hn]
  have hgap := readGap_breaks margin line column false (List.cons_ne_nil '\n' [])
    (List.all_eq_true.1 (by decide)) n hr
  rw [plainPart, hasStrayColon_false, Input.gap]
  dsimp only
  rw [← List.singleton_append, hgap]
  simp [endsPlain, endsWord, Except.map, hends, isSpacing, isBreak, Gap.crossesLine]

end

end CommentTags.Yaml
