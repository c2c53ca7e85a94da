import Mathlib.Data.List.TakeDrop
import CommentTags.Document.Basic
import CommentTags.Proofs.Document.Lines
import CommentTags.Proofs.Text.LineEnds

/-!
# From offsets to positions and back

A position is the line that a character stands on together with what comes before it on that line,
so the offset of the position of a character is the offset of the character.  The one exception is
the line feed after a carriage return, which no column of its line reaches.

* `locate_spec` — what a position is, in terms of the lines before it.
* `Position.Le`, `Position.Lt` — positions in the order of lines and columns, and `positionAt_mono`:
  later offsets have later positions.
* `positionAt_append`, `offsetAt_append` — positions and offsets on a line, seen from the start of
  it.
* `offsetAt_positionAt_byteLength` — there and back for every character, with the exception;
  `offsetAt_positionAt` leaves it aside.
* `slice?_of_slice?` — a slice between two boundaries is what stands between them.
-/

set_option autoImplicit false

namespace CommentTags.Document

/-! ## The line of a character -/

/-- **A position is a line and what comes before the character on it.**  On the last line the
position may also be the end of the line. -/
theorem locate_spec {ls : List (List Char)} {n : Nat} (hne : ls ≠ []) (hn : n ≤ ls.flatten.length) :
    ∃ before line after, ls = before ++ line :: after ∧ before.length = (locate ls n).line ∧
      before.flatten.length + (locate ls n).column = n ∧
      (locate ls n).column ≤ line.length ∧ (after ≠ [] → (locate ls n).column < line.length) := by
  fun_induction locate ls n with
  | case1 => exact absurd rfl hne
  | case2 line n => exact ⟨[], line, [], rfl, rfl, by simp, by simpa using hn, fun h => absurd rfl h⟩
  | case3 line rest n _ hlt =>
    exact ⟨[], line, rest, rfl, rfl, by simp, hlt.le, fun _ => hlt⟩
  | case4 line rest n hrest hge p ih =>
    rw [List.flatten_cons, List.length_append] at hn
    obtain ⟨before, l, after, hls, hline, hcol, hle, hlt⟩ := ih (by simpa using hrest) (by omega)
    refine ⟨line :: before, l, after, by rw [hls]; rfl, by rw [List.length_cons, hline], ?_, hle, hlt⟩
    rw [List.flatten_cons, List.length_append, Nat.add_assoc, hcol]
    omega

/-- On a line, the position of a character is its place on the line. -/
theorem locate_append {before after : List (List Char)} {line : List Char} {k : Nat}
    (hk : after = [] ∨ k < line.length) :
    locate (before ++ line :: after) (before.flatten.length + k) = ⟨before.length, k⟩ := by
  induction before with
  | nil =>
    rw [List.nil_append, List.flatten_nil, List.length_nil, Nat.zero_add]
    cases after with
    | nil => rfl
    | cons next after =>
      rw [locate, if_pos (hk.resolve_left (List.cons_ne_nil _ _)), List.length_nil]
      exact List.cons_ne_nil _ _
  | cons first before ih =>
    have hsub : (first :: before).flatten.length + k - first.length = before.flatten.length + k := by
      rw [List.flatten_cons, List.length_append]
      omega
    rw [List.cons_append, locate, if_neg, hsub, ih, List.length_cons]
    · rw [List.flatten_cons, List.length_append]
      omega
    · simp

/-- One position stands before another in a text, or they are the same. -/
def Position.Le (p q : Position) : Prop :=
  p.line < q.line ∨ p.line = q.line ∧ p.column ≤ q.column

instance (p q : Position) : Decidable (p.Le q) :=
  inferInstanceAs (Decidable (p.line < q.line ∨ p.line = q.line ∧ p.column ≤ q.column))

/-- One position stands before another in a text. -/
def Position.Lt (p q : Position) : Prop :=
  p.line < q.line ∨ p.line = q.line ∧ p.column < q.column

instance (p q : Position) : Decidable (p.Lt q) :=
  inferInstanceAs (Decidable (p.line < q.line ∨ p.line = q.line ∧ p.column < q.column))

theorem Position.Lt.le {p q : Position} (h : p.Lt q) : p.Le q :=
  h.imp_right fun h => ⟨h.1, h.2.le⟩

theorem locate_strictMono (ls : List (List Char)) (n : Nat) :
    ∀ m < n, (locate ls m).Lt (locate ls n) := by
  fun_induction locate ls n with
  | case1 n => exact fun m h => .inr ⟨rfl, h⟩
  | case2 line n => exact fun m h => .inr ⟨rfl, h⟩
  | case3 line rest n hrest hlt =>
    intro m h
    rw [locate, if_pos (by omega)]
    · exact .inr ⟨rfl, h⟩
    · exact hrest
  | case4 line rest n hrest hge p ih =>
    intro m h
    rw [locate]
    · split
      · exact .inl (Nat.zero_lt_succ _)
      · obtain h | h := ih (m - line.length) (by omega)
        · exact .inl (Nat.succ_lt_succ h)
        · exact .inr ⟨congrArg Nat.succ h.1, h.2⟩
    · exact hrest

theorem locate_mono (ls : List (List Char)) {m n : Nat} (h : m ≤ n) :
    (locate ls m).Le (locate ls n) := by
  rcases h.eq_or_lt with rfl | h
  · exact .inr ⟨rfl, Nat.le_refl _⟩
  · exact (locate_strictMono ls n m h).le

/-! ## Offsets -/

variable {d : Document} {before after : List (List Char)} {line : List Char}

theorem positionAt_byteLength {front back : List Char} (h : d.chars = front ++ back) :
    d.positionAt (Text.byteLength front) = locate d.lineList front.length := by
  have hle : Text.byteLength front ≤ d.size := by
    rw [size, h, Text.byteLength_append]
    exact Nat.le_add_right _ _
  rw [positionAt, Nat.min_eq_left hle, h, Text.charsWithin_byteLength]

/-- The text is what stands before a place of a line and what stands behind it. -/
theorem chars_eq_append (hls : d.lineList = before ++ line :: after) (k : Nat) :
    d.chars = (before.flatten ++ line.take k) ++ (line.drop k ++ after.flatten) := by
  rw [← (cutIntoLines_lines d.chars).flatten_eq, ← lineList, hls, List.flatten_append,
    List.flatten_cons, List.append_assoc, ← List.append_assoc (line.take k), List.take_append_drop]

theorem positionAt_append (hls : d.lineList = before ++ line :: after) {k : Nat}
    (hle : k ≤ line.length) (hk : after = [] ∨ k < line.length) :
    d.positionAt (Text.byteLength (before.flatten ++ line.take k)) = ⟨before.length, k⟩ := by
  rw [positionAt_byteLength (chars_eq_append hls k), hls, List.length_append, List.length_take,
    Nat.min_eq_left hle, locate_append hk]

theorem exists_lineList_eq {l : Nat} (h : l < d.lineCount) :
    ∃ before line after, d.lineList = before ++ line :: after ∧ before.length = l := by
  refine ⟨d.lineList.take l, d.lineList.get ⟨l, h⟩, d.lineList.drop (l + 1), ?_, ?_⟩
  · rw [List.get_eq_getElem, ← List.drop_eq_getElem_cons, List.take_append_drop]
  · exact List.length_take_of_le h.le

theorem getElem?_lineList (hls : d.lineList = before ++ line :: after) :
    d.lineList[before.length]? = some line := by
  rw [hls, List.getElem?_append_right (Nat.le_refl _), Nat.sub_self, List.getElem?_cons_zero]

/-- The lines from a line of the document on are those of a text that does not begin inside a pair,
and the line is in two parts. -/
theorem exists_lineParts (hls : d.lineList = before ++ line :: after) :
    CutIntoLines (line :: after).flatten (line :: after) ∧
      ¬CutsPair before.flatten (line :: after).flatten ∧
      ∃ kept cut, LineParts line kept cut := by
  have hcut : CutIntoLines d.chars d.lineList := cutIntoLines_lines d.chars
  rw [hls] at hcut
  exact ⟨hcut.drop.1, hcut.drop.2, hcut.drop.1.exists_parts⟩

theorem lengthOfLine_append (hls : d.lineList = before ++ line :: after) :
    d.lengthOfLine before.length = lineLength line := by
  simp only [lengthOfLine, getElem?_lineList hls]

theorem offsetAt_append (hls : d.lineList = before ++ line :: after) (column : Nat) :
    d.offsetAt ⟨before.length, column⟩ =
      Text.byteLength (before.flatten ++ line.take (min column (lineLength line))) := by
  simp only [offsetAt, getElem?_lineList hls]
  rw [hls, List.take_left, Text.byteLength_append]

/-- The position of a character leads back to the character; that of the line feed of a pair leads
to the carriage return. -/
theorem offsetAt_positionAt_byteLength {front back : List Char} (h : d.chars = front ++ back) :
    d.offsetAt (d.positionAt (Text.byteLength front)) =
      if CutsPair front back then Text.byteLength front.dropLast else Text.byteLength front := by
  have hcut := cutIntoLines_lines d.chars
  obtain ⟨before, line, after, hls, hline, hcol, hle, hlt⟩ :=
    locate_spec (n := front.length) hcut.ne_nil
      (by rw [hcut.flatten_eq, h, List.length_append]; exact Nat.le_add_right _ _)
  rw [positionAt_byteLength h, lineList]
  generalize locate (lines d.chars) front.length = p at hline hcol hle hlt
  obtain ⟨row, column⟩ := p
  subst hline
  -- the line is cut by the column where the text is cut by the offset
  obtain ⟨rfl, rfl⟩ : front = before.flatten ++ line.take column ∧
      back = line.drop column ++ after.flatten := by
    refine List.append_inj (h.symm.trans (chars_eq_append hls column)) ?_
    rw [List.length_append, List.length_take, Nat.min_eq_left hle, hcol]
  rw [offsetAt_append hls]
  obtain ⟨hline, hpair, kept, cut, hparts⟩ := exists_lineParts hls
  rw [hparts.lineLength_eq]
  by_cases hcolumn : column ≤ kept.length
  · rw [if_neg (hparts.not_cutsPair_of_le hpair hcolumn), Nat.min_eq_left hcolumn]
  · have hlt' : kept.length < column := Nat.lt_of_not_le hcolumn
    obtain ⟨htake, hdrop⟩ := hparts.cut_eq_pair hline hlt' hle hlt
    rw [if_pos ⟨by simp [htake], by simp [hdrop]⟩, Nat.min_eq_right hlt'.le, htake,
      ← List.append_assoc, List.dropLast_concat, hparts.eq_append, List.take_left]

/-- **The position of a character leads back to the character**, unless it is the line feed of a
carriage return and a line feed. -/
theorem offsetAt_positionAt {front back : List Char} (h : d.chars = front ++ back)
    (hcut : ¬CutsPair front back) :
    d.offsetAt (d.positionAt (Text.byteLength front)) = Text.byteLength front := by
  rw [offsetAt_positionAt_byteLength h, if_neg hcut]

/-- **Later offsets have later positions.** -/
theorem positionAt_mono (d : Document) {m n : Nat} (h : m ≤ n) :
    (d.positionAt m).Le (d.positionAt n) :=
  locate_mono _ (Text.charsWithin_mono _ (by omega))

/-- A slice between two boundaries is what stands between them. -/
theorem slice?_of_slice? {start stop : Nat} {part : List Char}
    (h : Text.slice? d.chars start stop = some part) :
    d.slice? start stop = some (String.ofList part) := by
  obtain ⟨front, back, hchars, rfl, rfl⟩ := Text.slice?_eq_some_iff.1 h
  have hstop : Text.byteLength front + Text.byteLength part = Text.byteLength (front ++ part) :=
    (Text.byteLength_append _ _).symm
  have hsize : d.size = Text.byteLength front + Text.byteLength part + Text.byteLength back := by
    rw [size, hchars, Text.byteLength_append, Text.byteLength_append, Nat.add_assoc]
  have hfirst : Text.charsWithin (Text.byteLength front) d.chars = front.length := by
    rw [hchars, Text.charsWithin_byteLength]
  have hlast : Text.charsWithin (Text.byteLength front + Text.byteLength part) d.chars =
      (front ++ part).length := by
    rw [hstop, hchars, ← List.append_assoc, Text.charsWithin_byteLength]
  simp only [slice?, hfirst, hlast]
  rw [if_pos (by rw [hsize]; simp), hchars, List.drop_left, List.length_append,
    Nat.add_sub_cancel_left, List.take_left]

end CommentTags.Document
