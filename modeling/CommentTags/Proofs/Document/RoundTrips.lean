import Mathlib.Data.List.TakeDrop
import CommentTags.Proofs.Document.Positions

/-!
# Offsets and positions back and forth

An offset that is turned into a position and back is rounded down to a boundary between two
characters, and from the middle of a carriage return and a line feed it is taken to the carriage
return.  A position that is turned into an offset and back is clamped to its line.

The one exception to the second statement is the end of a line that keeps its line end: `lineLength`
counts a vertical tab, say, as a character of the line, but the place behind it is the start of the
next line.

* `positionAt_eq_rounded`, `positionAt_lt` — an offset has the position of the boundary that it is
  rounded down to, and later boundaries have later positions.
* `offsetAt_positionAt_rounded` — from an offset to its position and back.
* `positionAt_offsetAt_iff` — from a position to its offset and back: exactly when it is clamped.
-/

set_option autoImplicit false

namespace CommentTags.Document

variable {d : Document} {before after : List (List Char)} {line : List Char}

/-! ## From an offset -/

/-- An offset has the position of the boundary that it is rounded down to. -/
theorem positionAt_eq_rounded (d : Document) (o : Nat) :
    d.positionAt o = d.positionAt
      (Text.byteLength (d.chars.take (Text.charsWithin (min o d.size) d.chars))) := by
  rw [positionAt_byteLength (List.take_append_drop _ _).symm, List.length_take,
    Nat.min_eq_left (Text.charsWithin_le_length _ _), positionAt]

/-- **Later boundaries have later positions.** -/
theorem positionAt_lt {m n : Nat} (hm : Text.IsBoundary d.chars m) (hn : Text.IsBoundary d.chars n)
    (h : m < n) : (d.positionAt m).Lt (d.positionAt n) := by
  obtain ⟨front, back, hfront, rfl⟩ := hm
  obtain ⟨front', back', hfront', rfl⟩ := hn
  rw [positionAt_byteLength hfront, positionAt_byteLength hfront']
  obtain ⟨between, rfl, -⟩ := Text.append_eq_of_byteLength_le (hfront.symm.trans hfront') h.le
  have hne : between ≠ [] := by
    rintro rfl
    rw [List.append_nil] at h
    exact lt_irrefl _ h
  refine locate_strictMono _ _ _ ?_
  rw [List.length_append]
  exact Nat.lt_add_of_pos_right (List.length_pos_iff.2 hne)

/-- **From an offset to its position and back.**  The offset is cut at the end of the text and rounded
down to the start of its character, and from between a carriage return and its line feed it goes to
the carriage return; all other boundaries stay.  Later boundaries have later positions. -/
theorem offsetAt_positionAt_rounded (d : Document) :
    (∀ o, ∃ front back, d.chars = front ++ back ∧
      IsGreatest {b | Text.IsBoundary d.chars b ∧ b ≤ min o d.size} (Text.byteLength front) ∧
      d.offsetAt (d.positionAt o) =
        if CutsPair front back then Text.byteLength front.dropLast else Text.byteLength front) ∧
    (∀ front back, d.chars = front ++ back → ¬CutsPair front back →
      d.offsetAt (d.positionAt (Text.byteLength front)) = Text.byteLength front) ∧
    ∀ m n, Text.IsBoundary d.chars m → Text.IsBoundary d.chars n → m < n →
      (d.positionAt m).Lt (d.positionAt n) := by
  refine ⟨fun o => ?_, fun _ _ => offsetAt_positionAt, fun _ _ => positionAt_lt⟩
  have hsplit := (List.take_append_drop (Text.charsWithin (min o d.size) d.chars) d.chars).symm
  refine ⟨_, _, hsplit, Text.isGreatest_isBoundary _ _, ?_⟩
  rw [positionAt_eq_rounded, offsetAt_positionAt_byteLength hsplit]

/-- Offsets inside a pair, inside a character and behind the text, and two boundaries around the
pair. -/
theorem offsetAt_positionAt_rounded_pair :
    let d : Document := ⟨"a\r\né", "", none⟩
    d.offsetAt (d.positionAt 2) = 1 ∧ d.offsetAt (d.positionAt 4) = 3 ∧
      d.offsetAt (d.positionAt 99) = 5 ∧ d.offsetAt (d.positionAt 3) = 3 ∧
      (d.positionAt 1).Lt (d.positionAt 3) := by
  intro d
  obtain ⟨-, hstay, hlt⟩ := offsetAt_positionAt_rounded d
  refine ⟨by decide, by decide, by decide, ?_, ?_⟩
  · exact hstay ['a', '\r', '\n'] ['é'] (by decide) (by decide)
  · exact hlt 1 3 ⟨['a'], ['\r', '\n', 'é'], by decide, by decide⟩
      ⟨['a', '\r', '\n'], ['é'], by decide, by decide⟩ (by decide)

/-! ## From a position -/

theorem positionAt_offsetAt_append (hls : d.lineList = before ++ line :: after) (column : Nat) :
    d.positionAt (d.offsetAt ⟨before.length, column⟩) =
      if KeepsLineEnd line ∧ lineLength line ≤ column then ⟨before.length + 1, 0⟩
      else ⟨before.length, min column (lineLength line)⟩ := by
  obtain ⟨hline, -, kept, cut, hparts⟩ := exists_lineParts hls
  rw [offsetAt_append hls, hparts.lineLength_eq]
  by_cases h : KeepsLineEnd line ∧ kept.length ≤ column
  · -- the place behind the line end is the start of the next line
    obtain ⟨rfl, hafter⟩ := (hparts.keepsLineEnd_iff hline).1 h.1
    obtain ⟨next, after, rfl⟩ := List.exists_cons_of_ne_nil hafter
    -- only the last line can be empty, so the next line has a first character or is the last one
    have hnext : after = [] ∨ 0 < next.length := by
      by_cases hlast : after = []
      · exact .inl hlast
      · have hdrop : CutIntoLines _ ([line] ++ next :: after) := hline
        obtain ⟨c, hc, -⟩ := hdrop.drop.1.exists_endsLine hlast
        exact .inr (List.length_pos_of_mem (List.mem_of_mem_getLast? hc))
    have hls' : d.lineList = (before ++ [line]) ++ next :: after := by
      rw [hls, List.append_assoc, List.singleton_append]
    have hstart := positionAt_append hls' (Nat.zero_le _) hnext
    rw [List.take_zero, List.append_nil, List.flatten_append, List.flatten_singleton,
      List.length_append, List.length_singleton] at hstart
    have hkept : kept = line := by rw [hparts.eq_append, List.append_nil]
    rw [if_pos h, Nat.min_eq_right h.2, hkept, List.take_length, hstart]
  · -- the clamped place stands on the line, before what is left off
    have hlen : line.length = kept.length + cut.length := by
      rw [hparts.eq_append, List.length_append]
    rw [if_neg h]
    refine positionAt_append hls (by omega) ?_
    by_cases hafter : after = []
    · exact .inl hafter
    · refine .inr ?_
      by_cases hcut : cut = []
      · have hkeeps := (hparts.keepsLineEnd_iff hline).2 ⟨hcut, hafter⟩
        have hlt : ¬kept.length ≤ column := fun hle => h ⟨hkeeps, hle⟩
        omega
      · have hpos := List.length_pos_iff.2 hcut
        omega

/-- **From a position to its offset and back**, the position is clamped to its line, except where the
column reaches behind a line end that counts as a character of the line. -/
theorem positionAt_offsetAt_iff {p : Position} (h : p.line < d.lineCount) :
    d.positionAt (d.offsetAt p) = ⟨p.line, min p.column (d.lengthOfLine p.line)⟩ ↔
      ¬∃ line ∈ d.lineList[p.line]?, KeepsLineEnd line ∧ d.lengthOfLine p.line ≤ p.column := by
  obtain ⟨before, line, after, hls, hline⟩ := exists_lineList_eq h
  obtain ⟨row, column⟩ := p
  subst hline
  rw [positionAt_offsetAt_append hls, getElem?_lineList hls, lengthOfLine_append hls]
  simp only [Option.mem_some_iff, exists_eq_left']
  by_cases hkeeps : KeepsLineEnd line ∧ lineLength line ≤ column
  · simp [hkeeps]
  · simp [hkeeps]

/-- A column far behind a carriage return and a line feed, and the columns before and behind a form
feed. -/
theorem positionAt_offsetAt_iff_formFeed :
    let d : Document := ⟨"ab\r\né\x0Cz", "", none⟩
    0 < d.lineCount ∧ 1 < d.lineCount ∧
      d.positionAt (d.offsetAt ⟨0, 7⟩) = ⟨0, min 7 (d.lengthOfLine 0)⟩ ∧
      d.positionAt (d.offsetAt ⟨1, 1⟩) = ⟨1, min 1 (d.lengthOfLine 1)⟩ ∧
      d.positionAt (d.offsetAt ⟨1, 2⟩) ≠ ⟨1, min 2 (d.lengthOfLine 1)⟩ := by
  intro d
  have hfirst : 0 < d.lineCount := by decide
  have hsecond : 1 < d.lineCount := by decide
  refine ⟨hfirst, hsecond, ?_, ?_, ?_⟩
  · exact (positionAt_offsetAt_iff (p := ⟨0, 7⟩) hfirst).2 (by decide)
  · exact (positionAt_offsetAt_iff (p := ⟨1, 1⟩) hsecond).2 (by decide)
  · exact mt (positionAt_offsetAt_iff (p := ⟨1, 2⟩) hsecond).1 (by decide)

/-- The end of a line that keeps its vertical tab is the start of the next line. -/
theorem positionAt_offsetAt_ne_verticalTab :
    let d : Document := ⟨"a\x0Bb", "", none⟩
    let p : Position := ⟨0, 99⟩
    p.line < d.lineCount ∧ d.positionAt (d.offsetAt p) = ⟨1, 0⟩ ∧
      d.positionAt (d.offsetAt p) ≠ ⟨p.line, min p.column (d.lengthOfLine p.line)⟩ := by
  decide

end CommentTags.Document
