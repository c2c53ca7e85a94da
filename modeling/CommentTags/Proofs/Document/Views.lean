import CommentTags.Proofs.Document.Positions

/-!
# The text of a document, whole and in parts

What a document says about its text it says in one way.

* `slice?_of_le` — a slice goes from the character that its start is rounded down to up to that of
  its stop, so it never fails for offsets in order.
* `slice?_append` — slices that meet are parts of one slice, also where they meet inside a
  character.
* `lineText?_eq_slice?` — the text of a line is what stands between the offsets of its two ends.
* `lineText?_and_slice?` — the views of a document agree: these two facts, with the number of
  characters of a line.
-/

set_option autoImplicit false

namespace CommentTags.Document

variable {d : Document} {before after : List (List Char)} {line : List Char}

/-! ## Slices -/

/-- A slice goes from the character that its start is rounded down to up to the one of its stop. -/
theorem slice?_of_le {start stop : Nat} (h : start ≤ stop) (hstop : stop ≤ d.size) :
    d.slice? start stop = some (String.ofList
      ((d.chars.take (Text.charsWithin stop d.chars)).drop (Text.charsWithin start d.chars))) := by
  rw [slice?, if_pos (by simp [h, hstop]), List.drop_take]

/-- **Slices that meet make one slice.** -/
theorem slice?_append {a b c : Nat} (hab : a ≤ b) (hbc : b ≤ c) (hc : c ≤ d.size) :
    ∃ t u, d.slice? a b = some t ∧ d.slice? b c = some u ∧ d.slice? a c = some (t ++ u) := by
  refine ⟨_, _, slice?_of_le hab (hbc.trans hc), slice?_of_le hbc hc, ?_⟩
  have hij : Text.charsWithin a d.chars ≤ Text.charsWithin b d.chars := Text.charsWithin_mono _ hab
  have hjk : Text.charsWithin b d.chars ≤ Text.charsWithin c d.chars := Text.charsWithin_mono _ hbc
  rw [slice?_of_le (hab.trans hbc) hc, ← String.ofList_append]
  generalize Text.charsWithin a d.chars = i, Text.charsWithin b d.chars = j,
    Text.charsWithin c d.chars = k at hij hjk
  have hmeet := List.drop_take_append_drop (d.chars.take k) i (j - i)
  rw [← List.drop_take, List.take_take, Nat.min_eq_left hjk, Nat.add_sub_cancel' hij] at hmeet
  rw [hmeet]

/-! ## Lines -/

theorem lineText?_append (hls : d.lineList = before ++ line :: after) :
    d.lineText? before.length = some (String.ofList (lineContent line)) := by
  rw [lineText?, getElem?_lineList hls, Option.map_some]

/-- **The text of a line stands between its two ends.** -/
theorem lineText?_eq_slice? {l column : Nat} (hl : l < d.lineCount)
    (hcolumn : d.lengthOfLine l ≤ column) :
    ∃ t, d.lineText? l = some t ∧ t.length = d.lengthOfLine l ∧
      d.slice? (d.offsetAt ⟨l, 0⟩) (d.offsetAt ⟨l, column⟩) = some t := by
  obtain ⟨before, line, after, hls, rfl⟩ := exists_lineList_eq hl
  obtain ⟨-, -, kept, cut, hparts⟩ := exists_lineParts hls
  rw [lengthOfLine_append hls, hparts.lineLength_eq] at hcolumn
  refine ⟨String.ofList kept, ?_, ?_, ?_⟩
  · rw [lineText?_append hls, hparts.lineContent_eq]
  · rw [lengthOfLine_append hls, hparts.lineLength_eq, String.length_ofList]
  · -- the slice begins where the line does and ends with what is left of the line
    rw [offsetAt_append hls, offsetAt_append hls, hparts.lineLength_eq, Nat.zero_min,
      Nat.min_eq_right hcolumn, List.take_zero, List.append_nil]
    refine slice?_of_slice? (Text.slice?_eq_some_iff.2
      ⟨before.flatten, cut ++ after.flatten, ?_, rfl, ?_⟩)
    · rw [chars_eq_append hls 0, hparts.eq_append]
      simp
    · rw [hparts.eq_append, List.take_left, Text.byteLength_append]

/-- **The views of a document agree.**  The text of a line is the slice between the offsets of its
start and of any column at its end or behind it, and has as many characters as the length of the line
says; slices that meet, also inside a character, make one slice; and the slice of everything is the
text. -/
theorem lineText?_and_slice? (d : Document) :
    (∀ l column, l < d.lineCount → d.lengthOfLine l ≤ column →
      ∃ t, d.lineText? l = some t ∧ t.length = d.lengthOfLine l ∧
        d.slice? (d.offsetAt ⟨l, 0⟩) (d.offsetAt ⟨l, column⟩) = some t) ∧
    (∀ a b c, a ≤ b → b ≤ c → c ≤ d.size →
      ∃ t u, d.slice? a b = some t ∧ d.slice? b c = some u ∧ d.slice? a c = some (t ++ u)) ∧
    d.slice? 0 d.size = some d.text := by
  refine ⟨fun _ _ => lineText?_eq_slice?, fun _ _ _ => slice?_append, ?_⟩
  have hwhole : d.slice? 0 d.size = some (String.ofList d.chars) :=
    slice?_of_slice? (Text.slice?_whole d.chars)
  rw [hwhole, chars, String.ofList_toList]

/-- A line that ends in a carriage return and a line feed, one that keeps its vertical tab, and a cut
inside a character. -/
theorem lineText?_and_slice?_verticalTab :
    let d : Document := ⟨"né\r\n\x0B", "", none⟩
    0 < d.lineCount ∧ d.lengthOfLine 0 = 2 ∧ d.lengthOfLine 1 = 1 ∧ d.size = 6 ∧
      (∃ t, d.lineText? 0 = some t ∧ t.length = d.lengthOfLine 0 ∧
        d.slice? (d.offsetAt ⟨0, 0⟩) (d.offsetAt ⟨0, 9⟩) = some t) ∧
      (∃ t, d.lineText? 1 = some t ∧ t.length = d.lengthOfLine 1 ∧
        d.slice? (d.offsetAt ⟨1, 0⟩) (d.offsetAt ⟨1, 1⟩) = some t) ∧
      ∃ t u, d.slice? 1 2 = some t ∧ d.slice? 2 6 = some u ∧ d.slice? 1 6 = some (t ++ u) := by
  intro d
  obtain ⟨hline, hslices, -⟩ := lineText?_and_slice? d
  refine ⟨by decide, by decide, by decide, by decide, ?_, ?_, ?_⟩
  · exact hline 0 9 (by decide) (by decide)
  · exact hline 1 1 (by decide) (by decide)
  · exact hslices 1 2 6 (by decide) (by decide) (by decide)

end CommentTags.Document
