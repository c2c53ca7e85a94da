import Mathlib.Data.List.TakeWhile
import CommentTags.Text.Blank

/-!
# White space at the end of a text

Trimming cuts a text into what is kept and white space after it, and what is kept does not end in
white space.  White space around a text makes no difference to it (`trim_append_of_white`).
-/

namespace CommentTags.Text

/-- What is trimmed off is white space at the end. -/
theorem exists_trimEnd_append (s : List Char) :
    ∃ white, s = trimEnd s ++ white ∧ ∀ a ∈ white, isWhite a = true := by
  refine ⟨(s.reverse.takeWhile isWhite).reverse, ?_, fun a ha => ?_⟩
  · rw [trimEnd, ← List.reverse_append, List.takeWhile_append_dropWhile, List.reverse_reverse]
  · exact List.mem_takeWhile_imp (List.mem_reverse.1 ha)

/-- What is kept does not end in white space. -/
theorem isWhite_of_mem_getLast?_trimEnd {s : List Char} {a : Char} (h : a ∈ (trimEnd s).getLast?) :
    isWhite a = false := by
  rw [trimEnd, List.getLast?_reverse] at h
  have h' := List.head?_dropWhile_not isWhite s.reverse
  rw [h] at h'
  simpa using h'

theorem trimEnd_append_of_white {s white : List Char} (h : ∀ a ∈ white, isWhite a = true) :
    trimEnd (s ++ white) = trimEnd s := by
  rw [trimEnd, List.reverse_append,
    List.dropWhile_append_of_pos fun a ha => h a (List.mem_reverse.1 ha), ← trimEnd]

/-- White space around a text is trimmed off. -/
theorem trim_append_of_white {lead s trail : List Char} (hlead : ∀ a ∈ lead, isWhite a = true)
    (htrail : ∀ a ∈ trail, isWhite a = true) : trim (lead ++ (s ++ trail)) = trim s := by
  rw [trim, trimStart, List.dropWhile_append_of_pos hlead, List.dropWhile_append, trim, trimStart]
  split
  · next hs =>
    -- nothing is left of a text of white space
    have htrail' : trail.dropWhile isWhite = [] := List.dropWhile_eq_nil_iff.2 htrail
    rw [htrail', List.isEmpty_iff.1 hs]
  · exact trimEnd_append_of_white htrail

/-- A text that neither begins nor ends with white space is kept as it is. -/
theorem trim_eq_self {s : List Char} (hh : ∀ a ∈ s.head?, isWhite a = false)
    (hl : ∀ a ∈ s.getLast?, isWhite a = false) : trim s = s := by
  have hdrop {t : List Char} (h : ∀ a ∈ t.head?, isWhite a = false) : t.dropWhile isWhite = t := by
    cases t with
    | nil => rfl
    | cons a t => exact List.dropWhile_cons_of_neg (by simp [h a rfl])
  rw [trim, trimStart, hdrop hh, trimEnd, hdrop (by rwa [List.head?_reverse]), List.reverse_reverse]

theorem isWhite_of_mem_getLast?_trim {s : List Char} {a : Char} (h : a ∈ (trim s).getLast?) :
    isWhite a = false :=
  isWhite_of_mem_getLast?_trimEnd h

theorem isWhite_of_mem_head?_trim {s : List Char} {a : Char} (h : a ∈ (trim s).head?) :
    isWhite a = false := by
  obtain ⟨white, hwhite, -⟩ := exists_trimEnd_append (trimStart s)
  have hmem : a ∈ (trimStart s).head? := by
    rw [hwhite, List.head?_append, show trimEnd (trimStart s) = trim s from rfl,
      Option.mem_def.1 h]
    rfl
  have hdrop := List.head?_dropWhile_not isWhite s
  rw [← trimStart, Option.mem_def.1 hmem] at hdrop
  simpa using hdrop

end CommentTags.Text
