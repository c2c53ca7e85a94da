import Mathlib.Data.List.Basic
import Mathlib.Data.List.TakeWhile
import CommentTags.Document.Lines

/-!
# How a text is cut into lines

`CutIntoLines s ls` says what the lines of a text are without a word about how they are found: every
line but the last one consists of a body and a line end, a carriage return is not cut off from the
line feed behind it, and the last line has no line end.  The definition that runs looks at one
character after another; what is proved about lines starts from the description.

* `LineEnd` — what ends a line; `CutsPair` — the place inside a carriage return and a line feed.
* `cutIntoLines_iff` — there is one way to cut a text like this, and it is the one of `lines`.
* `CutIntoLines.drop` — the lines from some line on are those of the text from there on.
* `LineParts` — for the content and the length of a line only a line feed, a carriage return, or
  both in this order are left off.
* `KeepsLineEnd` — a line that ends in one of the other line ends keeps it.
-/

set_option autoImplicit false

namespace CommentTags.Document

variable {c : Char} {s line : List Char} {ls before after : List (List Char)}

/-! ## The lines of a text -/

/-- The place between the two texts is inside a pair of a carriage return and a line feed. -/
def CutsPair (front back : List Char) : Prop :=
  front.getLast? = some '\r' ∧ back.head? = some '\n'

instance (front back : List Char) : Decidable (CutsPair front back) :=
  inferInstanceAs (Decidable (front.getLast? = some '\r' ∧ back.head? = some '\n'))

/-- What ends a line: a carriage return with the line feed behind it, or a single character. -/
inductive LineEnd : List Char → Prop
  | pair : LineEnd ['\r', '\n']
  | single {c : Char} (h : endsLine c = true) : LineEnd [c]

/-- Only a lone carriage return ends a line in a carriage return. -/
theorem LineEnd.eq_return_of_getLast? {body ending : List Char} (h : LineEnd ending)
    (hlast : (body ++ ending).getLast? = some '\r') : ending = ['\r'] := by
  cases h with
  | pair => simp at hlast
  | single => simpa using hlast

/-- The text is cut into its lines, each with its line end. -/
inductive CutIntoLines : List Char → List (List Char) → Prop
  /-- A text without a line end is one line. -/
  | last {s : List Char} (h : ∀ c ∈ s, endsLine c = false) : CutIntoLines s [s]
  /-- A body and a line end are the first line, unless a line feed follows a lone carriage return. -/
  | cons {body ending s : List Char} {ls : List (List Char)}
      (hbody : ∀ c ∈ body, endsLine c = false) (hending : LineEnd ending)
      (hpair : ending = ['\r'] → s.head? ≠ some '\n') (hrest : CutIntoLines s ls) :
      CutIntoLines (body ++ ending ++ s) ((body ++ ending) :: ls)

theorem lines_cons_of_endsLine (hc : endsLine c = true) (hpair : c = '\r' → s.head? ≠ some '\n') :
    lines (c :: s) = [c] :: lines s := by
  rw [lines, if_pos hc]
  rintro t rfl rfl
  exact hpair rfl rfl

theorem lines_cons_of_not_endsLine (hc : endsLine c = false) :
    lines (c :: s) = consLine c (lines s) := by
  rw [lines, if_neg (by simp [hc])]
  rintro t rfl
  exact Bool.noConfusion hc

theorem cutIntoLines_lines (s : List Char) : CutIntoLines s (lines s) := by
  have hcons {c : Char} {s : List Char} {ls : List (List Char)} (hc : endsLine c = false)
      (h : CutIntoLines s ls) : CutIntoLines (c :: s) (consLine c ls) := by
    cases h with
    | last h => exact .last (List.forall_mem_cons.2 ⟨hc, h⟩)
    | cons hbody hending hpair hrest =>
      exact .cons (List.forall_mem_cons.2 ⟨hc, hbody⟩) hending hpair hrest
  fun_induction lines s with
  | case1 => exact .last (List.forall_mem_nil _)
  | case2 s ih => exact .cons (List.forall_mem_nil _) .pair (by simp) ih
  | case3 c s hpair hc ih =>
    refine .cons (List.forall_mem_nil _) (.single hc) (fun hreturn hfeed => ?_) ih
    obtain ⟨t, rfl⟩ := List.head?_eq_some_iff.1 hfeed
    exact hpair t (List.cons.inj hreturn).1 rfl
  | case4 c s _ hc ih => exact hcons (by simpa using hc) ih

/-- **There is one way to cut a text into lines.** -/
theorem cutIntoLines_iff : CutIntoLines s ls ↔ ls = lines s := by
  constructor
  · intro h
    induction h with
    | @last s h =>
      induction s with
      | nil => rfl
      | cons c s ih =>
        rw [List.forall_mem_cons] at h
        rw [lines_cons_of_not_endsLine h.1, ← ih h.2, consLine]
    | @cons body ending s ls hbody hending hpair _ ih =>
      subst ih
      induction body with
      | nil =>
        cases hending with
        | pair => rfl
        | single hc =>
          exact (lines_cons_of_endsLine hc fun hreturn => hpair (congrArg ([·]) hreturn)).symm
      | cons c body ih =>
        rw [List.forall_mem_cons] at hbody
        rw [List.cons_append, List.cons_append, lines_cons_of_not_endsLine hbody.1, ← ih hbody.2,
          consLine]
  · rintro rfl
    exact cutIntoLines_lines s

example : lines "a\r\r\n\x0Bb".toList = [['a', '\r'], ['\r', '\n'], ['\x0B'], ['b']] := by decide

namespace CutIntoLines

theorem ne_nil (h : CutIntoLines s ls) : ls ≠ [] := by
  cases h <;> exact List.cons_ne_nil _ _

/-- **No character is lost** when a text is cut into lines. -/
theorem flatten_eq (h : CutIntoLines s ls) : ls.flatten = s := by
  induction h with
  | last h => simp
  | cons _ _ _ _ ih => rw [List.flatten_cons, ih]

/-- The last line has no line end. -/
theorem not_endsLine (h : CutIntoLines s [line]) : ∀ c ∈ line, endsLine c = false := by
  cases h with
  | last h => exact h
  | cons _ _ _ hrest => exact absurd rfl hrest.ne_nil

/-- Every other line ends in a line end. -/
theorem exists_endsLine (h : CutIntoLines s (line :: after)) (hafter : after ≠ []) :
    ∃ c ∈ line.getLast?, endsLine c = true := by
  cases h with
  | last => exact absurd rfl hafter
  | cons _ hending _ _ =>
    cases hending with
    | pair => exact ⟨'\n', by simp, rfl⟩
    | @single c hc => exact ⟨c, by simp, hc⟩

/-- The lines from some line on are those of the text from there on, and no pair is cut there. -/
theorem drop (h : CutIntoLines s (before ++ line :: after)) :
    CutIntoLines (line :: after).flatten (line :: after) ∧
      ¬CutsPair before.flatten (line :: after).flatten := by
  induction before generalizing s with
  | nil => exact ⟨h.flatten_eq ▸ h, by simp [CutsPair]⟩
  | cons first before ih =>
    rw [List.cons_append] at h
    generalize hls : first :: (before ++ line :: after) = ls at h
    cases h with
    | last => simp at hls
    | @cons body ending s ls hbody hending hpair hrest =>
      obtain ⟨rfl, rfl⟩ := List.cons.inj hls
      obtain ⟨hdrop, hcut⟩ := ih hrest
      refine ⟨hdrop, fun ⟨hlast, hhead⟩ => ?_⟩
      rw [List.flatten_cons] at hlast
      by_cases hbefore : before.flatten = []
      · -- the text behind the first line is that of the lines from the given one on
        rw [hbefore, List.append_nil] at hlast
        rw [← hrest.flatten_eq, List.flatten_append, hbefore, List.nil_append] at hpair
        exact hpair (hending.eq_return_of_getLast? hlast) hhead
      · rw [List.getLast?_append_of_ne_nil _ hbefore] at hlast
        exact hcut ⟨hlast, hhead⟩

end CutIntoLines

/-! ## What is left of a line without its line end -/

/-- What can be left off at the end of a line. -/
def lineCuts : List (List Char) := [[], ['\n'], ['\r'], ['\r', '\n']]

theorem eq_of_mem_lineCuts {cut : List Char} (hcut : cut ∈ lineCuts) (hc : c ∈ cut) :
    c = '\r' ∨ c = '\n' := by
  simp only [lineCuts, List.mem_cons, List.not_mem_nil, or_false] at hcut
  rcases hcut with rfl | rfl | rfl | rfl
  · exact absurd hc List.not_mem_nil
  · exact .inr (List.mem_singleton.1 hc)
  · exact .inl (List.mem_singleton.1 hc)
  · simpa using hc

/-- A line is what is left of it and what is left off at its end. -/
structure LineParts (line kept cut : List Char) : Prop where
  eq_append : line = kept ++ cut
  return_not_mem : '\r' ∉ kept
  feed_not_mem : '\n' ∉ kept
  cut_mem : cut ∈ lineCuts

/-- The line ends in a character that ends lines and is left on the line: it is neither a line feed
nor a carriage return. -/
def KeepsLineEnd (line : List Char) : Prop :=
  ∃ c ∈ line.getLast?, endsLine c = true ∧ c ≠ '\r' ∧ c ≠ '\n'

instance (line : List Char) : Decidable (KeepsLineEnd line) :=
  decidable_of_iff (line.getLast?.any fun c => endsLine c && c != '\r' && c != '\n')
    (by simp [KeepsLineEnd, Option.any_eq_true, and_assoc])

theorem CutIntoLines.exists_parts (h : CutIntoLines s (line :: after)) :
    ∃ kept cut, LineParts line kept cut := by
  have hnot {body : List Char} (hbody : ∀ c ∈ body, endsLine c = false) :
      '\r' ∉ body ∧ '\n' ∉ body :=
    ⟨fun hr => Bool.noConfusion (hbody _ hr), fun hn => Bool.noConfusion (hbody _ hn)⟩
  cases h with
  | @last s h => exact ⟨s, [], (List.append_nil s).symm, (hnot h).1, (hnot h).2, by decide⟩
  | @cons body ending _ _ hbody hending _ _ =>
    obtain ⟨hr, hn⟩ := hnot hbody
    cases hending with
    | pair => exact ⟨body, ['\r', '\n'], rfl, hr, hn, by decide⟩
    | @single c hc =>
      by_cases hcut : c = '\r' ∨ c = '\n'
      · exact ⟨body, [c], rfl, hr, hn, by rcases hcut with rfl | rfl <;> decide⟩
      · rw [not_or] at hcut
        refine ⟨body ++ [c], [], (List.append_nil _).symm, ?_, ?_, by decide⟩
        · simp [hr, Ne.symm hcut.1]
        · simp [hn, Ne.symm hcut.2]

namespace LineParts

variable {kept cut : List Char}

theorem lineContent_eq (h : LineParts line kept cut) : lineContent line = kept := by
  have hcut : ∀ c ∈ cut.reverse, (c == '\n' || c == '\r') = true := by
    intro c hc
    rw [Bool.or_eq_true, beq_iff_eq, beq_iff_eq]
    exact (eq_of_mem_lineCuts h.cut_mem (List.mem_reverse.1 hc)).symm
  have hkept : ∀ c ∈ kept, ¬(c == '\n' || c == '\r') = true := by
    intro c hc
    rw [Bool.or_eq_true, beq_iff_eq, beq_iff_eq]
    rintro (rfl | rfl)
    · exact h.feed_not_mem hc
    · exact h.return_not_mem hc
  rw [lineContent, h.eq_append, List.reverse_append, List.dropWhile_append_of_pos hcut,
    List.dropWhile_eq_self_iff.2 fun hl => hkept _ (List.mem_reverse.1 (List.getElem_mem hl)),
    List.reverse_reverse]

theorem lineLength_eq (h : LineParts line kept cut) : lineLength line = kept.length := by
  have hconcat (c : Char) (t : List Char) : dropLast c (t ++ [c]) = t := by
    rw [dropLast, if_pos List.getLast?_concat, List.dropLast_concat]
  have hskip {c : Char} {t : List Char} (ht : t.getLast? ≠ some c) : dropLast c t = t := if_neg ht
  have hkept : dropLast '\r' kept = kept :=
    hskip fun hlast => h.return_not_mem (List.mem_of_getLast? hlast)
  have hcut := h.cut_mem
  simp only [lineCuts, List.mem_cons, List.not_mem_nil, or_false] at hcut
  rw [lineLength, h.eq_append]
  rcases hcut with rfl | rfl | rfl | rfl
  · rw [List.append_nil, hskip fun hlast => h.feed_not_mem (List.mem_of_getLast? hlast), hkept]
  · rw [hconcat, hkept]
  · rw [hskip (c := '\n') (by simp), hconcat]
  · rw [← List.singleton_append, ← List.append_assoc, hconcat, hconcat]

/-- Nothing is left off the last line. -/
theorem cut_eq_nil (h : LineParts line kept cut) (hline : ∀ c ∈ line, endsLine c = false) :
    cut = [] := by
  refine List.eq_nil_iff_forall_not_mem.2 fun c hc => ?_
  have hends : endsLine c = true := by
    rcases eq_of_mem_lineCuts h.cut_mem hc with rfl | rfl <;> rfl
  rw [hline c (h.eq_append ▸ List.mem_append_right _ hc)] at hends
  exact Bool.noConfusion hends

/-- Of the lines from which nothing is left off, those that keep a line end are all but the last. -/
theorem keepsLineEnd_iff (h : LineParts line kept cut) (hline : CutIntoLines s (line :: after)) :
    KeepsLineEnd line ↔ cut = [] ∧ after ≠ [] := by
  constructor
  · rintro ⟨c, hlast, hc, hr, hn⟩
    constructor
    · by_contra hcut
      rw [h.eq_append, List.getLast?_append_of_ne_nil _ hcut] at hlast
      exact (eq_of_mem_lineCuts h.cut_mem (List.mem_of_mem_getLast? hlast)).elim hr hn
    · rintro rfl
      rw [hline.not_endsLine c (List.mem_of_mem_getLast? hlast)] at hc
      exact Bool.noConfusion hc
  · rintro ⟨rfl, hafter⟩
    obtain ⟨c, hlast, hc⟩ := hline.exists_endsLine hafter
    have hmem : c ∈ kept := by
      rw [← List.append_nil kept, ← h.eq_append]
      exact List.mem_of_mem_getLast? hlast
    refine ⟨c, hlast, hc, ?_, ?_⟩
    · rintro rfl
      exact h.return_not_mem hmem
    · rintro rfl
      exact h.feed_not_mem hmem

/-- A place between what is left of the line and its end is that between a carriage return and its
line feed.  The end itself is a place of the last line only, from which nothing is left off. -/
theorem cut_eq_pair (h : LineParts line kept cut) (hline : CutIntoLines s (line :: after))
    {column : Nat} (hlt : kept.length < column) (hle : column ≤ line.length)
    (hend : after ≠ [] → column < line.length) :
    line.take column = kept ++ ['\r'] ∧ line.drop column = ['\n'] := by
  have hlen : line.length = kept.length + cut.length := by rw [h.eq_append, List.length_append]
  have hafter : after ≠ [] := by
    rintro rfl
    rw [h.cut_eq_nil hline.not_endsLine, List.length_nil] at hlen
    omega
  have hcolumn := hend hafter
  have hall : ∀ t ∈ lineCuts, 2 ≤ t.length → t = ['\r', '\n'] := by decide
  obtain rfl := hall cut h.cut_mem (by omega)
  obtain rfl : column = kept.length + 1 := by
    rw [List.length_cons, List.length_singleton] at hlen
    omega
  rw [h.eq_append, List.take_length_add_append, List.drop_length_add_append]
  exact ⟨rfl, rfl⟩

/-- A place before or at the end of what is left of the line stands in no pair. -/
theorem not_cutsPair_of_le {column : Nat} {front : List Char} (h : LineParts line kept cut)
    (hpair : ¬CutsPair front (line :: after).flatten) (hle : column ≤ kept.length) :
    ¬CutsPair (front ++ line.take column) (line.drop column ++ after.flatten) := by
  rintro ⟨hr, hn⟩
  have htake : line.take column = kept.take column := by
    rw [h.eq_append, List.take_append_of_le_length hle]
  by_cases hnil : line.take column = []
  · rw [hnil, List.append_nil] at hr
    have hdrop := List.take_append_drop column line
    rw [hnil, List.nil_append] at hdrop
    rw [hdrop, ← List.flatten_cons] at hn
    exact hpair ⟨hr, hn⟩
  · rw [List.getLast?_append_of_ne_nil _ hnil, htake] at hr
    exact h.return_not_mem (List.mem_of_mem_take (List.mem_of_getLast? hr))

end LineParts

end CommentTags.Document
