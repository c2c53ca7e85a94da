import Mathlib.Data.List.Basic
import CommentTags.Proofs.Findings.Order
import CommentTags.Proofs.Text.Boundaries
import CommentTags.Theme.Painter

/-!
# What is painted

A painted text is made of consecutive pieces of the text.  Some pieces are painted for a range, the
others stand between the ranges and are left as they are.  Which ranges have a piece is decided
greedily: a range that fits the text and has none starts inside one that has.  Ranges that do not
fit the text do not count at all.

Painting keeps nothing but a cursor into the text and cuts the pieces out by byte offsets.

* `Piece`, `Painter.Painting` — the pieces of a text, and what is asked of them.
* `Painter.cutPaint` — the painted text, unless a cut fails.
* `Painter.Picks`, `Painter.exists_picks` — a run through the ranges, which are sorted: what starts
  before the cursor starts inside a range that has been chosen.
* `Painter.paint_fitting` — ranges that do not fit the text do not count.
* `Painter.exists_painting` — no cut fails, and painting wraps pieces of the text and changes
  nothing else.
-/

set_option autoImplicit false

namespace CommentTags

/-- The range lies between two boundaries of the text. -/
def StyledSpan.fits (text : List Char) (s : StyledSpan) : Bool :=
  (Text.slice? text s.span.start s.span.stop).isSome

namespace Painter

/-- A piece of a text, with the range that it is painted for; with none if it is left as it is. -/
structure Piece where
  text : List Char
  span : Option StyledSpan

/-- The piece as it is painted.  A style without codes leaves no trace. -/
def Piece.painted (p : Piece) : List Char :=
  match p.span with
  | none => p.text
  | some s =>
    if s.style.switchOn = "" then p.text
    else s.style.switchOn.toList ++ p.text ++ AnsiStyle.switchOff.toList

/-- The ranges that have a piece. -/
def chosen (pieces : List Piece) : List StyledSpan :=
  pieces.filterMap (·.span)

/-- Every range lies where its piece is, if the pieces stand one after another from an offset on. -/
def Placed : Nat → List Piece → Prop
  | _, [] => True
  | n, p :: pieces =>
    (∀ s ∈ p.span, s.span = ⟨n, n + Text.byteLength p.text⟩) ∧
      Placed (n + Text.byteLength p.text) pieces

/-- All ranges that a painter holds, each with the style of its tag. -/
def held (p : Painter) : List StyledSpan :=
  p.slots.flatMap fun slot => slot.2.map fun span => ⟨span, slot.1⟩

/-- The painter without the ranges that do not fit a text. -/
def fitting (text : List Char) (p : Painter) : Painter :=
  ⟨p.slots.map fun slot => (slot.1, slot.2.filter fun span => StyledSpan.fits text ⟨span, slot.1⟩)⟩

/-- The pieces are those of the text.  Of the ranges that fit the text, some have a piece and the
others are skipped, since they start inside one that has. -/
structure Painting (p : Painter) (text : List Char) (pieces : List Piece)
    (skipped : List StyledSpan) : Prop where
  whole : pieces.flatMap (·.text) = text
  placed : Placed 0 pieces
  disjoint : (chosen pieces).Pairwise fun s t => s.span.stop ≤ t.span.start
  held : (p.held.filter (·.fits text)).Perm (chosen pieces ++ skipped)
  inside : ∀ s ∈ skipped, ∃ c ∈ chosen pieces,
    c.span.start ≤ s.span.start ∧ s.span.start < c.span.stop

/-- Paint the text that follows the byte offset `cursor`, unless a cut fails. -/
def cutFrom (text : List Char) : Nat → List StyledSpan → Option (List Char)
  | cursor, [] => Text.dropBytes? cursor text
  | cursor, s :: rest =>
    if s.span.start < cursor || !s.fits text then cutFrom text cursor rest
    else do
      let gap ← Text.slice? text cursor s.span.start
      let part ← Text.slice? text s.span.start s.span.stop
      let tail ← cutFrom text s.span.stop rest
      return gap ++ wrap s.style part ++ tail

/-- The text with every range in its style, unless a cut fails. -/
def cutPaint (p : Painter) (text : String) : Option String :=
  (cutFrom text.toList 0 p.spans).map String.ofList

/-! ## Pieces that stand one after another -/

theorem Placed.le_start {n : Nat} {pieces : List Piece} (h : Placed n pieces) :
    ∀ s ∈ chosen pieces, n ≤ s.span.start := by
  induction pieces generalizing n with
  | nil => simp [chosen]
  | cons p pieces ih =>
    intro s hs
    rw [chosen, List.mem_filterMap] at hs
    obtain ⟨q, hq, hs⟩ := hs
    rcases List.mem_cons.1 hq with rfl | hq
    · rw [h.1 s hs]
    · exact (Nat.le_add_right _ _).trans (ih h.2 s (List.mem_filterMap.2 ⟨q, hq, hs⟩))

/-- Ranges that lie where their pieces are do not overlap. -/
theorem Placed.disjoint {n : Nat} {pieces : List Piece} (h : Placed n pieces) :
    (chosen pieces).Pairwise fun s t => s.span.stop ≤ t.span.start := by
  induction pieces generalizing n with
  | nil => exact .nil
  | cons p pieces ih =>
    cases hp : p.span with
    | none =>
      rw [chosen, List.filterMap_cons_none hp]
      exact ih h.2
    | some s =>
      rw [chosen, List.filterMap_cons_some hp]
      refine .cons (fun t ht => ?_) (ih h.2)
      rw [h.1 s hp]
      exact h.2.le_start t ht

/-! ## One run through the ranges -/

/-- The gap between a boundary and a later one. -/
theorem exists_gap {front back front' back' : List Char} (h : front ++ back = front' ++ back')
    (hle : Text.byteLength front ≤ Text.byteLength front') :
    ∃ gap, front' = front ++ gap ∧ back = gap ++ back' := by
  rcases List.append_eq_append_iff.1 h with ⟨gap, hfront, hback⟩ | ⟨gap, hfront, hback⟩
  · exact ⟨gap, hfront, hback⟩
  · have hlen := Text.length_le_byteLength gap
    rw [hfront, Text.byteLength_append] at hle
    obtain rfl : gap = [] := List.length_eq_zero_iff.1 (by omega)
    exact ⟨[], by simpa using hfront.symm, by simpa using hback.symm⟩

/-- What a run through the ranges does with the text from a boundary on, when the ranges `before`
have been chosen already. -/
structure Picks (text front back : List Char) (before spans : List StyledSpan)
    (pieces : List Piece) (skipped : List StyledSpan) : Prop where
  cut : cutFrom text (Text.byteLength front) spans = some (pieces.flatMap (·.painted))
  paint : paintFrom text (Text.byteLength front) spans = pieces.flatMap (·.painted)
  whole : pieces.flatMap (·.text) = back
  placed : Placed (Text.byteLength front) pieces
  perm : (spans.filter (·.fits text)).Perm (chosen pieces ++ skipped)
  inside : ∀ s ∈ skipped, ∃ c ∈ before ++ chosen pieces,
    c.span.start ≤ s.span.start ∧ s.span.start < c.span.stop

section

variable {text front back : List Char} {before spans : List StyledSpan}

/-- A range that starts before the cursor is skipped, and so is one that does not fit the text. -/
theorem Picks.skip {s : StyledSpan} {pieces : List Piece} {skipped : List StyledSpan}
    (h : Picks text front back before spans pieces skipped)
    (hs : s.span.start < Text.byteLength front ∨ s.fits text = false)
    (hbefore : s.span.start < Text.byteLength front →
      ∃ c ∈ before, c.span.start ≤ s.span.start ∧ s.span.start < c.span.stop) :
    ∃ skipped, Picks text front back before (s :: spans) pieces skipped := by
  have hcut : cutFrom text (Text.byteLength front) (s :: spans) =
      cutFrom text (Text.byteLength front) spans := by
    rw [cutFrom, if_pos]
    simpa using hs
  have hpaint : paintFrom text (Text.byteLength front) (s :: spans) =
      paintFrom text (Text.byteLength front) spans := by
    rw [paintFrom]
    split
    · rfl
    · next hlt =>
      have hnone := hs.resolve_left hlt
      rw [StyledSpan.fits, Option.isSome_eq_false_iff, Option.isNone_iff_eq_none] at hnone
      rw [hnone]
  by_cases hfits : s.fits text = true
  · refine ⟨s :: skipped, hcut.trans h.cut, hpaint.trans h.paint, h.whole, h.placed, ?_, ?_⟩
    · rw [List.filter_cons_of_pos hfits]
      exact (h.perm.cons s).trans List.perm_middle.symm
    · obtain ⟨c, hc, hin⟩ := hbefore (hs.resolve_right (by simp [hfits]))
      exact List.forall_mem_cons.2 ⟨⟨c, List.mem_append_left _ hc, hin⟩, h.inside⟩
  · refine ⟨skipped, hcut.trans h.cut, hpaint.trans h.paint, h.whole, h.placed, ?_, h.inside⟩
    rw [List.filter_cons_of_neg hfits]
    exact h.perm

/-- A range that fits the text behind the cursor has a piece, after the gap before it. -/
theorem Picks.choose {gap part : List Char} {s : StyledSpan} {pieces : List Piece}
    {skipped : List StyledSpan} (htext : text = front ++ gap ++ part ++ back)
    (hstart : s.span.start = Text.byteLength (front ++ gap))
    (hstop : s.span.stop = Text.byteLength (front ++ gap ++ part))
    (h : Picks text (front ++ gap ++ part) back [s] spans pieces skipped) :
    Picks text front (gap ++ (part ++ back)) before (s :: spans)
      (⟨gap, none⟩ :: ⟨part, some s⟩ :: pieces) skipped := by
  have hgap : Text.slice? text (Text.byteLength front) s.span.start = some gap :=
    Text.slice?_eq_some_iff.2 ⟨front, part ++ back, by simp [htext], rfl, by
      rw [hstart, Text.byteLength_append]⟩
  have hpart : Text.slice? text s.span.start s.span.stop = some part :=
    Text.slice?_eq_some_iff.2 ⟨front ++ gap, back, by simp [htext], hstart.symm, by
      rw [hstart, hstop, Text.byteLength_append (front ++ gap)]⟩
  have hfits : s.fits text = true := by rw [StyledSpan.fits, hpart]; rfl
  -- so neither of the two reasons to skip the range applies
  have hle : ¬s.span.start < Text.byteLength front := by
    rw [hstart, Text.byteLength_append]
    omega
  have hpainted : gap ++ wrap s.style part ++ pieces.flatMap (·.painted) =
      List.flatMap (·.painted) (⟨gap, none⟩ :: ⟨part, some s⟩ :: pieces) := by
    rw [List.flatMap_cons, List.flatMap_cons, ← List.append_assoc]
    rfl
  refine ⟨?_, ?_, ?_, ⟨by simp, fun t ht => ?_, ?_⟩, ?_, fun t ht => ?_⟩
  · rw [cutFrom, if_neg (by simp [hle, hfits]), hgap, hpart, hstop, h.cut, ← hpainted]
    rfl
  · rw [paintFrom, if_neg hle, hpart, hgap, hstop, ← hpainted, ← h.paint]
    rfl
  · simp [h.whole]
  · obtain rfl := Option.mem_some_iff.1 ht
    rw [← Text.byteLength_append, ← Text.byteLength_append, ← hstart, ← hstop]
  · rw [← Text.byteLength_append, ← Text.byteLength_append]
    exact h.placed
  · rw [List.filter_cons_of_pos hfits]
    exact h.perm.cons s
  · obtain ⟨c, hc, hin⟩ := h.inside t ht
    exact ⟨c, List.mem_append_right _ hc, hin⟩

/-- **A run through sorted ranges.**  Whatever starts before the cursor starts inside a range that
has been chosen: this holds at first, and after each range, since the ranges are sorted. -/
theorem exists_picks (hsorted : spans.Pairwise fun s t => s.span.le t.span = true)
    (htext : text = front ++ back)
    (hbefore : ∀ s ∈ spans, s.span.start < Text.byteLength front →
      ∃ c ∈ before, c.span.start ≤ s.span.start ∧ s.span.start < c.span.stop) :
    ∃ pieces skipped, Picks text front back before spans pieces skipped := by
  induction spans generalizing front back before with
  | nil =>
    have hdrop : Text.dropBytes? (Text.byteLength front) text = some back := by
      rw [htext, Text.dropBytes?_byteLength]
    exact ⟨[⟨back, none⟩], [], by simp [cutFrom, hdrop, Piece.painted],
      by simp [paintFrom, hdrop, Piece.painted], by simp, ⟨by simp, trivial⟩, .refl _, by simp⟩
  | cons s spans ih =>
    rw [List.pairwise_cons] at hsorted
    rw [List.forall_mem_cons] at hbefore
    by_cases hskip : s.span.start < Text.byteLength front ∨ s.fits text = false
    · obtain ⟨pieces, skipped, h⟩ := ih hsorted.2 htext hbefore.2
      exact ⟨pieces, h.skip hskip hbefore.1⟩
    · rw [not_or, Bool.not_eq_false, Nat.not_lt, StyledSpan.fits, Option.isSome_iff_exists] at hskip
      obtain ⟨hle, part, hpart⟩ := hskip
      obtain ⟨front', back', hsplit, hstart, hstop⟩ := Text.slice?_eq_some_iff.1 hpart
      rw [← hstart] at hle
      obtain ⟨gap, rfl, rfl⟩ := exists_gap (htext.symm.trans hsplit) hle
      have hstop' : s.span.stop = Text.byteLength (front ++ gap ++ part) := by
        rw [← hstop, Text.byteLength_append (front ++ gap), hstart]
      have htext' : text = front ++ gap ++ part ++ back' := by simp [htext]
      -- later ranges do not start before this one, so those that start before its end start inside
      have hinside : ∀ t ∈ spans, t.span.start < Text.byteLength (front ++ gap ++ part) →
          ∃ c ∈ [s], c.span.start ≤ t.span.start ∧ t.span.start < c.span.stop := by
        intro t ht hlt
        refine ⟨s, List.mem_singleton_self s, ?_, by rwa [hstop']⟩
        have hst := hsorted.1 t ht
        simp only [Span.le, Bool.or_eq_true, Bool.and_eq_true, decide_eq_true_eq, beq_iff_eq] at hst
        omega
      obtain ⟨pieces, skipped, h⟩ := ih hsorted.2 htext' hinside
      exact ⟨_, skipped, h.choose htext' hstart.symm hstop'⟩

end

/-! ## Ranges that do not fit the text -/

/-- Two ways to cut a list in two are the same, if a property tells the two parts apart. -/
theorem append_inj_of_forall {α : Type} {q : α → Bool} {s t u v : List α} (h : s ++ t = u ++ v)
    (hs : ∀ a ∈ s, q a = true) (ht : ∀ a ∈ t, q a = false) (hu : ∀ a ∈ u, q a = true)
    (hv : ∀ a ∈ v, q a = false) : s = u ∧ t = v := by
  have hleft {s t : List α} (hs : ∀ a ∈ s, q a = true) (ht : ∀ a ∈ t, q a = false) :
      (s ++ t).filter q = s := by
    rw [List.filter_append, List.filter_eq_self.2 hs,
      List.filter_eq_nil_iff.2 fun a ha => by simp [ht a ha], List.append_nil]
  have hsu : s = u := by rw [← hleft hs ht, h, hleft hu hv]
  subst hsu
  exact ⟨rfl, List.append_cancel_left h⟩

/-- Sorting keeps the order of ties, so it does not matter whether what is left out is left out
before sorting or after it. -/
theorem filter_mergeSort {α : Type} {le : α → α → Bool}
    (htrans : ∀ a b c, le a b = true → le b c = true → le a c = true)
    (htotal : ∀ a b, (le a b || le b a) = true) (p : α → Bool) (l : List α) :
    (l.mergeSort le).filter p = (l.filter p).mergeSort le := by
  induction l with
  | nil => simp
  | cons a l ih =>
    obtain ⟨s, t, hal, hl, hs⟩ := List.mergeSort_cons htrans htotal a l
    rw [hl, List.filter_append] at ih
    rw [hal, List.filter_append]
    by_cases hp : p a = true
    · rw [List.filter_cons_of_pos hp, List.filter_cons_of_pos hp]
      obtain ⟨u, v, hap, hlp, hu⟩ := List.mergeSort_cons htrans htotal a (l.filter p)
      have hafter {l s t : List α} (h : (a :: l).mergeSort le = s ++ a :: t) :
          ∀ b ∈ t, (!le a b) = false := by
        intro b hb
        have hsorted := List.pairwise_mergeSort htrans htotal (a :: l)
        rw [h, List.pairwise_append, List.pairwise_cons] at hsorted
        simpa using hsorted.2.1.1 b hb
      obtain ⟨hsu, htv⟩ := append_inj_of_forall (q := fun b => !le a b) (ih.trans hlp)
        (fun b hb => hs b (List.mem_of_mem_filter hb))
        (fun b hb => hafter hal b (List.mem_of_mem_filter hb)) hu (hafter hap)
      rw [hap, hsu, htv]
    · rw [List.filter_cons_of_neg hp, List.filter_cons_of_neg hp, ih]

theorem spans_eq (p : Painter) : p.spans = p.held.mergeSort fun s t => s.span.le t.span := rfl

theorem pairwise_spans (p : Painter) : p.spans.Pairwise fun s t => s.span.le t.span = true :=
  List.pairwise_mergeSort (fun s t u => Span.le_trans s.span t.span u.span)
    (fun s t => Span.le_total s.span t.span) p.held

theorem spans_fitting (text : List Char) (p : Painter) :
    (p.fitting text).spans = p.spans.filter (·.fits text) := by
  have hheld : (p.fitting text).held = p.held.filter (·.fits text) := by
    rw [held, held, fitting, List.flatMap_map, List.filter_flatMap]
    refine congrArg (List.flatMap · p.slots) (funext fun slot => ?_)
    rw [List.filter_map]
    rfl
  rw [spans_eq, spans_eq, hheld,
    filter_mergeSort (fun s t u => Span.le_trans s.span t.span u.span)
      (fun s t => Span.le_total s.span t.span)]

theorem paintFrom_filter (text : List Char) (cursor : Nat) (spans : List StyledSpan) :
    paintFrom text cursor (spans.filter (·.fits text)) = paintFrom text cursor spans := by
  induction spans generalizing cursor with
  | nil => rfl
  | cons s spans ih =>
    by_cases hfits : s.fits text = true
    · rw [List.filter_cons_of_pos hfits, paintFrom, paintFrom, ih]
      split
      · rfl
      · split
        · rfl
        · rw [ih]
    · rw [List.filter_cons_of_neg hfits, ih]
      rw [StyledSpan.fits, Bool.not_eq_true, Option.isSome_eq_false_iff,
        Option.isNone_iff_eq_none] at hfits
      rw [paintFrom, hfits]
      split
      · rfl
      · rfl

/-- **Ranges that do not fit the text do not count.** -/
theorem paint_fitting (p : Painter) (text : String) :
    (p.fitting text.toList).paint text = p.paint text := by
  rw [paint, paint, spans_fitting, paintFrom_filter]

/-! ## The painted text -/

/-- **Painting wraps pieces of the text and changes nothing else.**  No cut of the text fails; the
ranges to be painted are picked greedily from those that fit the text; and the others do not
count. -/
theorem exists_painting (p : Painter) (text : String) :
    p.cutPaint text = some (p.paint text) ∧
      (∃ pieces skipped, p.Painting text.toList pieces skipped ∧
        (p.paint text).toList = pieces.flatMap (·.painted)) ∧
      (p.fitting text.toList).paint text = p.paint text := by
  have hnone : ∀ s ∈ p.spans, s.span.start < Text.byteLength [] →
      ∃ c ∈ ([] : List StyledSpan), c.span.start ≤ s.span.start ∧ s.span.start < c.span.stop := by
    simp
  obtain ⟨pieces, skipped, h⟩ :=
    exists_picks p.pairwise_spans (List.nil_append text.toList).symm hnone
  have hpaint : paintFrom text.toList 0 p.spans = pieces.flatMap (·.painted) := h.paint
  refine ⟨?_, ⟨pieces, skipped, ⟨h.whole, h.placed, h.placed.disjoint, ?_, h.inside⟩, ?_⟩,
    p.paint_fitting text⟩
  · rw [cutPaint, paint, hpaint]
    exact congrArg (Option.map String.ofList) h.cut
  · exact ((List.mergeSort_perm p.held _).symm.filter _).trans h.perm
  · rw [paint, String.toList_ofList, hpaint]

end Painter

end CommentTags
