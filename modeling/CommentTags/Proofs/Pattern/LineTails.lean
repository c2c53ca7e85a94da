import CommentTags.Proofs.Pattern.LineEnds

/-!
# The rest of a line

The last part of a comment runs to the end of its line.  How it gets there differs: all of the line
is read, or what stands before a text that closes the comment, or a carriage return is left aside
and the line has to end.  In a text with carriage returns each of them stops where it does in the
text without, up to the carriage return itself.

* `Cursor.Near`, `Cursor.SameLine` — the same place, up to the carriage return, and on the line.
* `LineTail` — the rest of a match on its line, in both texts.
* `restOfLine_rel`, `lazyLine_rel`, `returnAndEnd_rel` — the three ways to get to the end of a line.
-/

set_option autoImplicit false

namespace CommentTags

open Text

/-! ## The end of a line -/

/-- The second place stands where the first one does, before or after the carriage return. -/
def Cursor.Near (fed : Bool) (lines : Nat) (c c' : Cursor) : Prop :=
  c' = c.crlf fed lines ∨ c' = c.crlfFeed fed lines

/-- The first place is reached from `c` without leaving the line, and the second one stands where
the first one does. -/
def Cursor.SameLine (fed : Bool) (lines : Nat) (c stop stop' : Cursor) : Prop :=
  ∃ w, c.Reads w stop ∧ '\n' ∉ w ∧ stop.Near fed lines stop'

/-- Where a comment stops whose last parts are these: at the end of its named rest, if it has one. -/
def restStop (parts : List Part) (stop : Cursor) : Cursor :=
  ((parts.find? (·.name == some .rest)).map (·.stop)).getD stop

/-- The rest of a match on the line where `c` stands, in the text without and with carriage
returns. -/
structure LineTail (fed : Bool) (lines : Nat) (c : Cursor) (r r' : List Part × Cursor) : Prop where
  stop : c.SameLine fed lines r.2 r'.2
  rest : c.SameLine fed lines (restStop r.1 r.2) (restStop r'.1 r'.2)

section

variable {fed : Bool} {lines : Nat}

theorem Cursor.crlfFeed_cons_feed (offset : Nat) (before : Option Char) (rest : List Char) :
    Cursor.crlfFeed fed lines ⟨offset, before, '\n' :: rest⟩ =
      ⟨offset + lines + 1, some '\r', '\n' :: Text.crlf rest⟩ := rfl

theorem Cursor.crlfFeed_cons {a : Char} (ha : a ≠ '\n') (offset : Nat) (before : Option Char)
    (rest : List Char) :
    Cursor.crlfFeed fed lines ⟨offset, before, a :: rest⟩ =
      Cursor.crlf fed lines ⟨offset, before, a :: rest⟩ := by
  rw [Cursor.crlfFeed]
  split
  · next hcons => exact absurd (List.cons.inj hcons).1 ha
  · rfl

/-- At the end of a line, one character more is read. -/
theorem Cursor.crlfFeed_eq_or (c : Cursor) (fed : Bool) (lines : Nat) :
    c.crlfFeed fed lines = c.crlf fed lines ∨
      (c.crlf fed lines).Reads ['\r'] (c.crlfFeed fed lines) := by
  obtain ⟨offset, before, rest⟩ := c
  cases rest with
  | nil => exact .inl rfl
  | cons a rest =>
    by_cases ha : a = '\n'
    · subst ha
      exact .inr ⟨rfl, rfl, rfl⟩
    · exact .inl (Cursor.crlfFeed_cons ha offset before rest)

/-- A line end that leaves a carriage return aside. -/
def returnAndEnd : Expression :=
  [(Pattern.opt (.one (.exactly '\r'))).piece, Pattern.lineEnd.piece]

theorem returnAndEnd_rel {c : Cursor} (hc : '\r' ∉ c.rest) :
    Option.Rel (LineTail fed lines c) (returnAndEnd.partsAt c)
      (returnAndEnd.partsAt (c.crlf fed lines)) := by
  obtain ⟨offset, before, rest⟩ := c
  cases rest with
  | nil =>
    have h : Cursor.SameLine fed lines ⟨offset, before, []⟩ ⟨offset, before, []⟩
      (Cursor.crlf fed lines ⟨offset, before, []⟩) := ⟨[], .refl _, by simp, .inl rfl⟩
    exact .some ⟨h, h⟩
  | cons a rest =>
    by_cases ha : a = '\n'
    · subst ha
      have h : Cursor.SameLine fed lines ⟨offset, before, '\n' :: rest⟩
          ⟨offset, before, '\n' :: rest⟩
          (Cursor.crlfFeed fed lines ⟨offset, before, '\n' :: rest⟩) :=
        ⟨[], .refl _, by simp, .inr rfl⟩
      exact .some ⟨h, h⟩
    · have hreturn : (a == '\r') = false := by
        rw [beq_eq_false_iff_ne]
        rintro rfl
        exact hc List.mem_cons_self
      have hfeed : (a == '\n') = false := beq_eq_false_iff_ne.2 ha
      have hnone (c : Cursor) (hc : ∃ rest, c.rest = a :: rest) : returnAndEnd.partsAt c = none := by
        obtain ⟨rest, hc⟩ := hc
        simp [returnAndEnd, Expression.partsAt, Pattern.piece, Pattern.ends, hc,
          CharClass.contains, hreturn, Cursor.atLineEnd, hfeed]
      rw [hnone _ ⟨rest, rfl⟩, hnone _ ⟨Text.crlf rest, by rw [Cursor.crlf_rest, crlf_cons ha]⟩]
      exact .none

/-- A run stops right here if something is found here. -/
theorem findSome?_classRuns_of_some {α : Type} {f : Cursor → Option α} {k : CharClass}
    {offset : Nat} {before : Option Char} {s : List Char} {x : α}
    (h : f ⟨offset, before, s⟩ = some x) : (classRuns k offset before s).findSome? f = some x := by
  cases s <;> rw [classRuns, List.findSome?_cons, h]

/-- If nothing is found here, the run goes on. -/
theorem findSome?_classRuns_of_none {α : Type} {f : Cursor → Option α} {k : CharClass}
    {offset : Nat} {before : Option Char} {a : Char} {s : List Char}
    (h : f ⟨offset, before, a :: s⟩ = none) (hk : k.contains a = true) :
    (classRuns k offset before (a :: s)).findSome? f =
      (classRuns k (offset + a.utf8Size) (some a) s).findSome? f := by
  rw [classRuns, if_pos hk, List.findSome?_cons, h]

/-- What is read before does not leave the line either. -/
theorem Cursor.SameLine.cons {offset : Nat} {before : Option Char} {a : Char} {rest : List Char}
    {stop stop' : Cursor} (ha : a ≠ '\n')
    (h : Cursor.SameLine fed lines ⟨offset + a.utf8Size, some a, rest⟩ stop stop') :
    Cursor.SameLine fed lines ⟨offset, before, a :: rest⟩ stop stop' := by
  obtain ⟨w, hw, hline, hnear⟩ := h
  refine ⟨a :: w, (Cursor.Reads.step offset before a rest).trans hw, ?_, hnear⟩
  rw [List.mem_cons, not_or]
  exact ⟨Ne.symm ha, hline⟩

theorem getLast?_classRuns_rel (s : List Char) : ∀ (offset : Nat) (before : Option Char),
    Option.Rel (Cursor.SameLine fed lines ⟨offset, before, s⟩)
      (classRuns .inLine offset before s).getLast?
      (classRuns .inLine (offset + lines) (before.or (feedBefore fed)) (crlf s)).getLast? := by
  induction s with
  | nil => exact fun offset before => .some ⟨[], .refl _, by simp, .inl rfl⟩
  | cons a s ih =>
    intro offset before
    by_cases ha : a = '\n'
    · subst ha
      exact .some ⟨[], .refl _, by simp, .inr rfl⟩
    · have hin : CharClass.inLine.contains a = true := by simpa [CharClass.contains] using ha
      have h := ih (offset + a.utf8Size) (some a)
      rw [Option.some_or, Nat.add_right_comm] at h
      rw [crlf_cons ha, classRuns, classRuns, if_pos hin, if_pos hin, List.getLast?_cons,
        List.getLast?_cons]
      generalize hl : classRuns .inLine (offset + a.utf8Size) (some a) s = l at h ⊢
      generalize classRuns .inLine (offset + lines + a.utf8Size) (some a) (crlf s) = l' at h ⊢
      have hne : l ≠ [] := by
        rw [← hl]
        cases s <;> simp [classRuns]
      generalize hx : l.getLast? = x, l'.getLast? = y at h ⊢
      cases h with
      | some h => exact .some (.cons ha h)
      | none => exact absurd (List.getLast?_eq_none_iff.1 hx) hne

/-- The rest of a line. -/
theorem restOfLine_rel (c : Cursor) :
    Option.Rel (LineTail fed lines c)
      (Expression.partsAt [(Pattern.run .inLine).named .rest] c)
      (Expression.partsAt [(Pattern.run .inLine).named .rest] (c.crlf fed lines)) := by
  have hpart (c : Cursor) : Expression.partsAt [(Pattern.run .inLine).named .rest] c =
      (classRuns .inLine c.offset c.before c.rest).getLast?.map fun d =>
        ([⟨some .rest, c, d⟩], d) := by
    rw [← List.head?_reverse]
    simp only [Expression.partsAt, Pattern.named, Pattern.ends]
    cases (classRuns .inLine c.offset c.before c.rest).reverse <;> rfl
  rw [hpart, hpart]
  exact rel_map (getLast?_classRuns_rel c.rest c.offset c.before) fun d d' h => ⟨h, h⟩

/-- The end of a line, or a text before it. -/
def lineEndOr (word : List Char) : Expression :=
  [(Pattern.group (.alt (.literal word) .lineEnd)).piece]

theorem lineEndOr_partsAt (word : List Char) (c : Cursor) :
    (lineEndOr word).partsAt c =
      ((literalEnd c.offset c.before word c.rest).or (if c.atLineEnd then some c else none)).map
        fun stop => ([⟨none, c, stop⟩], stop) := by
  simp only [lineEndOr, Expression.partsAt, Pattern.piece, Pattern.ends]
  cases literalEnd c.offset c.before word c.rest with
  | some d => rfl
  | none => cases c.atLineEnd <;> rfl

theorem Cursor.SameLine.here (c : Cursor) : c.SameLine fed lines c (c.crlf fed lines) :=
  ⟨[], .refl _, by simp, .inl rfl⟩

/-- A text on a line does not begin with a character that ends one. -/
theorem literalEnd_break {word : List Char} (hword : Inline word) {a : Char}
    (ha : a = '\r' ∨ a = '\n') (offset : Nat) (before : Option Char) (rest : List Char) :
    literalEnd offset before word (a :: rest) = none := by
  obtain ⟨hne, hword⟩ := hword
  cases word with
  | nil => exact absurd rfl hne
  | cons b word =>
    have hb : sameLetter b a = false := Bool.eq_false_iff.2 fun hb =>
      have hread := noBreak_of_sameLetter hword List.mem_cons_self hb
      ha.elim hread.1 hread.2
    rw [literalEnd, hb]
    rfl

/-- The line ends at a line feed, and not yet at a carriage return. -/
theorem lineEndOr_partsAt_feed {word : List Char} (hword : Inline word) (offset : Nat)
    (before : Option Char) (rest : List Char) :
    (lineEndOr word).partsAt ⟨offset, before, '\n' :: rest⟩ =
      some ([⟨none, ⟨offset, before, '\n' :: rest⟩, ⟨offset, before, '\n' :: rest⟩⟩],
        ⟨offset, before, '\n' :: rest⟩) := by
  rw [lineEndOr_partsAt, literalEnd_break hword (.inr rfl)]
  rfl

theorem lineEndOr_partsAt_return {word : List Char} (hword : Inline word) (offset : Nat)
    (before : Option Char) (rest : List Char) :
    (lineEndOr word).partsAt ⟨offset, before, '\r' :: rest⟩ = none := by
  rw [lineEndOr_partsAt, literalEnd_break hword (.inl rfl)]
  rfl

/-- Elsewhere the line ends here in both texts or in neither. -/
theorem lineEndOr_rel {word : List Char} (hword : Inline word) {c : Cursor}
    (hc : ∀ rest, c.rest ≠ '\n' :: rest) :
    Option.Rel (fun r r' => c.SameLine fed lines r.2 r'.2) ((lineEndOr word).partsAt c)
      ((lineEndOr word).partsAt (c.crlf fed lines)) := by
  have hlit : literalEnd (c.crlf fed lines).offset (c.crlf fed lines).before word
      (c.crlf fed lines).rest =
        (literalEnd c.offset c.before word c.rest).map (·.crlf fed lines) :=
    literalEnd_crlf hword.2 _ _ _
  have hend : (c.crlf fed lines).atLineEnd = c.atLineEnd := by
    obtain ⟨offset, before, rest⟩ := c
    cases rest with
    | nil => rfl
    | cons a rest =>
      have ha : a ≠ '\n' := fun h => hc rest (h ▸ rfl)
      rw [Cursor.crlf, crlf_cons ha]
      rfl
  rw [lineEndOr_partsAt, lineEndOr_partsAt, hlit, hend]
  cases h : literalEnd c.offset c.before word c.rest with
  | some d =>
    obtain ⟨w, hw, hletters⟩ := exists_reads_of_literalEnd h
    have hread := forall_of_forall₂_sameLetter hletters fun b hb a =>
      noBreak_of_sameLetter hword.2 hb
    exact .some ⟨w, hw, not_mem_of_noBreak hread, .inl rfl⟩
  | none =>
    cases c.atLineEnd with
    | true => exact .some (.here c)
    | false => exact .none

/-- Characters up to the end of the line, or up to a text before it. -/
theorem findSome?_lineEndOr_rel {word : List Char} (hword : Inline word) (s : List Char) :
    ∀ (offset : Nat) (before : Option Char),
      Option.Rel
        (fun q q' => Cursor.SameLine fed lines ⟨offset, before, s⟩ q.1 q'.1 ∧
          Cursor.SameLine fed lines ⟨offset, before, s⟩ q.2.2 q'.2.2)
        ((classRuns .inLine offset before s).findSome? fun d =>
          ((lineEndOr word).partsAt d).map fun r => (d, r))
        ((classRuns .inLine (offset + lines) (before.or (feedBefore fed)) (crlf s)).findSome?
          fun d => ((lineEndOr word).partsAt d).map fun r => (d, r)) := by
  induction s with
  | nil =>
    intro offset before
    rw [crlf_nil, classRuns, classRuns, List.findSome?_singleton, List.findSome?_singleton]
    have hrel : Option.Rel _ _
        ((lineEndOr word).partsAt (Cursor.crlf fed lines ⟨offset, before, []⟩)) :=
      lineEndOr_rel hword fun rest => (List.cons_ne_nil _ _).symm
    exact rel_map hrel fun r r' hr => ⟨.here _, hr⟩
  | cons a s ih =>
    intro offset before
    by_cases ha : a = '\n'
    · subst ha
      have hfeed : Cursor.SameLine fed lines ⟨offset, before, '\n' :: s⟩
          ⟨offset, before, '\n' :: s⟩ (Cursor.crlfFeed fed lines ⟨offset, before, '\n' :: s⟩) :=
        ⟨[], .refl _, by simp, .inr rfl⟩
      rw [findSome?_classRuns_of_some (by rw [lineEndOr_partsAt_feed hword]; rfl), crlf_cons_feed,
        findSome?_classRuns_of_none (by rw [lineEndOr_partsAt_return hword]; rfl) rfl,
        findSome?_classRuns_of_some (by rw [lineEndOr_partsAt_feed hword]; rfl)]
      exact .some ⟨hfeed, hfeed⟩
    · have hrel : Option.Rel _ _
          ((lineEndOr word).partsAt (Cursor.crlf fed lines ⟨offset, before, a :: s⟩)) :=
        lineEndOr_rel hword fun rest hrest => ha (List.cons.inj hrest).1
      have hin : CharClass.inLine.contains a = true := by simpa [CharClass.contains] using ha
      have h := ih (offset + a.utf8Size) (some a)
      rw [Option.some_or, Nat.add_right_comm] at h
      rw [Cursor.crlf, crlf_cons ha] at hrel
      rw [crlf_cons ha]
      generalize hx : (lineEndOr word).partsAt ⟨offset, before, a :: s⟩ = x at hrel
      generalize hy : (lineEndOr word).partsAt
        ⟨offset + lines, before.or (feedBefore fed), a :: crlf s⟩ = y at hrel
      cases hrel with
      | some hr =>
        rw [findSome?_classRuns_of_some (by rw [hx]; rfl),
          findSome?_classRuns_of_some (by rw [hy]; rfl)]
        refine .some ⟨?_, hr⟩
        rw [← crlf_cons ha]
        exact .here _
      | none =>
        rw [findSome?_classRuns_of_none (by rw [hx]; rfl) hin,
          findSome?_classRuns_of_none (by rw [hy]; rfl) hin]
        exact rel_imp h fun q q' hq => ⟨.cons ha hq.1, .cons ha hq.2⟩

/-- A lazy run stops where the rest of the expression matches first. -/
theorem Expression.partsAt_lazyRun (k : CharClass) (n : PieceName) (e : Expression) (c : Cursor) :
    Expression.partsAt ((Pattern.lazyRun k).named n :: e) c =
      ((classRuns k c.offset c.before c.rest).findSome? fun d =>
        (e.partsAt d).map fun r => (d, r)).map fun q => (⟨some n, c, q.1⟩ :: q.2.1, q.2.2) := by
  rw [partsAt, Pattern.named, Pattern.ends, List.map_findSome?]
  congr 1
  funext d
  rw [Function.comp_apply, Option.map_map]
  rfl

/-- The rest of a line, or of what stands on it before a text. -/
theorem lazyLine_rel {word : List Char} (hword : Inline word) (c : Cursor) :
    Option.Rel (LineTail fed lines c)
      (Expression.partsAt ((Pattern.lazyRun .inLine).named .rest :: lineEndOr word) c)
      (Expression.partsAt ((Pattern.lazyRun .inLine).named .rest :: lineEndOr word)
        (c.crlf fed lines)) := by
  rw [Expression.partsAt_lazyRun, Expression.partsAt_lazyRun]
  exact rel_map (findSome?_lineEndOr_rel hword c.rest c.offset c.before) fun q q' hq =>
    ⟨hq.2, hq.1⟩

end

end CommentTags
