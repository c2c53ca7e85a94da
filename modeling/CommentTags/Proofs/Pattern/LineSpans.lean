import CommentTags.Proofs.Pattern.LineTails

/-!
# Parts that run over several lines

The interior of a block comment and the body of a fence run up to what closes them, over as many
lines as there are before it, and each line end adds one character to them.

What opens a block comment ends with one white character.  At the end of a line this is the carriage
return, so the interior begins with the line feed after it, and the opener cannot be repeated on the
next line as it can without carriage returns.  Apart from that it reaches the same places, so a
comment is found again if there is no line end between its openers.

* `Cursor.Feed` — the same place, or the one before the line feed in front of it.
* `Cursor.Spans`, `lazyAny_rel` — a part that runs over several lines, and what closes it.
* `openerOnce_ends`, `oneOrMore_opener_rel` — one opener, and its repetitions.  The places reached
  over the end of a line have no counterpart; they come first, since repetition prefers the farthest
  place.
* `openerTail_rel` — a block comment from its opener on, if its opener is repeated on one line only.
* `nextLine_rel` — the body of a fence, which begins behind the end of a line.
-/

set_option autoImplicit false

namespace CommentTags

open Text

/-- The second place is the place of the first one, or stands before the line feed in front of
it. -/
def Cursor.Feed (fed : Bool) (lines : Nat) (c c' : Cursor) : Prop :=
  c' = c.crlf fed lines ∨ c'.Reads ['\n'] (c.crlf fed lines)

/-- What is found from `c` on, in both texts: a place to which any number of lines are read, and what
stops on the same line. -/
def Cursor.Spans (fed : Bool) (lines : Nat) (c : Cursor) (q q' : Cursor × List Part × Cursor) :
    Prop :=
  ∃ w, c.Reads w q.1 ∧ q'.1 = q.1.crlf fed (lines + w.count '\n') ∧
    q'.2.2 = q.2.2.crlf fed (lines + w.count '\n') ∧ ∃ z, q.1.Reads z q.2.2 ∧ '\n' ∉ z

/-- The rest of a match begins with a part that may run over several lines, from the given places
on. -/
def SpanTail (n : PieceName) (fed : Bool) (lines : Nat) (c c' : Cursor)
    (r r' : List Part × Cursor) : Prop :=
  ∃ d w, c.Reads w d ∧ r.1.find? (·.name == some n) = some ⟨some n, c, d⟩ ∧
    r'.1.find? (·.name == some n) = some ⟨some n, c', d.crlf fed (lines + w.count '\n')⟩ ∧
    r'.2 = r.2.crlf fed (lines + w.count '\n') ∧ ∃ z, d.Reads z r.2 ∧ '\n' ∉ z

/-- The same after what opens the part. -/
def SpanAfter (n : PieceName) (fed : Bool) (lines : Nat) (c : Cursor) (r r' : List Part × Cursor) :
    Prop :=
  ∃ u d d', c.Reads u d ∧ d.Feed fed (lines + u.count '\n') d' ∧
    SpanTail n fed (lines + u.count '\n') d d' r r'

/-- The same after the end of a line. -/
def SpanOnNextLine (n : PieceName) (fed : Bool) (lines : Nat) (c : Cursor)
    (r r' : List Part × Cursor) : Prop :=
  ∃ d, c.Reads ['\n'] d ∧ SpanTail n fed (lines + 1) d (d.crlf fed (lines + 1)) r r'

theorem SpanTail.reads {n : PieceName} {fed : Bool} {lines : Nat} {c c' : Cursor}
    {r r' : List Part × Cursor} (h : SpanTail n fed lines c c' r r') :
    ∃ w, c.Reads w r.2 ∧ r'.2 = r.2.crlf fed (lines + w.count '\n') := by
  obtain ⟨d, w, hw, -, -, hstop, z, hz, hline⟩ := h
  refine ⟨w ++ z, hw.trans hz, ?_⟩
  rw [hstop, List.count_append, List.count_eq_zero_of_not_mem hline, Nat.add_zero]

/-- The text of the part has its carriage returns, and the line feed in front of it if it begins
there. -/
theorem SpanTail.part {n : PieceName} {fed : Bool} {lines : Nat} {c c' : Cursor}
    {r r' : List Part × Cursor} (h : SpanTail n fed lines c c' r r') :
    ∃ p p' w, r.1.find? (·.name == some n) = some p ∧ r'.1.find? (·.name == some n) = some p' ∧
      p.start = c ∧ p'.start = c' ∧ c.Reads w p.stop ∧
      (c' = c.crlf fed lines → p'.text = crlf p.text) ∧
      (c'.Reads ['\n'] (c.crlf fed lines) → p'.text = '\n' :: crlf p.text) := by
  obtain ⟨d, w, hw, hp, hp', -⟩ := h
  have htext : Part.text ⟨some n, c, d⟩ = w := hw.upTo_eq
  refine ⟨_, _, w, hp, hp', rfl, rfl, hw, ?_, fun hfeed => ?_⟩
  · rintro rfl
    rw [htext]
    exact hw.crlf.upTo_eq
  · rw [htext]
    exact (hfeed.trans hw.crlf).upTo_eq

theorem Cursor.Spans.cons {fed : Bool} {lines offset : Nat} {before : Option Char} {a : Char}
    {rest : List Char} {q q' : Cursor × List Part × Cursor}
    (h : Cursor.Spans fed (lines + [a].count '\n') ⟨offset + a.utf8Size, some a, rest⟩ q q') :
    Cursor.Spans fed lines ⟨offset, before, a :: rest⟩ q q' := by
  obtain ⟨w, hw, hq, hstop, hz⟩ := h
  have hcount : lines + [a].count '\n' + w.count '\n' = lines + (a :: w).count '\n' := by
    rw [Nat.add_assoc, ← List.count_append, List.singleton_append]
  rw [hcount] at hq hstop
  exact ⟨a :: w, (Cursor.Reads.step offset before a rest).trans hw, hq, hstop, hz⟩

section

variable {fed : Bool} {post : Expression} (hpost : post.WithinLine) (hbegins : post.BeginsOnLine)
include hpost hbegins

omit hpost in
/-- Nothing closes at a character that ends a line. -/
theorem findSome?_any_break {a : Char} (ha : a = '\r' ∨ a = '\n') (offset : Nat)
    (before : Option Char) (rest : List Char) :
    ((classRuns .any offset before (a :: rest)).findSome? fun d =>
        (post.partsAt d).map fun r => (d, r)) =
      (classRuns .any (offset + a.utf8Size) (some a) rest).findSome? fun d =>
        (post.partsAt d).map fun r => (d, r) := by
  refine findSome?_classRuns_of_none ?_ rfl
  rw [Expression.partsAt_eq_none hbegins (Cursor.not_onLine_of_break ha offset before rest)]
  rfl

/-- Any characters up to what closes them. -/
theorem findSome?_any_rel (s : List Char) : ∀ (offset lines : Nat) (before : Option Char),
    Option.Rel (Cursor.Spans fed lines ⟨offset, before, s⟩)
      ((classRuns .any offset before s).findSome? fun d => (post.partsAt d).map fun r => (d, r))
      ((classRuns .any (offset + lines) (before.or (feedBefore fed)) (crlf s)).findSome? fun d =>
        (post.partsAt d).map fun r => (d, r)) := by
  induction s with
  | nil =>
    intro offset lines before
    have hend (c : Cursor) (hc : c.rest = []) : post.partsAt c = none :=
      Expression.partsAt_eq_none hbegins (Cursor.not_onLine_of_nil hc)
    rw [crlf_nil, classRuns, classRuns, List.findSome?_singleton, List.findSome?_singleton,
      hend _ rfl, hend _ rfl]
    exact .none
  | cons a s ih =>
    intro offset lines before
    have h := ih (offset + a.utf8Size) (lines + [a].count '\n') (some a)
    rw [Option.some_or] at h
    by_cases ha : a = '\n'
    · subst ha
      -- the run goes on to the next line, over the carriage return in the second text
      rw [List.count_singleton_self, offset_next_feed] at h
      rw [crlf_cons_feed, findSome?_any_break hbegins (.inr rfl),
        findSome?_any_break hbegins (.inl rfl), findSome?_any_break hbegins (.inr rfl)]
      exact rel_imp h fun q q' => .cons
    · have hcrlf : post.partsAt (Cursor.crlf fed lines ⟨offset, before, a :: s⟩) = _ :=
        Expression.partsAt_crlf hpost _
      rw [Cursor.crlf, crlf_cons ha] at hcrlf
      rw [crlf_cons ha]
      cases hhere : post.partsAt ⟨offset, before, a :: s⟩ with
      | some r =>
        obtain ⟨z, hz, hline⟩ := (Expression.splits_of_partsAt hhere).exists_reads_noBreak hpost
        rw [hhere, Option.map_some] at hcrlf
        rw [findSome?_classRuns_of_some (by rw [hhere]; rfl),
          findSome?_classRuns_of_some (by rw [hcrlf]; rfl)]
        refine .some ⟨[], .refl _, ?_, rfl, z, hz, not_mem_of_noBreak hline⟩
        rw [Cursor.crlf, crlf_cons ha]
        rfl
      | none =>
        have hoffset : offset + a.utf8Size + (lines + [a].count '\n') =
            offset + lines + a.utf8Size := by
          rw [List.count_singleton, if_neg (by simpa using ha)]
          omega
        rw [hoffset] at h
        rw [hhere, Option.map_none] at hcrlf
        rw [findSome?_classRuns_of_none (by rw [hhere]; rfl) rfl,
          findSome?_classRuns_of_none (by rw [hcrlf]; rfl) rfl]
        exact rel_imp h fun q q' => .cons

/-- A part that runs over several lines, and what closes it. -/
theorem lazyAny_rel (n : PieceName) {lines : Nat} {c c' : Cursor} (h : c.Feed fed lines c') :
    Option.Rel (SpanTail n fed lines c c')
      (Expression.partsAt ((Pattern.lazyRun .any).named n :: post) c)
      (Expression.partsAt ((Pattern.lazyRun .any).named n :: post) c') := by
  rw [Expression.partsAt_lazyRun, Expression.partsAt_lazyRun]
  have hstart : ((classRuns .any c'.offset c'.before c'.rest).findSome? fun d =>
      (post.partsAt d).map fun r => (d, r)) =
      (classRuns .any (c.offset + lines) (c.before.or (feedBefore fed)) (crlf c.rest)).findSome?
        fun d => (post.partsAt d).map fun r => (d, r) := by
    rcases h with rfl | h
    · rfl
    · obtain ⟨offset, before, rest⟩ := c'
      have hrest : rest = '\n' :: crlf c.rest := h.rest
      have hoffset : c.offset + lines = offset + '\n'.utf8Size := h.offset
      have hbefore : c.before.or (feedBefore fed) = some '\n' := h.before
      rw [hrest, hoffset, hbefore, findSome?_any_break hbegins (.inr rfl)]
  rw [hstart]
  refine rel_map (findSome?_any_rel hpost hbegins c.rest c.offset lines c.before) fun q q' => ?_
  rintro ⟨w, hw, hq, hstop, hz⟩
  refine ⟨q.1, w, hw, ?_, ?_, hstop, hz⟩
  · rw [List.find?_cons_of_pos (by simp)]
  · rw [List.find?_cons_of_pos (by simp), hq]

end

/-! ## What opens a block comment -/

theorem mem_dropLast_append {a : Char} (v : List Char) {w : List Char} (h : a ∈ w.dropLast) :
    a ∈ (v ++ w).dropLast := by
  rw [List.dropLast_append_of_ne_nil (List.ne_nil_of_mem (List.dropLast_subset w h))]
  exact List.mem_append_right _ h

/-- An opener with the white character after it. -/
def openerOnce (opener : List Char) : Pattern :=
  .group (.seq (.literal opener) (.one .white))

section

variable {opener : List Char} (hopener : Inline opener) (fed : Bool)
include hopener

omit hopener in
/-- One white character: of a line end, only the carriage return is read in the second text. -/
theorem white_ends (d : Cursor) (lines : Nat) :
    ((Pattern.one .white).ends d = [] ∧ (Pattern.one .white).ends (d.crlf fed lines) = []) ∨
    ∃ a e e', d.Reads [a] e ∧ (Pattern.one .white).ends d = [e] ∧
      (Pattern.one .white).ends (d.crlf fed lines) = [e'] ∧
      (a ≠ '\n' ∧ e' = e.crlf fed lines ∨
        a = '\n' ∧ e'.Reads ['\n'] (e.crlf fed (lines + 1))) := by
  obtain ⟨offset, before, rest⟩ := d
  cases rest with
  | nil => exact .inl ⟨rfl, rfl⟩
  | cons a rest =>
    have hstep := Cursor.Reads.step offset before a rest
    by_cases ha : a = '\n'
    · subst ha
      refine .inr ⟨'\n', _, _, hstep, rfl, rfl, .inr ⟨rfl, ?_⟩⟩
      rw [Cursor.crlf_next_feed]
      exact .step (offset + lines + '\r'.utf8Size) (some '\r') '\n' (crlf rest)
    · cases hwhite : isWhite a with
      | false =>
        refine .inl ⟨by simp [Pattern.ends, CharClass.contains, hwhite], ?_⟩
        simp [Pattern.ends, CharClass.contains, hwhite, crlf_cons ha]
      | true =>
        refine .inr ⟨a, _, _, hstep, by simp [Pattern.ends, CharClass.contains, hwhite],
          ?_, .inl ⟨ha, rfl⟩⟩
        simp [Pattern.ends, CharClass.contains, hwhite, crlf_cons ha, Cursor.crlf_next]

/-- What one opener reads, in both texts. -/
theorem openerOnce_ends (c : Cursor) (lines : Nat) :
    ((openerOnce opener).ends c = [] ∧ (openerOnce opener).ends (c.crlf fed lines) = []) ∨
    ∃ v a d d', c.Reads (v ++ [a]) d ∧ '\n' ∉ v ∧ (openerOnce opener).ends c = [d] ∧
      (openerOnce opener).ends (c.crlf fed lines) = [d'] ∧
      (a ≠ '\n' ∧ d' = d.crlf fed lines ∨
        a = '\n' ∧ d'.Reads ['\n'] (d.crlf fed (lines + 1))) := by
  have hends (c : Cursor) : (openerOnce opener).ends c =
      (literalEnd c.offset c.before opener c.rest).toList.flatMap (Pattern.one .white).ends := rfl
  have hlit : literalEnd (c.crlf fed lines).offset (c.crlf fed lines).before opener
      (c.crlf fed lines).rest =
        (literalEnd c.offset c.before opener c.rest).map (·.crlf fed lines) :=
    literalEnd_crlf hopener.2 c.offset c.before c.rest
  rw [hends, hends, hlit]
  cases h : literalEnd c.offset c.before opener c.rest with
  | none => exact .inl ⟨rfl, rfl⟩
  | some d =>
    obtain ⟨v, hv, hletters⟩ := exists_reads_of_literalEnd h
    have hread := forall_of_forall₂_sameLetter hletters fun b hb a =>
      noBreak_of_sameLetter hopener.2 hb
    rw [Option.map_some, Option.toList_some, Option.toList_some, List.flatMap_singleton,
      List.flatMap_singleton]
    refine (white_ends fed d lines).imp_right ?_
    rintro ⟨a, e, e', ha, he, he', hnext⟩
    exact ⟨v, a, e, e', hv.trans ha, not_mem_of_noBreak hread, he, he', hnext⟩

theorem openerOnce_beginsOnLine : (openerOnce opener).BeginsOnLine := .inl hopener

/-- An opener leads to one place at most, and that place lies behind it. -/
theorem openerOnce_ends_one (d : Cursor) : (openerOnce opener).ends d = [] ∨
    ∃ e, (openerOnce opener).ends d = [e] ∧ e.rest.length < d.rest.length := by
  rcases openerOnce_ends hopener false d 0 with ⟨hd, -⟩ | ⟨_, _, e, _, _, _, he, -⟩
  · exact .inl hd
  · have hadvances := Pattern.advances_of_mem_ends (openerOnce_beginsOnLine hopener)
      (he ▸ List.mem_singleton_self e)
    exact .inr ⟨e, he, hadvances.2⟩

/-- No opener begins before a line feed. -/
theorem openerOnce_ends_before_feed {d e : Cursor} (hd : d.Reads ['\n'] e) :
    (openerOnce opener).ends d = [] := by
  refine List.eq_nil_iff_forall_not_mem.2 fun e' he => ?_
  obtain ⟨⟨b, rest, hrest, hb⟩, -⟩ :=
    Pattern.advances_of_mem_ends (openerOnce_beginsOnLine hopener) he
  rw [hd.rest] at hrest
  exact hb.2 (List.cons.inj hrest).1.symm

/-- Where an opener has passed the end of a line, all that it is repeated to lies behind that. -/
theorem reads_feed_before_last {c d e : Cursor} {v : List Char} (hv : c.Reads (v ++ ['\n']) d)
    (he : e ∈ oneOrMore (openerOnce opener).ends d) :
    ∃ w, c.Reads w e ∧ '\n' ∈ w.dropLast := by
  have hmem : e ∈ (Pattern.plus (openerOnce opener)).ends d := he
  have hlt := (Pattern.advances_of_mem_ends (p := .plus (openerOnce opener))
    (openerOnce_beginsOnLine hopener) hmem).2
  obtain ⟨w, hw⟩ := Pattern.exists_reads hmem
  have hne : w ≠ [] := by
    rintro rfl
    exact absurd hlt (by rw [hw.rest]; exact lt_irrefl _)
  refine ⟨_, hv.trans hw, ?_⟩
  rw [List.dropLast_append_of_ne_nil hne]
  simp

/-- **Repeated openers reach the same places**, up to the first one that stands at the end of a line.
After it the text with carriage returns goes no further; the places that are reached over the end of
the line come first in the other text, since an opener is repeated as often as possible. -/
theorem oneOrMore_opener_rel (c : Cursor) (lines : Nat) :
    ∃ far near, oneOrMore (openerOnce opener).ends c = far ++ near ∧
      (∀ d ∈ far, ∃ w, c.Reads w d ∧ '\n' ∈ w.dropLast) ∧
      List.Forall₂ (fun d d' => ∃ w, c.Reads w d ∧ d.Feed fed (lines + w.count '\n') d') near
        (oneOrMore (openerOnce opener).ends (c.crlf fed lines)) := by
  have hone := openerOnce_ends_one hopener
  induction hn : c.rest.length using Nat.strongRecOn generalizing c with
  | ind n ih =>
    rcases openerOnce_ends hopener fed c lines with
      ⟨h, h'⟩ | ⟨v, a, d, d', hv, hline, h, h', hd⟩
    · rw [oneOrMore_of_eq_nil h, oneOrMore_of_eq_nil h']
      exact ⟨[], [], rfl, by simp, .nil⟩
    rcases hd with ⟨ha, rfl⟩ | ⟨rfl, hd⟩
    · have hcount : (v ++ [a]).count '\n' = 0 :=
        List.count_eq_zero_of_not_mem (by simp [hline, Ne.symm ha])
      have hlt := (Pattern.advances_of_mem_ends (openerOnce_beginsOnLine hopener)
        (h ▸ List.mem_singleton_self d)).2
      obtain ⟨far, near, hsplit, hfar, hnear⟩ := ih _ (hn ▸ hlt) d rfl
      rw [oneOrMore_of_eq_singleton h (hone d), oneOrMore_of_eq_singleton h' (hone _), hsplit]
      refine ⟨far, near ++ [d], List.append_assoc _ _ _, fun e he => ?_, ?_⟩
      · obtain ⟨w, hw, hfeed⟩ := hfar e he
        exact ⟨_, hv.trans hw, mem_dropLast_append _ hfeed⟩
      · refine List.rel_append (hnear.imp ?_) (.cons ⟨v ++ [a], hv, .inl (by rw [hcount]; rfl)⟩ .nil)
        rintro e e' ⟨w, hw, he⟩
        refine ⟨v ++ [a] ++ w, hv.trans hw, ?_⟩
        rwa [List.count_append, hcount, Nat.zero_add]
    · -- the line feed stands in the way in the second text
      have hstop' := openerOnce_ends_before_feed hopener hd
      have hcount : (v ++ ['\n']).count '\n' = 1 := by
        rw [List.count_append, List.count_eq_zero_of_not_mem hline, List.count_singleton_self]
      rw [oneOrMore_of_eq_singleton h (hone d), oneOrMore_of_eq_singleton h' (.inl hstop'),
        oneOrMore_of_eq_nil hstop']
      exact ⟨_, [d], rfl, fun e he => reads_feed_before_last hopener hv he,
        .cons ⟨v ++ ['\n'], hv, .inr (by rwa [hcount])⟩ .nil⟩

/-- A block comment from its opener on, if the opener is not repeated over the end of a line. -/
theorem openerTail_rel {post : Expression} (hpost : post.WithinLine) (hbegins : post.BeginsOnLine)
    (n : PieceName) {c : Cursor} (lines : Nat)
    (honce : ∀ r, Expression.partsAt
        ((Pattern.plus (openerOnce opener)).piece :: (Pattern.lazyRun .any).named n :: post) c =
          some r →
      ∀ p w, r.1.find? (·.name == some n) = some p → c.Reads w p.start → '\n' ∉ w.dropLast) :
    Option.Rel (SpanAfter n fed lines c)
      (Expression.partsAt
        ((Pattern.plus (openerOnce opener)).piece :: (Pattern.lazyRun .any).named n :: post) c)
      (Expression.partsAt
        ((Pattern.plus (openerOnce opener)).piece :: (Pattern.lazyRun .any).named n :: post)
        (c.crlf fed lines)) := by
  obtain ⟨far, near, hsplit, hfar, hnear⟩ := oneOrMore_opener_rel hopener fed c lines
  let found (d : Cursor) : Option (List Part × Cursor) :=
    (Expression.partsAt ((Pattern.lazyRun .any).named n :: post) d).map fun r =>
      (⟨none, c, d⟩ :: r.1, r.2)
  have hparts : Expression.partsAt
      ((Pattern.plus (openerOnce opener)).piece :: (Pattern.lazyRun .any).named n :: post) c =
        (far.findSome? found).or (near.findSome? found) := by
    rw [← List.findSome?_append, ← hsplit]
    rfl
  rw [hparts] at honce ⊢
  -- nothing is found after an opener that is repeated over the end of a line
  have hnone : far.findSome? found = none := Option.eq_none_iff_forall_ne_some.2 fun r hr => by
    obtain ⟨d, hd, hdr⟩ := List.exists_of_findSome?_eq_some hr
    obtain ⟨w, hw, hfeed⟩ := hfar d hd
    obtain ⟨q, hq, rfl⟩ := Option.map_eq_some_iff.1 hdr
    rw [Expression.partsAt_lazyRun] at hq
    obtain ⟨q, -, rfl⟩ := Option.map_eq_some_iff.1 hq
    refine honce _ (by rw [hr]; rfl) ⟨some n, d, q.1⟩ w ?_ hw hfeed
    rw [List.find?_cons_of_neg (by simp), List.find?_cons_of_pos (by simp)]
  rw [hnone, Option.none_or, Expression.partsAt]
  refine findSome?_rel (hnear.imp ?_) fun _ _ => trivial
  rintro d d' ⟨u, hu, hd⟩ -
  refine rel_map (lazyAny_rel hpost hbegins n hd) ?_
  rintro r r' ⟨e, w, hw, he, he', hstop, hz⟩
  exact ⟨u, d, d', hu, hd, e, w, hw, by rwa [List.find?_cons_of_neg (by simp)],
    by rwa [List.find?_cons_of_neg (by simp [Pattern.piece])], hstop, hz⟩

end

/-! ## The opening line of a fence -/

/-- A carriage return if there is one, a line feed, and what follows them. -/
def nextLine (e : Expression) : Expression :=
  (Pattern.opt (.one (.exactly '\r'))).piece :: (Pattern.one (.exactly '\n')).piece :: e

theorem nextLine_partsAt_feed (e : Expression) (offset : Nat) (before : Option Char)
    (rest : List Char) :
    ∃ p q : Part, p.name = none ∧ q.name = none ∧
      (nextLine e).partsAt ⟨offset, before, '\n' :: rest⟩ =
        (e.partsAt ⟨offset + '\n'.utf8Size, some '\n', rest⟩).map fun r =>
          (p :: q :: r.1, r.2) := by
  let c : Cursor := ⟨offset, before, '\n' :: rest⟩
  let d : Cursor := ⟨offset + '\n'.utf8Size, some '\n', rest⟩
  refine ⟨⟨none, c, c⟩, ⟨none, c, d⟩, rfl, rfl, ?_⟩
  rw [nextLine, Expression.partsAt_piece [] rfl (by simp),
    Expression.partsAt_piece [] rfl (by simp), Option.map_map]
  rfl

/-- Without the carriage return there would be no line feed to read. -/
theorem nextLine_partsAt_return (e : Expression) (offset : Nat) (before : Option Char)
    (rest : List Char) :
    ∃ p q : Part, p.name = none ∧ q.name = none ∧
      (nextLine e).partsAt ⟨offset, before, '\r' :: '\n' :: rest⟩ =
        (e.partsAt ⟨offset + '\r'.utf8Size + '\n'.utf8Size, some '\n', rest⟩).map fun r =>
          (p :: q :: r.1, r.2) := by
  let c : Cursor := ⟨offset, before, '\r' :: '\n' :: rest⟩
  let d : Cursor := ⟨offset + '\r'.utf8Size, some '\r', '\n' :: rest⟩
  let d' : Cursor := ⟨offset + '\r'.utf8Size + '\n'.utf8Size, some '\n', rest⟩
  refine ⟨⟨none, c, d⟩, ⟨none, d, d'⟩, rfl, rfl, ?_⟩
  rw [nextLine, Expression.partsAt_piece [c] rfl
      (by simp [Expression.partsAt, Pattern.piece, Pattern.ends, CharClass.contains, c]),
    Expression.partsAt_piece [] rfl (by simp), Option.map_map]
  rfl

theorem nextLine_partsAt_of_ne (e : Expression) {c : Cursor} {a : Char} {rest : List Char}
    (hc : c.rest = a :: rest) (ha : a ≠ '\r' ∧ a ≠ '\n') : (nextLine e).partsAt c = none := by
  simp [nextLine, Expression.partsAt, Pattern.piece, Pattern.ends, CharClass.contains, hc, ha.1, ha.2]

/-- The end of a line, then a part that may run over several lines. -/
theorem nextLine_rel {fed : Bool} {post : Expression} (hpost : post.WithinLine)
    (hbegins : post.BeginsOnLine) (n : PieceName) {c : Cursor} (hc : '\r' ∉ c.rest) (lines : Nat) :
    Option.Rel (SpanOnNextLine n fed lines c)
      ((nextLine ((Pattern.lazyRun .any).named n :: post)).partsAt c)
      ((nextLine ((Pattern.lazyRun .any).named n :: post)).partsAt (c.crlf fed lines)) := by
  obtain ⟨offset, before, rest⟩ := c
  cases rest with
  | nil => exact .none
  | cons a rest =>
    by_cases ha : a = '\n'
    · subst ha
      let d : Cursor := ⟨offset + '\n'.utf8Size, some '\n', rest⟩
      have hd : d.crlf fed (lines + 1) =
          ⟨offset + lines + '\r'.utf8Size + '\n'.utf8Size, some '\n', crlf rest⟩ :=
        Cursor.crlf_next_feed offset rest
      obtain ⟨p, q, hp, hq, h⟩ := nextLine_partsAt_feed ((Pattern.lazyRun .any).named n :: post)
        offset before rest
      obtain ⟨p', q', hp', hq', h'⟩ := nextLine_partsAt_return
        ((Pattern.lazyRun .any).named n :: post) (offset + lines) (before.or (feedBefore fed))
        (crlf rest)
      rw [h, Cursor.crlf, crlf_cons_feed, h', ← hd]
      refine rel_map (lazyAny_rel hpost hbegins n (.inl rfl)) ?_
      rintro r r' ⟨e, w, hw, he, he', hstop, hz⟩
      exact ⟨d, .step offset before '\n' rest, e, w, hw, by simp [hp, hq, he, d],
        by simp [hp', hq', he'], hstop, hz⟩
    · have hreturn : a ≠ '\r' := by
        rintro rfl
        exact hc List.mem_cons_self
      rw [nextLine_partsAt_of_ne _ rfl ⟨hreturn, ha⟩,
        nextLine_partsAt_of_ne _ (crlf_cons ha rest) ⟨hreturn, ha⟩]
      exact .none

end CommentTags
