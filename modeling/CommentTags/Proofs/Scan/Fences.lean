import Mathlib
import CommentTags.Proofs.Pattern.LineSpans
import CommentTags.Proofs.Pattern.Sequences
import CommentTags.Proofs.Scan.FenceLines

/-!
# Finding fences

The expression for fences can match at the start of a line only, and does so exactly if the line
opens a fence and a later line begins with three backticks.  Before the end of the opening line a
run of characters takes all that it can, which tells the hint.  The lazy body passes over the lines
that begin no fence and stops at the first one that does.

So one match is one step of `Fence.ofLines`, and the search goes on behind the line that closes the
fence.  Step by step, the fences that are found in a scope are those of its lines.

* `EndsOpening`, `EndsOpening.partsAt_run` — what follows in the expression matches up to the end of
  the opening line, and a run before it reads all of its characters that there are.
* `isSome_fenceExpression` — a line opens a fence exactly if the expression matches there.
* `Cursor.firstMark`, `firstMark_cases` — the first place at which a line begins a fence.
* `exists_fence_of_partsAt` — a match is one step of `Fence.ofLines`.
* `filterMap_matchesFrom` — the induction along the lines.
* `fences_eq_ofLines` — the fences of a scope.
-/

set_option autoImplicit false

namespace CommentTags

open Text Pattern

/-! ## What begins a fence -/

/-- The class has none of the characters that end a line. -/
structure CharClass.InLine (k : CharClass) : Prop where
  no_return : k.contains '\r' = false
  no_feed : k.contains '\n' = false

namespace CharClass.InLine

variable {k : CharClass} {w : List Char} (hk : k.InLine) (hw : ∀ a ∈ w, k.contains a = true)
include hk hw

theorem return_not_mem : '\r' ∉ w := fun h =>
  Bool.eq_false_iff.1 hk.no_return (hw _ h)

theorem feed_not_mem : '\n' ∉ w := fun h =>
  Bool.eq_false_iff.1 hk.no_feed (hw _ h)

end CharClass.InLine

theorem blank_inLine : CharClass.blank.InLine := ⟨by decide, by decide⟩

theorem hintChar_inLine : CharClass.hintChar.InLine := ⟨by decide, by decide⟩

section

variable {u v line : List Char}

theorem dropWhile_blank_backticks (hu : ∀ a ∈ u, CharClass.blank.contains a = true) :
    (u ++ (backticks ++ v)).dropWhile CharClass.blank.contains = backticks ++ v := by
  rw [List.dropWhile_append_of_pos hu]
  exact List.dropWhile_cons_of_neg (by decide)

/-- A line begins a fence if it is cut behind three backticks after blanks. -/
theorem beginsFence_append (hu : ∀ a ∈ u, CharClass.blank.contains a = true) :
    beginsFence (u ++ (backticks ++ v)) = true ∧ fenceInfo (u ++ (backticks ++ v)) = v := by
  rw [beginsFence, fenceInfo, dropWhile_blank_backticks hu]
  exact ⟨List.isPrefixOf_iff_prefix.2 (List.prefix_append _ _), rfl⟩

theorem exists_of_beginsFence (h : beginsFence line = true) :
    ∃ u, (∀ a ∈ u, CharClass.blank.contains a = true) ∧
      line = u ++ (backticks ++ fenceInfo line) := by
  refine ⟨line.takeWhile CharClass.blank.contains, fun a ha => List.mem_takeWhile_imp ha, ?_⟩
  obtain ⟨v, hv⟩ := List.isPrefixOf_iff_prefix.1 h
  rw [fenceInfo, ← hv]
  nth_rewrite 1 [← List.takeWhile_append_dropWhile (p := CharClass.blank.contains) (l := line),
    ← hv]
  rfl

/-- Only the end of a line with a first part without carriage returns matters. -/
theorem return_not_mem_dropLast_append (hu : '\r' ∉ u) :
    '\r' ∉ (u ++ v).dropLast ↔ '\r' ∉ v.dropLast := by
  cases v with
  | nil =>
    rw [List.append_nil]
    exact iff_of_true (fun h => hu (List.dropLast_subset u h)) List.not_mem_nil
  | cons a v =>
    rw [List.dropLast_append_of_ne_nil (List.cons_ne_nil a v), List.mem_append, not_or]
    exact and_iff_right hu

theorem opensFence_append (hu : ∀ a ∈ u, CharClass.blank.contains a = true) :
    opensFence (u ++ (backticks ++ v)) = true ↔ '\r' ∉ v.dropLast := by
  have hreturn : '\r' ∉ u ++ backticks := by
    rw [List.mem_append, not_or]
    exact ⟨blank_inLine.return_not_mem hu, by decide⟩
  rw [opensFence, (beginsFence_append hu).1, ← List.append_assoc]
  simpa using return_not_mem_dropLast_append hreturn

end

/-! ## Pieces of the expression -/

/-- The body of a fence, and what begins the line that closes it. -/
def fenceBody : Expression :=
  (lazyRun .any).named .body :: fenceMark

/-- The end of the line that opens a fence. -/
def openingEnd : Expression :=
  [(run .bodyChar).piece, (opt (one (.exactly '\r'))).piece, (one (.exactly '\n')).piece]

/-- A fence behind its first backticks. -/
def fenceTail : Expression :=
  (run .blank).piece :: (run .hintChar).named .hint :: (openingEnd ++ fenceBody)

theorem fenceExpression_eq_tail : fenceExpression = fenceMark ++ fenceTail := rfl

section

variable {c d e : Cursor} {line v : List Char}

theorem mem_places_fenceMark : e ∈ Expression.places fenceMark c ↔
    c.atLineStart = true ∧
      ∃ u, c.Reads (u ++ backticks) e ∧ ∀ a ∈ u, CharClass.blank.contains a = true := by
  have hticks : Expression.Accepts fenceMark.tail
      fun w => ∃ u, w = u ++ backticks ∧ ∀ a ∈ u, CharClass.blank.contains a = true := by
    refine (Expression.Accepts.cons (accepts_run .blank)
      (.cons (accepts_literal backticks) Expression.accepts_nil)).congr fun w => ?_
    constructor
    · rintro ⟨u, _, rfl, hu, v, _, rfl, hv, rfl⟩
      obtain rfl := hv.eq (by simp [backticks, Uncased, fold])
      exact ⟨u, by simp, hu⟩
    · rintro ⟨u, rfl, hu⟩
      exact ⟨u, backticks, rfl, hu, backticks, [], by simp, .refl _, rfl⟩
  have hstart (x : Cursor) : x ∈ lineStart.ends c ↔ c.atLineStart = true ∧ x = c := by
    rw [Pattern.ends]
    split <;> simp_all
  rw [show fenceMark = lineStart.piece :: fenceMark.tail from rfl, Expression.mem_places_cons]
  constructor
  · rintro ⟨x, hx, he⟩
    obtain ⟨hline, rfl⟩ := (hstart x).1 hx
    obtain ⟨_, hread, u, rfl, hu⟩ := (hticks x e).1 he
    exact ⟨hline, u, hread, hu⟩
  · rintro ⟨hline, u, hread, hu⟩
    exact ⟨c, (hstart c).2 ⟨hline, rfl⟩, (hticks c e).2 ⟨_, hread, u, rfl, hu⟩⟩

theorem feed_not_mem_blanks_backticks {u : List Char}
    (hu : ∀ a ∈ u, CharClass.blank.contains a = true) : '\n' ∉ u ++ backticks := by
  rw [List.mem_append, not_or]
  exact ⟨blank_inLine.feed_not_mem hu, by decide⟩

/-- Behind its backticks, a line that begins a fence is read up to its end. -/
theorem exists_of_mem_places_fenceMark (hread : c.ReadsLine line d)
    (he : e ∈ Expression.places fenceMark c) :
    c.atLineStart = true ∧ beginsFence line = true ∧ e.ReadsLine (fenceInfo line) d ∧
      (opensFence line = true ↔ '\r' ∉ (fenceInfo line).dropLast) := by
  obtain ⟨hstart, u, hreads, hu⟩ := mem_places_fenceMark.1 he
  obtain ⟨v, rfl, hv⟩ := hread.exists_append hreads (feed_not_mem_blanks_backticks hu)
  rw [List.append_assoc, (beginsFence_append hu).2]
  exact ⟨hstart, (beginsFence_append hu).1, hv, opensFence_append hu⟩

theorem isSome_fenceMark (hread : c.ReadsLine line d) :
    (fenceMark.partsAt c).isSome ↔ c.atLineStart = true ∧ beginsFence line = true := by
  rw [Expression.isSome_partsAt_iff]
  constructor
  · rintro ⟨e, he⟩
    obtain ⟨hstart, hbegins, -⟩ := exists_of_mem_places_fenceMark hread he
    exact ⟨hstart, hbegins⟩
  · rintro ⟨hstart, hbegins⟩
    obtain ⟨u, hu, hline⟩ := exists_of_beginsFence hbegins
    rw [hline, ← List.append_assoc] at hread
    obtain ⟨e, he, -⟩ := hread.reads.split
    exact ⟨e, mem_places_fenceMark.2 ⟨hstart, u, he, hu⟩⟩

/-- The line ends in a line feed, and a fence that it opens is closed on a later line. -/
def Cursor.ClosesBehind (d : Cursor) : Prop :=
  ∃ rest, d.rest = '\n' :: rest ∧ (fenceBody.partsAt d.nextLine).isSome

theorem openingEnd_accepts : openingEnd.Accepts fun w =>
    ∃ t, w = t ++ ['\n'] ∧ '\n' ∉ t ∧ '\r' ∉ t.dropLast := by
  refine (Expression.Accepts.cons (accepts_run .bodyChar)
    (.cons (accepts_exactly '\r').opt
      (.cons (accepts_exactly '\n') Expression.accepts_nil))).congr fun w => ?_
  simp only [CharClass.contains, Bool.and_eq_true, bne_iff_ne]
  constructor
  · rintro ⟨u, _, rfl, hu, r, _, rfl, hr, _, _, rfl, rfl, rfl⟩
    refine ⟨u ++ r, by simp, ?_, ?_⟩
    · grind
    · rcases hr with rfl | rfl
      · grind
      · grind [List.dropLast_subset]
  · rintro ⟨t, rfl, hfeed, hreturn⟩
    rcases List.eq_nil_or_concat' t with rfl | ⟨u, a, rfl⟩
    · exact ⟨[], _, rfl, by simp, [], _, rfl, .inr rfl, ['\n'], [], rfl, rfl, rfl⟩
    rw [List.dropLast_concat] at hreturn
    by_cases ha : a = '\r'
    · exact ⟨u, _, by rw [List.append_assoc], by grind, ['\r'], ['\n'], by rw [ha], .inl rfl,
        ['\n'], [], rfl, rfl, rfl⟩
    · exact ⟨u ++ [a], _, rfl, by grind, [], _, rfl, .inr rfl, ['\n'], [], rfl, rfl, rfl⟩

/-- Where the line that opens a fence ends, its body begins on the next line. -/
theorem eq_nextLine_of_mem_places (hread : c.ReadsLine v d)
    (he : e ∈ Expression.places openingEnd c) :
    '\r' ∉ v.dropLast ∧ ∃ rest, d.rest = '\n' :: rest ∧ e = d.nextLine := by
  obtain ⟨_, hreads, t, rfl, hfeed, hreturn⟩ := (openingEnd_accepts c e).1 he
  obtain ⟨x, ht, hx⟩ := hreads.split
  have hend : x.rest = '\n' :: e.rest := hx.rest
  obtain ⟨rfl, rfl⟩ := hread.unique ⟨ht, hfeed, by rw [Cursor.atLineEnd, hend]; rfl⟩
  exact ⟨hreturn, e.rest, hend, hx.unique (Cursor.reads_nextLine hend)⟩

theorem isSome_openingEnd (hread : c.ReadsLine v d) :
    (Expression.partsAt (openingEnd ++ fenceBody) c).isSome ↔
      '\r' ∉ v.dropLast ∧ d.ClosesBehind := by
  rw [Expression.isSome_partsAt_append]
  constructor
  · rintro ⟨e, he, hsome⟩
    obtain ⟨hreturn, rest, hrest, rfl⟩ := eq_nextLine_of_mem_places hread he
    exact ⟨hreturn, rest, hrest, hsome⟩
  · rintro ⟨hreturn, rest, hrest, hsome⟩
    refine ⟨d.nextLine, (openingEnd_accepts c _).2 ⟨v ++ ['\n'], ?_, v, rfl, hread.inLine, hreturn⟩,
      hsome⟩
    exact hread.reads.trans (Cursor.reads_nextLine hrest)

/-- What follows matches up to the end of a line that opens a fence. -/
def EndsOpening (f : Expression) : Prop :=
  ∀ ⦃c d : Cursor⦄ ⦃v : List Char⦄, c.ReadsLine v d →
    ((f.partsAt c).isSome ↔ '\r' ∉ v.dropLast ∧ d.ClosesBehind)

/-- Before the end of such a line, a run reads all of its characters that there are. -/
theorem EndsOpening.partsAt_run {f : Expression} (hf : EndsOpening f) {k : CharClass}
    (hk : k.InLine) (n : Option PieceName) (hread : c.ReadsLine v d) :
    ∃ e, c.Reads (v.takeWhile k.contains) e ∧ e.ReadsLine (v.dropWhile k.contains) d ∧
      Expression.partsAt (⟨n, .run k⟩ :: f) c =
        (f.partsAt e).map fun r => (⟨n, c, e⟩ :: r.1, r.2) := by
  have hrun : ∀ a ∈ v.takeWhile k.contains, k.contains a = true :=
    fun a ha => List.mem_takeWhile_imp ha
  have hcut := List.takeWhile_append_dropWhile (p := k.contains) (l := v)
  have hline := hcut.symm ▸ hread
  obtain ⟨e, hreads, -⟩ := hline.reads.split
  have hrest := hline.of_append hreads
  refine ⟨e, hreads, hrest, Expression.partsAt_run hreads hrun ?_ fun x u hx hu hsome => ?_⟩
  · -- the run stops at another character of the line, or at the end of the line
    intro a ha
    rw [hrest.reads.rest, List.head?_append] at ha
    cases hhead : (v.dropWhile k.contains).head? with
    | none =>
      rw [hhead, Option.none_or] at ha
      obtain rfl := Cursor.head?_of_atLineEnd hread.atLineEnd a ha
      exact hk.no_feed
    | some b =>
      have hnot := List.head?_dropWhile_not k.contains v
      rw [hhead, Option.some_or, Option.mem_some] at ha
      simpa [hhead, ha] using hnot
  · obtain ⟨v', hv, hx'⟩ := hread.exists_append hx (hk.feed_not_mem hu)
    obtain ⟨h, hcloses⟩ := (hf hx').1 hsome
    rw [← return_not_mem_dropLast_append (hk.return_not_mem hu), ← hv, ← hcut,
      return_not_mem_dropLast_append (hk.return_not_mem hrun)] at h
    exact (hf hrest).2 ⟨h, hcloses⟩

/-- A run before what ends the line ends the line, too. -/
theorem EndsOpening.run {f : Expression} (hf : EndsOpening f) {k : CharClass} (hk : k.InLine)
    (n : Option PieceName) : EndsOpening (⟨n, .run k⟩ :: f) := by
  intro c d v hread
  obtain ⟨e, hreads, hrest, hparts⟩ := hf.partsAt_run hk n hread
  have hreturn : '\r' ∉ v.takeWhile k.contains :=
    hk.return_not_mem fun a ha => List.mem_takeWhile_imp ha
  rw [hparts, Option.isSome_map, hf hrest, ← return_not_mem_dropLast_append hreturn,
    List.takeWhile_append_dropWhile]

theorem endsOpening_openingEnd : EndsOpening (openingEnd ++ fenceBody) :=
  fun _ _ _ => isSome_openingEnd

theorem endsOpening_hint : EndsOpening ((run .hintChar).named .hint :: (openingEnd ++ fenceBody)) :=
  endsOpening_openingEnd.run hintChar_inLine (some .hint)

theorem endsOpening_fenceTail : EndsOpening fenceTail :=
  endsOpening_hint.run blank_inLine none

/-- A line opens a fence exactly if the expression matches at its start. -/
theorem isSome_fenceExpression (hread : c.ReadsLine line d) :
    (fenceExpression.partsAt c).isSome ↔
      c.atLineStart = true ∧ opensFence line = true ∧ d.ClosesBehind := by
  rw [fenceExpression_eq_tail, Expression.isSome_partsAt_append]
  constructor
  · rintro ⟨e, he, hsome⟩
    obtain ⟨hstart, -, htail, hopens⟩ := exists_of_mem_places_fenceMark hread he
    obtain ⟨hreturn, hcloses⟩ := (endsOpening_fenceTail htail).1 hsome
    exact ⟨hstart, hopens.2 hreturn, hcloses⟩
  · rintro ⟨hstart, hline, hcloses⟩
    have hbegins : beginsFence line = true := by
      rw [opensFence, Bool.and_eq_true] at hline
      exact hline.1
    obtain ⟨e, he⟩ := Expression.isSome_partsAt_iff.1 ((isSome_fenceMark hread).2 ⟨hstart, hbegins⟩)
    obtain ⟨-, -, htail, hopens⟩ := exists_of_mem_places_fenceMark hread he
    exact ⟨e, he, (endsOpening_fenceTail htail).2 ⟨hopens.1 hline, hcloses⟩⟩

/-- The match of a fence takes its hint from the line that opens it, and its body from the next line
on. -/
theorem exists_of_fenceExpression {stop : Cursor} {parts : List Part} (hread : c.ReadsLine line d)
    (h : fenceExpression.partsAt c = some (parts, stop)) :
    ∃ (ps qs : List Part) (hint : Part), parts = ps ++ qs ∧
      fenceBody.partsAt d.nextLine = some (qs, stop) ∧
      ps.find? (·.name == some .hint) = some hint ∧ hint.text = fenceHint line ∧
      ps.find? (·.name == some .body) = none := by
  obtain ⟨ps, e, qs, rfl, hps, hqs⟩ := Expression.exists_of_partsAt_append (e := fenceMark) h
  obtain ⟨-, -, htail, -⟩ := exists_of_mem_places_fenceMark hread hps.mem_places
  obtain ⟨e₁, -, hread₁, hblank⟩ := endsOpening_hint.partsAt_run blank_inLine none htail
  obtain ⟨e₂, hhint, hread₂, hparts⟩ :=
    endsOpening_openingEnd.partsAt_run hintChar_inLine (some .hint) hread₁
  obtain ⟨⟨_, _⟩, hqs₁, hr⟩ := Option.map_eq_some_iff.1 (hblank.symm.trans hqs)
  obtain ⟨rfl, rfl⟩ := Prod.mk.inj hr
  obtain ⟨⟨_, _⟩, hqs₂, hr⟩ := Option.map_eq_some_iff.1 (hparts.symm.trans hqs₁)
  obtain ⟨rfl, rfl⟩ := Prod.mk.inj hr
  obtain ⟨ts, y, us, rfl, hts, hus⟩ := Expression.exists_of_partsAt_append (e := openingEnd) hqs₂
  obtain ⟨-, rest, hrest, rfl⟩ := eq_nextLine_of_mem_places hread₂ hts.mem_places
  refine ⟨ps ++ ⟨none, e, e₁⟩ :: ⟨some .hint, e₁, e₂⟩ :: ts, us, ⟨some .hint, e₁, e₂⟩, by simp, hus,
    ?_, hhint.upTo_eq, ?_⟩
  · rw [List.find?_append, hps.find?_eq_none rfl]
    rfl
  · rw [List.find?_append, hps.find?_eq_none rfl, Option.none_or,
      List.find?_cons_of_neg (by simp), List.find?_cons_of_neg (by simp)]
    exact hts.find?_eq_none rfl

/-! ## Bodies -/

/-- Inside a line no fence begins. -/
theorem fenceMark_partsAt_of_reads {u : List Char} (hc : fenceMark.partsAt c = none)
    (hu : c.Reads u e) (hfeed : '\n' ∉ u) : fenceMark.partsAt e = none := by
  refine Option.not_isSome_iff_eq_none.1 fun hsome => ?_
  obtain ⟨x, hx⟩ := Expression.isSome_partsAt_iff.1 hsome
  have hstart := (mem_places_fenceMark.1 hx).1
  rcases List.eq_nil_or_concat' u with rfl | ⟨u, a, rfl⟩
  · rw [hu.unique (.refl c), hc] at hsome
    exact Bool.noConfusion hsome
  · rw [Cursor.atLineStart, hu.before, List.getLast?_concat] at hstart
    obtain rfl : a = '\n' := by simpa using hstart
    exact hfeed (by simp)

/-- The first place at which a fence begins, and what is matched there. -/
def Cursor.firstMark (c : Cursor) : Option (Cursor × List Part × Cursor) :=
  (classRuns .any c.offset c.before c.rest).findSome? fun d =>
    (fenceMark.partsAt d).map fun r => (d, r)

theorem firstMark_of_some {r : List Part × Cursor} (h : fenceMark.partsAt c = some r) :
    c.firstMark = some (c, r) :=
  findSome?_classRuns_of_some (by rw [h, Option.map_some])

/-- A line that begins no fence is passed over. -/
theorem firstMark_of_feed {rest : List Char} (hc : fenceMark.partsAt c = none) (hline : '\n' ∉ line)
    (hread : c.Reads line d) (hd : d.rest = '\n' :: rest) :
    c.firstMark = d.nextLine.firstMark := by
  refine Expression.findSome?_classRuns_of_reads (hread.trans (Cursor.reads_nextLine hd))
    (fun _ _ => rfl) fun x u v huv hv hx => ?_
  have hpre : u <+: line := by
    refine List.prefix_of_prefix_length_le ⟨v, huv.symm⟩ (List.prefix_append line ['\n']) ?_
    have hlen := congrArg List.length huv
    have hpos := List.length_pos_of_ne_nil hv
    simp only [List.length_append, List.length_singleton] at hlen
    omega
  rw [fenceMark_partsAt_of_reads hc hx fun h => hline (hpre.subset h), Option.map_none]

/-- On the last line there is nothing else. -/
theorem firstMark_of_end (hc : fenceMark.partsAt c = none) (hfeed : '\n' ∉ c.rest) :
    c.firstMark = none := by
  refine List.findSome?_eq_none_iff.2 fun x hx => ?_
  obtain ⟨u, hu, -⟩ := exists_reads_of_mem_classRuns hx
  have hmem : '\n' ∉ u := fun h => hfeed (hu.rest ▸ List.mem_append_left _ h)
  rw [fenceMark_partsAt_of_reads hc hu hmem, Option.map_none]

/-- Lines are passed over up to the first one that begins a fence. -/
theorem firstMark_cases (c : Cursor) (hc : c.atLineStart = true) :
    (c.firstMark = none ∧ ∀ l ∈ c.lines, beginsFence l.text = false) ∨
    ∃ (body : List Scope) (y : Cursor) (r : List Part × Cursor), c.lines = body ++ y.lines ∧
      (∀ l ∈ body, beginsFence l.text = false) ∧ c.Reads (body.flatMap (·.text ++ ['\n'])) y ∧
      fenceMark.partsAt y = some r ∧ c.firstMark = some (y, r) := by
  have hnot {c d : Cursor} {line : List Char} (hc : c.atLineStart = true)
      (hread : c.ReadsLine line d) (h : fenceMark.partsAt c = none) :
      beginsFence line = false := by
    refine Bool.eq_false_iff.2 fun hbegins => ?_
    have hsome := (isSome_fenceMark hread).2 ⟨hc, hbegins⟩
    rw [h] at hsome
    exact Bool.noConfusion hsome
  induction c using Cursor.lines_induction with
  | last c hfeed =>
    obtain ⟨d, hread, hd⟩ := Cursor.exists_reads (List.append_nil c.rest).symm
    cases h : fenceMark.partsAt c with
    | some r => exact .inr ⟨[], c, r, rfl, by simp, .refl c, h, firstMark_of_some h⟩
    | none =>
      refine .inl ⟨firstMark_of_end h hfeed, ?_⟩
      rw [Cursor.lines_of_not_mem hfeed, List.forall_mem_singleton]
      exact hnot hc ⟨hread, hfeed, by rw [Cursor.atLineEnd, hd]⟩ h
  | more c d line rest hline hread hd ih =>
    cases h : fenceMark.partsAt c with
    | some r => exact .inr ⟨[], c, r, rfl, by simp, .refl c, h, firstMark_of_some h⟩
    | none =>
      have hbegins := hnot hc ⟨hread, hline, by rw [Cursor.atLineEnd, hd]; rfl⟩ h
      rw [firstMark_of_feed h hline hread hd, Cursor.lines_of_reads hread hline hd]
      rcases ih rfl with ⟨hnone, hlines⟩ | ⟨body, y, r, hlines, hbody, hreads, hr, hfirst⟩
      · exact .inl ⟨hnone, List.forall_mem_cons.2 ⟨hbegins, hlines⟩⟩
      · refine .inr ⟨⟨c.offset, line⟩ :: body, y, r, by rw [hlines, List.cons_append],
          List.forall_mem_cons.2 ⟨hbegins, hbody⟩, ?_, hr, hfirst⟩
        exact (hread.trans (Cursor.reads_nextLine hd)).trans hreads

end

/-! ## All fences of a scope -/

/-- The fence of a match. -/
def Match.fence? (m : Match) : Option Fence :=
  (m.part? .body).map fun body =>
    let hint := String.ofList (((m.part? .hint).map (·.text)).getD [])
    ⟨hint, Language.canonical hint, ⟨body.start.offset, body.text⟩⟩

theorem fences_eq_filterMap (s : Scope) :
    fences s = (fenceExpression.matchesFrom true s.start).filterMap (·.fence?) := rfl

/-- The parts of the opening line tell the hint, and the part behind them is the body. -/
theorem Match.fence?_append {c d y stop : Cursor} {ps qs : List Part} {hint : Part}
    (hhint : ps.find? (·.name == some .hint) = some hint)
    (hbody : ps.find? (·.name == some .body) = none) :
    Match.fence? ⟨c, ps ++ ⟨some .body, d, y⟩ :: qs, stop⟩ =
      some ⟨String.ofList hint.text, Language.canonical (String.ofList hint.text),
        ⟨d.offset, Part.text ⟨some .body, d, y⟩⟩⟩ := by
  rw [fence?, part?, part?, List.find?_append, List.find?_append, hhint, hbody]
  rfl

theorem fenceExpression_startsLine : fenceExpression.StartsLine := by
  intro c h
  obtain ⟨e, he, -⟩ := Expression.isSome_partsAt_append.1 (fenceExpression_eq_tail ▸ h)
  exact (mem_places_fenceMark.1 he).1

theorem fenceExpression_neverEmpty : fenceExpression.NeverEmpty := by
  intro c stop parts h
  obtain ⟨ps, e, qs, -, hps, hqs⟩ := Expression.exists_of_partsAt_append (e := fenceMark) h
  obtain ⟨-, u, hu, -⟩ := mem_places_fenceMark.1 hps.mem_places
  obtain ⟨w, hw⟩ := (Expression.splits_of_partsAt hqs).exists_reads
  have h1 := hu.length_eq
  have h2 := hw.length_le
  rw [List.length_append, show backticks.length = 3 from rfl] at h1
  omega

theorem fenceBody_partsAt (c : Cursor) : fenceBody.partsAt c =
    c.firstMark.map fun q => (⟨some .body, c, q.1⟩ :: q.2.1, q.2.2) :=
  Expression.partsAt_lazyRun .any .body fenceMark c

section

variable {c d stop : Cursor} {line : List Char} {parts : List Part}

/-- Where nothing matches, the line opens no fence that a later line would close. -/
theorem forall_not_beginsFence (hc : c.atLineStart = true) (hread : c.ReadsLine line d)
    (h : fenceExpression.partsAt c = none) (hopens : opensFence line = true) :
    ∀ l ∈ d.linesBehind, beginsFence l.text = false := by
  rw [Cursor.linesBehind]
  cases hrest : d.rest with
  | nil => simp
  | cons a rest =>
    obtain rfl := Cursor.head?_of_atLineEnd hread.atLineEnd a (by rw [hrest]; rfl)
    rcases firstMark_cases d.nextLine rfl with ⟨-, hlines⟩ | ⟨_, y, r, -, -, -, -, hfirst⟩
    · exact hlines
    · have hcloses : d.ClosesBehind := ⟨rest, hrest, by rw [fenceBody_partsAt, hfirst]; rfl⟩
      have hsome := (isSome_fenceExpression hread).2 ⟨hc, hopens, hcloses⟩
      rw [h] at hsome
      exact Bool.noConfusion hsome

/-- Behind the backticks that close a fence, the search goes on with the next line. -/
theorem matchesFrom_of_fenceMark (hread : c.ReadsLine line d)
    (h : fenceMark.partsAt c = some (parts, stop)) :
    fenceExpression.matchesFrom false stop = fenceExpression.matchesBehind d := by
  have hplace := (Expression.splits_of_partsAt h).mem_places
  obtain ⟨-, u, hu, -⟩ := mem_places_fenceMark.1 hplace
  obtain ⟨-, -, hrest, -⟩ := exists_of_mem_places_fenceMark hread hplace
  have hnone : fenceExpression.partsAt stop = none := by
    refine Option.not_isSome_iff_eq_none.1 fun hsome => ?_
    have hstart := fenceExpression_startsLine stop hsome
    rw [Cursor.atLineStart, hu.before, List.getLast?_append] at hstart
    exact Bool.noConfusion hstart
  exact fenceExpression_startsLine.matchesFrom_eq
    (by rw [Expression.acceptedAt, Expression.matchAt, hnone]; rfl) hrest.inLine hrest.reads

/-- A match is a fence: its body are the lines up to the first one that begins a fence, and the
search goes on behind that line. -/
theorem exists_fence_of_partsAt (hread : c.ReadsLine line d)
    (h : fenceExpression.partsAt c = some (parts, stop)) :
    ∃ (body : List Scope) (y d' : Cursor) (line' : List Char), opensFence line = true ∧
      d.linesBehind = body ++ ⟨y.offset, line'⟩ :: d'.linesBehind ∧
      (∀ l ∈ body, beginsFence l.text = false) ∧ beginsFence line' = true ∧
      d'.atLineEnd = true ∧ d'.rest.length ≤ c.rest.length ∧
      Match.fence? ⟨c, parts, stop⟩ = some (.between ⟨c.offset, line⟩ body) ∧
      fenceExpression.matchesFrom false stop = fenceExpression.matchesBehind d' := by
  obtain ⟨-, hopens, rest, hrest, -⟩ := (isSome_fenceExpression hread).1 (by rw [h]; rfl)
  obtain ⟨ps, qs, hint, rfl, hqs, hhint, htext, hbody⟩ := exists_of_fenceExpression hread h
  rw [fenceBody_partsAt] at hqs
  obtain ⟨⟨y, ts, stop'⟩, hfirst, hr⟩ := Option.map_eq_some_iff.1 hqs
  obtain ⟨rfl, rfl⟩ := Prod.mk.inj hr
  rcases firstMark_cases d.nextLine rfl with
    ⟨hnone, -⟩ | ⟨body, y', r, hlines, hnot, hreads, hr, hfirst'⟩
  · rw [hnone] at hfirst
    simp at hfirst
  obtain ⟨rfl, rfl⟩ := Prod.mk.inj (Option.some_inj.1 (hfirst'.symm.trans hfirst))
  obtain ⟨line', d', hread'⟩ := y'.exists_readsLine
  have hbegins := ((isSome_fenceMark hread').1 (by rw [hr]; rfl)).2
  have hnext := Cursor.reads_nextLine hrest
  refine ⟨body, y', d', line', hopens, ?_, hnot, hbegins, hread'.atLineEnd, ?_, ?_,
    matchesFrom_of_fenceMark hread' hr⟩
  · rw [Cursor.linesBehind, hrest, ← hread'.lines_eq]
    exact hlines
  · exact (((hread.reads.trans hnext).trans hreads).trans hread'.reads).length_le
  · have hoffset : d.nextLine.offset = c.offset + byteLength line + 1 := by
      rw [hnext.offset, hread.reads.offset]
      rfl
    have htext' : Part.text ⟨some .body, d.nextLine, y'⟩ = body.flatMap (·.text ++ ['\n']) :=
      hreads.upTo_eq
    rw [Match.fence?_append hhint hbody, htext, htext', hoffset]
    rfl

end

/-- The fences behind the start of a line are those of the lines from there on. -/
theorem filterMap_matchesFrom (c : Cursor) (hc : c.atLineStart = true) :
    (fenceExpression.matchesFrom true c).filterMap (·.fence?) = Fence.ofLines c.lines := by
  induction hn : c.rest.length using Nat.strongRecOn generalizing c with
  | ind n ih =>
    have hbehind (z : Cursor) (hz : z.rest.length ≤ n) (hend : z.atLineEnd = true) :
        (fenceExpression.matchesBehind z).filterMap (·.fence?) = Fence.ofLines z.linesBehind := by
      rw [Cursor.linesBehind]
      cases hrest : z.rest with
      | nil =>
        rw [Expression.matchesBehind_of_end hrest, Fence.ofLines]
        rfl
      | cons a rest =>
        obtain rfl := Cursor.head?_of_atLineEnd hend a (by rw [hrest]; rfl)
        have hnext : z.nextLine.rest = rest := congrArg List.tail hrest
        rw [hrest, List.length_cons] at hz
        rw [Expression.matchesBehind_of_feed hrest]
        exact ih _ (by rw [hnext]; omega) z.nextLine rfl rfl
    obtain ⟨line, d, hread⟩ := c.exists_readsLine
    rw [hread.lines_eq]
    cases h : fenceExpression.partsAt c with
    | none =>
      rw [fenceExpression_startsLine.matchesFrom_eq (d := d) ?_ hread.inLine hread.reads,
        hbehind d (hn ▸ hread.reads.length_le) hread.atLineEnd,
        Fence.ofLines_skip (forall_not_beginsFence hc hread h)]
      rw [Expression.acceptedAt, Expression.matchAt, h]
      rfl
    | some r =>
      obtain ⟨parts, stop⟩ := r
      obtain ⟨body, y, d', line', hopens, hlines, hbody, hclose, hend, hle, hfence, hsearch⟩ :=
        exists_fence_of_partsAt hread h
      rw [fenceExpression_neverEmpty.matchesFrom_of_some true h, List.filterMap_cons_some hfence,
        hsearch, hbehind d' (hn ▸ hle) hend, hlines, Fence.ofLines_fence hopens hbody hclose]

/-- **Fences are found line by line.**  Their bodies do not meet.  Each fence is closed by the first
line after it that begins a fence, and that line opens no other one. -/
theorem fences_eq_ofLines (s : Scope) :
    fences s = Fence.ofLines s.lines ∧
      (fences s).Pairwise (fun f g => f.bodyStop < g.body.offset) ∧
      ∀ f ∈ fences s, f.ClosedAmong s.lines (fences s) := by
  have hfences : fences s = Fence.ofLines s.lines := by
    rw [fences_eq_filterMap, filterMap_matchesFrom s.start rfl]
    rfl
  rw [hfences]
  exact ⟨rfl, Fence.ofLines_closed (consecutive_placeLines _ _)
    fun _ => Scope.feed_not_mem_of_mem_lines⟩

set_option maxRecDepth 20000 in
/-- A line of more backticks closes a fence, and the last fence is not closed. -/
example : fences (.document "```js a\n x\n ````\n``` b\ny".toList) =
    [⟨"js", "javascript", ⟨8, " x\n".toList⟩⟩] := by
  cbv

end CommentTags
