import Mathlib
import CommentTags.Proofs.Scan.LineComments
import CommentTags.Proofs.Scan.Regions
import CommentTags.Proofs.Scan.Soundness

/-!
# Scanning from left to right

Each of the scans goes through its scope once: every finding starts later than the one before it,
and not before that one stops.  So no offset has two findings.

The search sees to it that matches follow one another, but a finding begins at the tag of its match,
and tags may be empty.  Two findings could begin at one offset if the tag of the first match were
empty and stood at its end, and the next match began right there with its tag.  This does not
happen, since what stands before the tag reads nothing where it has just read something: it always
reads an opener, a star or a bullet, or else it begins where a line begins and reads blanks.

* `LeftToRight` — findings from left to right, and what this says of any two of them.
* `Expression.MovesOn` — where the expression has just read something, it does not read nothing.
* `tag_start_lt` — one step: the tags of two matches, one behind the other.
* `leftToRight_filterMap` — the whole search.
* `FoundIn.pairwise_scope` — the lines of block comments are searched in one interior after the
  other, and interiors do not even touch, since the openers of a comment stand before its interior.
* `findings_leftToRight` — all four scans, whatever the tags are.
-/

set_option autoImplicit false

namespace CommentTags

open Text

/-! ## Findings in order -/

/-- The finding starts at the offset or goes on there. -/
def Finding.IsAt (f : Finding) (offset : Nat) : Prop :=
  f.start = offset ∨ f.start ≤ offset ∧ offset < f.stop

instance (f : Finding) (offset : Nat) : Decidable (f.IsAt offset) :=
  inferInstanceAs (Decidable (_ ∨ _))

/-- Findings from left to right. -/
structure LeftToRight (found : List Finding) : Prop where
  start_le_stop : ∀ f ∈ found, f.start ≤ f.stop
  /-- Each finding starts later than those before it, and not before they stop. -/
  ordered : found.Pairwise fun f g => f.start < g.start ∧ f.stop ≤ g.start
  /-- No offset has two findings. -/
  once : ∀ offset, (found.filter (·.IsAt offset)).length ≤ 1

/-- Nothing that starts later, and after the end of a finding, is at the same place. -/
theorem Finding.IsAt.not_isAt {f g : Finding} {offset : Nat} (hf : f.IsAt offset)
    (hlt : f.start < g.start) (hle : f.stop ≤ g.start) : ¬g.IsAt offset := by
  unfold Finding.IsAt at *
  omega

namespace LeftToRight

theorem of_ordered {found : List Finding} (hle : ∀ f ∈ found, f.start ≤ f.stop)
    (hordered : found.Pairwise fun f g => f.start < g.start ∧ f.stop ≤ g.start) :
    LeftToRight found where
  start_le_stop := hle
  ordered := hordered
  once offset := by
    have hat (f : Finding) (hf : f ∈ found.filter (·.IsAt offset)) : f.IsAt offset := by
      simpa using (List.mem_filter.1 hf).2
    have hpairs := hordered.filter (·.IsAt offset)
    generalize found.filter (·.IsAt offset) = here at hat hpairs
    match here with
    | [] | [_] => simp
    | f :: g :: _ =>
      have hfg := List.rel_of_pairwise_cons hpairs List.mem_cons_self
      exact absurd (hat g (by simp)) ((hat f (by simp)).not_isAt hfg.1 hfg.2)

theorem nil : LeftToRight [] :=
  .of_ordered (by simp) .nil

/-- Findings in scopes that lie one behind the other. -/
theorem flatMap {regions : List Region} {findings : Region → List Finding}
    (hregions : regions.Pairwise fun r r' => r.scope.stop < r'.scope.offset)
    (hfindings : ∀ r ∈ regions, LeftToRight (findings r))
    (hin : ∀ r ∈ regions, ∀ f ∈ findings r, r.scope.offset ≤ f.start ∧ f.stop ≤ r.scope.stop) :
    LeftToRight (regions.flatMap findings) := by
  refine .of_ordered (fun f hf => ?_) (List.pairwise_flatMap.2 ⟨fun r hr => ?_, ?_⟩)
  · obtain ⟨r, hr, hf⟩ := List.mem_flatMap.1 hf
    exact (hfindings r hr).start_le_stop f hf
  · exact (hfindings r hr).ordered
  · refine hregions.imp_of_mem fun {r r'} hr hr' hlt f hf g hg => ?_
    have h1 := hin r hr f hf
    have h2 := (hfindings r hr).start_le_stop f hf
    have h3 := hin r' hr' g hg
    omega

end LeftToRight

/-! ## What stands before the tag -/

/-- Where the expression has just read something, it does not read nothing. -/
def Expression.MovesOn (e : Expression) : Prop :=
  ∀ ⦃c d : Cursor⦄ ⦃ps qs : List Part⦄, e.Splits c ps d → e.Splits d qs d → d = c

/-- An expression never reads nothing if one of its pieces never does. -/
theorem Expression.Splits.length_lt {e : Expression} {p : Piece} {c d : Cursor}
    {parts : List Part} (h : e.Splits c parts d) (hp : p ∈ e)
    (hlt : ∀ c, ∀ d ∈ p.pattern.ends c, d.rest.length < c.rest.length) :
    d.rest.length < c.rest.length := by
  induction h with
  | nil => exact absurd hp List.not_mem_nil
  | cons hd h ih =>
    rcases List.mem_cons.1 hp with rfl | hp
    · obtain ⟨w, hw⟩ := h.exists_reads
      exact hw.length_le.trans_lt (hlt _ _ hd)
    · obtain ⟨w, hw⟩ := Pattern.exists_reads hd
      exact (ih hp).trans_le hw.length_le

theorem Expression.movesOn_of_mem {e : Expression} {p : Piece} (hp : p ∈ e)
    (hlt : ∀ c, ∀ d ∈ p.pattern.ends c, d.rest.length < c.rest.length) : e.MovesOn :=
  fun _ _ _ _ _ h => absurd (h.length_lt hp hlt) (Nat.lt_irrefl _)

theorem Expression.movesOn_of_mem_one {e : Expression} {k : CharClass}
    (hp : (Pattern.one k).piece ∈ e) : e.MovesOn := by
  refine movesOn_of_mem hp fun c d hd => (Pattern.accepts_one k).length_lt ?_ hd
  rintro _ ⟨a, rfl, -⟩
  simp

/-- The start of a line and blanks after it. -/
theorem Expression.Splits.exists_blanks {c d : Cursor} {ps : List Part}
    (h : Splits [Pattern.lineStart.piece, (Pattern.run .blank).piece] c ps d) :
    c.atLineStart = true ∧ ∃ w, c.Reads w d ∧ ∀ a ∈ w, a = ' ' ∨ a = '\t' := by
  cases h with
  | cons hstart h =>
    cases h with
    | cons hrun h =>
      cases h
      simp only [Pattern.piece, Pattern.ends, List.mem_ite_nil_right, List.mem_singleton] at hstart
      obtain ⟨hstart, rfl⟩ := hstart
      exact ⟨hstart, (accepts_blanks _ _).1 hrun⟩

/-- After a blank no line begins. -/
theorem movesOn_lineStart_blanks :
    Expression.MovesOn [Pattern.lineStart.piece, (Pattern.run .blank).piece] := by
  intro c d ps qs h h'
  obtain ⟨-, w, hw, hblanks⟩ := h.exists_blanks
  have hstart := h'.exists_blanks.1
  rcases w.eq_nil_or_concat with rfl | ⟨v, a, rfl⟩
  · exact hw.unique (.refl c)
  · have hbefore : d.before = some a := by
      rw [hw.before, List.concat_eq_append, List.getLast?_concat, Option.some_or]
    rw [Cursor.atLineStart, hbefore] at hstart
    obtain rfl : a = '\n' := beq_iff_eq.1 hstart
    exact absurd (hblanks '\n' (by simp)) (by decide)

theorem movesOn_lineOpening {p : Profile} (hne : ∀ w ∈ p.openerWords, w ≠ []) :
    (lineOpening p).MovesOn := by
  rw [lineOpening]
  split
  · exact movesOn_lineStart_blanks
  · refine Expression.movesOn_of_mem List.mem_cons_self fun c d hd => ?_
    refine (accepts_lineOpeners hne).length_lt ?_ hd
    rintro w ⟨n, hn, hrep⟩
    exact hrep.ne_nil (fun _ => SpellsOneOf.ne_nil hne) hn

/-! ## One match after another -/

/-- The finding starts at the tag of the match and stops within the match. -/
def Match.Yields (m : Match) (f : Finding) : Prop :=
  ∃ tag, m.part? .tag = some tag ∧ f.start = tag.start.offset ∧ f.start ≤ f.stop ∧
    f.stop ≤ m.stop.offset

section

variable {tags : Registry} {s : Scope} {e f : Expression}

theorem Match.TaggedUpTo.yields {m : Match} {stop : Cursor} {g : Finding}
    (hm : m.TaggedUpTo s stop) (hstop : stop.offset ≤ m.stop.offset)
    (h : ((m.part? .tag).bind fun tag => findingAt? tags tag stop) = some g) : m.Yields g := by
  obtain ⟨tag, u, v, w, htag, hu, hv, hw, -⟩ := hm
  rw [htag, Option.bind_some] at h
  obtain ⟨white, hwhite, -, hstart, hgstop, -⟩ := exists_cut_of_findingAt? hu hv hw h
  have hbytes := congrArg byteLength hwhite
  rw [byteLength_append] at hbytes hgstop
  have h1 := hv.offset
  have h2 := hw.offset
  have h3 := hu.offset
  rw [show s.start.offset = s.offset from rfl] at h3
  exact ⟨tag, htag, by omega, by omega, by omega⟩

/-- A part of a match stops within it. -/
theorem lineStop_le {m : Match} (hm : m ∈ e.findAll s.offset s.text) :
    m.lineStop.offset ≤ m.stop.offset := by
  obtain ⟨-, -, hs⟩ := Expression.exists_reads_of_mem_findAll hm
  rw [Match.lineStop]
  cases hrest : m.part? .rest with
  | none => exact Nat.le_refl _
  | some part =>
    obtain ⟨w, hw⟩ := hs.exists_reads_of_mem (List.mem_of_find?_eq_some hrest)
    have hoffset := hw.offset
    simp only [Option.map_some, Option.getD_some]
    omega

section

variable (he : e.MovesOn) (hn : e.all (·.name != some .tag))
include he hn

omit he in
theorem start_le_tag_start {m : Match} {tag : Part}
    (hm : m ∈ Expression.findAll (e ++ tagPiece tags :: f) s.offset s.text)
    (htag : m.part? .tag = some tag) : m.start.offset ≤ tag.start.offset := by
  obtain ⟨ps, t, qs, u, v, -, ht, hopen, -⟩ := exists_tag_of_mem_findAll hm hn
  obtain rfl : t = tag := Option.some_inj.1 (ht.symm.trans htag)
  obtain ⟨w, hw⟩ := hopen.exists_reads
  have hoffset := hw.offset
  omega

/-- **Step.** The tags of two matches, one behind the other, start one behind the other. -/
theorem tag_start_lt {m m' : Match} {tag tag' : Part}
    (hm : m ∈ Expression.findAll (e ++ tagPiece tags :: f) s.offset s.text)
    (hm' : m' ∈ Expression.findAll (e ++ tagPiece tags :: f) s.offset s.text)
    (hlt : m.start.offset < m'.start.offset) (hle : m.stop.offset ≤ m'.start.offset)
    (htag : m.part? .tag = some tag) (htag' : m'.part? .tag = some tag') :
    tag.start.offset < tag'.start.offset := by
  obtain ⟨ps, t, qs, u, v, -, ht, hopen, hu, hv, hqs⟩ := exists_tag_of_mem_findAll hm hn
  obtain ⟨ps', t', qs', u', v', -, ht', hopen', hu', -, -⟩ := exists_tag_of_mem_findAll hm' hn
  obtain rfl : t = tag := Option.some_inj.1 (ht.symm.trans htag)
  obtain rfl : t' = tag' := Option.some_inj.1 (ht'.symm.trans htag')
  obtain ⟨x, hx, -⟩ := Expression.exists_reads_of_mem_findAll hm'
  obtain ⟨y, hy⟩ := hqs.exists_reads
  have h1 := hv.offset
  have h2 := hy.offset
  have h3 := start_le_tag_start hn hm' ht'
  by_contra hnot
  -- then the second match begins with its tag, right where the tag of the first one stands
  have hstart : t.start = m'.start := hu.eq_of_offset_eq hx (by omega)
  have hstart' : t.start = t'.start := hu.eq_of_offset_eq hu' (by omega)
  rw [← hstart, ← hstart'] at hopen'
  have hsame := he hopen hopen'
  rw [← hstart, hsame] at hlt
  exact Nat.lt_irrefl _ hlt

/-- **Run.** What the matches of a search lead to is found from left to right. -/
theorem leftToRight_filterMap {found : Match → Option Finding}
    (hfound : ∀ m ∈ Expression.findAll (e ++ tagPiece tags :: f) s.offset s.text,
      ∀ g, found m = some g → m.Yields g) :
    LeftToRight
      ((Expression.findAll (e ++ tagPiece tags :: f) s.offset s.text).filterMap found) := by
  refine .of_ordered (fun g hg => ?_) (List.pairwise_filterMap.2 ?_)
  · obtain ⟨m, hm, hg⟩ := List.mem_filterMap.1 hg
    obtain ⟨-, -, -, hle, -⟩ := hfound m hm g hg
    exact hle
  · refine (Expression.pairwise_matchesFrom _ true s.start).imp_of_mem ?_
    rintro m m' hm hm' ⟨hlt, hle⟩ g hg g' hg'
    obtain ⟨tag, htag, hstart, -, hstop⟩ := hfound m hm g hg
    obtain ⟨tag', htag', hstart', -, -⟩ := hfound m' hm' g' hg'
    have htags := tag_start_lt he hn hm hm' hlt hle htag htag'
    have hstart' := start_le_tag_start hn hm' htag'
    omega

theorem leftToRight_findings
    (htagged : ∀ m ∈ Expression.findAll (e ++ tagPiece tags :: f) s.offset s.text,
      m.TaggedUpTo s m.stop) :
    LeftToRight ((Expression.findAll (e ++ tagPiece tags :: f) s.offset s.text).filterMap
      (·.finding? tags)) :=
  leftToRight_filterMap he hn fun m hm _ hg => (htagged m hm).yields (Nat.le_refl _) hg

end

end

/-! ## One interior after another -/

theorem Finding.Sound.mem_scope {tags : Registry} {s : Scope} {f : Finding} (h : f.Sound tags s) :
    s.offset ≤ f.start ∧ f.stop ≤ s.stop := by
  obtain ⟨word, body, -, -, -, hin, hstop⟩ := h
  exact ⟨hin.offset_le, hstop ▸ hin.stop_le⟩

/-- The openers of a comment stand before its interior, and the interior stops in the comment. -/
theorem Region.Covers.scope_bounds {Q : List Char → Prop} {word : List Char} {s : Scope}
    {r : Region} {x : Enclosure} (h : r.Covers s x) (hx : x.In Q word s.text)
    (hQ : ∀ w, Q w → w ≠ []) : r.start < r.scope.offset ∧ r.scope.stop ≤ r.stop := by
  obtain ⟨n, hn, hrep, -⟩ := hx.openers
  have hpos := List.length_pos_of_ne_nil (hrep.ne_nil hQ hn)
  have hbytes := length_le_byteLength x.openers
  have hstart := h.interior_start
  have hstop := h.stop
  rw [byteLength_append] at hstart hstop
  rw [Scope.stop, Region.scope, h.interior_text]
  simp only
  omega

/-- No two interiors touch. -/
theorem FoundIn.pairwise_scope {Q : List Char → Prop} {word : List Char} {s : Scope}
    {found : List Region} (h : FoundIn Q word s found) (hQ : ∀ w, Q w → w ≠ []) :
    found.Pairwise fun r r' => r.scope.stop < r'.scope.offset := by
  refine h.ordered.imp_of_mem fun {r r'} hr hr' hrr' => ?_
  obtain ⟨x, hx, hcovers⟩ := h.enclosed r hr
  obtain ⟨x', hx', hcovers'⟩ := h.enclosed r' hr'
  have h1 := hcovers.scope_bounds hx hQ
  have h2 := hcovers'.scope_bounds hx' hQ
  omega

section

variable {tags : Registry} {s : Scope}

/-- The lines of comments that are found one behind the other. -/
theorem FoundIn.leftToRight {Q : List Char → Prop} {word : List Char} {found : List Region}
    {e f : Expression} (h : FoundIn Q word s found) (hQ : ∀ w, Q w → w ≠ []) (he : e.MovesOn)
    (hn : e.all (·.name != some .tag))
    (htagged : ∀ (r : Scope) (m : Match),
      m ∈ Expression.findAll (e ++ tagPiece tags :: f) r.offset r.text → m.TaggedUpTo r m.stop) :
    LeftToRight (found.flatMap (·.findings tags (e ++ tagPiece tags :: f))) := by
  refine .flatMap (h.pairwise_scope hQ) (fun r _ => ?_) fun r _ g hg => ?_
  · exact leftToRight_findings (s := r.scope) he hn (htagged r.scope)
  · obtain ⟨m, hm, hg⟩ := List.mem_filterMap.1 hg
    exact ((htagged r.scope m hm).sound hg).mem_scope

/-! ## The four kinds of comments -/

variable {p : Profile}

theorem lineFindings_leftToRight (hne : ∀ w ∈ p.openerWords, w ≠ []) :
    LeftToRight (lineFindings p tags s) := by
  cases hscans : p.scansLines with
  | false =>
    rw [lineFindings, hscans]
    exact .nil
  | true =>
    rw [lineFindings_eq hscans]
    refine leftToRight_filterMap (movesOn_lineOpening hne) (lineOpening_unnamed p .tag)
      fun m hm g hg => ?_
    rw [Match.countedFinding?, Option.ite_none_left_eq_some] at hg
    exact (taggedUpTo_of_mem_lineExpression hm).yields (lineStop_le hm) hg.2

theorem blockFindings_leftToRight : LeftToRight (blockFindings p tags s) := by
  cases hscans : p.scansBlocks with
  | false =>
    rw [blockFindings, blockRegions, hscans]
    exact .nil
  | true =>
    exact (foundIn_blockRegions hscans s).leftToRight (opensWith_block p.blockStart).ne_nil
      (e := (blockLineExpression tags).take 2) movesOn_lineStart_blanks rfl
      fun _ _ => taggedUpTo_of_mem_blockLineExpression

theorem docFindings_leftToRight : LeftToRight (docFindings p tags s) := by
  cases hscans : p.scansDocBlocks with
  | false =>
    rw [docFindings, hscans]
    exact .nil
  | true =>
    have hopens := opensWith_literal (show "/**".toList ≠ [] by decide)
    rw [docFindings, if_pos hscans]
    exact (regions_enclosing hopens s).leftToRight hopens.ne_nil
      (e := (docLineExpression tags).take 4)
      (Expression.movesOn_of_mem_one (k := .exactly '*') (by simp [docLineExpression])) rfl
      fun _ _ => taggedUpTo_of_mem_docLineExpression

theorem listFindings_leftToRight : LeftToRight (listFindings p tags s) := by
  cases hscans : p.markdown with
  | false =>
    rw [listFindings, hscans]
    exact .nil
  | true =>
    rw [listFindings, if_pos hscans]
    exact leftToRight_findings (e := (listExpression tags).take 5)
      (Expression.movesOn_of_mem_one (k := .bullet) (by simp [listExpression])) rfl
      fun _ => taggedUpTo_of_mem_listExpression

end

/-- **Every scan moves from left to right**, whatever the tags are: each of its findings starts later
than the one before it, and not before that one stops. -/
theorem findings_leftToRight (language : String) (comments : Option CommentSyntax)
    (toggles : Toggles) (tags : Registry) (s : Scope) :
    let p := Profile.of language comments toggles
    LeftToRight (lineFindings p tags s) ∧ LeftToRight (blockFindings p tags s) ∧
      LeftToRight (docFindings p tags s) ∧ LeftToRight (listFindings p tags s) :=
  ⟨lineFindings_leftToRight Profile.ne_nil_of_mem_openerWords, blockFindings_leftToRight,
    docFindings_leftToRight, listFindings_leftToRight⟩

/-- An empty tag stands at the end of its match, after the blanks of its line. -/
example :
    let p := Profile.of "plaintext" none { highlightPlainText := true }
    (lineFindings p ⟨[⟨"", {}⟩]⟩ (.document "\n \na".toList)).map
      (fun f => (f.start, f.stop)) = [(0, 0), (2, 2), (3, 4)] := by
  cbv

end CommentTags
