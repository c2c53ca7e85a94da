import CommentTags.Proofs.Pattern.LineSpans
import CommentTags.Proofs.Scan.LineFindings

/-!
# Block comments and fences in a text with carriage returns

The interiors of block comments are found again as scopes of the document with carriage returns, and
so are the fences with their bodies.  An interior may begin with the line feed of the line on which
the comment is opened.

* `Profile.FitsLines` — the delimiters of a profile stand on lines.
* `Match.opensOnce`, `Profile.OpensOnce` — no comment that is found has its opener repeated over the
  end of a line.  Openers that are not found in the text do not matter, nor do comments that are
  opened twice on one line.
* `blockExpression_follows`, `regions_rel` — then the interiors correspond.
* `blockFindings_crlf`, `docFindings_crlf` — and the lines in them are found where they stand then.
* `fences_crlf` — the fences, for which nothing is asked.
-/

set_option autoImplicit false

namespace CommentTags

open Text Pattern

/-- The scope in the document with carriage returns. -/
def Scope.crlf (document : List Char) (s : Scope) : Scope :=
  ⟨crlfOffset document s.offset, Text.crlf s.text⟩

/-- The fence in the document with carriage returns. -/
def Fence.crlf (document : List Char) (f : Fence) : Fence :=
  { f with body := f.body.crlf document }

theorem Scope.follows_crlf (document : List Char) (s : Scope) :
    s.Follows document (s.crlf document) :=
  .inl ⟨rfl, rfl⟩

/-! ## Interiors -/

/-- The interior of the second match is that of the first one with carriage returns, and maybe with
the line feed in front of it. -/
def Match.InteriorFollows (lines : Nat) (m m' : Match) : Prop :=
  ∃ i i' u w, m.part? .interior = some i ∧ m'.part? .interior = some i' ∧
    m.start.Reads u i.start ∧ i.start.Reads w i.stop ∧
    ((i'.start.offset = i.start.offset + (lines + u.count '\n') ∧ i'.text = Text.crlf i.text) ∨
      (i'.start.offset + 1 = i.start.offset + (lines + u.count '\n') ∧
        i'.text = '\n' :: Text.crlf i.text))

theorem follows_of_spanAfter {e f : Expression} {good : Match → Prop} (he : e.WithinLine)
    (hno : e.all (·.name != some .interior)) (hbegins : Expression.BeginsOnLine (e ++ f))
    (hf : ∀ {c d : Cursor} {ps : List Part} (lines : Nat), e.Splits c ps d →
      (∀ r, f.partsAt d = some r → good ⟨c, ps ++ r.1, r.2⟩) →
      Option.Rel (SpanAfter .interior false lines d) (f.partsAt d)
        (f.partsAt (d.crlf false lines))) :
    Expression.Follows (e ++ f) false (fun _ => True) good Match.InteriorFollows where
  begins := hbegins
  valid_of_reads _ _ := trivial
  matchAt {c} lines _ hgood := by
    have hfound (r : List Part × Cursor) (hr : Expression.partsAt (e ++ f) c = some r) :
        good ⟨c, r.1, r.2⟩ := hgood _ (Option.map_eq_some_iff.2 ⟨r, hr, rfl⟩)
    refine rel_map (Expression.partsAt_append_rel (P := fun r => good ⟨c, r.1, r.2⟩) he
      (fun ps d hps => hf lines hps) hfound) ?_
    rintro ⟨_, stop⟩ ⟨_, stop'⟩ ⟨ps, d, qs, qs', hps, rfl, rfl, u, o, o', hu, hfeed, htail⟩
    obtain ⟨v, hv, hline⟩ := hps.exists_reads_noBreak he
    have hcount : (v ++ u).count '\n' = u.count '\n' := by
      rw [List.count_append, List.count_eq_zero_of_not_mem (not_mem_of_noBreak hline), Nat.zero_add]
    obtain ⟨z, hz, hstop⟩ := htail.reads
    obtain ⟨i, i', w, hi, hi', rfl, rfl, hw, htext, htext'⟩ := htail.part
    refine ⟨⟨i, i', v ++ u, w, ?_, ?_, hv.trans hu, hw, ?_⟩, v ++ u ++ z,
      (hv.trans hu).trans hz, .inl ?_⟩
    · rw [Match.part?, hps.find?_append hno, hi]
    · rw [Match.part?, hps.find?_append_crlf hno, hi']
    · rw [hcount]
      rcases hfeed with hstart | hfeed
      · exact .inl ⟨by rw [hstart, Cursor.crlf_offset], htext hstart⟩
      · exact .inr ⟨hfeed.offset.symm, htext' hfeed⟩
    · rw [List.count_append, hcount, ← Nat.add_assoc]
      exact hstop

/-- The delimiters of a profile stand on lines. -/
structure Profile.FitsLines (p : Profile) : Prop extends p.WithinLine where
  blocks : p.scansBlocks = true → Inline p.blockStart ∧ Inline p.blockEnd

/-- Whether the opener of a comment is not repeated over the end of a line: if a line ends before the
interior at all, it does so right in front of it. -/
def Match.opensOnce (m : Match) : Bool :=
  (m.part? .interior).all fun i => !(m.start.upTo i.start).dropLast.contains '\n'

/-- No block comment that is found in a scope has its opener repeated over the end of a line. -/
def Profile.OpensOnce (p : Profile) (s : Scope) : Prop :=
  p.scansBlocks = true → ∀ m ∈ (blockExpression p).findAll s.offset s.text, m.opensOnce = true

/-- Block comments are found again if none of them has its opener repeated over the end of a line. -/
theorem blockExpression_follows {p : Profile} (hstart : Inline p.blockStart)
    (hend : Inline p.blockEnd) :
    (blockExpression p).Follows false (fun _ => True) (fun m => m.opensOnce = true)
      Match.InteriorFollows := by
  have hclose : Expression.WithinLine [(group (literal p.blockEnd)).piece] :=
    List.forall_mem_singleton.2 hend.2
  have hplace : Expression.WithinLine [openingPlace] := by decide
  refine follows_of_spanAfter (e := [openingPlace]) hplace rfl
    (.inr ⟨by decide, .inl (.inl hstart)⟩) fun {c d ps} lines hps honce => ?_
  refine openerTail_rel hstart false hclose (.inl hend) .interior lines fun r hr i w hi hw hfeed => ?_
  obtain ⟨v, hv⟩ := hps.exists_reads
  have hfound := honce r hr
  rw [Match.opensOnce, Match.part?, hps.find?_append rfl, hi, Option.all_some,
    (hv.trans hw).upTo_eq, Bool.not_eq_true', List.contains_eq_mem, decide_eq_false_iff_not] at hfound
  exact hfound (mem_dropLast_append v hfeed)

/-- Everything in the interiors of related regions is found again. -/
theorem flatMap_eq_of_forall₂ {α β γ δ : Type} {R : α → β → Prop} {f : α → List γ} {g : β → List δ}
    {φ : γ → δ} {l : List α} {l' : List β} (h : List.Forall₂ R l l')
    (hfg : ∀ a b, R a b → g b = (f a).map φ) : l'.flatMap g = (l.flatMap f).map φ := by
  induction h with
  | nil => rfl
  | @cons a b l l' hab _ ih =>
    rw [List.flatMap_cons, List.flatMap_cons, hfg a b hab, ih, List.map_append]

section

variable {document : List Char} (hdocument : '\r' ∉ document) {s : Scope}
  (hs : s.Within (.document document)) {tags : Registry}
include hs

/-- The interiors of block comments are found again. -/
theorem regions_rel {e : Expression} {good : Match → Prop}
    (h : e.Follows false (fun _ => True) good Match.InteriorFollows)
    (hgood : ∀ m ∈ e.findAll s.offset s.text, good m) :
    List.Forall₂
      (fun r r' => r.scope.Within (.document document) ∧ r.scope.Follows document r'.scope)
      (regions e s) (regions e (s.crlf document)) := by
  refine List.rel_filterMap ?_ (h.findAll trivial hgood (feedsBefore document s.offset))
  rintro m m' ⟨w, hw, i, i', u, v, hi, hi', hu, hv, hscope⟩
  have hoffset : crlfOffset document i.start.offset =
      i.start.offset + (feedsBefore document s.offset + w.count '\n' + u.count '\n') := by
    rw [crlfOffset_of_reads hs (hw.trans hu), List.count_append, Nat.add_assoc (feedsBefore _ _)]
  simp only [hi, hi', Option.map_some]
  refine .some ⟨?_, ?_⟩
  · rw [Region.scope, Part.text, hv.upTo_eq]
    exact ((hw.trans hu).within hv).trans hs
  · rw [Scope.Follows, Region.scope, Region.scope, hoffset]
    exact hscope

include hdocument

/-- So are the lines in them. -/
theorem regions_findings {e opening tail : Expression} {good : Match → Prop}
    (h : e.Follows false (fun _ => True) good Match.InteriorFollows)
    (hgood : ∀ m ∈ e.findAll s.offset s.text, good m) (hshape : LineShape tags opening tail) :
    ((regions e (s.crlf document)).flatMap
        (·.findings tags (opening ++ tagPiece tags :: tail))) =
      ((regions e s).flatMap (·.findings tags (opening ++ tagPiece tags :: tail))).map
        (·.mapOffsets (crlfOffset document)) := by
  refine flatMap_eq_of_forall₂ (regions_rel hs h hgood) ?_
  rintro r r' ⟨hwithin, hfollows⟩
  exact hshape.finding?_eq hdocument hwithin hfollows

theorem docFindings_crlf (p : Profile) (htags : tags.WithinLine) :
    docFindings p tags (s.crlf document) =
      (docFindings p tags s).map (·.mapOffsets (crlfOffset document)) := by
  have hdocs : docExpression.Follows false (fun _ => True) (fun _ => True)
      Match.InteriorFollows := by
    refine follows_of_spanAfter (e := docExpression.take 2) (by decide) rfl (by decide)
      fun {_ d _} lines _ _ => ?_
    refine rel_imp (lazyAny_rel (by decide) (by decide) .interior (.inl rfl)) fun r r' h => ?_
    exact ⟨[], d, _, .refl d, .inl rfl, h⟩
  rw [docFindings, docFindings]
  split
  · exact regions_findings hdocument hs hdocs (fun _ _ => trivial) (.docLine htags)
  · rfl

theorem blockFindings_crlf {p : Profile} (hp : p.FitsLines) (honce : p.OpensOnce s)
    (htags : tags.WithinLine) :
    blockFindings p tags (s.crlf document) =
      (blockFindings p tags s).map (·.mapOffsets (crlfOffset document)) := by
  rw [blockFindings, blockFindings, blockRegions, blockRegions]
  split
  · next hscans =>
    obtain ⟨hstart, hend⟩ := hp.blocks hscans
    exact regions_findings hdocument hs (blockExpression_follows hstart hend) (honce hscans)
      (.blockLine htags)
  · rfl

end

/-! ## Fences -/

/-- The second match has the same hint, and its body is that of the first one with carriage
returns. -/
def Match.FenceFollows (lines : Nat) (m m' : Match) : Prop :=
  (m'.part? .hint).map (·.text) = (m.part? .hint).map (·.text) ∧
    ∃ b b' u w, m.part? .body = some b ∧ m'.part? .body = some b' ∧ m.start.Reads u b.start ∧
      b.start.Reads w b.stop ∧ b'.start.offset = b.start.offset + (lines + u.count '\n') ∧
      b'.text = Text.crlf b.text

/-- The lines of a fence before its body, up to the end of the first one. -/
def fenceFront : Expression :=
  fenceMark ++ [(run .blank).piece, (run .hintChar).named .hint, (run .bodyChar).piece]

theorem fenceExpression_eq_nextLine :
    fenceExpression = fenceFront ++ nextLine ((lazyRun .any).named .body :: fenceMark) := rfl

theorem fenceExpression_follows :
    fenceExpression.Follows false (fun c => '\r' ∉ c.rest) (fun _ => True)
      Match.FenceFollows where
  begins := by decide
  valid_of_reads hc hw := hw.not_mem hc
  matchAt {c} lines hc _ := by
    have hfront : fenceFront.WithinLine := by decide
    have hafter (ps : List Part) (d : Cursor) (hps : fenceFront.Splits c ps d) :
        Option.Rel (SpanOnNextLine .body false lines d)
          ((nextLine ((lazyRun .any).named .body :: fenceMark)).partsAt d)
          ((nextLine ((lazyRun .any).named .body :: fenceMark)).partsAt (d.crlf false lines)) := by
      obtain ⟨w, hw⟩ := hps.exists_reads
      exact nextLine_rel (by decide) (by decide) .body (hw.not_mem hc) lines
    rw [fenceExpression_eq_nextLine]
    refine rel_map (Expression.partsAt_append_rel hfront (fun ps d hps _ => hafter ps d hps)
      fun _ _ => trivial) ?_
    rintro ⟨_, stop⟩ ⟨_, stop'⟩ ⟨ps, d, qs, qs', hps, rfl, rfl, o, ho, htail⟩
    obtain ⟨v, hv, hline⟩ := hps.exists_reads_noBreak hfront
    have hcount : (v ++ ['\n']).count '\n' = 1 := by
      rw [List.count_append, List.count_eq_zero_of_not_mem (not_mem_of_noBreak hline),
        List.count_singleton_self]
    obtain ⟨z, hz, hstop⟩ := htail.reads
    obtain ⟨b, b', w, hb, hb', rfl, hstart, hw, htext, -⟩ := htail.part
    have hno : fenceFront.all (·.name != some .body) := rfl
    obtain ⟨_, hint, _, -, hhint, -⟩ :=
      hps.exists_part (e := fenceFront.take 4) (n := .hint) rfl rfl
    refine ⟨⟨?_, b, b', v ++ ['\n'], w, ?_, ?_, hv.trans ho, hw, ?_, htext rfl⟩,
      v ++ ['\n'] ++ z, (hv.trans ho).trans hz, .inl ?_⟩
    · rw [Match.part?, Match.part?, List.find?_append, List.find?_append, find?_map_crlf, hhint]
      exact congrArg some (hps.text_crlf hfront hint (List.mem_of_find?_eq_some hhint))
    · rw [Match.part?, hps.find?_append hno, hb]
    · rw [Match.part?, hps.find?_append_crlf hno, hb']
    · rw [hcount, hstart, Cursor.crlf_offset]
    · rw [List.count_append, hcount, ← Nat.add_assoc]
      exact hstop

theorem fences_crlf {document : List Char} (hdocument : '\r' ∉ document) {s : Scope}
    (hs : s.Within (.document document)) :
    fences (s.crlf document) = (fences s).map (·.crlf document) := by
  refine filterMap_eq_of_forall₂ (fenceExpression_follows.findAll (hs.return_not_mem hdocument)
    (fun _ _ => trivial) (feedsBefore document s.offset)) ?_
  rintro m m' ⟨v, hv, hhint, b, b', u, w, hb, hb', hu, hw, hoffset, htext⟩
  have hbody : (⟨b'.start.offset, b'.text⟩ : Scope) =
      Scope.crlf document ⟨b.start.offset, b.text⟩ := by
    rw [Scope.crlf, crlfOffset_of_reads hs (hv.trans hu), hoffset, htext, List.count_append,
      ← Nat.add_assoc (feedsBefore _ _)]
  rw [hb, hb', hhint, Option.map_some, Option.map_some, Option.map_some, Fence.crlf, ← hbody]

end CommentTags
