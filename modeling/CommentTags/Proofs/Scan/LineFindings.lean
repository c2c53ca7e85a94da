import CommentTags.Proofs.Findings.Collection
import CommentTags.Proofs.Pattern.LineSearch
import CommentTags.Proofs.Scan.Placement

/-!
# Comments in a text with carriage returns

Each kind of comment is found again when a carriage return is put before each line feed of a
document: the same tags, at the offsets where they stand then (`crlfOffset`).  A comment that is
found on one line follows from the shape of its expression, the interior of a block comment is found
as a scope of its own.

* `Scope.Follows` — the second scope is the first one in the document with carriage returns, maybe
  with the line feed in front of it.
* `Match.Follows`, `Match.Follows.findings_eq` — two matches with the same tag and the same rest of
  the line lead to the same finding, moved.
* `LineShape` — the shape of an expression for comments on one line: what stands before the tag
  stays on the line, and the rest is a `LineTail`.
* `lineFindings_crlf`, `listFindings_crlf` — line comments and list items.
-/

set_option autoImplicit false

namespace CommentTags

open Text Pattern

/-! ## Offsets of a document -/

/-- The second scope is the first one in the document with carriage returns.  It may have the line
feed in front of it as well. -/
def Scope.Follows (document : List Char) (s s' : Scope) : Prop :=
  (s'.offset = crlfOffset document s.offset ∧ s'.text = crlf s.text) ∨
    (s'.offset + 1 = crlfOffset document s.offset ∧ s'.text = '\n' :: crlf s.text)

section

variable {document : List Char} {s : Scope} (hs : s.Within (.document document))
include hs

/-- A place of a scope is moved by the lines that end before the scope, and by those that end in it
before the place. -/
theorem crlfOffset_of_append {v w : List Char} (h : s.text = v ++ w) :
    crlfOffset document (s.offset + byteLength v) =
      s.offset + byteLength v + (feedsBefore document s.offset + v.count '\n') := by
  obtain ⟨front, back, hdocument, hoffset⟩ := hs
  rw [Scope.document, Nat.zero_add] at hoffset
  have hfront := crlfOffset_byteLength front (s.text ++ back)
  have hplace := crlfOffset_byteLength (front ++ v) (w ++ back)
  replace hdocument : document = front ++ (s.text ++ back) := hdocument
  rw [crlfOffset, ← hdocument, ← hoffset] at hfront
  rw [List.append_assoc, ← List.append_assoc v, ← h, ← hdocument, byteLength_append,
    List.count_append, ← hoffset] at hplace
  rw [hplace]
  omega

theorem crlfOffset_of_reads {c : Cursor} {w : List Char} (hw : s.start.Reads w c) :
    crlfOffset document c.offset = c.offset + (feedsBefore document s.offset + w.count '\n') := by
  rw [hw.offset]
  exact crlfOffset_of_append hs hw.rest

end

/-! ## Comments on one line -/

/-- The tags can stand on a line. -/
def Registry.WithinLine (tags : Registry) : Prop :=
  ∀ w ∈ tags.words, Inline w

/-- The second match is found where the first one is.  Their tags are the same, and their comments
stop on the line of the tag, at the same place up to a carriage return. -/
structure Match.Follows (fed : Bool) (lines : Nat) (m m' : Match) : Prop where
  start : m'.start = m.start.crlf fed lines
  tag : ∃ tag u v, m.part? .tag = some tag ∧ m'.part? .tag = some (tag.crlf fed lines) ∧
    m.start.Reads u tag.start ∧ '\n' ∉ u ∧ tag.start.Reads v tag.stop ∧ '\n' ∉ v ∧
    tag.stop.SameLine fed lines m.stop m'.stop ∧
    tag.stop.SameLine fed lines m.lineStop m'.lineStop

/-- An expression for comments on one line: what stands before the tag, the tag, and the rest of the
line. -/
structure LineShape (tags : Registry) (opening tail : Expression) : Prop where
  words : tags.WithinLine
  before : opening.WithinLine
  no_tag : opening.all (·.name != some .tag)
  no_rest : opening.all (·.name != some .rest)
  after : ∀ (fed : Bool) (lines : Nat) (c : Cursor), '\r' ∉ c.rest →
    Option.Rel (LineTail fed lines c) (tail.partsAt c) (tail.partsAt (c.crlf fed lines))

theorem LineShape.follows {tags : Registry} {opening tail : Expression}
    (h : LineShape tags opening tail) (fed : Bool) :
    Expression.Follows (opening ++ tagPiece tags :: tail) fed (fun c => '\r' ∉ c.rest)
      (fun _ => True) (Match.Follows fed) where
  begins := .append h.before (.inl h.words)
  valid_of_reads hc hw := hw.not_mem hc
  matchAt {c} lines hc _ := by
    have htag : (tagPiece tags).pattern.WithinLine := fun w hw => (h.words w hw).2
    have hfront : Expression.WithinLine (opening ++ [tagPiece tags]) :=
      List.forall_mem_append.2 ⟨h.before, by simpa using htag⟩
    have hafter (ps : List Part) (d : Cursor)
        (hps : Expression.Splits (opening ++ [tagPiece tags]) c ps d) :
        Option.Rel (LineTail fed lines d) (tail.partsAt d) (tail.partsAt (d.crlf fed lines)) := by
      obtain ⟨w, hw⟩ := hps.exists_reads
      exact h.after fed lines d (hw.not_mem hc)
    have hrel := Expression.partsAt_append_rel hfront (fun ps d hps _ => hafter ps d hps)
      fun _ _ => trivial
    rw [List.append_assoc, List.singleton_append] at hrel
    refine rel_map hrel ?_
    rintro ⟨_, stop⟩ ⟨_, stop'⟩ ⟨ps, d, qs, qs', hps, rfl, rfl, htail⟩
    have hrest : (opening ++ [tagPiece tags]).all (·.name != some .rest) := by
      rw [List.all_append, h.no_rest]
      rfl
    obtain ⟨_, tag, _, -, hfind, hopening, hd, hnil⟩ :=
      hps.exists_part (n := .tag) (p := tagPiece tags) rfl h.no_tag
    cases hnil
    obtain ⟨u, hu, huline⟩ := hopening.exists_reads_noBreak h.before
    obtain ⟨v, hv, hvline⟩ := Pattern.exists_reads_of_mem_ends htag.readsOnly hd
    refine ⟨⟨rfl, tag, u, v, ?_, ?_, hu, not_mem_of_noBreak huline, hv, not_mem_of_noBreak hvline,
      htail.stop, ?_⟩, ?_⟩
    · rw [Match.part?, List.find?_append, hfind, Option.some_or]
    · rw [Match.part?, List.find?_append, find?_map_crlf, hfind]
      rfl
    · rw [Match.lineStop, Match.lineStop, Match.part?, Match.part?, hps.find?_append hrest,
        hps.find?_append_crlf hrest]
      exact htail.rest
    · obtain ⟨w, hw, hline, hnear⟩ := htail.stop
      refine ⟨u ++ v ++ w, (hu.trans hv).trans hw, ?_⟩
      rwa [List.count_append, List.count_append,
        List.count_eq_zero_of_not_mem (not_mem_of_noBreak huline),
        List.count_eq_zero_of_not_mem (not_mem_of_noBreak hvline),
        List.count_eq_zero_of_not_mem hline]

/-- The rest of a comment is the same: a carriage return at its end is trimmed off. -/
theorem Cursor.SameLine.trimEnd_upTo {fed : Bool} {lines : Nat} {c stop stop' : Cursor}
    (h : c.SameLine fed lines stop stop') :
    trimEnd ((c.crlf fed lines).upTo stop') = trimEnd (c.upTo stop) := by
  obtain ⟨w, hw, hline, rfl | rfl⟩ := h
  · rw [(hw.crlf_line hline).upTo_eq, hw.upTo_eq]
  · rcases stop.crlfFeed_eq_or fed lines with hstop | hstop
    · rw [hstop, (hw.crlf_line hline).upTo_eq, hw.upTo_eq]
    · rw [((hw.crlf_line hline).trans hstop).upTo_eq, hw.upTo_eq, trimEnd_concat_return]

section

variable {document : List Char} {s : Scope} (hs : s.Within (.document document)) {fed : Bool}
  {tags : Registry}
include hs

theorem findingAt?_crlf {u v : List Char} {tag : Part} {stop stop' : Cursor}
    (hu : s.start.Reads u tag.start) (hv : tag.start.Reads v tag.stop) (hline : '\n' ∉ v)
    (h : tag.stop.SameLine fed (feedsBefore document s.offset + u.count '\n') stop stop') :
    findingAt? tags (tag.crlf fed (feedsBefore document s.offset + u.count '\n')) stop' =
      (findingAt? tags tag stop).map (·.mapOffsets (crlfOffset document)) := by
  have htext : (tag.crlf fed (feedsBefore document s.offset + u.count '\n')).text = tag.text :=
    Part.text_crlf hv hline
  have htrim := h.trimEnd_upTo
  obtain ⟨w, hw, hwline, -⟩ := h
  obtain ⟨z, hz, -⟩ := exists_trimEnd_append w
  -- the comment stops where what is left of `w` has been read
  have hstop : crlfOffset document (tag.stop.offset + byteLength (trimEnd w)) =
      tag.stop.offset + byteLength (trimEnd w) +
        (feedsBefore document s.offset + u.count '\n') := by
    have hplace : s.text = (u ++ v ++ trimEnd w) ++ (z ++ stop.rest) := by
      rw [List.append_assoc _ (trimEnd w), ← List.append_assoc (trimEnd w), ← hz]
      exact ((hu.trans hv).trans hw).rest.trans (List.append_assoc _ _ _)
    have htrimmed : '\n' ∉ trimEnd w := fun hn => hwline (hz ▸ List.mem_append_left _ hn)
    have h := crlfOffset_of_append hs hplace
    rw [List.count_append, List.count_append, List.count_eq_zero_of_not_mem hline,
      List.count_eq_zero_of_not_mem htrimmed, byteLength_append, ← Nat.add_assoc s.offset] at h
    rw [(hu.trans hv).offset]
    exact h
  rw [findingAt?, findingAt?, htext, Option.map_map]
  refine congrArg (Option.map · _) (funext fun style => ?_)
  have hstart := crlfOffset_of_reads hs hu
  rw [hw.upTo_eq] at htrim
  rw [Function.comp_apply, Finding.mapOffsets, hw.upTo_eq, hstop, hstart, Nat.add_right_comm]
  simp only [Part.crlf, htrim, Cursor.crlf_offset]

/-- The comment of a match is the same, be it one that runs to the end of the match or one that
ends with a named rest. -/
theorem Match.Follows.findings_eq {m m' : Match} {w : List Char} (hw : s.start.Reads w m.start)
    (h : m.Follows fed (feedsBefore document s.offset + w.count '\n') m') :
    m'.finding? tags = (m.finding? tags).map (·.mapOffsets (crlfOffset document)) ∧
      m'.lineFinding? tags = (m.lineFinding? tags).map (·.mapOffsets (crlfOffset document)) := by
  obtain ⟨tag, u, v, htag, htag', hu, huline, hv, hline, hstop, hrest⟩ := h.tag
  have hcount : (w ++ u).count '\n' = w.count '\n' := by
    rw [List.count_append, List.count_eq_zero_of_not_mem huline, Nat.add_zero]
  rw [← hcount] at htag' hstop hrest
  rw [Match.finding?, Match.finding?, Match.lineFinding?, Match.lineFinding?, htag, htag']
  exact ⟨findingAt?_crlf hs (hw.trans hu) hv hline hstop,
    findingAt?_crlf hs (hw.trans hu) hv hline hrest⟩

end

/-! ## Each kind of comment on one line -/

/-- What comes before does not leave the line either. -/
theorem LineTail.append {fed : Bool} {lines : Nat} {e : Expression} {c d stop stop' : Cursor}
    {ps qs qs' : List Part} (he : e.WithinLine) (hrest : e.all (·.name != some .rest))
    (hps : e.Splits c ps d) (h : LineTail fed lines d (qs, stop) (qs', stop')) :
    LineTail fed lines c (ps ++ qs, stop) (ps.map (·.crlf fed lines) ++ qs', stop') := by
  obtain ⟨u, hu, hline⟩ := hps.exists_reads_noBreak he
  have hsame {e e' : Cursor} (h : d.SameLine fed lines e e') : c.SameLine fed lines e e' := by
    obtain ⟨w, hw, hwline, hnear⟩ := h
    exact ⟨u ++ w, hu.trans hw, by simp [not_mem_of_noBreak hline, hwline], hnear⟩
  refine ⟨hsame h.stop, ?_⟩
  rw [restStop, restStop, hps.find?_append hrest, hps.find?_append_crlf hrest]
  exact hsame h.rest

/-- What follows the tag of a line in a block comment. -/
theorem lineBody_rel {fed : Bool} {lines : Nat} {c : Cursor} (hc : '\r' ∉ c.rest) :
    Option.Rel (LineTail fed lines c) (lineBody.partsAt c) (lineBody.partsAt (c.crlf fed lines)) := by
  have hfront : Expression.WithinLine (lineBody.take 2) := by decide
  have hafter (ps : List Part) (d : Cursor) (hps : Expression.Splits (lineBody.take 2) c ps d) :
      Option.Rel (LineTail fed lines d) (returnAndEnd.partsAt d)
        (returnAndEnd.partsAt (d.crlf fed lines)) := by
    obtain ⟨w, hw⟩ := hps.exists_reads
    exact returnAndEnd_rel (hw.not_mem hc)
  refine rel_imp (Expression.partsAt_append_rel hfront (fun ps d hps _ => hafter ps d hps)
    fun _ _ => trivial) ?_
  rintro ⟨_, stop⟩ ⟨_, stop'⟩ ⟨ps, d, qs, qs', hps, rfl, rfl, htail⟩
  exact htail.append hfront rfl hps

theorem Scope.Within.return_not_mem {document : List Char} {s : Scope}
    (hs : s.Within (.document document)) (hdocument : '\r' ∉ document) : '\r' ∉ s.text := by
  obtain ⟨front, back, htext, -⟩ := hs
  intro h
  refine hdocument ?_
  rw [show document = front ++ (s.text ++ back) from htext]
  exact List.mem_append_right _ (List.mem_append_left _ h)

/-- What is picked out of related lists. -/
theorem filterMap_eq_of_forall₂ {α β γ δ : Type} {R : α → β → Prop} {f : α → Option γ}
    {g : β → Option δ} {φ : γ → δ} {l : List α} {l' : List β} (h : List.Forall₂ R l l')
    (hfg : ∀ a b, R a b → g b = (f a).map φ) : l'.filterMap g = (l.filterMap f).map φ := by
  induction h with
  | nil => rfl
  | @cons a b l l' hab _ ih =>
    rw [List.filterMap_cons, List.filterMap_cons, hfg a b hab, ih]
    cases f a <;> rfl

/-- What is asked of the delimiters of line comments. -/
structure Profile.WithinLine (p : Profile) : Prop where
  openers : ∀ w ∈ p.openerWords, Inline w
  blockEnd : p.borrowsOpener = true → Inline p.blockEnd

theorem LineShape.of_profile {p : Profile} {tags : Registry} (hp : p.WithinLine)
    (htags : tags.WithinLine) : LineShape tags (lineOpening p) (lineRest p) where
  words := htags
  before := by
    rw [lineOpening]
    split
    · decide
    · refine List.forall_mem_cons.2 ⟨fun w hw => (hp.openers w hw).2, ?_⟩
      exact List.forall_mem_singleton.2 ⟨rfl, rfl⟩
  no_tag := lineOpening_unnamed p .tag
  no_rest := lineOpening_unnamed p .rest
  after fed lines c _ := by
    rw [lineRest]
    split
    · next h => exact lazyLine_rel (hp.blockEnd h) c
    · exact restOfLine_rel c

theorem LineShape.blockLine {tags : Registry} (htags : tags.WithinLine) :
    LineShape tags [lineStart.piece, (run .blank).piece] lineBody :=
  ⟨htags, by decide, rfl, rfl, fun _ _ _ hc => lineBody_rel hc⟩

theorem LineShape.docLine {tags : Registry} (htags : tags.WithinLine) :
    LineShape tags [lineStart.piece, (run .blank).piece, (one (.exactly '*')).piece,
      (run .blank).piece] lineBody :=
  ⟨htags, by decide, rfl, rfl, fun _ _ _ hc => lineBody_rel hc⟩

section

variable {document : List Char} (hdocument : '\r' ∉ document) {s s' : Scope}
  (hs : s.Within (.document document)) (hs' : s.Follows document s') {tags : Registry}
include hdocument hs hs'

theorem LineShape.findAll_rel {opening tail : Expression} (h : LineShape tags opening tail) :
    List.Forall₂
      (fun m m' => ∃ fed w, s.start.Reads w m.start ∧
        m.Follows fed (feedsBefore document s.offset + w.count '\n') m')
      (Expression.findAll (opening ++ tagPiece tags :: tail) s.offset s.text)
      (Expression.findAll (opening ++ tagPiece tags :: tail) s'.offset s'.text) := by
  have hreturn := hs.return_not_mem hdocument
  rcases hs' with ⟨hoffset, htext⟩ | ⟨hoffset, htext⟩
  · rw [hoffset, htext]
    refine ((h.follows false).findAll hreturn (fun _ _ => trivial) _).imp ?_
    rintro m m' ⟨w, hw, hm⟩
    exact ⟨false, w, hw, hm⟩
  · rw [htext]
    refine ((h.follows true).findAll_feed hreturn (fun _ _ => trivial) hoffset).imp ?_
    rintro m m' ⟨w, hw, hm⟩
    exact ⟨true, w, hw, hm⟩

theorem LineShape.finding?_eq {opening tail : Expression} (h : LineShape tags opening tail) :
    (Expression.findAll (opening ++ tagPiece tags :: tail) s'.offset s'.text).filterMap
        (·.finding? tags) =
      ((Expression.findAll (opening ++ tagPiece tags :: tail) s.offset s.text).filterMap
        (·.finding? tags)).map (·.mapOffsets (crlfOffset document)) := by
  refine filterMap_eq_of_forall₂ (h.findAll_rel hdocument hs hs') ?_
  rintro m m' ⟨fed, w, hw, hm⟩
  exact (hm.findings_eq hs hw).1

theorem listFindings_crlf (p : Profile) (htags : tags.WithinLine) :
    listFindings p tags s' =
      (listFindings p tags s).map (·.mapOffsets (crlfOffset document)) := by
  have hshape : LineShape tags
      [lineStart.piece, (run .blank).piece, (one .bullet).piece, (one (.exactly ' ')).piece,
        (opt (group (literal "[ ] ".toList))).piece]
      [(run .inLine).named .rest] :=
    ⟨htags, by decide, rfl, rfl, fun fed lines c _ => restOfLine_rel c⟩
  rw [listFindings, listFindings]
  split
  · exact hshape.finding?_eq hdocument hs hs'
  · rfl

theorem lineFindings_crlf {p : Profile} (hp : p.WithinLine) (htags : tags.WithinLine) :
    lineFindings p tags s' =
      (lineFindings p tags s).map (·.mapOffsets (crlfOffset document)) := by
  rw [lineFindings, lineFindings]
  split
  · refine filterMap_eq_of_forall₂
      ((LineShape.of_profile hp htags).findAll_rel hdocument hs hs') ?_
    rintro m m' ⟨fed, w, hw, hm⟩
    -- only the start of the document is moved to the start of the document
    have hstart : (m'.start.offset == 0) = (m.start.offset == 0) := by
      rw [hm.start, Cursor.crlf_offset, ← crlfOffset_of_reads hs hw, Bool.eq_iff_iff, beq_iff_eq,
        beq_iff_eq]
      refine ⟨fun h => ?_, fun h => by rw [h, crlfOffset_zero]⟩
      exact (strictMono_crlfOffset document).injective (h.trans (crlfOffset_zero document).symm)
    rw [hstart]
    split
    · rfl
    · exact (hm.findings_eq hs hw).2
  · rfl

end

end CommentTags
