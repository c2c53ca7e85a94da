import Mathlib.Data.List.ReduceOption
import CommentTags.Proofs.Findings.Collection
import CommentTags.Proofs.Scan.Runs

/-!
# Scans that cut by byte offsets

A scan carries the text of each part along.  One can also keep nothing but the document and ranges
of bytes in it: each part is then cut out of the document where it is needed, searched as a text of
its own, and what is found in it is moved to where the part begins.  Such a cut fails if the range
is not one between two boundaries of the document.

* `Span.cut` — the bytes of a text in a range, if there is such a text.
* `cutMatches` — the comments that an expression finds in a range.
* `Highlighter.cutFindings`, `Highlighter.cutRange` — a whole scan with cuts.
* `cutMatches_eq` — the comments in a range are those of the scope with that text.  It rests on
  `Scope.document_rename_move`: to search a part on its own is to move what is found in it.
* `Highlighter.cutRange_eq` — none of the cuts ever fails, and the same comments are found.
-/

set_option autoImplicit false

namespace CommentTags

/-- The bytes of a text in a range, if the range lies between two boundaries. -/
def Span.cut (text : List Char) (r : Span) : Option (List Char) :=
  Text.slice? text r.start r.stop

/-- The bytes of a scope. -/
def Scope.span (s : Scope) : Span := ⟨s.offset, s.stop⟩

/-! ## Cutting -/

/-- The comment of a tag, in a part of the document that begins at `base`. -/
def cutFinding (tags : Registry) (base : Nat) (part : List Char) (tag : Part) (stop : Cursor) :
    Option (Option Finding) := do
  let word ← Span.cut part ⟨tag.start.offset, tag.stop.offset⟩
  let body ← Span.cut part ⟨tag.stop.offset, stop.offset⟩
  return (tags.find? word).map fun style =>
    ⟨style, base + tag.start.offset,
      base + (tag.stop.offset + Text.byteLength (Text.trimEnd body))⟩

/-- The comments of the matches in a range.  A match counts if `finish` says where it stops. -/
def cutMatches (tags : Registry) (document : List Char) (e : Expression)
    (finish : Match → Option Cursor) (r : Span) : Option (List Finding) := do
  let part ← r.cut document
  let found ← (e.findAll 0 part).mapM fun m =>
    match m.part? .tag, finish m with
    | some tag, some stop => cutFinding tags r.start part tag stop
    | _, _ => some none
  return found.reduceOption

/-- Where the comment of a line match stops.  It does not count at the start of the document if the
profile says so. -/
def lineFinish (p : Profile) (base : Nat) (m : Match) : Option Cursor :=
  if p.ignoresFirstLine && base + m.start.offset == 0 then none else some m.lineStop

/-- Comments that run to the end of their line. -/
def cutLines (p : Profile) (tags : Registry) (document : List Char) (r : Span) :
    Option (List Finding) :=
  if p.scansLines then
    cutMatches tags document (lineExpression p tags) (lineFinish p r.start) r
  else some []

/-- The interiors of the block comments that an expression finds. -/
def cutRegions (e : Expression) (document : List Char) (r : Span) : Option (List Span) := do
  let part ← r.cut document
  return (regions e (.document part)).map fun region => region.scope.span.move r.start

/-- The tagged lines in the block comments that an expression finds. -/
def cutInteriors (tags : Registry) (document : List Char) (e lineShape : Expression) (r : Span) :
    Option (List Finding) := do
  let interiors ← cutRegions e document r
  let found ← interiors.mapM (cutMatches tags document lineShape fun m => some m.stop)
  return found.flatten

/-- The tagged lines of block comments. -/
def cutBlocks (p : Profile) (tags : Registry) (document : List Char) (r : Span) :
    Option (List Finding) :=
  if p.scansBlocks then
    cutInteriors tags document (blockExpression p) (blockLineExpression tags) r
  else some []

/-- The tagged lines of documentation comments. -/
def cutDocs (p : Profile) (tags : Registry) (document : List Char) (r : Span) :
    Option (List Finding) :=
  if p.scansDocBlocks then
    cutInteriors tags document docExpression (docLineExpression tags) r
  else some []

/-- The tagged list items. -/
def cutLists (p : Profile) (tags : Registry) (document : List Char) (r : Span) :
    Option (List Finding) :=
  if p.markdown then
    cutMatches tags document (listExpression tags) (fun m => some m.stop) r
  else some []

/-- The languages of the code fences, with the ranges of their bodies. -/
def cutFences (document : List Char) (r : Span) : Option (List (String × Span)) := do
  let part ← r.cut document
  return (fences (.document part)).map fun f => (f.language, f.body.span.move r.start)

namespace Highlighter

variable {m : Type → Type} [Monad m] [Engine]

/-- Line and block comments. -/
def cutComments (h : Highlighter) (p : Profile) (document : List Char) (r : Span) :
    Option (List Finding) := do
  return (← cutLines p h.tags document r) ++ (← cutBlocks p h.tags document r)

/-- The findings outside code fences. -/
def cutOwn (h : Highlighter) (p : Profile) (document : List Char) (r : Span) :
    Option (List Finding) := do
  return (← h.cutComments p document r) ++ (← cutDocs p h.tags document r) ++
    (← cutLists p h.tags document r)

/-- The findings in the body of a code fence. -/
def cutFence (h : Highlighter) (resolve : SyntaxSource m) (document : List Char)
    (f : String × Span) : OptionT m (List Finding) := do
  let p ← OptionT.lift (h.profile resolve f.1)
  if h.looksAt p then OptionT.mk (pure (h.cutComments p document f.2))
  else return []

/-- All findings in a range of the document. -/
def cutFindings (h : Highlighter) (resolve : SyntaxSource m) (language : String)
    (document : List Char) (r : Span) : OptionT m (List Finding) := do
  if h.tags.isEmpty then return []
  let p ← OptionT.lift (h.profile resolve language)
  if !h.looksAt p then return []
  let own ← OptionT.mk (pure (h.cutOwn p document r))
  if !p.markdown then return own
  let found ← OptionT.mk (pure (cutFences document r))
  let embedded ← found.mapM (h.cutFence resolve document)
  return own ++ embedded.flatten

/-- Scan the bytes of a text from `start` up to `stop`.  If these are not two boundaries in order,
the empty range at the start of the text is scanned instead. -/
def cutRange (h : Highlighter) (resolve : SyntaxSource m) (text : String) (start stop : Nat)
    (language : String) : OptionT m Collected := do
  let r : Span := if (Text.slice? text.toList start stop).isSome then ⟨start, stop⟩ else ⟨0, 0⟩
  return Collected.collect h.tags (← h.cutFindings resolve language text.toList r)

end Highlighter

/-! ## No cut fails -/

/-- What is read between two places of a text is what is cut out between them. -/
theorem Cursor.Reads.cut_eq {text u v : List Char} {c d : Cursor}
    (hc : (Scope.document text).start.Reads u c) (hd : c.Reads v d) :
    Span.cut text ⟨c.offset, d.offset⟩ = some v := by
  have h := (hc.within hd).slice?_eq
  rw [Scope.stop, ← hd.offset] at h
  exact h

section

variable {p : Profile} {tags : Registry} {document : List Char} {s : Scope}

theorem cutFinding_eq {m : Match} {tag : Part} {stop : Cursor} {part : List Char} (base : Nat)
    (hm : m.TaggedUpTo (.document part) stop) (htag : m.part? .tag = some tag) :
    cutFinding tags base part tag stop = some ((findingAt? tags tag stop).map (·.move base)) := by
  obtain ⟨tag', u, v, w, htag', hu, hv, hw, -⟩ := hm
  obtain rfl : tag = tag' := by rwa [htag, Option.some_inj] at htag'
  have hmove (style : Nat) : (⟨style, base + tag.start.offset,
        base + (tag.stop.offset + Text.byteLength (Text.trimEnd w))⟩ : Finding) =
      (⟨style, tag.start.offset,
        tag.stop.offset + Text.byteLength (Text.trimEnd w)⟩ : Finding).move base := by
    rw [Finding.move, Nat.add_comm base, Nat.add_comm base]
  rw [cutFinding, hu.cut_eq hv, (hu.trans hv).cut_eq hw, findingAt?, Part.text, hv.upTo_eq,
    hw.upTo_eq, Option.map_map]
  exact congrArg some (congrArg (Option.map · (tags.find? v)) (funext hmove))

/-- The comment of a match on its own, before it is moved. -/
def Match.finishedFinding? (tags : Registry) (finish : Match → Option Cursor) (m : Match) :
    Option Finding :=
  (m.part? .tag).bind fun tag => (finish m).bind (findingAt? tags tag)

/-- **The comments in a part of the document** are those that are found in the part on its own,
moved to where it begins.  They are also found when the part is searched where it stands. -/
theorem cutMatches_eq {e : Expression} {finish : Match → Option Cursor} {g : Match → Option Finding}
    (he : e.caseless) (hs : s.Within (.document document))
    (hfinish : ∀ m ∈ e.findAll 0 s.text, ∀ stop, finish m = some stop →
      m.TaggedUpTo (.document s.text) stop)
    (hg : ∀ m : Match, g (m.rename (.move s.offset)) =
      (m.finishedFinding? tags finish).map (·.move s.offset)) :
    cutMatches tags document e finish s.span =
      some ((e.findAll s.offset s.text).filterMap g) := by
  have hcut : s.span.cut document = some s.text := hs.slice?_eq
  rw [cutMatches, hcut, Option.bind_eq_bind, Option.bind_some,
    mapM_eq_some (g := fun m => g (m.rename (.move s.offset)))]
  · rw [Option.bind_eq_bind, Option.bind_some, List.reduceOption, Expression.findAll_eq_map_move he,
      List.filterMap_map, List.filterMap_map]
    rfl
  · intro m hm
    rw [hg, Match.finishedFinding?]
    cases htag : m.part? .tag with
    | none => rfl
    | some tag =>
      cases hstop : finish m with
      | none => rfl
      | some stop => exact cutFinding_eq s.offset (hfinish m hm stop hstop) htag

theorem Match.finding?_move (tags : Registry) {shift : Nat} (m : Match) :
    (m.rename (.move shift)).finding? tags = (m.finding? tags).map (·.move shift) := by
  have h := Match.finding?_rename (ρ := .move shift) tags m
  rwa [Registry.rename_move] at h

/-- Comments that stop where their match stops. -/
theorem cutMatches_stop_eq {e : Expression} (he : e.caseless) (hs : s.Within (.document document))
    (htagged : ∀ s : Scope, ∀ m ∈ e.findAll s.offset s.text, m.TaggedUpTo s m.stop) :
    cutMatches tags document e (fun m => some m.stop) s.span =
      some ((e.findAll s.offset s.text).filterMap (·.finding? tags)) := by
  refine cutMatches_eq he hs (fun m hm stop hstop => ?_) fun m => Match.finding?_move tags m
  rw [← Option.some_inj.1 hstop]
  exact htagged (.document s.text) m hm

theorem cutLists_eq (hs : s.Within (.document document)) :
    cutLists p tags document s.span = some (listFindings p tags s) := by
  rw [cutLists, listFindings]
  split
  · exact cutMatches_stop_eq (by rfl) hs fun s m hm => taggedUpTo_of_mem_listExpression hm
  · rfl

theorem cutLines_eq (hs : s.Within (.document document)) :
    cutLines p tags document s.span = some (lineFindings p tags s) := by
  rw [cutLines, lineFindings]
  split
  · refine cutMatches_eq (lineExpression_caseless p tags) hs (fun m hm stop hstop => ?_) fun m => ?_
    · rw [lineFinish] at hstop
      split at hstop
      · simp at hstop
      · rw [← Option.some_inj.1 hstop]
        exact taggedUpTo_of_mem_lineExpression hm
    · have hmove := Match.lineFinding?_rename (ρ := .move s.offset) tags m
      rw [Registry.rename_move] at hmove
      rw [Match.finishedFinding?, lineFinish, show (m.rename (.move s.offset)).start.offset =
        s.offset + m.start.offset from Nat.add_comm _ _, show s.span.start = s.offset from rfl]
      split
      · cases m.part? .tag <;> rfl
      · exact hmove
  · rfl

theorem Scope.span_rename_move (shift : Nat) (s : Scope) :
    (s.rename (.move shift)).span = s.span.move shift := by
  rw [Scope.rename_move, Scope.span, Scope.span, Scope.stop, Scope.stop, Span.move,
    Nat.add_right_comm]

theorem cutRegions_eq {e : Expression} (he : e.caseless) (hs : s.Within (.document document)) :
    cutRegions e document s.span = some ((regions e s).map (·.scope.span)) := by
  have hcut : s.span.cut document = some s.text := hs.slice?_eq
  have hregions := regions_rename (ρ := .move s.offset) he (.document s.text)
  rw [Expression.rename_move, Scope.document_rename_move] at hregions
  rw [cutRegions, hcut, hregions, List.map_map]
  refine congrArg some (List.map_congr_left fun r _ => ?_)
  rw [Function.comp_apply, Region.scope_rename, Scope.span_rename_move]
  rfl

theorem cutInteriors_eq {e lineShape : Expression} (he : e.caseless) (hl : lineShape.caseless)
    (hs : s.Within (.document document)) (hin : ∀ r ∈ regions e s, r.scope.Within s)
    (htagged : ∀ s : Scope, ∀ m ∈ lineShape.findAll s.offset s.text, m.TaggedUpTo s m.stop) :
    cutInteriors tags document e lineShape s.span =
      some ((regions e s).flatMap (·.findings tags lineShape)) := by
  rw [cutInteriors, cutRegions_eq he hs, Option.bind_eq_bind, Option.bind_some, List.mapM_map,
    mapM_eq_some (g := fun r => r.findings tags lineShape) fun r hr => ?_]
  · rw [List.flatMap]
    rfl
  · exact cutMatches_stop_eq hl ((hin r hr).trans hs) htagged

theorem cutBlocks_eq (hs : s.Within (.document document)) :
    cutBlocks p tags document s.span = some (blockFindings p tags s) := by
  rw [cutBlocks, blockFindings, blockRegions]
  split
  · next hp =>
    refine cutInteriors_eq (by rfl) (by rfl) hs (fun r hr => blockRegion_within (p := p) ?_)
      fun s m hm => taggedUpTo_of_mem_blockLineExpression hm
    rwa [blockRegions, if_pos hp]
  · rfl

theorem cutDocs_eq (hs : s.Within (.document document)) :
    cutDocs p tags document s.span = some (docFindings p tags s) := by
  rw [cutDocs, docFindings]
  split
  · exact cutInteriors_eq (by rfl) (by rfl) hs (fun r hr => docRegion_within hr)
      fun s m hm => taggedUpTo_of_mem_docLineExpression hm
  · rfl

theorem cutFences_eq (hs : s.Within (.document document)) :
    cutFences document s.span = some ((fences s).map fun f => (f.language, f.body.span)) := by
  have hcut : s.span.cut document = some s.text := hs.slice?_eq
  have hfences := fences_rename (ρ := .move s.offset) (.document s.text)
  rw [Scope.document_rename_move] at hfences
  rw [cutFences, hcut, hfences, List.map_map]
  refine congrArg some (List.map_congr_left fun f _ => ?_)
  rw [Function.comp_apply, show (f.rename (.move s.offset)).body = f.body.rename (.move s.offset)
    from rfl, Scope.span_rename_move]
  rfl

end

namespace Highlighter

variable {h : Highlighter} {document : List Char} {s : Scope}

theorem cutComments_eq {p : Profile} (hs : s.Within (.document document)) :
    h.cutComments p document s.span = some (h.commentFindings p s) := by
  rw [cutComments, cutLines_eq hs, cutBlocks_eq hs]
  rfl

theorem cutOwn_eq {p : Profile} (hs : s.Within (.document document)) :
    h.cutOwn p document s.span =
      some (h.commentFindings p s ++ docFindings p h.tags s ++ listFindings p h.tags s) := by
  rw [cutOwn, cutComments_eq hs, cutDocs_eq hs, cutLists_eq hs]
  rfl

variable {m : Type → Type} [Monad m] [LawfulMonad m] [Engine]

theorem cutFence_eq (resolve : SyntaxSource m) {f : Fence}
    (hf : f.body.Within (.document document)) :
    h.cutFence resolve document (f.language, f.body.span) =
      OptionT.lift (h.fenceFindings resolve f) := by
  refine OptionT.ext ?_
  rw [cutFence, fenceFindings, OptionT.run_bind_lift, OptionT.run_lift, bind_assoc]
  refine bind_congr fun p => ?_
  rw [cutComments_eq hf, pure_bind]
  split <;> rfl

/-- **No cut fails**: scanning with cuts is scanning. -/
theorem cutFindings_eq (resolve : SyntaxSource m) (language : String)
    (hs : s.Within (.document document)) :
    h.cutFindings resolve language document s.span =
      OptionT.lift (h.findings resolve language s) := by
  have hfences : ((fences s).map fun f => (f.language, f.body.span)).mapM
        (h.cutFence resolve document) =
      OptionT.lift ((fences s).mapM (h.fenceFindings resolve)) := by
    rw [List.mapM_map, ← mapM_lift]
    exact mapM_congr fun f hf => cutFence_eq resolve ((mem_fences hf).1.trans hs)
  have hmk {α : Type} (a : α) : (OptionT.mk (pure (some a)) : OptionT m α) = pure a := rfl
  refine OptionT.ext ?_
  rw [cutFindings, findings, OptionT.run_lift]
  split
  · rw [pure_bind, OptionT.run_pure]
  rw [OptionT.run_bind_lift, bind_assoc]
  refine bind_congr fun p => ?_
  simp only [cutOwn_eq hs, cutFences_eq hs, hmk, pure_bind]
  split
  · rw [pure_bind, OptionT.run_pure]
  split
  · rw [pure_bind, OptionT.run_pure]
  rw [hfences, OptionT.run_bind_lift, bind_assoc]
  refine bind_congr fun embedded => ?_
  rw [pure_bind, OptionT.run_pure]

theorem cutRange_eq (h : Highlighter) (resolve : SyntaxSource m) (text : String) (start stop : Nat)
    (language : String) :
    h.cutRange resolve text start stop language =
      OptionT.lift (h.scanRange resolve text start stop language) := by
  have hspan : (Scope.within text.toList start stop).span =
      if (Text.slice? text.toList start stop).isSome then ⟨start, stop⟩ else ⟨0, 0⟩ := by
    rw [Scope.within]
    cases hcut : Text.slice? text.toList start stop with
    | none => rfl
    | some part =>
      obtain ⟨front, back, -, -, rfl⟩ := Text.slice?_eq_some_iff.1 hcut
      rfl
  refine OptionT.ext ?_
  have hin := Scope.within_document text.toList start stop
  rw [cutRange, ← hspan, cutFindings_eq resolve language hin, OptionT.run_bind_lift,
    OptionT.run_lift, scanRange, bind_assoc]
  refine bind_congr fun found => ?_
  rw [pure_bind, OptionT.run_pure]

end Highlighter

end CommentTags
