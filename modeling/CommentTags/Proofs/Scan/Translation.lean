import Mathlib
import CommentTags.Proofs.Findings.Collection
import CommentTags.Proofs.Scan.Runs

/-!
# Scanning a part of a text

Scanning a part of a text is scanning that part as a text of its own and moving the result to where
the part begins.  The only thing that is looked at besides the part is whether it begins at the
start of the text: in some languages a comment does not count there.

* `Highlighter.scanUnsuppressed` — the scan in which such comments count.
* `openingFinding?` — the comment that begins with the first character of a text, if it does not
  count.
* `lineFindings_unsuppressed_document` — the two scans differ in this comment only.
* `Highlighter.scanRange_eq_move` — what the scan of a part comes to, in both cases.
-/

set_option autoImplicit false

namespace CommentTags

/-- The same profile, in which a comment at the start of the text counts. -/
def Profile.unsuppressed (p : Profile) : Profile :=
  { p with ignoresFirstLine := false }

/-- The line comment that begins with the first character of a text, if the profile has it not
count. -/
def openingFinding? (p : Profile) (tags : Registry) (text : List Char) : Option Finding :=
  if p.ignoresFirstLine && p.scansLines then
    ((lineExpression p tags).acceptedAt true (.atStart 0 text)).bind (·.lineFinding? tags)
  else none

/-! ## Line comments at the start of a text -/

section

variable {p : Profile} {tags : Registry} {scope : Scope}

/-- Behind the start of the document every comment counts. -/
theorem lineFindings_unsuppressed (hs : 0 < scope.offset) :
    lineFindings p.unsuppressed tags scope = lineFindings p tags scope := by
  rw [lineFindings, lineFindings, show p.unsuppressed.scansLines = p.scansLines from rfl]
  split
  · refine List.filterMap_congr fun m hm => ?_
    have h : scope.offset ≤ m.start.offset := Expression.offset_le_of_mem_matchesFrom hm
    have hne : (m.start.offset == 0) = false := by
      rw [beq_eq_false_iff_ne]
      omega
    rw [hne, Bool.and_false, Bool.and_false]
  · rfl

/-- The comment that begins with the first character is the only one that suppression drops. -/
theorem lineFindings_unsuppressed_document (text : List Char) :
    lineFindings p.unsuppressed tags (.document text) =
      (openingFinding? p tags text).toList ++ lineFindings p tags (.document text) := by
  obtain ⟨later, hfind, hlater⟩ :=
    (lineExpression p tags).exists_matchesFrom_eq true (.atStart 0 text)
  have hline (q : Profile) (hq : lineExpression q tags = lineExpression p tags) :
      lineFindings q tags (.document text) = if q.scansLines then
        (((lineExpression p tags).acceptedAt true (.atStart 0 text)).toList ++ later).filterMap
          fun m => if q.ignoresFirstLine && m.start.offset == 0 then none else m.lineFinding? tags
        else [] := by
    rw [← hfind, ← hq]
    rfl
  rw [hline p rfl, hline p.unsuppressed rfl, openingFinding?,
    show p.unsuppressed.scansLines = p.scansLines from rfl, List.filterMap_append,
    List.filterMap_append]
  cases p.scansLines with
  | false => rw [Bool.and_false]; rfl
  | true =>
    rw [if_pos rfl, if_pos rfl, Bool.and_true, ← List.append_assoc]
    congr 1
    · -- the match at the start of the text, and then the later ones
      cases hm : (lineExpression p tags).acceptedAt true (.atStart 0 text) with
      | none => cases p.ignoresFirstLine <;> rfl
      | some m =>
        have hstart : m.start.offset = 0 := by rw [(Expression.splits_of_acceptedAt hm).1]; rfl
        cases p.ignoresFirstLine with
        | false => simp [Profile.unsuppressed]
        | true =>
          have hone : [m].filterMap (·.lineFinding? tags) = (m.lineFinding? tags).toList := by
            rw [List.filterMap_cons]
            cases m.lineFinding? tags <;> rfl
          simpa [hstart, Profile.unsuppressed] using hone
    · refine List.filterMap_congr fun m hm => ?_
      have hne : (m.start.offset == 0) = false := by
        have h : 0 < m.start.offset := hlater m hm
        rw [beq_eq_false_iff_ne]
        omega
      rw [hne, Bool.and_false, Bool.and_false]

end

/-! ## Scans -/

namespace Highlighter

theorem commentFindings_unsuppressed {h : Highlighter} {p : Profile} {scope : Scope}
    (hs : 0 < scope.offset) :
    h.commentFindings p.unsuppressed scope = h.commentFindings p scope := by
  rw [commentFindings, commentFindings, lineFindings_unsuppressed hs]
  rfl

theorem within_whole (text : String) :
    Scope.within text.toList 0 text.utf8ByteSize = .document text.toList := by
  rw [Scope.within, Text.utf8ByteSize_eq, Text.slice?_whole]
  rfl

theorem within_eq_rename {text part : List Char} {start stop : Nat}
    (hpart : Text.slice? text start stop = some part) :
    Scope.within text start stop = (Scope.document part).rename (.move start) := by
  rw [Scope.within, hpart, Scope.rename_move, Scope.document, Nat.zero_add]

section

variable {m : Type → Type} [Monad m] [Engine]

/-- Scan a whole text for the comments of its language and, unless it is given up, for those that
`extra` adds. -/
def scanAdding (h : Highlighter) (resolve : SyntaxSource m) (extra : Profile → Option Finding)
    (text language : String) : m Collected := do
  if h.tags.isEmpty then return Collected.collect h.tags []
  let p ← h.profile resolve language
  let found ← h.findingsIn resolve p (.document text.toList)
  let added := if h.looksAt p then extra p else none
  return Collected.collect h.tags (added.toList ++ found)

/-- Scan a whole text in such a way that a comment at its start counts. -/
def scanUnsuppressed (h : Highlighter) (resolve : SyntaxSource m) (text language : String) :
    m Collected := do
  if h.tags.isEmpty then return Collected.collect h.tags []
  let p ← h.profile resolve language
  let found ← h.findingsIn resolve p.unsuppressed (.document text.toList)
  return Collected.collect h.tags found

variable {h : Highlighter} {p : Profile}

theorem findingsIn_unsuppressed (resolve : SyntaxSource m) {scope : Scope} (hs : 0 < scope.offset) :
    h.findingsIn resolve p.unsuppressed scope = h.findingsIn resolve p scope := by
  rw [findingsIn, findingsIn, commentFindings_unsuppressed hs]
  rfl

variable [LawfulMonad m]

theorem findingsIn_unsuppressed_document (resolve : SyntaxSource m) (text : List Char) :
    h.findingsIn resolve p.unsuppressed (.document text) =
      ((if h.looksAt p then openingFinding? p h.tags text else none).toList ++ ·) <$>
        h.findingsIn resolve p (.document text) := by
  have hcomments : h.commentFindings p.unsuppressed (.document text) =
      (openingFinding? p h.tags text).toList ++ h.commentFindings p (.document text) := by
    rw [commentFindings, commentFindings, lineFindings_unsuppressed_document, List.append_assoc]
    rfl
  rw [findingsIn, findingsIn, hcomments]
  simp only [show h.looksAt p.unsuppressed = h.looksAt p from rfl,
    show p.unsuppressed.markdown = p.markdown from rfl,
    show docFindings p.unsuppressed = docFindings p from rfl,
    show listFindings p.unsuppressed = listFindings p from rfl]
  cases h.looksAt p with
  | false =>
    simp only [Bool.not_false, Bool.false_eq_true, if_true, if_false, map_pure]
    rfl
  | true =>
    simp only [Bool.not_true, Bool.false_eq_true, if_true, if_false]
    split
    · rw [map_pure, List.append_assoc, List.append_assoc, List.append_assoc]
    · rw [map_bind]
      refine bind_congr fun embedded => ?_
      rw [map_pure]
      simp only [List.append_assoc]

/-! ## A part and its copy -/

theorem scanRange_eq_move_scan (h : Highlighter) (resolve : SyntaxSource m) {text part : String}
    {start stop : Nat} (language : String)
    (hpart : Text.slice? text.toList start stop = some part.toList)
    (hl : Language.suppressesFirstLine (Language.canonical language) = true → start = 0) :
    h.scanRange resolve text start stop language =
      Collected.move start <$> h.scan resolve part language := by
  have hfindings := h.findings_rename (h.compiles_move start) resolve language
    (.document part.toList) fun hs => .inl (hl hs)
  rw [rename_move, SyntaxSource.rename_move, ← within_eq_rename hpart] at hfindings
  rw [scan, scanRange_eq_map, scanRange_eq_map, hfindings, within_whole, Functor.map_map,
    Functor.map_map]
  exact congrArg (· <$> _) (funext fun found => Collected.collect_move h.tags start found)

/-- Behind the start of the text, every comment of the part counts. -/
theorem scanRange_eq_move_scanUnsuppressed (h : Highlighter) (resolve : SyntaxSource m)
    {text part : String} {start stop : Nat} (language : String)
    (hpart : Text.slice? text.toList start stop = some part.toList) (hpos : 0 < start) :
    h.scanRange resolve text start stop language =
      Collected.move start <$> h.scanUnsuppressed resolve part language := by
  have hscope := within_eq_rename hpart
  have hfindings (p : Profile) := h.findingsIn_rename (h.compiles_move start) resolve
    p.unsuppressed (.document part.toList) fun hp => Bool.noConfusion hp
  rw [scanRange_eq_map, findings_eq_bind, scanUnsuppressed]
  split
  · rw [map_pure, map_pure, ← Collected.collect_move, List.map_nil]
  rw [map_bind, map_bind]
  refine bind_congr fun p => ?_
  rw [← findingsIn_unsuppressed resolve (by rw [hscope]; exact Nat.lt_add_left _ hpos), hscope]
  have hp := hfindings p
  rw [rename_move, SyntaxSource.rename_move, Profile.rename_move] at hp
  rw [hp, map_bind, map_eq_pure_bind, bind_map_left]
  refine bind_congr fun found => ?_
  rw [map_pure, ← Collected.collect_move]
  rfl

theorem scan_eq_scanAdding (h : Highlighter) (resolve : SyntaxSource m) (text language : String) :
    h.scan resolve text language = h.scanAdding resolve (fun _ => none) text language := by
  rw [scan, scanRange_eq_map, within_whole, findings_eq_bind, scanAdding]
  split
  · rw [map_pure]
  rw [map_bind]
  refine bind_congr fun p => ?_
  simp only [ite_self, Option.toList_none, List.nil_append]
  exact map_eq_pure_bind _ _

/-- The comment that begins with the first character is all that suppression takes away. -/
theorem scanUnsuppressed_eq_scanAdding (h : Highlighter) (resolve : SyntaxSource m)
    (text language : String) :
    h.scanUnsuppressed resolve text language =
      h.scanAdding resolve (fun p => openingFinding? p h.tags text.toList) text language := by
  rw [scanUnsuppressed, scanAdding]
  split
  · rfl
  refine bind_congr fun p => ?_
  rw [findingsIn_unsuppressed_document, bind_map_left]

/-- **Scanning a part of a text** is scanning the part on its own and moving the result, unless the
part begins behind the start of the text and comments at the start do not count: then they count in
the scan of the part on its own.  That scan adds to the ordinary one the line comment that begins
with the first character, unless the text is given up, and nothing else. -/
theorem scanRange_eq_move (h : Highlighter) (resolve : SyntaxSource m) {text part : String}
    {start stop : Nat} (language : String)
    (hpart : Text.slice? text.toList start stop = some part.toList) :
    ((Language.suppressesFirstLine (Language.canonical language) = true → start = 0) →
      h.scanRange resolve text start stop language =
        Collected.move start <$> h.scan resolve part language) ∧
    (0 < start → h.scanRange resolve text start stop language =
      Collected.move start <$> h.scanUnsuppressed resolve part language) ∧
    h.scan resolve part language = h.scanAdding resolve (fun _ => none) part language ∧
    h.scanUnsuppressed resolve part language =
      h.scanAdding resolve (fun p => openingFinding? p h.tags part.toList) part language :=
  ⟨h.scanRange_eq_move_scan resolve language hpart,
    h.scanRange_eq_move_scanUnsuppressed resolve language hpart,
    h.scan_eq_scanAdding resolve part language,
    h.scanUnsuppressed_eq_scanAdding resolve part language⟩

end

set_option maxRecDepth 20000 in
/-- A comment at the start of the part: it never counts in a Python text, but it counts in a part of
one. -/
theorem scanRange_eq_move_opening :
    let h : Highlighter := ⟨⟨[⟨"todo", {}⟩]⟩, {}⟩
    let resolve := SyntaxSource.builtin (m := Id)
    let text := "x\n# TODO: a\n"
    let part := "# TODO: a\n"
    (h.scanRange resolve text 2 12 "ruby").run = (h.scan resolve part "ruby").run.move 2 ∧
      (h.scanRange resolve text 2 12 "python").run =
        (h.scanUnsuppressed resolve part "python").run.move 2 ∧
      (h.scanRange resolve text 2 12 "python").run.groups = [⟨0, "todo", [⟨4, 11⟩]⟩] ∧
      (h.scan resolve part "python").run.groups = [⟨0, "todo", []⟩] := by
  have hslice : Text.slice? "x\n# TODO: a\n".toList 2 12 = some "# TODO: a\n".toList := by cbv
  have hruby : Language.suppressesFirstLine (Language.canonical "ruby") = false := by cbv
  refine ⟨?_, ?_, by cbv, by cbv⟩
  · exact (scanRange_eq_move _ _ _ hslice).1 fun h => absurd h (by rw [hruby]; decide)
  · exact (scanRange_eq_move _ _ _ hslice).2.1 (by decide)

end Highlighter

end CommentTags
