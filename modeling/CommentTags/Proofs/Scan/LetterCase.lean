import Mathlib
import CommentTags.Proofs.Findings.Collection
import CommentTags.Proofs.Pattern.LetterCase
import CommentTags.Proofs.Scan.Runs

/-!
# Letter case does not matter

Two scans that differ in the case of letters of ASCII only report the same ranges, wherever these
letters stand: in the text, in the name of the language or the hint of a fence, in the tags, or in
the delimiters of comments.  Both are the scan in which all of them are written small.

* `SameButCase` — two texts differ in the case of letters of ASCII only.
* `Engine.IgnoresCase` — what is asked of the engine: it compiles a grammar or refuses it, in
  whatever case its letters are written.
* `Highlighter.scan_sameButCase` — the two scans report the same ranges.
-/

set_option autoImplicit false

namespace CommentTags

/-- The strings differ in the case of letters of ASCII only. -/
def SameButCase (s t : String) : Prop :=
  s.toList.map Char.toLower = t.toList.map Char.toLower

instance (s t : String) : Decidable (SameButCase s t) :=
  inferInstanceAs (Decidable (s.toList.map Char.toLower = t.toList.map Char.toLower))

/-- The ranges of each group. -/
def Collected.ranges (c : Collected) : List (List Span) :=
  c.groups.map (·.ranges)

theorem Collected.ranges_collect (tags : Registry) (found : List Finding) :
    (collect tags found).ranges = (List.range tags.size).map fun i => rangesOf i found := by
  refine List.ext_getElem? fun i => ?_
  rw [ranges, List.getElem?_map, getElem?_groups_collect, List.getElem?_map, Option.map_map]
  by_cases hi : i < tags.size
  · rw [Registry.tag?, List.getElem?_eq_getElem hi, List.getElem?_range hi]
    rfl
  · have hlen : tags.size ≤ i := Nat.le_of_not_lt hi
    rw [Registry.tag?, List.getElem?_eq_none hlen, List.getElem?_eq_none (by simpa using hlen)]
    rfl

/-! ## Only the words of tags matter -/

section

variable {tags tags' : Registry}

theorem lineFindings_congr (hw : tags.words = tags'.words) (p : Profile) (s : Scope) :
    lineFindings p tags s = lineFindings p tags' s := by
  simp only [lineFindings, lineExpression, tagPiece, findingAt?, Registry.find?, hw]

theorem blockFindings_congr (hw : tags.words = tags'.words) (p : Profile) (s : Scope) :
    blockFindings p tags s = blockFindings p tags' s := by
  simp only [blockFindings, Region.findings, blockLineExpression, tagPiece, Match.finding?,
    findingAt?, Registry.find?, hw]

theorem docFindings_congr (hw : tags.words = tags'.words) (p : Profile) (s : Scope) :
    docFindings p tags s = docFindings p tags' s := by
  simp only [docFindings, Region.findings, docLineExpression, tagPiece, Match.finding?,
    findingAt?, Registry.find?, hw]

theorem listFindings_congr (hw : tags.words = tags'.words) (p : Profile) (s : Scope) :
    listFindings p tags s = listFindings p tags' s := by
  simp only [listFindings, listExpression, tagPiece, Match.finding?, findingAt?, Registry.find?, hw]

theorem Grammar.of_congr (hw : tags.words = tags'.words) (p : Profile) :
    Grammar.of p tags = Grammar.of p tags' := by
  simp only [Grammar.of, lineExpression, blockLineExpression, docLineExpression, listExpression,
    tagPiece, hw]

end

/-! ## Engines -/

/-- The engine compiles a grammar or refuses it, in whatever case the letters of ASCII in the tags and
delimiters are written. -/
def Engine.IgnoresCase [Engine] : Prop :=
  ∀ (p : Profile) (tags : Registry),
    (Grammar.of (p.rename .small) (tags.rename .small)).compiles = (Grammar.of p tags).compiles

namespace Highlighter

theorem words_small {h h' : Highlighter}
    (htags : List.Forall₂ (fun t u => SameButCase t.marker u.marker) h.tags.tags h'.tags.tags) :
    (h.rename .small).tags.words = (h'.rename .small).tags.words := by
  rw [rename, rename, Registry.words_rename, Registry.words_rename, Registry.words, Registry.words,
    List.map_map, List.map_map]
  generalize h.tags.tags = l, h'.tags.tags = l' at htags ⊢
  induction htags with
  | nil => rfl
  | cons htag _ ih => rw [List.map_cons, List.map_cons, ih]; exact congrArg (· :: _) htag

theorem within_small (text : String) (start stop : Nat) :
    (Scope.within text.toList start stop).rename .small =
      Scope.within (text.toList.map Char.toLower) start stop := by
  have hslice : Text.slice? (text.toList.map Char.toLower) start stop = _ :=
    Text.slice?_map Renaming.small.utf8Size_letter text.toList start stop
  rw [Scope.within, Scope.within, hslice]
  cases Text.slice? text.toList start stop <;> rfl

section

variable {m : Type → Type} [Monad m] [Engine]

theorem findings_congr {h h' : Highlighter} (resolve : SyntaxSource m) {language language' : String}
    (hw : h.tags.words = h'.tags.words) (ht : h.toggles = h'.toggles)
    (hl : Language.canonical language = Language.canonical language') (s : Scope) :
    h.findings resolve language s = h'.findings resolve language' s := by
  have hempty : h.tags.isEmpty = h'.tags.isEmpty := by
    have hlen := congrArg List.isEmpty hw
    simpa [Registry.words, Registry.isEmpty] using hlen
  have hcomments : h.commentFindings = h'.commentFindings := by
    funext p s
    rw [commentFindings, commentFindings, lineFindings_congr hw, blockFindings_congr hw]
  have hlooks : h.looksAt = h'.looksAt := by
    funext p
    rw [looksAt, looksAt, Grammar.of_congr hw]
  have hfences : h.fenceFindings resolve = h'.fenceFindings resolve := by
    funext f
    rw [fenceFindings, fenceFindings, hcomments, hlooks, profile, profile, ht]
  rw [findings, findings, hempty, hcomments, hfences, hlooks, profile, profile, hl, ht]
  simp only [docFindings_congr hw, listFindings_congr hw]

/-! ## Written small -/

variable [LawfulMonad m] (hengine : Engine.IgnoresCase)
include hengine

theorem findings_small (h : Highlighter) (resolve : SyntaxSource m) (language : String)
    (s : Scope) :
    (h.rename .small).findings (resolve.rename .small) language (s.rename .small) =
      h.findings resolve language s := by
  have hstay : List.map (·.move Renaming.small.shift) = (id : List Finding → List Finding) := by
    funext found
    exact List.map_id found
  rw [h.findings_rename (fun p => hengine p h.tags) resolve language s fun _ => .inl rfl, hstay,
    id_map]

section

variable {h h' : Highlighter} {resolve resolve' : SyntaxSource m}
  {text text' language language' : String}

theorem scanRange_ranges (start stop : Nat) :
    Collected.ranges <$> h.scanRange resolve text start stop language =
      (fun found => (List.range h.tags.size).map fun i => Collected.rangesOf i found) <$>
        (h.rename .small).findings (resolve.rename .small) language
          ((Scope.within text.toList start stop).rename .small) := by
  rw [findings_small hengine, scanRange_eq_map, Functor.map_map]
  exact congrArg (· <$> _) (funext fun found => Collected.ranges_collect h.tags found)

/-- **Letter case does not matter.**  Two texts, two names of languages, the tags and the comment
syntaxes of two scans may differ in the case of letters of ASCII: with an engine that does not mind
the case of letters either, the ranges in every group are the same. -/
theorem scan_sameButCase (h h' : Highlighter) (htoggles : h.toggles = h'.toggles)
    (htags : List.Forall₂ (fun t u => SameButCase t.marker u.marker) h.tags.tags h'.tags.tags)
    (hresolve : resolve.rename .small = resolve'.rename .small)
    (htext : SameButCase text text') (hlanguage : SameButCase language language') :
    Collected.ranges <$> h.scan resolve text language =
        Collected.ranges <$> h'.scan resolve' text' language' ∧
      ∀ start stop, Collected.ranges <$> h.scanRange resolve text start stop language =
        Collected.ranges <$> h'.scanRange resolve' text' start stop language' := by
  have hcanonical : Language.canonical language = Language.canonical language' := by
    have hstring : Renaming.small.string language = Renaming.small.string language' :=
      congrArg String.ofList hlanguage
    rw [← canonical_string (ρ := .small) language, hstring, canonical_string]
  have hscan (start stop : Nat) :
      Collected.ranges <$> h.scanRange resolve text start stop language =
        Collected.ranges <$> h'.scanRange resolve' text' start stop language' := by
    rw [scanRange_ranges hengine, scanRange_ranges hengine, within_small, within_small, htext, hresolve,
      findings_congr _ (words_small htags) htoggles hcanonical, Registry.size, Registry.size,
      htags.length_eq]
  have hsize : text.utf8ByteSize = text'.utf8ByteSize := by
    rw [Text.utf8ByteSize_eq, Text.utf8ByteSize_eq,
      ← Text.byteLength_map Renaming.small.utf8Size_letter text.toList,
      ← Text.byteLength_map Renaming.small.utf8Size_letter text'.toList]
    exact congrArg Text.byteLength htext
  refine ⟨?_, hscan⟩
  rw [scan, scan, hsize]
  exact hscan 0 text'.utf8ByteSize

end

end

set_option maxRecDepth 20000 in
/-- Small and capital letters in an opener, in a tag, in the text and in the language name. -/
theorem scan_sameButCase_rem :
    let h : Highlighter := ⟨⟨[⟨"todo", {}⟩]⟩, {}⟩
    let h' : Highlighter := ⟨⟨[⟨"ToDo", {}⟩]⟩, {}⟩
    let resolve := SyntaxSource.ofTable (m := Id) [("bat", { line := some (.single "@REM") })]
    let resolve' := SyntaxSource.ofTable (m := Id) [("bat", { line := some (.single "@Rem") })]
    (h.scan resolve "@rem TODO: a\n" "bat").run.ranges = [[⟨5, 12⟩]] ∧
      (h.scan resolve "@rem TODO: a\n" "bat").run.ranges =
        (h'.scan resolve' "@REM todo: a\n" "BAT").run.ranges := by
  have htext : SameButCase "@rem TODO: a\n" "@REM todo: a\n" := by decide
  have hlanguage : SameButCase "bat" "BAT" := by decide
  have htag : SameButCase "todo" "ToDo" := by decide
  have hopener : Renaming.small.string "@REM" = Renaming.small.string "@Rem" := by decide
  have hresolve : (SyntaxSource.ofTable (m := Id)
        [("bat", { line := some (.single "@REM") })]).rename .small =
      (SyntaxSource.ofTable (m := Id)
        [("bat", { line := some (.single "@Rem") })]).rename .small := by
    funext language
    simp only [SyntaxSource.rename, SyntaxSource.ofTable, map_pure, List.lookup_cons]
    cases language == "bat" with
    | false => rfl
    | true =>
      simp only [Option.map_some, CommentSyntax.rename, LineComment.rename, hopener]
  refine ⟨by cbv, ?_⟩
  have hengine : Engine.IgnoresCase := fun p tags => by
    rw [Grammar.compiles_unbounded, Grammar.compiles_unbounded]
  have hscan := scan_sameButCase hengine ⟨⟨[⟨"todo", {}⟩]⟩, {}⟩ ⟨⟨[⟨"ToDo", {}⟩]⟩, {}⟩ rfl
    (.cons htag .nil) hresolve htext hlanguage
  exact hscan.1

end Highlighter

end CommentTags
