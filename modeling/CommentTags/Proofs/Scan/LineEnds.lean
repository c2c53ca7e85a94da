import Mathlib
import CommentTags.Proofs.Scan.LineRegions
import CommentTags.Proofs.Scan.Translation

/-!
# Line feeds with and without carriage returns

A text is scanned alike with line feeds and with a carriage return before each of them: the same
tags are reported, each offset moved by the number of line feeds before it.

There is one exception.  What opens a block comment reads one white character after itself, and it
may be repeated.  At the end of a line this character is the line feed in the one text, so the opener
may be repeated on the next line, but it is the carriage return in the other, where the line feed
then stands in the way.

* `Highlighter.StaysOnLines` says of one look-up of a scan that this does not happen to the block
  comments that are found there, and that the delimiters of the language stand on lines.
* `Highlighter.findings_crlf`: if it holds of all look-ups, the findings of the two texts correspond.
* `Highlighter.scan_crlf`: so do the results of the two scans.
* `Highlighter.scan_crlf_repeated` is a C text in which an opener is repeated.
-/

set_option autoImplicit false

namespace CommentTags

/-! ## Comment syntax -/

/-- The delimiters stand on lines. -/
structure CommentSyntax.WithinLine (c : CommentSyntax) : Prop where
  openers : ∀ o ∈ c.lineOpeners, '\r' ∉ o.toList ∧ '\n' ∉ o.toList
  block : ∀ pair ∈ c.blockPair, ('\r' ∉ pair.1.toList ∧ '\n' ∉ pair.1.toList) ∧
    '\r' ∉ pair.2.toList ∧ '\n' ∉ pair.2.toList

instance (c : CommentSyntax) : Decidable c.WithinLine :=
  decidable_of_iff
    ((∀ o ∈ c.lineOpeners, '\r' ∉ o.toList ∧ '\n' ∉ o.toList) ∧
      ∀ pair ∈ c.blockPair, ('\r' ∉ pair.1.toList ∧ '\n' ∉ pair.1.toList) ∧
        '\r' ∉ pair.2.toList ∧ '\n' ∉ pair.2.toList)
    ⟨fun h => ⟨h.1, h.2⟩, fun h => ⟨h.openers, h.block⟩⟩

namespace CommentSyntax

variable {c : CommentSyntax}

theorem inline_of_ne_empty {s : String} (hne : s ≠ "") (hs : '\r' ∉ s.toList ∧ '\n' ∉ s.toList) :
    Text.Inline s.toList :=
  ⟨fun h => hne (String.toList_eq_nil_iff.1 h), hs⟩

theorem WithinLine.inline_opener (h : c.WithinLine) {o : String} (ho : o ∈ Profile.openersOf c) :
    Text.Inline o.toList := by
  rw [Profile.openersOf] at ho
  split at ho
  · obtain ⟨pair, hpair, rfl⟩ := List.mem_map.1 ho
    rw [Option.mem_toList] at hpair
    exact inline_of_ne_empty (ne_of_mem_blockPair hpair).1 (h.block pair hpair).1
  · exact inline_of_ne_empty (ne_of_mem_lineOpeners ho) (h.openers o ho)

theorem WithinLine.inline_block (h : c.WithinLine) {pair : String × String}
    (hpair : pair ∈ c.blockPair) : Text.Inline pair.1.toList ∧ Text.Inline pair.2.toList :=
  ⟨inline_of_ne_empty (ne_of_mem_blockPair hpair).1 (h.block pair hpair).1,
    inline_of_ne_empty (ne_of_mem_blockPair hpair).2 (h.block pair hpair).2⟩

end CommentSyntax

/-- The languages known from the start have their delimiters on lines. -/
theorem builtinSyntax?_withinLine {language : String} {c : CommentSyntax}
    (h : c ∈ builtinSyntax? language) : c.WithinLine := by
  have htable : ∀ b ∈ builtinTable, b.commentSyntax.WithinLine := by decide +kernel
  obtain ⟨b, hb, rfl⟩ := Option.map_eq_some_iff.1 h
  exact htable b (List.mem_of_find?_eq_some hb)

/-- A profile takes its delimiters from the syntax of its language. -/
theorem Profile.fitsLines_of {toggles : Toggles} {c : Option CommentSyntax}
    (hc : ∀ s ∈ c, s.WithinLine) (language : String) :
    (Profile.of language c toggles).FitsLines := by
  simp only [Profile.of]
  generalize (if language == Language.plainText then toggles.highlightPlainText else c.isSome) =
    known
  cases known with
  | false =>
    exact ⟨⟨fun w hw => absurd hw (List.not_mem_nil), Bool.noConfusion⟩, Bool.noConfusion⟩
  | true =>
    cases c with
    | none =>
      exact ⟨⟨fun w hw => absurd hw (List.not_mem_nil), Bool.noConfusion⟩, Bool.noConfusion⟩
    | some s =>
      have hs := hc s rfl
      refine ⟨⟨fun w hw => ?_, fun hborrows => ?_⟩, fun hscans => ?_⟩
      · obtain ⟨o, ho, rfl⟩ := List.mem_map.1 hw
        exact hs.inline_opener ho
      · cases hb : s.blockPair with
        | none => simp [Profile.openersOf, hb] at hborrows
        | some pair =>
          simp only [Profile.blockEnd, Option.bind_some, hb]
          exact (hs.inline_block hb).2
      · cases hb : s.blockPair with
        | none => simp [hb] at hscans
        | some pair =>
          simp only [Profile.blockStart, Profile.blockEnd, Option.bind_some, hb]
          exact hs.inline_block hb

/-! ## Scans -/

/-- The whole document with carriage returns. -/
theorem Scope.document_crlf (document : List Char) :
    (Scope.document document).crlf document = Scope.document (Text.crlf document) := by
  rw [Scope.crlf, Scope.document, Text.crlfOffset_zero]
  rfl

namespace Highlighter

/-- What is asked of the answer for a language whose comments are written in a scope: the delimiters
stand on lines, and no block comment there has its opener repeated over the end of a line. -/
def StaysOnLines (h : Highlighter) (language : String) (scope : Scope)
    (c : Option CommentSyntax) : Prop :=
  (∀ s ∈ c, s.WithinLine) ∧
    (Profile.of (Language.canonical language) c h.toggles).OpensOnce scope

section

variable {m : Type → Type} [Monad m] [LawfulMonad m] {h : Highlighter} {document : List Char}
  (hdocument : '\r' ∉ document) (htags : h.tags.WithinLine)
include hdocument htags

theorem commentFindings_crlf {s : Scope} (hs : s.Within (.document document)) {p : Profile}
    (hp : p.FitsLines) (honce : p.OpensOnce s) :
    h.commentFindings p (s.crlf document) =
      (h.commentFindings p s).map (·.mapOffsets (Text.crlfOffset document)) := by
  rw [commentFindings, commentFindings,
    lineFindings_crlf hdocument hs (s.follows_crlf document) hp.toWithinLine htags,
    blockFindings_crlf hdocument hs hp honce htags, List.map_append]

variable [Engine] {resolve : SyntaxSource m}

theorem fenceFindings_crlf {f : Fence} (hf : f.body.Within (.document document))
    (hresolve : Ensures (h.StaysOnLines f.language f.body)
      (resolve (Language.canonical f.language))) :
    h.fenceFindings resolve (f.crlf document) =
      List.map (·.mapOffsets (Text.crlfOffset document)) <$> h.fenceFindings resolve f := by
  rw [fenceFindings, fenceFindings, map_bind]
  refine profile_bind_eq_bind hresolve fun c hc => ?_
  rw [map_pure, show (f.crlf document).body = f.body.crlf document from rfl,
    show (f.crlf document).language = f.language from rfl,
    commentFindings_crlf hdocument htags hf (Profile.fitsLines_of hc.1 _) hc.2]
  split <;> rfl

theorem findingsIn_crlf {s : Scope} (hs : s.Within (.document document)) {p : Profile}
    (hp : p.FitsLines) (honce : p.OpensOnce s)
    (hfences : p.markdown = true → ∀ f ∈ fences s,
      Ensures (h.StaysOnLines f.language f.body) (resolve (Language.canonical f.language))) :
    h.findingsIn resolve p (s.crlf document) =
      List.map (·.mapOffsets (Text.crlfOffset document)) <$> h.findingsIn resolve p s := by
  rw [findingsIn, findingsIn, commentFindings_crlf hdocument htags hs hp honce,
    docFindings_crlf hdocument hs p htags,
    listFindings_crlf hdocument hs (s.follows_crlf document) p htags, ← List.map_append,
    ← List.map_append]
  split
  · rw [map_pure]; rfl
  split
  · rw [map_pure]
  next hmarkdown =>
    have hembedded : (fences (s.crlf document)).mapM (h.fenceFindings resolve) =
        List.map (List.map (·.mapOffsets (Text.crlfOffset document))) <$>
          (fences s).mapM (h.fenceFindings resolve) := by
      rw [fences_crlf hdocument hs, List.mapM_map, ← mapM_map_result]
      refine mapM_congr fun f hf => fenceFindings_crlf hdocument htags
        ((mem_fences hf).1.trans hs) (hfences (by simpa using hmarkdown) f hf)
    rw [hembedded, bind_map_left, map_bind]
    refine bind_congr fun found => ?_
    simp only [map_pure, List.map_append, List.map_flatten]

theorem findings_crlf {s : Scope} (hs : s.Within (.document document)) {language : String}
    (hresolve : ∀ l ∈ h.lookups s language,
      Ensures (h.StaysOnLines l.1 l.2) (resolve (Language.canonical l.1))) :
    h.findings resolve language (s.crlf document) =
      List.map (·.mapOffsets (Text.crlfOffset document)) <$> h.findings resolve language s := by
  rw [findings_eq_bind, findings_eq_bind]
  split
  · rw [map_pure]; rfl
  next hne =>
    rw [map_bind]
    have hown : Ensures (h.StaysOnLines language s) (resolve (Language.canonical language)) :=
      hresolve (language, s) (mem_lookups hne)
    refine profile_bind_eq_bind hown fun c hc => ?_
    exact findingsIn_crlf hdocument htags hs (Profile.fitsLines_of hc.1 _) hc.2
      fun hp f hf => hresolve (f.language, f.body) (fence_mem_lookups hne hp hf)

end

/-- **Texts are scanned alike with either kind of line end.**  Let a text have no carriage returns,
let the tags not be empty, and let neither they nor the delimiters of the languages that are looked up
hold a character that ends a line.  If no block comment that is found has its opener repeated over the
end of a line, then the text with a carriage return before each line feed has the same ranges, each
offset moved by the number of line feeds before it. -/
theorem scan_crlf [Engine] {m : Type → Type} [Monad m] [LawfulMonad m] (h : Highlighter)
    (resolve : SyntaxSource m) (text language : String) (htext : '\r' ∉ text.toList)
    (htags : ∀ w ∈ h.tags.words, w ≠ [] ∧ '\r' ∉ w ∧ '\n' ∉ w)
    (hresolve : ∀ l ∈ h.lookups (.document text.toList) language,
      Ensures (h.StaysOnLines l.1 l.2) (resolve (Language.canonical l.1))) :
    h.scan resolve (String.ofList (Text.crlf text.toList)) language =
      (·.mapOffsets (Text.crlfOffset text.toList)) <$> h.scan resolve text language := by
  rw [scan, scan, scanRange_eq_map, scanRange_eq_map, within_whole, within_whole,
    String.toList_ofList, ← Scope.document_crlf,
    findings_crlf (s := .document text.toList) htext htags (.refl _) hresolve, Functor.map_map,
    Functor.map_map]
  exact congrArg (· <$> _) (funext fun found =>
    Collected.collect_mapOffsets (Text.strictMono_crlfOffset text.toList) h.tags found)

set_option maxRecDepth 20000 in
/-- A Python text.  Number signs are repeated over the end of a line, but they open no block
comment there. -/
theorem scan_crlf_block :
    let h : Highlighter := ⟨⟨[⟨"todo", {}⟩]⟩, {}⟩
    let resolve := SyntaxSource.builtin (m := Id)
    let text := "###\n### TODO a\n\"\"\"\nTODO b\n\"\"\""
    (h.scan resolve (String.ofList (Text.crlf text.toList)) "python").run =
        (h.scan resolve text "python").run.mapOffsets (Text.crlfOffset text.toList) ∧
      (h.scan resolve text "python").run.groups = [⟨0, "todo", [⟨8, 14⟩, ⟨19, 25⟩]⟩] ∧
      (h.scan resolve (String.ofList (Text.crlf text.toList)) "python").run.groups =
        [⟨0, "todo", [⟨9, 15⟩, ⟨22, 28⟩]⟩] := by
  refine ⟨?_, by cbv, by cbv⟩
  refine scan_crlf _ _ _ _ (by decide) (by decide) fun l hl => ?_
  have hfences : looksAtFences ⟨⟨[⟨"todo", {}⟩]⟩, {}⟩ "python" = false := by cbv
  rw [lookups_eq_singleton (by decide) hfences, List.mem_singleton] at hl
  subst hl
  refine .pure ⟨fun c hc => builtinSyntax?_withinLine hc, fun _ => List.all_eq_true.1 ?_⟩
  cbv

set_option maxRecDepth 20000 in
/-- The opener stands at the end of the first line, and again at the start of the second one: with
carriage returns the comment inside is not found. -/
theorem scan_crlf_repeated :
    let h : Highlighter := ⟨⟨[⟨"TODO", {}⟩]⟩, {}⟩
    let resolve := SyntaxSource.builtin (m := Id)
    let text := "/*\n/* TODO x */\n"
    String.ofList (Text.crlf text.toList) = "/*\r\n/* TODO x */\r\n" ∧ '\r' ∉ text.toList ∧
      (∀ w ∈ h.tags.words, w ≠ [] ∧ '\r' ∉ w ∧ '\n' ∉ w) ∧
      (∀ language, ∀ s ∈ builtinSyntax? language, s.WithinLine) ∧
      ((h.scan resolve text "c").run.mapOffsets (Text.crlfOffset text.toList)).groups =
        [⟨0, "TODO", [⟨7, 13⟩]⟩] ∧
      (h.scan resolve (String.ofList (Text.crlf text.toList)) "c").run.groups =
        [⟨0, "TODO", []⟩] :=
  ⟨by cbv, by decide, by decide, fun _ _ hc => builtinSyntax?_withinLine hc, by cbv, by cbv⟩

end Highlighter

end CommentTags
