import Mathlib
import CommentTags.Proofs.Scan.Slicing
import CommentTags.Proofs.Text.Trimming

/-!
# What a finding says about the text

A finding is sound in a scope if the bytes that it covers are the text of its tag and, after it, a
body that stays on one line and does not end in white space.  Every kind of comment leads to sound
findings, and what is found in an interior or in the body of a fence is sound in the scope around
it.

* `Finding.Sound`, `Finding.Sound.mono` — soundness in a scope, and in the scopes around it.
* `Match.TaggedUpTo.sound` — a tagged comment that stays on its line leads to a sound finding.
* `lineFindings_sound` and its like — each function finds sound comments.
* `Collected.Sound` — what soundness comes to for the ranges of a report.
* `Highlighter.scanRange_sound` — a scan never cuts a text outside its bounds or inside a character,
  and its report is sound.
-/

set_option autoImplicit false

namespace CommentTags

/-- The finding covers a tag and a body in the scope.  The body has no line feed and does not end in
white space. -/
def Finding.Sound (tags : Registry) (scope : Scope) (f : Finding) : Prop :=
  ∃ word body, tags.find? word = some f.style ∧ '\n' ∉ body ∧
    (∀ a ∈ body.getLast?, Text.isWhite a = false) ∧
    Scope.Within ⟨f.start, word ++ body⟩ scope ∧
    f.stop = f.start + Text.byteLength (word ++ body)

theorem Finding.Sound.mono {tags : Registry} {inner outer : Scope} {f : Finding}
    (h : f.Sound tags inner) (hs : inner.Within outer) : f.Sound tags outer := by
  obtain ⟨word, body, hword, hline, hlast, hin, hstop⟩ := h
  exact ⟨word, body, hword, hline, hlast, hin.trans hs, hstop⟩

section

variable {p : Profile} {tags : Registry} {s : Scope} {f : Finding}

/-- The text of a finding is that of its tag and what follows it, without white space at the end. -/
theorem exists_cut_of_findingAt? {tag : Part} {stop : Cursor} {u v w : List Char}
    (hu : s.start.Reads u tag.start) (hv : tag.start.Reads v tag.stop) (hw : tag.stop.Reads w stop)
    (h : findingAt? tags tag stop = some f) :
    ∃ white, w = Text.trimEnd w ++ white ∧
      s.text = u ++ (v ++ (Text.trimEnd w ++ (white ++ stop.rest))) ∧
      f.start = s.offset + Text.byteLength u ∧
      f.stop = f.start + Text.byteLength (v ++ Text.trimEnd w) ∧ tags.find? v = some f.style := by
  rw [findingAt?, Part.text, hv.upTo_eq, hw.upTo_eq] at h
  obtain ⟨style, hstyle, rfl⟩ := Option.map_eq_some_iff.1 h
  obtain ⟨white, hwhite, -⟩ := Text.exists_trimEnd_append w
  refine ⟨white, hwhite, ?_, hu.offset, ?_, hstyle⟩
  · calc s.text = u ++ (v ++ (w ++ stop.rest)) := by rw [← hw.rest, ← hv.rest, ← hu.rest]; rfl
      _ = u ++ (v ++ (Text.trimEnd w ++ (white ++ stop.rest))) := by
        nth_rewrite 1 [hwhite]
        rw [List.append_assoc]
  · rw [hv.offset, Text.byteLength_append, Nat.add_assoc]

/-- The text after a tag is trimmed at its end, so a comment that stays on the line is sound. -/
theorem Match.TaggedUpTo.sound {m : Match} {stop : Cursor} (hm : m.TaggedUpTo s stop)
    (h : ((m.part? .tag).bind fun tag => findingAt? tags tag stop) = some f) : f.Sound tags s := by
  obtain ⟨tag, u, v, w, htag, hu, hv, hw, hline⟩ := hm
  rw [htag, Option.bind_some] at h
  obtain ⟨white, hwhite, htext, hstart, hstop, hstyle⟩ := exists_cut_of_findingAt? hu hv hw h
  refine ⟨v, Text.trimEnd w, hstyle, fun hn => hline ?_,
    fun a ha => Text.isWhite_of_mem_getLast?_trimEnd ha,
    ⟨u, white ++ stop.rest, by simpa only [List.append_assoc] using htext, hstart⟩, hstop⟩
  rw [hwhite]
  exact List.mem_append_left _ hn

/-! ## The kinds of comments -/

theorem lineFindings_sound (h : f ∈ lineFindings p tags s) : f.Sound tags s := by
  rw [lineFindings] at h
  split at h
  · obtain ⟨m, hm, h⟩ := List.mem_filterMap.1 h
    split at h
    · simp at h
    · exact (taggedUpTo_of_mem_lineExpression hm).sound h
  · simp at h

theorem listFindings_sound (h : f ∈ listFindings p tags s) : f.Sound tags s := by
  rw [listFindings] at h
  split at h
  · obtain ⟨m, hm, h⟩ := List.mem_filterMap.1 h
    exact (taggedUpTo_of_mem_listExpression hm).sound h
  · simp at h

theorem blockFindings_sound (h : f ∈ blockFindings p tags s) : f.Sound tags s := by
  obtain ⟨r, hr, h⟩ := List.mem_flatMap.1 h
  obtain ⟨m, hm, h⟩ := List.mem_filterMap.1 h
  have hsound : f.Sound tags r.scope := (taggedUpTo_of_mem_blockLineExpression hm).sound h
  exact hsound.mono (blockRegion_within hr)

theorem docFindings_sound (h : f ∈ docFindings p tags s) : f.Sound tags s := by
  rw [docFindings] at h
  split at h
  · obtain ⟨r, hr, h⟩ := List.mem_flatMap.1 h
    obtain ⟨m, hm, h⟩ := List.mem_filterMap.1 h
    have hsound : f.Sound tags r.scope := (taggedUpTo_of_mem_docLineExpression hm).sound h
    exact hsound.mono (docRegion_within hr)
  · simp at h

end

/-! ## Whole scans -/

namespace Highlighter

theorem commentFindings_sound {h : Highlighter} {p : Profile} {s : Scope} {f : Finding}
    (hf : f ∈ h.commentFindings p s) : f.Sound h.tags s :=
  (List.mem_append.1 hf).elim lineFindings_sound blockFindings_sound

variable {m : Type → Type} [Monad m] [LawfulMonad m] [Engine]

/-- What is found in a fence lies in its body. -/
theorem fenceFindings_sound (h : Highlighter) (resolve : SyntaxSource m) (f : Fence) :
    Ensures (fun found => ∀ g ∈ found, g.Sound h.tags f.body) (h.fenceFindings resolve f) := by
  refine Ensures.bind (.of_forall (fun _ => trivial) _) fun p _ => .pure fun g hg => ?_
  split at hg
  · exact commentFindings_sound hg
  · simp at hg

/-- **Every finding of a scan is sound.** -/
theorem findings_sound (h : Highlighter) (resolve : SyntaxSource m) (language : String)
    (s : Scope) :
    Ensures (fun found => ∀ f ∈ found, f.Sound h.tags s) (h.findings resolve language s) := by
  rw [findings_eq_bind]
  split
  · exact .pure (by simp)
  refine Ensures.bind (.of_forall (fun _ => trivial) _) fun p _ => ?_
  have hown : ∀ f ∈ h.commentFindings p s ++ docFindings p h.tags s ++ listFindings p h.tags s,
      f.Sound h.tags s := by
    intro f hf
    rw [List.mem_append, List.mem_append] at hf
    rcases hf with (hf | hf) | hf
    · exact commentFindings_sound hf
    · exact docFindings_sound hf
    · exact listFindings_sound hf
  rw [findingsIn]
  split
  · exact .pure (by simp)
  split
  · exact .pure hown
  refine (Ensures.mapM fun f _ => h.fenceFindings_sound resolve f).bind fun found hfound => ?_
  refine .pure fun g hg => ?_
  rcases List.mem_append.1 hg with hg | hg
  · exact hown g hg
  · obtain ⟨part, hpart, hg⟩ := List.mem_flatten.1 hg
    obtain ⟨f, hf, hsound⟩ := hfound part hpart
    exact (hsound g hg).mono (mem_fences hf).1

end Highlighter

/-! ## What is reported -/

/-- The range begins with the text of the tag `i`, the first tag with that lowercase, and goes on
with a body that has no line feed and does not end in white space. -/
def Span.Tagged (tags : Registry) (text : List Char) (i : Nat) (r : Span) : Prop :=
  ∃ mid word body,
    Text.slice? text r.start mid = some word ∧ Text.slice? text mid r.stop = some body ∧
    (∃ tag, tags.tag? i = some tag ∧ Text.lowercase tag.marker.toList = Text.lowercase word) ∧
    (∀ j < i, ∀ tag, tags.tag? j = some tag →
      Text.lowercase tag.marker.toList ≠ Text.lowercase word) ∧
    '\n' ∉ body ∧ ∀ a ∈ body.getLast?, Text.isWhite a = false

theorem Registry.exists_tag_of_find? {tags : Registry} {word : List Char} {i : Nat}
    (h : tags.find? word = some i) :
    (∃ tag, tags.tag? i = some tag ∧ Text.lowercase tag.marker.toList = Text.lowercase word) ∧
    ∀ j < i, ∀ tag, tags.tag? j = some tag →
      Text.lowercase tag.marker.toList ≠ Text.lowercase word := by
  rw [Registry.find?, List.findIdx?_eq_some_iff_getElem] at h
  obtain ⟨hi, hword, hleast⟩ := h
  have hlen : i < tags.tags.length := by simpa [Registry.words] using hi
  refine ⟨⟨tags.tags[i], List.getElem?_eq_getElem hlen, ?_⟩, fun j hj tag htag => ?_⟩
  · simpa [Registry.words] using hword
  · obtain ⟨hjlen, rfl⟩ := List.getElem?_eq_some_iff.1 htag
    simpa [Registry.words] using hleast j hj

/-- The tag of a sound finding is registered. -/
theorem Finding.Sound.style_lt {tags : Registry} {s : Scope} {f : Finding} (h : f.Sound tags s) :
    f.style < tags.size := by
  obtain ⟨word, body, hword, -⟩ := h
  obtain ⟨⟨tag, htag, -⟩, -⟩ := Registry.exists_tag_of_find? hword
  exact (List.getElem?_eq_some_iff.1 htag).1

theorem Finding.Sound.tagged {tags : Registry} {text : List Char} {f : Finding}
    (h : f.Sound tags (.document text)) : f.span.Tagged tags text f.style := by
  obtain ⟨word, body, hword, hline, hlast, hin, hstop⟩ := h
  obtain ⟨hi, hleast⟩ := Registry.exists_tag_of_find? hword
  have hw : Scope.Within ⟨f.start, word⟩ ⟨f.start, word ++ body⟩ := ⟨[], body, rfl, rfl⟩
  have hb : Scope.Within ⟨f.start + Text.byteLength word, body⟩ ⟨f.start, word ++ body⟩ :=
    ⟨word, [], by simp, rfl⟩
  refine ⟨f.start + Text.byteLength word, word, body, (hw.trans hin).slice?_eq, ?_, hi, hleast,
    hline, hlast⟩
  have hslice := (hb.trans hin).slice?_eq
  rwa [Scope.stop, Nat.add_assoc, ← Text.byteLength_append, ← hstop] at hslice

/-- The ranges of the group of each tag lie in the scope, begin and stop at boundaries of the text,
and hold comments of that tag. -/
def Collected.Sound (tags : Registry) (text : List Char) (scope : Scope) (found : Collected) :
    Prop :=
  ∀ (i : Nat) (g : TagRanges), found.groups[i]? = some g → g.style = i ∧ ∀ r ∈ g.ranges,
    scope.offset ≤ r.start ∧ r.start ≤ r.stop ∧ r.stop ≤ scope.stop ∧
    Text.IsBoundary text r.start ∧ Text.IsBoundary text r.stop ∧ r.Tagged tags text i

/-- **A scan is sound.**  It never cuts a text outside its bounds or inside a character, and what it
reports are comments of the tags in the scanned part of the text. -/
theorem Highlighter.scanRange_sound {m : Type → Type} [Monad m] [LawfulMonad m] [Engine]
    (h : Highlighter) (resolve : SyntaxSource m) (text : String) (start stop : Nat)
    (language : String) :
    (h.cutRange resolve text start stop language).run =
        some <$> h.scanRange resolve text start stop language ∧
      Ensures (Collected.Sound h.tags text.toList (Scope.within text.toList start stop))
        (h.scanRange resolve text start stop language) := by
  refine ⟨?_, ?_⟩
  · rw [cutRange_eq, OptionT.run_lift, map_eq_pure_bind]
  rw [scanRange_eq_map]
  refine (h.findings_sound resolve language _).map fun found hfound i g hg => ?_
  rw [Collected.getElem?_groups_collect, Option.map_eq_some_iff] at hg
  obtain ⟨tag, -, rfl⟩ := hg
  refine ⟨rfl, fun r hr => ?_⟩
  have hsound := hfound _ (Collected.mem_rangesOf.1 hr)
  have htagged := (hsound.mono (Scope.within_document text.toList start stop)).tagged
  obtain ⟨word, body, -, -, -, hin, hstop⟩ := hsound
  obtain ⟨mid, _, _, hword, hbody, -⟩ := id htagged
  have hle := hin.stop_le
  rw [Scope.stop, ← hstop] at hle
  exact ⟨hin.offset_le, by simp only at hstop; omega, hle, (Text.isBoundary_of_slice? hword).1,
    (Text.isBoundary_of_slice? hbody).2, htagged⟩

set_option maxRecDepth 20000 in
/-- A comment in a fence, in a part of the text that begins behind a character of two bytes. -/
theorem scanRange_sound_fence :
    let h : Highlighter := ⟨⟨[⟨"todo", {}⟩]⟩, {}⟩
    let text := "é\n```rs\n// TODO: x \n```\n"
    let found : Collected := (h.scanRange (SyntaxSource.builtin (m := Id)) text 3 25 "markdown").run
    found.groups = [⟨0, "todo", [⟨12, 19⟩]⟩] ∧
      found.Sound h.tags text.toList (Scope.within text.toList 3 25) := by
  refine ⟨by cbv, ?_⟩
  obtain ⟨y, hy⟩ := (Highlighter.scanRange_sound ⟨⟨[⟨"todo", {}⟩]⟩, {}⟩
    (SyntaxSource.builtin (m := Id)) "é\n```rs\n// TODO: x \n```\n" 3 25 "markdown").2
  exact hy ▸ y.2

end CommentTags
