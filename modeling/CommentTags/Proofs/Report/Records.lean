import CommentTags.Proofs.Document.Positions
import CommentTags.Proofs.Findings.Order
import CommentTags.Proofs.Scan.Soundness
import CommentTags.Proofs.Scan.Translation
import CommentTags.Report.Basic

/-!
# What a report tells of a scan

Every range that a scan of a document finds has one record, and the records come in the order of the
text.  The line and column of a record lead back to the place in the document where the comment
starts: a comment starts with its tag, hence not with the line feed that a carriage return stands
before, which is the only character that has no column of its own.

* `TagMatch.Tells` — the record is that of the finding, field by field.
* `Registry.Visible` — no tag is empty or begins with a line feed.
* `TagMatch.exists_tells` — a sound finding has a record.
* `TagMatch.Lists` — the records of a collection, one for each range, in order.
* `Highlighter.scan_listed` — what a scan finds is listed.
-/

set_option autoImplicit false

namespace CommentTags

/-! ## One record -/

/-- The record is that of the finding.  Its text is what stands in the document in the range of the
finding, and its line and column, counted from one, are those of the start of the range. -/
structure TagMatch.Tells (source : String) (d : Document) (tags : Registry) (f : Finding)
    (r : TagMatch) : Prop where
  source_eq : r.source = source
  start_eq : r.start = f.start
  stop_eq : r.stop = f.stop
  tag_eq : (tags.tag? f.style).map (·.marker) = some r.tag
  text_eq : Text.slice? d.chars r.start r.stop = some r.text.toList
  one_le_line : 1 ≤ r.line
  one_le_column : 1 ≤ r.column
  offsetAt_eq : d.offsetAt ⟨r.line - 1, r.column - 1⟩ = r.start

/-- The record of a finding that lies in the document. -/
theorem TagMatch.ofFinding?_eq_some {source : String} {d : Document} {tags : Registry} {f : Finding}
    {tag : Tag} {part : List Char} (htag : tags.tag? f.style = some tag)
    (hpart : Text.slice? d.chars f.start f.stop = some part) :
    ofFinding? source d tags f =
      some ⟨source, tag.marker, f.start, f.stop, (d.positionAt f.start).line + 1,
        (d.positionAt f.start).column + 1, String.ofList part⟩ := by
  rw [ofFinding?, htag, Document.slice?_of_slice? hpart]
  rfl

/-- No tag is empty or begins with a line feed. -/
def Registry.Visible (tags : Registry) : Prop :=
  ∀ tag ∈ tags.tags, tag.marker.toList ≠ [] ∧ tag.marker.toList.head? ≠ some '\n'

instance (tags : Registry) : Decidable tags.Visible :=
  inferInstanceAs (Decidable (∀ tag ∈ tags.tags, _))

/-- What a sound finding covers does not begin with a line feed. -/
theorem Finding.Sound.exists_split {tags : Registry} {text : List Char} {f : Finding}
    (hvisible : tags.Visible) (h : f.Sound tags (.document text)) :
    ∃ front part back, text = front ++ (part ++ back) ∧ Text.byteLength front = f.start ∧
      f.start + Text.byteLength part = f.stop ∧ (part ++ back).head? ≠ some '\n' := by
  obtain ⟨word, body, hword, -, -, ⟨front, back, htext, hstart⟩, hstop⟩ := h
  obtain ⟨⟨tag, htag, hlower⟩, -⟩ := Registry.exists_tag_of_find? hword
  obtain ⟨hne, hhead⟩ := hvisible tag (List.mem_of_getElem? htag)
  obtain ⟨hword, hfeed⟩ := Text.head?_of_lowercase_eq hlower hne hhead
  refine ⟨front, word ++ body, back, htext, ?_, hstop.symm, ?_⟩
  · exact (Nat.zero_add _).symm.trans hstart.symm
  · obtain ⟨a, word, rfl⟩ := List.exists_cons_of_ne_nil hword
    exact hfeed

/-- **A sound finding has a record.** -/
theorem TagMatch.exists_tells (source : String) {d : Document} {tags : Registry} {f : Finding}
    (hvisible : tags.Visible) (h : f.Sound tags (.document d.chars)) :
    ∃ r, ofFinding? source d tags f = some r ∧ Tells source d tags f r := by
  obtain ⟨front, part, back, hchars, hstart, hstop, hfeed⟩ := h.exists_split hvisible
  obtain ⟨tag, htag⟩ : ∃ tag, tags.tag? f.style = some tag :=
    ⟨_, List.getElem?_eq_getElem h.style_lt⟩
  have hpart : Text.slice? d.chars f.start f.stop = some part :=
    Text.slice?_eq_some_iff.2 ⟨front, back, hchars, hstart, hstop⟩
  refine ⟨_, ofFinding?_eq_some htag hpart, ?_⟩
  have hback := Document.offsetAt_positionAt hchars fun hcut => hfeed hcut.2
  rw [hstart] at hback
  exact
    { source_eq := rfl
      start_eq := rfl
      stop_eq := rfl
      tag_eq := by rw [htag]; rfl
      text_eq := by rw [hpart, String.toList_ofList]
      one_le_line := Nat.le_add_left _ _
      one_le_column := Nat.le_add_left _ _
      offsetAt_eq := hback }

/-! ## All records -/

/-- The records are those of the ranges of the collection: one for each of them, in the order of
start, stop and tag, so that lines and columns never go back. -/
structure TagMatch.Lists (source : String) (d : Document) (tags : Registry) (found : Collected)
    (records : List TagMatch) : Prop where
  tells : List.Forall₂ (Tells source d tags) found.sorted records
  mem_iff : ∀ f : Finding, f ∈ found.sorted ↔ f.span ∈ found.rangesFor f.style
  length_eq : records.length = found.size
  order : found.sorted.Pairwise Finding.Before
  places : records.Pairwise fun r s => r.line < s.line ∨ r.line = s.line ∧ r.column ≤ s.column

theorem forall₂_filterMap {α β : Type} {R : α → β → Prop} {g : α → Option β} {l : List α}
    (h : ∀ a ∈ l, ∃ b, g a = some b ∧ R a b) : List.Forall₂ R l (l.filterMap g) := by
  induction l with
  | nil => exact .nil
  | cons a l ih =>
    rw [List.forall_mem_cons] at h
    obtain ⟨⟨b, hb, hab⟩, hl⟩ := h
    rw [List.filterMap_cons_some hb]
    exact .cons hab (ih hl)

/-- The positions of findings that come one before the other do so too. -/
theorem TagMatch.place_le {source : String} {d : Document} {tags : Registry} {f g : Finding}
    {r s : TagMatch} (h : f.Before g) (hr : ofFinding? source d tags f = some r)
    (hs : ofFinding? source d tags g = some s) :
    r.line < s.line ∨ r.line = s.line ∧ r.column ≤ s.column := by
  have hplace {f : Finding} {r : TagMatch} (hr : ofFinding? source d tags f = some r) :
      r.line = (d.positionAt f.start).line + 1 ∧ r.column = (d.positionAt f.start).column + 1 := by
    simp only [ofFinding?, Option.bind_eq_bind, Option.bind_eq_some_iff, Option.pure_def,
      Option.some_inj] at hr
    obtain ⟨tag, -, text, -, rfl⟩ := hr
    exact ⟨rfl, rfl⟩
  have hle : f.start ≤ g.start := by
    rcases h with h | h
    · exact h.le
    · exact h.1.le
  obtain ⟨hrl, hrc⟩ := hplace hr
  obtain ⟨hsl, hsc⟩ := hplace hs
  have hmono := Document.positionAt_mono d hle
  rw [Document.Position.Le] at hmono
  omega

/-- **A report loses nothing.**  Whatever a scan of a document finds is told by one record, which
leads back to the place in the document. -/
theorem Highlighter.scan_listed [Engine] {m : Type → Type} [Monad m] [LawfulMonad m]
    (h : Highlighter) (resolve : SyntaxSource m) (source : String) (d : Document)
    (hvisible : h.tags.Visible) :
    Ensures (fun found => TagMatch.Lists source d h.tags found
        (TagMatch.collect source d h.tags found))
      (h.scan resolve d.text d.language) := by
  rw [scan, scanRange_eq_map, within_whole]
  refine (h.findings_sound resolve d.language _).map fun found hfound => ?_
  have hsound (f : Finding) (hf : f ∈ (Collected.collect h.tags found).sorted) :
      f.Sound h.tags (.document d.chars) := hfound f (Collected.mem_sorted_collect.1 hf).1
  have htells := forall₂_filterMap fun f hf =>
    TagMatch.exists_tells source hvisible (hsound f hf)
  exact
    { tells := htells
      mem_iff := fun f => Collected.mem_sorted_iff_mem_rangesFor
      length_eq := by rw [← Collected.length_sorted]; exact htells.length_eq.symm
      order := Collected.pairwise_sorted_collect
      places := List.Pairwise.filterMap (TagMatch.ofFinding? source d h.tags)
        (fun _ _ hfg _ hr _ hs => TagMatch.place_le hfg hr hs) Collected.pairwise_sorted_collect }

set_option maxRecDepth 20000 in
/-- A comment on the third line, after a carriage return and a vertical tab. -/
theorem Highlighter.scan_listed_tab :
    let h : Highlighter := ⟨⟨[⟨"todo", {}⟩]⟩, {}⟩
    let d : Document := ⟨"é\r\n\x0B é // TODO: x \r\n", "rust", none⟩
    let found : Collected := (h.scan (SyntaxSource.builtin (m := Id)) d.text d.language).run
    TagMatch.collect "mem" d h.tags found = [⟨"mem", "todo", 12, 19, 3, 7, "TODO: x"⟩] ∧
      h.tags.Visible ∧
      TagMatch.Lists "mem" d h.tags found (TagMatch.collect "mem" d h.tags found) := by
  refine ⟨by cbv, by decide, ?_⟩
  obtain ⟨y, hy⟩ := Highlighter.scan_listed ⟨⟨[⟨"todo", {}⟩]⟩, {}⟩
    (SyntaxSource.builtin (m := Id)) "mem" ⟨"é\r\n\x0B é // TODO: x \r\n", "rust", none⟩ (by decide)
  exact hy ▸ y.2

end CommentTags
