import CommentTags.Proofs.Pattern.Escaping
import CommentTags.Proofs.Scan.LineComments
import CommentTags.Proofs.Scan.Regions

/-!
# Profiles that scans can rely on

The delimiters of a language come from tables and files that may declare empty texts, only half a
pair of block delimiters, or nothing at all.  A profile makes what is consistent of them, whatever
the switches are: what is looked for has delimiters, and they are not empty.  So nothing is found
where there is no comment.

* `CommentSyntax.HasBlock`, `CommentSyntax.OpensLine` — what a syntax has to declare for block
  comments and for line comments.
* `Profile.Consistent`, `Profile.consistent_of` — what is looked for has delimiters of the syntax.
* `Scope.HasBetween` — the text between two offsets of a scope has a property.
* `Profile.matches_hold_delimiters` — each match of the expression for line comments, and each block
  comment, has a delimiter of the language in it.
-/

set_option autoImplicit false

namespace CommentTags

open Text

/-! ## Delimiters of a syntax -/

namespace CommentSyntax

/-- The delimiters of block comments, none of which is empty. -/
structure HasBlock (c : CommentSyntax) (opener close : String) : Prop where
  declared : c.block = some (opener, close)
  opener_ne : opener ≠ ""
  close_ne : close ≠ ""

/-- The text opens comments that run to the end of the line. -/
inductive OpensLine (c : CommentSyntax) : String → Prop
  | declared {line : LineComment} {opener : String} : c.line = some line →
      opener ∈ line.declared → opener ≠ "" → OpensLine c opener
  /-- A language without line comments has the opener of its block comments instead. -/
  | borrowed {opener close : String} : c.lineOpeners = [] → c.HasBlock opener close →
      OpensLine c opener

variable {c : CommentSyntax}

theorem blockPair_eq_some_iff {opener close : String} :
    c.blockPair = some (opener, close) ↔ c.HasBlock opener close := by
  rw [blockPair, Option.filter_eq_some_iff]
  simp only [Bool.and_eq_true, decide_eq_true_eq]
  constructor
  · rintro ⟨h, ho, hc⟩
    exact ⟨h, ho, hc⟩
  · rintro ⟨h, ho, hc⟩
    exact ⟨h, ho, hc⟩

theorem opensLine_of_mem_openersOf {opener : String} (h : opener ∈ Profile.openersOf c) :
    c.OpensLine opener := by
  rw [Profile.openersOf] at h
  split at h
  · next hempty =>
    obtain ⟨⟨start, close⟩, hpair, rfl⟩ := List.mem_map.1 h
    exact .borrowed (List.isEmpty_iff.1 hempty)
      (blockPair_eq_some_iff.1 (Option.mem_toList.1 hpair))
  · rw [lineOpeners] at h
    split at h
    · cases h
    · next line hline =>
      obtain ⟨hmem, hne⟩ := List.mem_filter.1 h
      exact .declared hline hmem (by simpa using hne)

end CommentSyntax

/-! ## What a profile makes of them -/

/-- The alternatives of texts that are not empty are not empty either. -/
theorem alternation_ne_nil {words : List (List Char)} (hwords : words ≠ [])
    (hne : ∀ w ∈ words, w ≠ []) : alternation words ≠ [] := by
  intro hnil
  have hread : [[]] = words := by
    have h := (quotes_alternation hwords).alternatives_eq
    rwa [hnil] at h
  exact hne [] (by simp [← hread]) rfl

namespace Profile

variable {language : String} {comments : Option CommentSyntax} {toggles : Toggles}

/-- What is looked for in a profile has delimiters of the syntax. -/
structure Consistent (comments : Option CommentSyntax) (toggles : Toggles) (p : Profile) : Prop where
  /-- The openers of line comments are read back from their alternatives, and none is empty. -/
  lines : p.scansLines = true → p.plainText = false →
    alternation p.openerWords ≠ [] ∧ Quotes (alternation p.openerWords) p.openerWords ∧
      ∀ w ∈ p.openerWords, ∃ c ∈ comments, ∃ opener, c.OpensLine opener ∧ w = opener.toList
  blocks : p.scansBlocks = true → p.supported = true ∧ toggles.multilineComments = true ∧
    ∃ c ∈ comments, ∃ opener close, c.HasBlock opener close ∧
      p.blockStart = opener.toList ∧ p.blockEnd = close.toList ∧
      Quotes (escape p.blockStart) [opener.toList] ∧ Quotes (escape p.blockEnd) [close.toList]
  borrowed : p.borrowsOpener = true →
    alternation p.openerWords = escape p.blockStart ∧ p.blockStart ≠ [] ∧ p.blockEnd ≠ []
  unsupported : p.supported = false →
    p.scansLines = false ∧ p.scansBlocks = false ∧ p.scansDocBlocks = false

/-- Only where the language is supported is something looked for. -/
theorem supported_of_scans
    (h : (of language comments toggles).scansLines = true ∨
      (of language comments toggles).scansBlocks = true ∨
      (of language comments toggles).borrowsOpener = true) :
    (of language comments toggles).supported = true := by
  by_contra hs
  obtain ⟨-, -, hlines, hblocks, -, hborrows⟩ := fields_of_not_supported (Bool.eq_false_iff.2 hs)
  simp [hlines, hblocks, hborrows] at h

theorem opensLine_of_mem_openerWords {w : List Char}
    (h : w ∈ (of language comments toggles).openerWords) :
    ∃ c ∈ comments, ∃ opener, c.OpensLine opener ∧ w = opener.toList := by
  obtain ⟨opener, hopener, rfl⟩ := List.mem_map.1 h
  obtain ⟨c, hc, hopener⟩ := exists_of_mem_openers hopener
  exact ⟨c, hc, opener, CommentSyntax.opensLine_of_mem_openersOf hopener, rfl⟩

theorem openerWords_ne_nil (hscans : (of language comments toggles).scansLines = true)
    (hplain : (of language comments toggles).plainText = false) :
    (of language comments toggles).openerWords ≠ [] := by
  rw [(fields_of_supported (supported_of_scans (.inl hscans))).2.2.1, hplain, Bool.false_or] at hscans
  simpa [openerWords] using hscans

theorem exists_hasBlock_of_mem_block {opener close : String}
    (h : (opener, close) ∈ (of language comments toggles).block) :
    ∃ c ∈ comments, c.HasBlock opener close := by
  cases hs : (of language comments toggles).supported with
  | false =>
    rw [(fields_of_not_supported hs).2.1] at h
    cases h
  | true =>
    rw [(fields_of_supported hs).2.1, Option.mem_def, Option.bind_eq_some_iff] at h
    obtain ⟨c, hc, hpair⟩ := h
    exact ⟨c, hc, CommentSyntax.blockPair_eq_some_iff.1 hpair⟩

/-- Block comments that are looked for have the delimiters of the syntax. -/
theorem hasBlock_of_scansBlocks (h : (of language comments toggles).scansBlocks = true) :
    toggles.multilineComments = true ∧ ∃ c ∈ comments, ∃ opener close, c.HasBlock opener close ∧
      (of language comments toggles).blockStart = opener.toList ∧
      (of language comments toggles).blockEnd = close.toList := by
  have hscans := (fields_of_supported (supported_of_scans (.inr (.inl h)))).2.2.2.1
  rw [h, eq_comm, Bool.and_eq_true] at hscans
  obtain ⟨⟨opener, close⟩, hpair⟩ := Option.isSome_iff_exists.1 hscans.1
  obtain ⟨c, hc, hblock⟩ := exists_hasBlock_of_mem_block hpair
  refine ⟨hscans.2, c, hc, opener, close, hblock, ?_, ?_⟩
  · rw [blockStart, hpair]
  · rw [blockEnd, hpair]

/-- A borrowed opener is that of block comments. -/
theorem openerWords_of_borrowsOpener (h : (of language comments toggles).borrowsOpener = true) :
    (of language comments toggles).openerWords = [(of language comments toggles).blockStart] ∧
      (of language comments toggles).blockStart ≠ [] ∧
      (of language comments toggles).blockEnd ≠ [] := by
  obtain ⟨hopeners, hblock, -, -, hborrows⟩ :=
    fields_of_supported (supported_of_scans (.inr (.inr h)))
  rw [h, eq_comm, Bool.and_eq_true, hopeners] at hborrows
  cases comments with
  | none => exact absurd hborrows.2 (by decide)
  | some c =>
    obtain ⟨hempty, hsome⟩ := hborrows
    have hopeners' : openersOf c = c.blockPair.toList.map (·.1) := if_pos hempty
    cases hpair : c.blockPair with
    | none => simp [hopeners', hpair] at hsome
    | some pair =>
      have hne := CommentSyntax.ne_of_mem_blockPair hpair
      rw [Option.map_some, Option.getD_some, hopeners', hpair] at hopeners
      rw [Option.bind_some, hpair] at hblock
      rw [openerWords, blockStart, blockEnd, hopeners, hblock]
      exact ⟨rfl, by simpa using hne.1, by simpa using hne.2⟩

/-- **Profiles are consistent**, whatever a syntax declares. -/
theorem consistent_of (language : String) (comments : Option CommentSyntax) (toggles : Toggles) :
    (of language comments toggles).Consistent comments toggles where
  lines hscans hplain := by
    have hwords := openerWords_ne_nil hscans hplain
    exact ⟨alternation_ne_nil hwords ne_nil_of_mem_openerWords, quotes_alternation hwords,
      fun w => opensLine_of_mem_openerWords⟩
  blocks hscans := by
    obtain ⟨htoggle, c, hc, opener, close, hblock, hstart, hend⟩ := hasBlock_of_scansBlocks hscans
    refine ⟨supported_of_scans (.inr (.inl hscans)), htoggle, c, hc, opener, close, hblock, hstart, hend, ?_⟩
    rw [hstart, hend]
    exact ⟨quotes_escape _, quotes_escape _⟩
  borrowed hborrows := by
    obtain ⟨hwords, hstart, hend⟩ := openerWords_of_borrowsOpener hborrows
    exact ⟨hwords ▸ alternation_singleton _, hstart, hend⟩
  unsupported hs := by
    obtain ⟨-, -, hlines, hblocks, hdocs, -⟩ := fields_of_not_supported hs
    exact ⟨hlines, hblocks, by rw [scansDocBlocks, hdocs, hblocks]; rfl⟩

end Profile

/-! ## What is matched -/

/-- The text between two offsets of a scope has the property. -/
def Scope.HasBetween (s : Scope) (start stop : Nat) (P : List Char → Prop) : Prop :=
  ∃ part : Scope, part.Within s ∧ part.offset = start ∧ part.stop = stop ∧ P part.text

theorem Scope.HasBetween.imp {s : Scope} {start stop : Nat} {P Q : List Char → Prop}
    (h : s.HasBetween start stop P) (hPQ : ∀ t, P t → Q t) : s.HasBetween start stop Q := by
  obtain ⟨part, hwithin, hstart, hstop, hpart⟩ := h
  exact ⟨part, hwithin, hstart, hstop, hPQ _ hpart⟩

theorem Text.Occurs.ne_nil {word text : List Char} (h : Occurs word text) (hword : word ≠ []) :
    text ≠ [] := by
  obtain ⟨u, _, rfl, w, v, rfl, hw⟩ := h
  have hpos := List.length_pos_of_ne_nil hword
  rw [← hw.length_eq] at hpos
  exact List.ne_nil_of_length_pos (by simp only [List.length_append]; omega)

/-- A match that begins with openers has one of them in it. -/
theorem exists_opener_of_mem_findAll {words : List (List Char)} (hne : ∀ w ∈ words, w ≠ [])
    {f : Expression} {s : Scope} {m : Match}
    (hm : m ∈ Expression.findAll ((Pattern.plus (.group (.oneOf words))).piece :: f) s.offset
      s.text) :
    ∃ w ∈ words, s.HasBetween m.start.offset m.stop.offset (Occurs w) := by
  obtain ⟨start, parts, stop⟩ := m
  obtain ⟨u, hu, hsplits⟩ := Expression.exists_reads_of_mem_findAll hm
  dsimp only at hu hsplits ⊢
  cases hsplits with
  | cons hopeners hrest =>
    obtain ⟨v, hv⟩ := hrest.exists_reads
    obtain ⟨o, ho, n, hn, hrep⟩ := ((Pattern.accepts_oneOf words).group.plus
      (fun _ => SpellsOneOf.ne_nil hne) _ _).1 hopeners
    obtain ⟨n, rfl⟩ := Nat.exists_eq_add_of_le' hn
    obtain ⟨x, y, rfl, ⟨w, hw, hx⟩, -⟩ := hrep
    have hread := ho.trans hv
    refine ⟨w, hw, ⟨start.offset, x ++ y ++ v⟩, hu.within hread, rfl, hread.offset.symm, ?_⟩
    exact StandsAt.occurs ⟨x, y ++ v, by simp, hx⟩

theorem scansBlocks_of_mem_blockRegions {p : Profile} {s : Scope} {r : Region}
    (h : r ∈ blockRegions p s) : p.scansBlocks = true := by
  by_contra hscans
  rw [blockRegions, if_neg hscans] at h
  cases h

/-- A block comment has both of its delimiters in it. -/
theorem hasBetween_of_mem_blockRegions {p : Profile} {s : Scope} {r : Region}
    (h : r ∈ blockRegions p s) :
    s.HasBetween r.start r.stop fun t => Occurs p.blockStart t ∧ Occurs p.blockEnd t := by
  obtain ⟨x, hx, hcovers⟩ := exists_enclosure_of_mem_blockRegions h
  obtain ⟨n, hn, hrep, -⟩ := hx.openers
  obtain ⟨n, rfl⟩ := Nat.exists_eq_add_of_le' hn
  obtain ⟨_, more, hopeners, ⟨v, a, rfl, hv, -⟩, -⟩ := hrep
  refine ⟨⟨r.start, x.place ++ (x.openers ++ (x.interior ++ x.close))⟩,
    ⟨x.front, x.back, by simp [hx.text], hcovers.start⟩, rfl, ?_, ?_, ?_⟩
  · rw [Scope.stop, hcovers.stop, hcovers.interior_start]
    simp only [byteLength_append]
    omega
  · rw [hopeners]
    refine Occurs.append (StandsAt.occurs ⟨v, a :: (more ++ (x.interior ++ x.close)), ?_, hv⟩) _
    simp
  · refine Occurs.append (Occurs.append (Occurs.append (StandsAt.occurs ⟨x.close, [], ?_, hx.close⟩)
      _) _) _
    simp

/-- **What is found is a comment of the language.**  A profile is consistent, whatever the syntax of
its language declares and whatever the switches are.  Where comments are not known, nothing is looked
for.  Each match of a line comment, except in plain texts, is a text with an opener in it, and each
block comment is a text with both of its delimiters in it; so neither of them is empty. -/
theorem Profile.matches_hold_delimiters (language : String) (comments : Option CommentSyntax)
    (toggles : Toggles) :
    let p := Profile.of language comments toggles
    p.Consistent comments toggles ∧ ∀ (tags : Registry) (s : Scope),
      (p.supported = false → (Grammar.of p tags).line = none ∧ (Grammar.of p tags).block = none ∧
        lineFindings p tags s = [] ∧ blockFindings p tags s = [] ∧ docFindings p tags s = []) ∧
      (p.scansLines = true → p.plainText = false →
        ∀ m ∈ (lineExpression p tags).findAll s.offset s.text, ∃ c ∈ comments, ∃ opener,
          c.OpensLine opener ∧ s.HasBetween m.start.offset m.stop.offset fun t =>
            t ≠ [] ∧ Occurs opener.toList t) ∧
      ∀ r ∈ blockRegions p s, ∃ c ∈ comments, ∃ opener close, c.HasBlock opener close ∧
        s.HasBetween r.start r.stop fun t =>
          t ≠ [] ∧ Occurs opener.toList t ∧ Occurs close.toList t := by
  intro p
  have hconsistent : p.Consistent comments toggles := consistent_of language comments toggles
  refine ⟨hconsistent, fun tags s => ⟨fun hs => ?_, fun _ hplain m hm => ?_, fun r hr => ?_⟩⟩
  · obtain ⟨hlines, hblocks, hdocs⟩ := hconsistent.unsupported hs
    simp [Grammar.of, lineFindings, blockFindings, blockRegions, docFindings, hlines, hblocks, hdocs]
  · rw [lineExpression_eq hplain] at hm
    obtain ⟨w, hw, hbetween⟩ := exists_opener_of_mem_findAll ne_nil_of_mem_openerWords hm
    obtain ⟨c, hc, opener, hopens, rfl⟩ := opensLine_of_mem_openerWords hw
    exact ⟨c, hc, opener, hopens, hbetween.imp fun t ht =>
      ⟨ht.ne_nil (ne_nil_of_mem_openerWords _ hw), ht⟩⟩
  · have hscans : p.scansBlocks = true := scansBlocks_of_mem_blockRegions hr
    obtain ⟨-, c, hc, opener, close, hblock, hstart, hclose⟩ := hasBlock_of_scansBlocks hscans
    refine ⟨c, hc, opener, close, hblock, (hasBetween_of_mem_blockRegions hr).imp ?_⟩
    rintro t ⟨hopener, hend⟩
    rw [hstart] at hopener
    rw [hclose] at hend
    exact ⟨hopener.ne_nil (by simpa using hblock.opener_ne), hopener, hend⟩

end CommentTags
