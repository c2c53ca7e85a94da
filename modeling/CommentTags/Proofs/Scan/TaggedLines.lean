import CommentTags.Proofs.Pattern.Sequences
import CommentTags.Proofs.Scan.LineComments

/-!
# Lines with a tag

In a tagged line some text leads up to the tag, and a rest and an ending follow it; what these may
be is up to the kind of line.  Of the ways to cut a line like this, the one with the longest lead is
taken, and with that lead the first of the tags.

* `LineKind` — a kind of tagged lines.
* `TagCut`, `TagCut.On`, `TagCut.Taken` — a line cut at its tag, and the cut that is taken.
* `FoundOnLines` — the matches and the findings of a scope, with one of them at most for each line.
* `LineKind.Shape` — the pieces of an expression for lines of one kind, with what they accept.
* `LineKind.Shape.taggedLine` — the expression matches a line exactly if it can be cut, and in the
  way that is taken.
* `LineKind.Shape.foundOnLines` — so each line of a scope is matched once or not at all, and the tag
  decides whether its comment is found.
-/

set_option autoImplicit false

namespace CommentTags

open Text

/-! ## Tagged lines -/

/-- A kind of tagged lines: what leads up to the tag, what may follow it, and how the line ends. -/
structure LineKind where
  Lead : List Char → Prop
  Rest : List Char → Prop
  Ending : List Char → Prop

/-- A line cut at its tag. -/
structure TagCut where
  lead : List Char
  /-- The text that is matched by a tag. -/
  word : List Char
  rest : List Char
  ending : List Char
  deriving Repr, DecidableEq

/-- The cut is that of a tagged line. -/
structure TagCut.On (k : LineKind) (tags : Registry) (line : List Char) (x : TagCut) : Prop where
  text : line = x.lead ++ (x.word ++ (x.rest ++ x.ending))
  lead : k.Lead x.lead
  word : SpellsOneOf tags.words x.word
  rest : k.Rest x.rest
  ending : k.Ending x.ending

/-- Of all the ways to cut the line, this one has the longest lead and then the first tag. -/
structure TagCut.Taken (k : LineKind) (tags : Registry) (line : List Char) (x : TagCut) : Prop
    extends x.On k tags line where
  longest : ∀ y : TagCut, y.On k tags line → y.lead.length ≤ x.lead.length
  first : ∃ (i : Nat) (w : List Char), tags.words[i]? = some w ∧ Spells w x.word ∧
    ∀ y : TagCut, y.On k tags line → y.lead = x.lead →
      ∀ (j : Nat) (w' : List Char), tags.words[j]? = some w' → Spells w' y.word → i ≤ j

/-- The match is the whole line, and its tag is the word of the cut. -/
structure TagCut.MatchedBy (line : Scope) (x : TagCut) (m : Match) : Prop where
  start : m.start.offset = line.offset
  stop : m.stop.offset = line.stop
  tag : ∃ t, m.part? .tag = some t ∧ t.start.offset = line.offset + byteLength x.lead ∧
    t.text = x.word

/-- What is matched and what is found on a line. -/
inductive TaggedLine (k : LineKind) (tags : Registry) (line : Scope) :
    Option Match → Option Finding → Prop
  /-- The line cannot be cut at a tag. -/
  | absent (h : ∀ x : TagCut, ¬x.On k tags line.text) : TaggedLine k tags line none none
  /-- No tag has the lowercase of the text that was matched by a tag. -/
  | unknown {x : TagCut} {m : Match} (hx : x.Taken k tags line.text) (hm : x.MatchedBy line m)
      (h : ∀ w ∈ tags.words, lowercase w ≠ lowercase x.word) : TaggedLine k tags line (some m) none
  /-- From the tag up to the white space at the end of the line. -/
  | found {x : TagCut} {m : Match} {style : Nat} {body white : List Char}
      (hx : x.Taken k tags line.text) (hm : x.MatchedBy line m)
      (hstyle : tags.find? x.word = some style) (hbody : x.rest ++ x.ending = body ++ white)
      (hwhite : ∀ a ∈ white, isWhite a = true) (hlast : ∀ a ∈ body.getLast?, isWhite a = false) :
      TaggedLine k tags line (some m) (some
        ⟨style, line.offset + byteLength x.lead,
          line.offset + byteLength (x.lead ++ (x.word ++ body))⟩)

/-- These are the matches and the findings of the tagged lines of a scope: on each line there is at
most one of them. -/
def FoundOnLines (k : LineKind) (tags : Registry) (s : Scope) (matched : List Match)
    (found : List Finding) : Prop :=
  ∃ outcomes : List (Option Match × Option Finding),
    List.Forall₂ (fun line o => TaggedLine k tags line o.1 o.2) s.lines outcomes ∧
      matched = (outcomes.map (·.1)).reduceOption ∧ found = (outcomes.map (·.2)).reduceOption

/-! ## Expressions for tagged lines -/

/-- The pieces before and after the tag in an expression for lines of one kind. -/
structure LineKind.Shape (k : LineKind) (opening tail : Expression) : Prop where
  lead : opening.Accepts k.Lead
  eager : opening.Eager
  no_tag : opening.all (·.name != some .tag)
  lead_inLine : ∀ w, k.Lead w → '\n' ∉ w
  tail_stops : ∀ ⦃c stop : Cursor⦄ ⦃parts : List Part⦄, tail.partsAt c = some (parts, stop) →
    ∃ w, c.ReadsLine w stop
  tail_iff : ∀ ⦃c d : Cursor⦄ ⦃v : List Char⦄, c.ReadsLine v d → ((tail.partsAt c).isSome ↔
    ∃ rest ending, v = rest ++ ending ∧ k.Rest rest ∧ k.Ending ending)

/-- An expression for tagged lines that begin at the start of a line. -/
def taggedLines (tags : Registry) (opening tail : Expression) : Expression :=
  Pattern.lineStart.piece :: (opening ++ tagPiece tags :: tail)

theorem partsAt_taggedLines {tags : Registry} {opening tail : Expression} {c : Cursor} :
    (taggedLines tags opening tail).partsAt c =
      if c.atLineStart then
        (Expression.partsAt (opening ++ tagPiece tags :: tail) c).map fun r =>
          (⟨none, c, c⟩ :: r.1, r.2)
      else none := by
  split
  · next h =>
    exact Expression.partsAt_piece [] (if_pos h) (by simp)
  · next h =>
    rw [taggedLines, Expression.partsAt, Pattern.piece, Pattern.ends, if_neg h]
    rfl

namespace LineKind.Shape

variable {k : LineKind} {opening tail : Expression} (h : k.Shape opening tail) {tags : Registry}
  (htags : ∀ w ∈ tags.words, '\n' ∉ w)
include h htags

/-- A tag and the rest of its line match exactly if the line can be cut like this. -/
theorem isSome_tag_iff {c d : Cursor} {v : List Char} (hread : c.ReadsLine v d) :
    (Expression.partsAt (tagPiece tags :: tail) c).isSome ↔
      ∃ word rest ending, v = word ++ (rest ++ ending) ∧ SpellsOneOf tags.words word ∧
        k.Rest rest ∧ k.Ending ending := by
  rw [Expression.isSome_partsAt_cons]
  constructor
  · rintro ⟨e, he, hsome⟩
    obtain ⟨word, hword, hspells⟩ := (Pattern.accepts_oneOf tags.words c e).1 he
    obtain ⟨⟨parts, stop⟩, hparts⟩ := Option.isSome_iff_exists.1 hsome
    obtain ⟨w, hw⟩ := h.tail_stops hparts
    -- the rest of the expression goes on to the end of the same line
    obtain ⟨rfl, rfl⟩ := hread.unique (.trans hword (SpellsOneOf.feed_not_mem hspells htags) hw)
    obtain ⟨rest, ending, rfl, hrest, hending⟩ := (h.tail_iff hw).1 hsome
    exact ⟨word, rest, ending, rfl, hspells, hrest, hending⟩
  · rintro ⟨word, rest, ending, rfl, hspells, hrest, hending⟩
    obtain ⟨e, hword, -⟩ := hread.reads.split
    exact ⟨e, (Pattern.accepts_oneOf tags.words c e).2 ⟨word, hword, hspells⟩,
      (h.tail_iff (hread.of_append hword)).2 ⟨rest, ending, rfl, hrest, hending⟩⟩

/-- A cut of the line leads to a place of the opening from which the tag matches. -/
theorem exists_place_of_on {c d : Cursor} {line : List Char} (hread : c.ReadsLine line d)
    {x : TagCut} (hx : x.On k tags line) : ∃ e, c.Reads x.lead e ∧ e ∈ opening.places c ∧
      (Expression.partsAt (tagPiece tags :: tail) e).isSome := by
  have hline := hx.text ▸ hread
  obtain ⟨e, hlead, -⟩ := hline.reads.split
  exact ⟨e, hlead, (h.lead c e).2 ⟨x.lead, hlead, hx.lead⟩,
    (h.isSome_tag_iff htags (hline.of_append hlead)).2
      ⟨x.word, x.rest, x.ending, rfl, hx.word, hx.rest, hx.ending⟩⟩

/-- **The match on a line is the cut that is taken.** -/
theorem exists_taken {c d stop : Cursor} {line : List Char} {parts : List Part}
    (hread : c.ReadsLine line d)
    (hparts : Expression.partsAt (opening ++ tagPiece tags :: tail) c = some (parts, stop)) :
    ∃ (x : TagCut) (e e' : Cursor), x.Taken k tags line ∧ stop = d ∧ c.Reads x.lead e ∧
      e.Reads x.word e' ∧ e'.Reads (x.rest ++ x.ending) d ∧
      parts.find? (·.name == some .tag) = some ⟨some .tag, e, e'⟩ := by
  obtain ⟨ps, e, qs, rfl, hps, hqs, hfar⟩ :=
    Expression.exists_place_of_partsAt_append (h.eager c) hparts
  obtain ⟨lead, hlead, hk⟩ := (h.lead c e).1 hps.mem_places
  obtain ⟨i, w, word, e', rs, hi, hspells, hword, rfl, hrs, hfirst⟩ :=
    Expression.exists_of_partsAt_oneOf hqs
  have hmem : SpellsOneOf tags.words word := ⟨w, List.mem_of_getElem? hi, hspells⟩
  obtain ⟨v, hv⟩ := h.tail_stops hrs
  have hline := Cursor.ReadsLine.trans hlead (h.lead_inLine lead hk)
    (.trans hword (hmem.feed_not_mem htags) hv)
  obtain ⟨rfl, rfl⟩ := hline.unique hread
  obtain ⟨rest, ending, rfl, hrest, hending⟩ := (h.tail_iff hv).1 (by rw [hrs]; rfl)
  refine ⟨⟨lead, word, rest, ending⟩, e, e', ⟨⟨rfl, hk, hmem, hrest, hending⟩, ?_,
    i, w, hi, hspells, ?_⟩, rfl, hlead, hword, hv.reads, ?_⟩
  · -- the places of the opening are listed from far to near
    intro y hy
    obtain ⟨z, hz, hplace, hsome⟩ := h.exists_place_of_on htags hread hy
    have h1 := hlead.length_eq
    have h2 := hz.length_eq
    rcases hfar z hplace hsome with rfl | hlt <;> simp only <;> omega
  · intro y hy hyx j w' hj hspells'
    have htext := hy.text
    rw [show y.lead = lead from hyx, List.append_cancel_left_eq] at htext
    have hrest' := htext ▸ hread.of_append hlead
    obtain ⟨z, hz, -⟩ := hrest'.reads.split
    exact hfirst j w' y.word z hj hspells' hz
      ((h.tail_iff (hrest'.of_append hz)).2 ⟨y.rest, y.ending, rfl, hy.rest, hy.ending⟩)
  · rw [List.find?_append, hps.find?_eq_none h.no_tag]
    rfl

/-- What the expression matches at the start of a line, and what is found there. -/
theorem taggedLine {c : Cursor} {line : Scope} {back : List Char} (hc : c.BeginsLine line back) :
    TaggedLine k tags line ((taggedLines tags opening tail).matchAt c)
      (((taggedLines tags opening tail).matchAt c).bind (·.finding? tags)) := by
  obtain ⟨d, hread⟩ := hc.exists_readsLine
  rw [Expression.matchAt, partsAt_taggedLines, if_pos hc.atLineStart]
  cases hparts : Expression.partsAt (opening ++ tagPiece tags :: tail) c with
  | none =>
    refine .absent fun x hx => ?_
    obtain ⟨e, -, hplace, hsome⟩ := h.exists_place_of_on htags hread hx
    have hmatch := Expression.isSome_partsAt_append.2 ⟨e, hplace, hsome⟩
    rw [hparts] at hmatch
    exact Bool.noConfusion hmatch
  | some r =>
    obtain ⟨parts, stop⟩ := r
    obtain ⟨x, e, e', hx, rfl, hlead, hword, hrest, htag⟩ := h.exists_taken htags hread hparts
    have hpart : Match.part? ⟨c, ⟨none, c, c⟩ :: parts, stop⟩ .tag = some ⟨some .tag, e, e'⟩ := by
      rw [Match.part?, List.find?_cons_of_neg (by simp), htag]
    have hm : x.MatchedBy line ⟨c, ⟨none, c, c⟩ :: parts, stop⟩ := by
      refine ⟨hc.offset, ?_, _, hpart, ?_, hword.upTo_eq⟩
      · rw [hread.reads.offset, hc.offset, Scope.stop]
      · rw [hlead.offset, hc.offset]
    simp only [Option.map_some, Option.bind_some]
    rw [Match.finding?, hpart, Option.bind_some, findingAt?, Part.text, hword.upTo_eq,
      hrest.upTo_eq]
    cases hstyle : tags.find? x.word with
    | none => exact .unknown hx hm (Registry.find?_eq_none_iff.1 hstyle)
    | some style =>
      obtain ⟨white, hbody, hwhite⟩ := exists_trimEnd_append (x.rest ++ x.ending)
      have hfound := TaggedLine.found hx hm hstyle hbody hwhite
        fun a ha => isWhite_of_mem_getLast?_trimEnd ha
      rw [Option.map_some, hword.offset, hlead.offset, hc.offset]
      simpa only [byteLength_append, Nat.add_assoc] using hfound

/-- Every match is a whole line. -/
theorem takesWholeLine : (taggedLines tags opening tail).TakesWholeLine where
  starts c hsome := by
    rw [partsAt_taggedLines] at hsome
    split at hsome
    · assumption
    · exact Bool.noConfusion hsome
  stops c stop parts hparts := by
    rw [partsAt_taggedLines] at hparts
    split at hparts
    · obtain ⟨⟨ps, _⟩, hps, h'⟩ := Option.map_eq_some_iff.1 hparts
      obtain ⟨-, rfl⟩ := Prod.mk.inj h'
      obtain ⟨qs, d, rs, -, hqs, hrs⟩ := Expression.exists_of_partsAt_append hps
      obtain ⟨e, he, ts, -, hts⟩ := Expression.exists_mem_of_partsAt_cons hrs
      obtain ⟨u, hu, hk⟩ := (h.lead c d).1 hqs.mem_places
      obtain ⟨w, hw, hword⟩ := (Pattern.accepts_oneOf tags.words d e).1 he
      obtain ⟨v, hv⟩ := h.tail_stops hts
      have hline := Cursor.ReadsLine.trans hw (SpellsOneOf.feed_not_mem hword htags) hv
      exact ⟨_, .trans hu (h.lead_inLine u hk) hline⟩
    · simp at hparts

/-- **Tagged lines are matched and found line by line.** -/
theorem foundOnLines (s : Scope) :
    FoundOnLines k tags s ((taggedLines tags opening tail).findAll s.offset s.text)
      (((taggedLines tags opening tail).findAll s.offset s.text).filterMap (·.finding? tags)) := by
  obtain ⟨ms, hms, hfind⟩ := (h.takesWholeLine htags).searchesLines.findAll_lines s
  refine ⟨ms.map fun m? => (m?, m?.bind (·.finding? tags)), ?_, ?_, ?_⟩
  · refine List.forall₂_map_right_iff.2 (hms.imp ?_)
    rintro line _ ⟨c, back, hc, rfl⟩
    exact h.taggedLine htags hc
  · rw [hfind, List.map_map]
    exact congrArg List.reduceOption (List.map_id ms).symm
  · rw [hfind, List.map_map, List.reduceOption, List.reduceOption, List.filterMap_filterMap,
      List.filterMap_map]
    rfl

end LineKind.Shape

end CommentTags
