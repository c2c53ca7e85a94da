import Mathlib
import CommentTags.Proofs.Scan.BorrowedOpeners
import CommentTags.Proofs.Scan.TaggedLines

/-!
# Plain texts, list items and the lines of comments

There are four kinds of tagged lines.  In a plain text blanks lead up to the tag, and in a list item
of Markdown a bullet and maybe a check box as well; whatever follows the tag, the line is tagged.
In a block comment blanks lead up to the tag too, and in a documentation comment a star among
blanks.  There the text after the tag begins with neither a star nor a slash, and the only carriage
return may stand at the end of the line.

* `LineKind.plain`, `LineKind.listItem`, `LineKind.blockLine`, `LineKind.docLine` — the four kinds.
* `plain_shape` and its like — the expression of the scan has the shape for the kind.
* `plainLines_foundOnLines`, `commentLines_foundOnLines` — what is found on lines of each kind.
-/

set_option autoImplicit false

namespace CommentTags

open Text

/-! ## Kinds of lines -/

/-- Spaces and tabs. -/
def Blanks (w : List Char) : Prop :=
  ∀ a ∈ w, a = ' ' ∨ a = '\t'

namespace LineKind

/-- A line of a plain text. -/
def plain : LineKind where
  Lead := Blanks
  Rest _ := True
  Ending w := w = []

/-- A list item, with or without a check box. -/
def listItem : LineKind where
  Lead w := ∃ blanks bullet box, w = blanks ++ bullet :: ' ' :: box ∧ Blanks blanks ∧
    (bullet = '*' ∨ bullet = '-') ∧ (box = "[ ] ".toList ∨ box = [])
  Rest _ := True
  Ending w := w = []

/-- A line in a block comment. -/
def blockLine : LineKind where
  Lead := Blanks
  Rest w := '\r' ∉ w ∧ ∀ a ∈ w.head?, a ≠ '*' ∧ a ≠ '/'
  Ending w := w = [] ∨ w = ['\r']

/-- A line in a documentation comment. -/
def docLine : LineKind where
  Lead w := ∃ u v, w = u ++ '*' :: v ∧ Blanks u ∧ Blanks v
  Rest := blockLine.Rest
  Ending := blockLine.Ending

end LineKind

/-! ## What leads up to the tag -/

theorem Blanks.feed_not_mem {w : List Char} (h : Blanks w) : '\n' ∉ w := fun hfeed =>
  (h _ hfeed).elim (by decide) (by decide)

namespace Expression

theorem places_of_not_contains {k : CharClass} {e : Expression} {c : Cursor} {a : Char}
    (ha : a ∈ c.rest.head?) (hk : k.contains a = false) :
    places ((Pattern.one k).piece :: e) c = [] := by
  obtain ⟨rest, hrest⟩ := List.head?_eq_some_iff.1 ha
  simp [places, Pattern.piece, Pattern.ends, hrest, hk]

theorem accepts_blankRun : Accepts [(Pattern.run .blank).piece] Blanks :=
  (Accepts.cons accepts_blanks accepts_nil).congr fun w => by simp [Blanks]

/-- The star of a documentation comment, among blanks. -/
def starOpening : Expression :=
  [(Pattern.run .blank).piece, (Pattern.one (.exactly '*')).piece, (Pattern.run .blank).piece]

theorem starOpening_accepts : starOpening.Accepts LineKind.docLine.Lead := by
  refine (Accepts.cons accepts_blanks
    (.cons (Pattern.accepts_exactly '*') accepts_blankRun)).congr fun w => ?_
  constructor
  · rintro ⟨u, _, rfl, hu, _, v, rfl, rfl, hv⟩
    exact ⟨u, v, rfl, hu, hv⟩
  · rintro ⟨u, v, rfl, hu, hv⟩
    exact ⟨u, _, rfl, hu, ['*'], v, rfl, rfl, hv⟩

theorem starOpening_eager : starOpening.Eager := by
  refine .cons_run (.cons_of_deterministic (eager_run .blank none) (Pattern.deterministic_one _)) ?_
  intro c a ha hblank
  refine places_of_not_contains ha ?_
  simp only [CharClass.contains] at hblank ⊢
  grind

/-- The bullet of a list item, and its check box if there is one. -/
def itemOpening : Expression :=
  [(Pattern.run .blank).piece, (Pattern.one .bullet).piece, (Pattern.one (.exactly ' ')).piece,
    (Pattern.opt (.group (.literal "[ ] ".toList))).piece]

theorem itemOpening_accepts : itemOpening.Accepts LineKind.listItem.Lead := by
  have hbox (w : List Char) :
      Spells "[ ] ".toList w ∨ w = [] ↔ w = "[ ] ".toList ∨ w = [] :=
    or_congr_left ⟨fun h => h.eq (by simp [Uncased, fold]), fun h => h ▸ .refl _⟩
  refine (Accepts.cons accepts_blanks (.cons (Pattern.accepts_one .bullet)
    (.cons (Pattern.accepts_exactly ' ')
      (.cons (Pattern.accepts_literal "[ ] ".toList).group.opt accepts_nil)))).congr fun w => ?_
  constructor
  · rintro ⟨u, _, rfl, hu, _, _, rfl, ⟨a, rfl, ha⟩, _, _, rfl, rfl, v, _, rfl, hv, rfl⟩
    refine ⟨u, a, v, by simp, hu, ?_, (hbox v).1 hv⟩
    simpa [CharClass.contains] using ha
  · rintro ⟨u, a, v, rfl, hu, ha, hv⟩
    refine ⟨u, _, rfl, hu, [a], _, rfl, ⟨a, rfl, ?_⟩, [' '], _, rfl, rfl, v, [], ?_, (hbox v).2 hv,
      rfl⟩
    · simpa [CharClass.contains] using ha
    · exact (List.append_nil v).symm

theorem itemOpening_eager : itemOpening.Eager := by
  have hbox : Eager [(Pattern.opt (.group (.literal "[ ] ".toList))).piece] :=
    eager_opt_literal (by decide) none
  refine .cons_run ((hbox.cons_of_deterministic (Pattern.deterministic_one _)).cons_of_deterministic
    (Pattern.deterministic_one _)) ?_
  intro c a ha hblank
  refine places_of_not_contains ha ?_
  simp only [CharClass.contains] at hblank ⊢
  grind

end Expression

/-! ## What follows the tag -/

/-- The text after the tag of a line in a comment, and the carriage return at its end. -/
def commentBody : Expression :=
  lineBody.take 3

theorem commentBody_accepts : commentBody.Accepts fun w => '\n' ∉ w ∧ ∃ rest ending,
    w = rest ++ ending ∧ LineKind.blockLine.Rest rest ∧ LineKind.blockLine.Ending ending := by
  refine (Expression.Accepts.cons (Pattern.accepts_run .separator)
    (.cons ((Pattern.accepts_one .bodyStart).seq (Pattern.accepts_run .bodyChar)).group.opt
      (.cons (Pattern.accepts_exactly '\r').opt Expression.accepts_nil))).congr fun w => ?_
  simp only [CharClass.contains, LineKind.blockLine]
  constructor
  · rintro ⟨u, _, rfl, hu, b, _, rfl, hb, e, _, rfl, he, rfl⟩
    have hsep : ∀ a ∈ u, a ≠ '\r' ∧ a ≠ '\n' ∧ a ≠ '*' ∧ a ≠ '/' := by grind
    have hbody : (∀ a ∈ b, a ≠ '\r' ∧ a ≠ '\n') ∧ ∀ a ∈ b.head?, a ≠ '*' ∧ a ≠ '/' := by
      rcases hb with ⟨_, t, rfl, ⟨a, rfl, ha⟩, ht⟩ | rfl
      · simp only [Bool.and_eq_true, bne_iff_ne] at ha ht
        grind
      · simp
    refine ⟨?_, u ++ b, e, by simp, ⟨?_, ?_⟩, he.symm⟩
    · grind
    · grind
    · cases u with
      | nil => exact hbody.2
      | cons a u => simpa using (hsep a List.mem_cons_self).2.2
  · rintro ⟨hfeed, rest, ending, rfl, ⟨hreturn, hhead⟩, hending⟩
    have hbody : ∀ a ∈ rest, a ≠ '\r' ∧ a ≠ '\n' := by grind
    cases rest with
    | nil =>
      exact ⟨[], _, rfl, by simp, [], _, rfl, .inr rfl, ending, [], by simp, hending.symm, rfl⟩
    | cons a rest =>
      -- the separators may be left to the text
      refine ⟨[], _, rfl, by simp, a :: rest, _, rfl, .inl ⟨[a], rest, rfl, ⟨a, rfl, ?_⟩, ?_⟩,
        ending, [], by simp, hending.symm, rfl⟩
      · simpa [and_assoc] using ⟨(hhead a rfl).1, (hhead a rfl).2, hbody a List.mem_cons_self⟩
      · simpa using fun b hb => hbody b (List.mem_cons_of_mem a hb)

theorem isSome_lineEnd {c : Cursor} :
    (Expression.partsAt [Pattern.lineEnd.piece] c).isSome ↔ c.atLineEnd = true := by
  rw [Expression.isSome_partsAt_cons, Pattern.piece, Pattern.ends]
  split <;> simp_all

/-- The text after the tag of a line in a comment goes on to the end of the line. -/
theorem isSome_lineBody_iff {c d : Cursor} {v : List Char} (hread : c.ReadsLine v d) :
    (lineBody.partsAt c).isSome ↔ ∃ rest ending, v = rest ++ ending ∧
      LineKind.blockLine.Rest rest ∧ LineKind.blockLine.Ending ending := by
  rw [show lineBody = commentBody ++ [Pattern.lineEnd.piece] from rfl,
    Expression.isSome_partsAt_append]
  constructor
  · rintro ⟨e, he, hsome⟩
    obtain ⟨w, hw, hfeed, hrest⟩ := (commentBody_accepts c e).1 he
    obtain ⟨rfl, -⟩ := hread.unique ⟨hw, hfeed, isSome_lineEnd.1 hsome⟩
    exact hrest
  · intro hrest
    exact ⟨d, (commentBody_accepts c d).2 ⟨v, hread.reads, hread.inLine, hrest⟩,
      isSome_lineEnd.2 hread.atLineEnd⟩

/-! ## Expressions for the kinds of lines -/

theorem plain_shape : LineKind.plain.Shape [(Pattern.run .blank).piece] restOfLine where
  lead := Expression.accepts_blankRun
  eager := Expression.eager_run .blank none
  no_tag := rfl
  lead_inLine _ := Blanks.feed_not_mem
  tail_stops _ _ _ h := (exists_of_restOfLine h).imp fun _ h => h.2
  tail_iff c d v _ := by
    simp [isSome_restOfLine, LineKind.plain]

theorem listItem_shape : LineKind.listItem.Shape Expression.itemOpening restOfLine where
  lead := Expression.itemOpening_accepts
  eager := Expression.itemOpening_eager
  no_tag := rfl
  lead_inLine := by
    rintro _ ⟨blanks, bullet, box, rfl, hblanks, hbullet, hbox⟩
    have hnot : '\n' ∉ bullet :: ' ' :: box := by
      rcases hbullet with rfl | rfl <;> rcases hbox with rfl | rfl <;> decide
    exact fun h => (List.mem_append.1 h).elim hblanks.feed_not_mem hnot
  tail_stops := plain_shape.tail_stops
  tail_iff := plain_shape.tail_iff

theorem blockLine_shape : LineKind.blockLine.Shape [(Pattern.run .blank).piece] lineBody where
  lead := plain_shape.lead
  eager := plain_shape.eager
  no_tag := rfl
  lead_inLine := plain_shape.lead_inLine
  tail_stops _ _ _ := exists_of_lineBody
  tail_iff _ _ _ := isSome_lineBody_iff

theorem docLine_shape : LineKind.docLine.Shape Expression.starOpening lineBody where
  lead := Expression.starOpening_accepts
  eager := Expression.starOpening_eager
  no_tag := rfl
  lead_inLine := by
    rintro _ ⟨u, v, rfl, hu, hv⟩
    simp [hu.feed_not_mem, hv.feed_not_mem]
  tail_stops := blockLine_shape.tail_stops
  tail_iff := blockLine_shape.tail_iff

/-! ## Plain texts and list items -/

/-- The first line of a plain text counts, and the rest of its match is the rest of the match. -/
theorem lineFindings_plain {language : String} {comments : Option CommentSyntax} {toggles : Toggles}
    {p : Profile} (hp : p = .of language comments toggles) (hscans : p.scansLines = true)
    (hplain : p.plainText = true) (hborrows : p.borrowsOpener = false) (tags : Registry)
    (s : Scope) :
    lineFindings p tags s =
      ((lineExpression p tags).findAll s.offset s.text).filterMap (·.finding? tags) := by
  have hfirst : p.ignoresFirstLine = false := by
    refine Bool.eq_false_iff.2 fun h => ?_
    subst hp
    rw [Profile.plainText_of, beq_iff_eq] at hplain
    exact absurd (hplain ▸ Profile.suppresses_of_ignores h) (by decide)
  rw [lineFindings_eq hscans]
  refine List.filterMap_congr fun m hm => ?_
  obtain ⟨ps, d, e, qs, front, word, hparts, htag, hps, hqs, hd, he, hword⟩ :=
    exists_tag_of_mem_matches (lineOpening_unnamed p .tag) hm
  rw [lineRest_eq hborrows] at hqs
  obtain ⟨w, rfl, -⟩ := exists_of_restOfLine hqs
  have hstop : m.lineStop = m.stop := by
    rw [Match.lineStop, Match.part?, hparts, hps.find?_append (lineOpening_unnamed p .rest)]
    rfl
  rw [Match.countedFinding?, hfirst, Match.lineFinding?, hstop]
  rfl

theorem Blanks.return_not_mem {w : List Char} (h : Blanks w) : '\r' ∉ w := fun hreturn =>
  (h _ hreturn).elim (by decide) (by decide)

end CommentTags
