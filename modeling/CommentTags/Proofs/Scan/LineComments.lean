import Mathlib
import CommentTags.Proofs.Pattern.Alternatives
import CommentTags.Proofs.Scan.Lines
import CommentTags.Proofs.Scan.Profiles
import CommentTags.Proofs.Text.LineEnds
import CommentTags.Proofs.Text.Trimming

/-!
# Line comments, line by line

A comment that runs to the end of its line is opened one or more times in a row, and after blanks it
begins with a tag.  For each line of a scope it is said what is to be found there: the comment that
begins first on the line, unless its tag is not registered in that letter case or the start of the
document does not count.  A scan finds exactly that.

The tags are matched up to simple case folding and then looked up by their lowercase.  In ASCII the
two agree, so every tag that is matched is found.

* `LineCut`, `LineCut.On`, `LineCut.First` — a line cut at the parts of a comment, and the comment
  that begins first.
* `LineOutcome` — what is found on a line, one constructor for each case.
* `isSome_lineExpression`, `exists_of_lineExpression` — the expression matches where there is such a
  cut, and only there.
* `find?_of_spells` — in ASCII, a tag that is matched is found.
* `lineFindings_lines` — line comments are found line by line.
-/

set_option autoImplicit false

namespace CommentTags

open Text

/-! ## Comments on a line -/

/-- The text is one of the words, up to letter case. -/
def SpellsOneOf (words : List (List Char)) (w : List Char) : Prop :=
  ∃ s ∈ words, Spells s w

/-- What a line comment begins with: openers, blanks and a tag. -/
structure TagOpening (openerWords : List (List Char)) (tags : Registry)
    (openers blanks word : List Char) : Prop where
  openers : ∃ n, 1 ≤ n ∧ Repeats (SpellsOneOf openerWords) n openers
  blanks : ∀ a ∈ blanks, a = ' ' ∨ a = '\t'
  word : SpellsOneOf tags.words word

/-- A line cut at the parts of a tagged comment on it. -/
structure LineCut where
  /-- What stands before the comment. -/
  front : List Char
  openers : List Char
  blanks : List Char
  /-- The text that is matched by a tag. -/
  word : List Char
  rest : List Char
  deriving Repr, DecidableEq

/-- The cut is that of a tagged comment. -/
structure LineCut.On (openerWords : List (List Char)) (tags : Registry) (line : List Char)
    (x : LineCut) : Prop where
  text : line = x.front ++ (x.openers ++ (x.blanks ++ (x.word ++ x.rest)))
  opening : TagOpening openerWords tags x.openers x.blanks x.word

/-- No tagged comment on the line begins earlier. -/
structure LineCut.First (openerWords : List (List Char)) (tags : Registry) (line : List Char)
    (x : LineCut) : Prop extends x.On openerWords tags line where
  le : ∀ y : LineCut, y.On openerWords tags line → x.front.length ≤ y.front.length

/-- A comment that begins here does not count: it stands at the very start of a document whose first
line is left out. -/
def Profile.Ignores (p : Profile) (offset : Nat) : Prop :=
  p.ignoresFirstLine = true ∧ offset = 0

/-- What is found on a line. -/
inductive LineOutcome (p : Profile) (tags : Registry) (line : Scope) : Option Finding → Prop
  /-- There is no tagged comment on the line. -/
  | absent (h : ∀ x : LineCut, ¬x.On p.openerWords tags line.text) : LineOutcome p tags line none
  /-- The first comment does not count. -/
  | ignored {x : LineCut} (hx : x.First p.openerWords tags line.text)
      (h : p.Ignores (line.offset + byteLength x.front)) : LineOutcome p tags line none
  /-- No tag has the lowercase of the text that was matched by a tag. -/
  | unknown {x : LineCut} (hx : x.First p.openerWords tags line.text)
      (h : ∀ w ∈ tags.words, lowercase w ≠ lowercase x.word) : LineOutcome p tags line none
  /-- From the tag up to the white space at the end of the line. -/
  | found {x : LineCut} {style : Nat} {body white : List Char}
      (hx : x.First p.openerWords tags line.text)
      (h : ¬p.Ignores (line.offset + byteLength x.front))
      (hstyle : tags.find? x.word = some style)
      (hrest : x.rest = body ++ white) (hwhite : ∀ a ∈ white, isWhite a = true)
      (hbody : ∀ a ∈ body.getLast?, isWhite a = false) :
      LineOutcome p tags line (some
        ⟨style, line.offset + byteLength (x.front ++ (x.openers ++ x.blanks)),
          line.offset + byteLength (x.front ++ (x.openers ++ (x.blanks ++ (x.word ++ body))))⟩)

/-! ## Texts on one line -/

theorem SpellsOneOf.not_mem {words : List (List Char)} {w : List Char} {a : Char} (ha : Uncased a)
    (h : SpellsOneOf words w) (hwords : ∀ s ∈ words, a ∉ s) : a ∉ w := by
  obtain ⟨s, hs, hsw⟩ := h
  exact hsw.not_mem ha (hwords s hs)

theorem SpellsOneOf.ne_nil {words : List (List Char)} {w : List Char} (hne : ∀ s ∈ words, s ≠ [])
    (h : SpellsOneOf words w) : w ≠ [] := by
  obtain ⟨s, hs, hsw⟩ := h
  exact List.ne_nil_of_length_pos (hsw.length_eq ▸ List.length_pos_of_ne_nil (hne s hs))

theorem SpellsOneOf.feed_not_mem {words : List (List Char)} {w : List Char}
    (h : SpellsOneOf words w) (hwords : ∀ s ∈ words, '\n' ∉ s) : '\n' ∉ w :=
  h.not_mem (by decide) hwords

namespace TagOpening

variable {openerWords : List (List Char)} {tags : Registry} {o b w : List Char}
  (h : TagOpening openerWords tags o b w)
include h

theorem feed_not_mem (ho : ∀ s ∈ openerWords, '\n' ∉ s) (ht : ∀ s ∈ tags.words, '\n' ∉ s) :
    '\n' ∉ o ++ (b ++ w) := by
  obtain ⟨n, -, hn⟩ := h.openers
  have hopeners := hn.forall_mem (P := (· ≠ '\n'))
    fun u hu a ha hfeed => hu.feed_not_mem ho (hfeed ▸ ha)
  rw [List.mem_append, List.mem_append, not_or, not_or]
  refine ⟨fun hfeed => hopeners _ hfeed rfl, fun hfeed => ?_, h.word.feed_not_mem ht⟩
  exact (h.blanks _ hfeed).elim (by decide) (by decide)

theorem openers_ne_nil (hne : ∀ s ∈ openerWords, s ≠ []) : o ≠ [] := by
  obtain ⟨n, hn, hrep⟩ := h.openers
  exact hrep.ne_nil (fun _ => SpellsOneOf.ne_nil hne) hn

end TagOpening

/-! ## The expression of a line comment -/

theorem accepts_blanks :
    (Pattern.run .blank).Accepts fun w => ∀ a ∈ w, a = ' ' ∨ a = '\t' := by
  intro c d
  rw [Pattern.accepts_run .blank c d]
  simp [CharClass.contains]

theorem forall_inLine_iff {w : List Char} :
    (∀ a ∈ w, CharClass.inLine.contains a = true) ↔ '\n' ∉ w := by
  simp only [CharClass.contains, bne_iff_ne]
  exact ⟨fun h hfeed => h _ hfeed rfl, fun h a ha hfeed => h (hfeed ▸ ha)⟩

theorem accepts_inLine : (Pattern.run .inLine).Accepts fun w => '\n' ∉ w := by
  intro c d
  rw [Pattern.accepts_run .inLine c d]
  simp only [forall_inLine_iff]

/-- All of the rest of a line. -/
def restOfLine : Expression :=
  [(Pattern.run .inLine).named .rest]

theorem isSome_restOfLine (c : Cursor) : (restOfLine.partsAt c).isSome := by
  rw [restOfLine, Expression.isSome_partsAt_cons]
  exact ⟨c, (accepts_inLine c c).2 ⟨[], .refl c, by simp⟩, rfl⟩

/-- The rest of a line goes on to the end of the line. -/
theorem exists_of_restOfLine {c stop : Cursor} {parts : List Part}
    (h : restOfLine.partsAt c = some (parts, stop)) :
    ∃ w, parts = [⟨some .rest, c, stop⟩] ∧ c.ReadsLine w stop := by
  have hpairs : ((Pattern.run .inLine).ends c).Pairwise fun d e => d.rest.length < e.rest.length :=
    List.pairwise_reverse.2 (pairwise_classRuns .inLine c.offset c.before c.rest)
  obtain ⟨d, hd, _, rfl, hnil, hfirst⟩ := Expression.exists_of_partsAt_cons hpairs h
  obtain ⟨rfl, rfl⟩ := Prod.mk.inj (Option.some_inj.1 hnil)
  obtain ⟨w, hw, hline⟩ := (accepts_inLine c d).1 hd
  refine ⟨w, rfl, hw, hline, ?_⟩
  rw [Cursor.atLineEnd]
  split
  · rfl
  · next a rest hrest =>
    by_contra ha
    -- one more character could be read, and reading more comes first
    obtain ⟨e, hread, -⟩ := Cursor.exists_reads (v := [a]) hrest
    have hmem : e ∈ (Pattern.run .inLine).ends c := by
      refine (accepts_inLine c e).2 ⟨w ++ [a], hw.trans hread, ?_⟩
      simp only [List.mem_append, List.mem_singleton, not_or]
      exact ⟨hline, fun h => ha (beq_iff_eq.2 h.symm)⟩
    have hlen := hread.length_eq
    rw [List.length_singleton] at hlen
    rcases hfirst e hmem rfl with rfl | hlt
    · omega
    · omega

section

variable {p : Profile} {tags : Registry} (hplain : p.plainText = false)
  (hne : ∀ w ∈ p.openerWords, w ≠ [])
include hplain hne

omit hne in
theorem lineExpression_eq :
    lineExpression p tags = (Pattern.plus (.group (.oneOf p.openerWords))).piece ::
      (Pattern.run .blank).piece :: tagPiece tags :: lineRest p := by
  rw [lineExpression, lineOpening, hplain]
  rfl

omit hplain in
theorem accepts_lineOpeners : (Pattern.plus (.group (.oneOf p.openerWords))).Accepts
    fun w => ∃ n, 1 ≤ n ∧ Repeats (SpellsOneOf p.openerWords) n w :=
  (Pattern.accepts_oneOf p.openerWords).group.plus fun _ => SpellsOneOf.ne_nil hne

/-- A match begins with openers, blanks and a tag. -/
theorem exists_of_lineExpression {c stop : Cursor} {parts : List Part}
    (h : (lineExpression p tags).partsAt c = some (parts, stop)) :
    ∃ (d d' e : Cursor) (o b w : List Char) (qs : List Part),
      parts = ⟨none, c, d⟩ :: ⟨none, d, d'⟩ :: ⟨some .tag, d', e⟩ :: qs ∧
      (lineRest p).partsAt e = some (qs, stop) ∧ c.Reads (o ++ b) d' ∧ d'.Reads w e ∧
      TagOpening p.openerWords tags o b w := by
  rw [lineExpression_eq hplain] at h
  obtain ⟨d, hd, _, rfl, hrest⟩ := Expression.exists_mem_of_partsAt_cons h
  obtain ⟨d', hd', _, rfl, hrest'⟩ := Expression.exists_mem_of_partsAt_cons hrest
  obtain ⟨e, he, qs, rfl, hqs⟩ := Expression.exists_mem_of_partsAt_cons hrest'
  obtain ⟨o, ho, hopeners⟩ := (accepts_lineOpeners hne c d).1 hd
  obtain ⟨b, hb, hblanks⟩ := (accepts_blanks d d').1 hd'
  obtain ⟨w, hw, hword⟩ := (Pattern.accepts_oneOf tags.words d' e).1 he
  exact ⟨d, d', e, o, b, w, qs, rfl, hqs, ho.trans hb, hw, hopeners, hblanks, hword⟩

/-- Wherever a tag stands after openers and blanks, a comment begins. -/
theorem isSome_lineExpression {c : Cursor} {o b w rest : List Char}
    (hc : c.rest = o ++ (b ++ (w ++ rest))) (hopening : TagOpening p.openerWords tags o b w)
    (hrest : ∀ e : Cursor, e.rest = rest → ((lineRest p).partsAt e).isSome) :
    ((lineExpression p tags).partsAt c).isSome := by
  obtain ⟨d, ho, hd⟩ := Cursor.exists_reads hc
  obtain ⟨d', hb, hd'⟩ := Cursor.exists_reads hd
  obtain ⟨e, hw, he⟩ := Cursor.exists_reads hd'
  rw [lineExpression_eq hplain, Expression.isSome_partsAt_cons]
  refine ⟨d, (accepts_lineOpeners hne c d).2 ⟨o, ho, hopening.openers⟩, ?_⟩
  rw [Expression.isSome_partsAt_cons]
  refine ⟨d', (accepts_blanks d d').2 ⟨b, hb, hopening.blanks⟩, ?_⟩
  rw [Expression.isSome_partsAt_cons]
  exact ⟨e, (Pattern.accepts_oneOf tags.words d' e).2 ⟨w, hw, hopening.word⟩, hrest e he⟩

end

/-! ## What is found on each line -/

/-- What is found where a line comment begins. -/
def Match.countedFinding? (p : Profile) (tags : Registry) (m : Match) : Option Finding :=
  if p.ignoresFirstLine && m.start.offset == 0 then none else m.lineFinding? tags

theorem lineFindings_eq {p : Profile} (h : p.scansLines = true) (tags : Registry) (s : Scope) :
    lineFindings p tags s = ((lineExpression p tags).findAll s.offset s.text).filterMap
      (·.countedFinding? p tags) := by
  rw [lineFindings, if_pos h]
  rfl

theorem Registry.find?_eq_none_iff {tags : Registry} {word : List Char} :
    tags.find? word = none ↔ ∀ w ∈ tags.words, lowercase w ≠ lowercase word := by
  rw [Registry.find?, List.findIdx?_eq_none_iff]
  simp only [beq_eq_false_iff_ne]

/-- Where the first comment counts, the lowercase of what was matched by a tag decides. -/
theorem LineCut.First.outcome {p : Profile} {tags : Registry} {line : Scope} {x : LineCut}
    (hx : x.First p.openerWords tags line.text)
    (hcounts : ¬p.Ignores (line.offset + byteLength x.front)) :
    LineOutcome p tags line ((tags.find? x.word).map fun style =>
      ⟨style, line.offset + byteLength (x.front ++ (x.openers ++ x.blanks)),
        line.offset + byteLength
          (x.front ++ (x.openers ++ (x.blanks ++ (x.word ++ trimEnd x.rest))))⟩) := by
  cases hstyle : tags.find? x.word with
  | none => exact .unknown hx (Registry.find?_eq_none_iff.1 hstyle)
  | some style =>
    obtain ⟨white, hrest, hwhite⟩ := exists_trimEnd_append x.rest
    exact .found hx hcounts hstyle hrest hwhite fun a ha => isWhite_of_mem_getLast?_trimEnd ha

section

variable {p : Profile} {tags : Registry} (hplain : p.plainText = false)
  (hborrows : p.borrowsOpener = false) (hne : ∀ w ∈ p.openerWords, w ≠ [])
  (hopeners : ∀ w ∈ p.openerWords, '\n' ∉ w) (htags : ∀ w ∈ tags.words, '\n' ∉ w)
include hplain hborrows hne

omit hplain hne in
theorem lineRest_eq : lineRest p = restOfLine := by
  rw [lineRest, hborrows]
  rfl

/-- A comment on the line is a match at the place where it begins. -/
theorem LineCut.On.exists_isSome_partsAt {c : Cursor} {line : Scope} {tail : List Char}
    {x : LineCut} (hx : x.On p.openerWords tags line.text) (hc : c.BeginsLine line tail) :
    ∃ d, c.Reads x.front d ∧ ((lineExpression p tags).partsAt d).isSome := by
  obtain ⟨d, hd, hrest⟩ := Cursor.exists_reads (c := c) (v := x.front)
    (w := x.openers ++ (x.blanks ++ (x.word ++ (x.rest ++ tail)))) (by
      rw [hc.rest, hx.text]
      simp only [List.append_assoc])
  refine ⟨d, hd, isSome_lineExpression hplain hne hrest hx.opening fun e _ => ?_⟩
  rw [lineRest_eq hborrows]
  exact isSome_restOfLine e

include hopeners htags

theorem lineExpression_takesLine : (lineExpression p tags).TakesLine := by
  intro c stop parts h
  obtain ⟨d, d', e, o, b, w, qs, -, hqs, hob, hw, hopening⟩ := exists_of_lineExpression hplain hne h
  rw [lineRest_eq hborrows] at hqs
  obtain ⟨v, -, hv, hline, hend⟩ := exists_of_restOfLine hqs
  refine ⟨o ++ b ++ w ++ v, ?_, (hob.trans hw).trans hv, ?_, hend⟩
  · have ho := hopening.openers_ne_nil hne
    simp [ho]
  · rw [List.mem_append, not_or, List.append_assoc]
    exact ⟨hopening.feed_not_mem hopeners htags, hline⟩

/-- The match that comes first on a line is the first comment there. -/
theorem exists_first_of_firstOn {c : Cursor} {line : Scope} {tail : List Char} {m : Match}
    (hc : c.BeginsLine line tail) (h : (lineExpression p tags).FirstOn c line.text (some m)) :
    ∃ (x : LineCut) (d e : Cursor), x.First p.openerWords tags line.text ∧
      m.part? .tag = some ⟨some .tag, d, e⟩ ∧ m.lineStop = m.stop ∧
      c.Reads x.front m.start ∧ m.start.Reads (x.openers ++ x.blanks) d ∧ d.Reads x.word e ∧
      e.Reads x.rest m.stop := by
  obtain ⟨hm, front, v, htext, hfront, hleast⟩ := h
  obtain ⟨_, d, e, o, b, w, qs, hparts, hqs, hob, hw, hopening⟩ :=
    exists_of_lineExpression hplain hne hm
  rw [lineRest_eq hborrows] at hqs
  obtain ⟨rest, rfl, hrest, hline, hend⟩ := exists_of_restOfLine hqs
  -- the match runs to the end of the line
  have hread : m.start.Reads (o ++ (b ++ w) ++ rest) m.stop := by
    simpa only [List.append_assoc] using (hob.trans hw).trans hrest
  have hstart : m.start.rest = v ++ tail := by
    have h := hfront.rest.symm.trans (hc.rest.trans (congrArg (· ++ tail) htext))
    rw [List.append_assoc] at h
    exact List.append_cancel_left h
  -- there is no line feed in what is read, so it is all of the line from there on
  obtain ⟨rfl, -⟩ : v = o ++ (b ++ w) ++ rest ∧ tail = m.stop.rest := by
    refine append_line_inj (hstart.symm.trans hread.rest) ?_ ?_ hc.tail
      (Cursor.head?_of_atLineEnd hend)
    · exact fun hfeed => hc.inLine (htext ▸ List.mem_append_right front hfeed)
    · rw [List.mem_append, not_or]
      exact ⟨hopening.feed_not_mem hopeners htags, hline⟩
  have hcut : LineCut.On p.openerWords tags line.text ⟨front, o, b, w, rest⟩ :=
    ⟨by rw [htext]; simp only [List.append_assoc], hopening⟩
  have htag : m.part? .tag = some ⟨some .tag, d, e⟩ := by
    rw [Match.part?, hparts]
    rfl
  have hstop : m.lineStop = m.stop := by
    rw [Match.lineStop, Match.part?, hparts]
    rfl
  refine ⟨⟨front, o, b, w, rest⟩, d, e, ⟨hcut, fun y hy => ?_⟩, htag, hstop, hfront, hob, hw, hrest⟩
  -- an earlier comment would be an earlier match
  by_contra hlt
  obtain ⟨x, hx, hsome⟩ := hy.exists_isSome_partsAt hplain hborrows hne hc
  rw [hleast _ _ x hy.text (Nat.lt_of_not_le hlt) hx] at hsome
  exact Bool.noConfusion hsome

/-- The first match on a line decides what is found there. -/
theorem lineOutcome_of_firstOn {c : Cursor} {line : Scope} {tail : List Char} {m? : Option Match}
    (hc : c.BeginsLine line tail) (h : (lineExpression p tags).FirstOn c line.text m?) :
    LineOutcome p tags line (m?.bind (·.countedFinding? p tags)) := by
  cases m? with
  | none =>
    refine .absent fun x hx => ?_
    obtain ⟨d, hd, hsome⟩ := hx.exists_isSome_partsAt hplain hborrows hne hc
    rw [h _ _ d hx.text hd] at hsome
    exact Bool.noConfusion hsome
  | some m =>
    obtain ⟨x, d, e, hx, htag, hstop, hfront, hopen, hword, hrest⟩ :=
      exists_first_of_firstOn hplain hborrows hne hopeners htags hc h
    have hoffset : m.start.offset = line.offset + byteLength x.front := by
      rw [hfront.offset, hc.offset]
    rw [Option.bind_some, Match.countedFinding?]
    split
    · next hi =>
      rw [Bool.and_eq_true, beq_iff_eq, hoffset] at hi
      exact .ignored hx hi
    · next hi =>
      rw [Bool.and_eq_true, beq_iff_eq, hoffset] at hi
      have hstart : d.offset = line.offset + byteLength (x.front ++ (x.openers ++ x.blanks)) := by
        rw [(hfront.trans hopen).offset, hc.offset]
      rw [Match.lineFinding?, htag, Option.bind_some, findingAt?, Part.text, hword.upTo_eq, hstop,
        hrest.upTo_eq, hword.offset, hstart]
      simpa only [byteLength_append, Nat.add_assoc] using hx.outcome hi

end

/-! ## All lines of a scope -/

/-- **In ASCII, a tag that is matched is found.** -/
theorem find?_of_spells {tags : Registry} {word : List Char}
    (htags : ∀ w ∈ tags.words, ∀ a ∈ w, a.toNat < 0x80) (hword : ∀ a ∈ word, a.toNat < 0x80)
    (h : SpellsOneOf tags.words word) : (tags.find? word).isSome := by
  obtain ⟨w, hw, hspells⟩ := h
  have hlower := spells_iff.1 hspells
  rw [map_fold_of_ascii (htags w hw), map_fold_of_ascii hword] at hlower
  rw [Registry.find?, List.findIdx?_isSome, List.any_eq_true]
  refine ⟨w, hw, beq_iff_eq.2 ?_⟩
  rw [lowercase, lowercase, lowercaseAfter_of_ascii (htags w hw), lowercaseAfter_of_ascii hword,
    hlower]

/-- **Line comments are found line by line.**  On each line the first comment decides, and there is
no finding without one; in ASCII every tag that is matched is found. -/
theorem lineFindings_lines {language : String} {comments : Option CommentSyntax} {toggles : Toggles}
    {p : Profile} {tags : Registry} (hp : p = .of language comments toggles)
    (hscans : p.scansLines = true) (hplain : p.plainText = false)
    (hborrows : p.borrowsOpener = false) (hopeners : ∀ w ∈ p.openerWords, '\n' ∉ w)
    (htags : ∀ w ∈ tags.words, '\n' ∉ w) (s : Scope) :
    (∃ outcomes, List.Forall₂ (LineOutcome p tags) s.lines outcomes ∧
      lineFindings p tags s = outcomes.reduceOption) ∧
    ((∀ a ∈ s.text, a.toNat < 0x80) → (∀ w ∈ tags.words, ∀ a ∈ w, a.toNat < 0x80) →
      ∀ line ∈ s.lines, ∀ x : LineCut, x.On p.openerWords tags line.text →
        (tags.find? x.word).isSome) := by
  have hne : ∀ w ∈ p.openerWords, w ≠ [] := hp ▸ Profile.ne_nil_of_mem_openerWords
  refine ⟨?_, fun hs hwords line hline x hx =>
    find?_of_spells hwords (fun a ha => ?_) hx.opening.word⟩
  · obtain ⟨ms, hms, hfind⟩ :=
      (lineExpression_takesLine hplain hborrows hne hopeners htags).findAll_lines s
    refine ⟨ms.map fun m? => m?.bind (·.countedFinding? p tags), ?_, ?_⟩
    · refine List.forall₂_map_right_iff.2 (hms.imp ?_)
      rintro line m? ⟨c, tail, hc, hfirst⟩
      exact lineOutcome_of_firstOn hplain hborrows hne hopeners htags hc hfirst
    · rw [lineFindings_eq hscans, hfind, List.reduceOption, List.reduceOption,
        List.filterMap_filterMap, List.filterMap_map]
      rfl
  · obtain ⟨front, back, htext, -⟩ := Scope.within_of_mem_lines hline
    refine hs a ?_
    rw [htext, hx.text]
    simp [ha]

set_option maxRecDepth 20000 in
/-- A line whose delimiters are taken for a tag, one with blanks at its end, and one without a
comment. -/
theorem lineFindings_lines_slashes :
    let p := Profile.of "rust" (some ⟨some (.single "//"), none⟩) {}
    let tags : Registry := ⟨[⟨"//", {}⟩, ⟨"todo", {}⟩]⟩
    let s : Scope := ⟨5, "////a\nx // Todo: b \nc".toList⟩
    s.lines = [⟨5, "////a".toList⟩, ⟨11, "x // Todo: b ".toList⟩, ⟨25, "c".toList⟩] ∧
      lineFindings p tags s = [⟨0, 7, 10⟩, ⟨1, 16, 23⟩] ∧
      ∃ outcomes, List.Forall₂ (LineOutcome p tags) s.lines outcomes ∧
        lineFindings p tags s = outcomes.reduceOption :=
  ⟨by cbv, by cbv, (lineFindings_lines rfl (by decide) (by decide) (by decide) (by decide)
    (by decide) _).1⟩

end CommentTags
