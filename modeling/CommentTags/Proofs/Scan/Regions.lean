import Mathlib
import CommentTags.Proofs.Pattern.Preference
import CommentTags.Proofs.Scan.Placement

/-!
# The block comments of a scope

A block comment begins at the start of a line or with a blank, is opened several times in a row, and
goes on to the first text that closes it.  What a scan owes are regions in order that do not
overlap, each of them such a comment, and none of them missing.

* `Enclosure` — a text cut at the parts of a comment; `Enclosure.In` says what is asked of the cut:
  the comment is opened as often as a closing text after the openers allows, and nothing closes it
  before its end.
* `FoundIn` — the regions are the comments of a scope, without loss or overlap.
* `enclosing`, `OpensWith` — the expressions for such comments, which differ in their openers only.
* `exists_enclosure_of_mem_findAll`, `exists_match_over_opener` — every match is a comment, and no
  comment is missed.
* `regions_enclosing` — shown once for all expressions of this shape.
* `blockRegions_foundIn` — the block comments of a language, and documentation comments.
-/

set_option autoImplicit false

namespace CommentTags

open Text

/-! ## Comments in a text -/

/-- A text cut at the parts of a comment that stands in it. -/
structure Enclosure where
  /-- What stands before the comment. -/
  front : List Char
  /-- The blank that the comment begins with, or nothing. -/
  place : List Char
  openers : List Char
  interior : List Char
  close : List Char
  /-- What stands after the comment. -/
  back : List Char
  deriving Repr, DecidableEq

/-- A comment may begin here: at the start of a line, or with a blank. -/
def OpeningPlace (front place : List Char) : Prop :=
  (place = [] ∧ ∀ a ∈ front.getLast?, a = '\n') ∨ place = [' '] ∨ place = ['\t']

/-- The cut is that of a comment with openers of the kind `Q`, which is closed by `word`. -/
structure Enclosure.In (Q : List Char → Prop) (word text : List Char) (x : Enclosure) : Prop where
  text : text = x.front ++ (x.place ++ (x.openers ++ (x.interior ++ (x.close ++ x.back))))
  place : OpeningPlace x.front x.place
  /-- The comment is opened at least once, and not more often because nothing would close it. -/
  openers : ∃ n, 1 ≤ n ∧ Repeats Q n x.openers ∧
    ∀ m more later, x.openers ++ (x.interior ++ (x.close ++ x.back)) = more ++ later →
      Repeats Q m more → Occurs word later → m ≤ n
  /-- Nothing in the interior begins what closes the comment. -/
  interior : ∀ u v, x.interior = u ++ v → v ≠ [] → ¬StandsAt word (v ++ (x.close ++ x.back))
  close : Spells word x.close

/-- The region is the comment, and its interior the interior of the comment. -/
structure Region.Covers (s : Scope) (r : Region) (x : Enclosure) : Prop where
  start : r.start = s.offset + byteLength x.front
  interior_start : r.interior.start.offset = r.start + byteLength (x.place ++ x.openers)
  interior_text : r.interior.text = x.interior
  stop : r.stop = r.interior.start.offset + byteLength (x.interior ++ x.close)

/-- Where the interior lies in the scope. -/
theorem Region.Covers.scope_eq {Q : List Char → Prop} {word : List Char} {s : Scope} {r : Region}
    {x : Enclosure} (h : r.Covers s x) (hx : x.In Q word s.text) :
    s.text = x.front ++ (x.place ++ x.openers) ++ (r.scope.text ++ (x.close ++ x.back)) ∧
      r.scope.offset = s.offset + byteLength (x.front ++ (x.place ++ x.openers)) := by
  refine ⟨?_, ?_⟩
  · rw [hx.text, Region.scope, h.interior_text]
    simp only [List.append_assoc]
  · rw [Region.scope, byteLength_append, ← Nat.add_assoc, ← h.start]
    exact h.interior_start

/-- The regions are the comments of a scope, without loss or overlap. -/
structure FoundIn (Q : List Char → Prop) (word : List Char) (s : Scope) (found : List Region) :
    Prop where
  ordered : found.Pairwise fun r r' => r.start < r'.start ∧ r.stop ≤ r'.start
  enclosed : ∀ r ∈ found, ∃ x : Enclosure, x.In Q word s.text ∧ r.Covers s x
  /-- Wherever an opener stands that something closes later, there is a region. -/
  complete : ∀ front place opener later, s.text = front ++ (place ++ (opener ++ later)) →
    OpeningPlace front place → Q opener → Occurs word later →
    ∃ r ∈ found, r.start ≤ s.offset + byteLength front ∧ s.offset + byteLength front < r.stop

/-! ## The expression of a comment -/

/-- What closes a comment. -/
def closing (word : List Char) : Expression :=
  [(Pattern.group (.literal word)).piece]

/-- The interior of a comment and what closes it. -/
def interiorUpTo (word : List Char) : Expression :=
  (Pattern.lazyRun .any).named .interior :: closing word

/-- A comment from its openers on. -/
def openedBy (opener : Pattern) (word : List Char) : Expression :=
  (Pattern.plus (.group opener)).piece :: interiorUpTo word

/-- A comment between openers and a text that closes it. -/
def enclosing (opener : Pattern) (word : List Char) : Expression :=
  openingPlace :: openedBy opener word

/-- The opener of a comment reads texts of one kind, which all have the same length. -/
structure OpensWith (opener : Pattern) (Q : List Char → Prop) (length : Nat) : Prop where
  accepts : opener.Accepts Q
  deterministic : opener.Deterministic
  length_eq : ∀ w, Q w → w.length = length
  length_pos : 0 < length

theorem OpensWith.ne_nil {opener : Pattern} {Q : List Char → Prop} {length : Nat}
    (h : OpensWith opener Q length) (w : List Char) (hw : Q w) : w ≠ [] :=
  List.ne_nil_of_length_pos (h.length_eq w hw ▸ h.length_pos)

section

variable {word : List Char} {c d : Cursor}

theorem isSome_closing_iff : ((closing word).partsAt c).isSome ↔ StandsAt word c.rest := by
  rw [closing, Expression.isSome_partsAt_cons, ← isSome_literalEnd_iff, Option.isSome_iff_exists]
  simp [Pattern.piece, Pattern.ends]

theorem isSome_interiorUpTo_iff :
    ((interiorUpTo word).partsAt c).isSome ↔ Occurs word c.rest := by
  rw [interiorUpTo, Expression.isSome_partsAt_cons]
  constructor
  · rintro ⟨d, hd, h⟩
    obtain ⟨u, hu, -⟩ := (Pattern.accepts_lazyRun .any c d).1 hd
    exact ⟨u, d.rest, hu.rest, isSome_closing_iff.1 h⟩
  · rintro ⟨u, v, hrest, h⟩
    obtain ⟨d, hu, rfl⟩ := Cursor.exists_reads hrest
    exact ⟨d, (Pattern.accepts_lazyRun .any c d).2 ⟨u, hu, fun _ _ => rfl⟩,
      isSome_closing_iff.2 h⟩

/-- The interior goes on to the first text that closes the comment. -/
theorem exists_of_interiorUpTo {parts : List Part} {stop : Cursor}
    (h : (interiorUpTo word).partsAt c = some (parts, stop)) :
    ∃ d u w, parts = [⟨some .interior, c, d⟩, ⟨none, d, stop⟩] ∧ c.Reads u d ∧ d.Reads w stop ∧
      Spells word w ∧ ∀ x y, u = x ++ y → y ≠ [] → ¬StandsAt word (y ++ d.rest) := by
  obtain ⟨d, u, ps, rfl, hps, hu, -, hfirst⟩ := Expression.exists_of_partsAt_lazyRun h
  obtain ⟨e, he, qs, rfl, hnil⟩ := Expression.exists_mem_of_partsAt_cons hps
  obtain ⟨w, hw, hword⟩ := (Pattern.accepts_literal word d e).1 he
  obtain ⟨rfl, rfl⟩ : [] = qs ∧ e = stop := Prod.mk.inj (Option.some_inj.1 hnil)
  refine ⟨d, u, w, rfl, hu, hw, hword, fun x y hxy hy hstands => ?_⟩
  -- the run would have stopped where the text stands
  obtain ⟨e', hread, hnone⟩ := hfirst x y hxy hy
  have hsome := isSome_closing_iff.2 (hread.rest ▸ hstands)
  rw [hnone] at hsome
  exact Bool.noConfusion hsome

theorem mem_ends_openingPlace : d ∈ openingPlace.pattern.ends c ↔
    ∃ w, c.Reads w d ∧ (w = [] ∧ c.atLineStart = true ∨ w = [' '] ∨ w = ['\t']) := by
  have hends : openingPlace.pattern.ends c =
      (if c.atLineStart then [c] else []) ++ (Pattern.one .blank).ends c := rfl
  rw [hends, List.mem_append, Pattern.accepts_one .blank c d]
  constructor
  · rintro (hd | ⟨w, hw, a, rfl, ha⟩)
    · split at hd
      · next hstart =>
        rw [List.mem_singleton.1 hd]
        exact ⟨[], .refl c, .inl ⟨rfl, hstart⟩⟩
      · simp at hd
    · refine ⟨[a], hw, .inr ?_⟩
      simpa [CharClass.contains] using ha
  · rintro ⟨w, hw, ⟨rfl, hstart⟩ | rfl | rfl⟩
    · rw [if_pos hstart, hw.unique (.refl c)]
      exact .inl (List.mem_singleton_self c)
    · exact .inr ⟨[' '], hw, ' ', rfl, rfl⟩
    · exact .inr ⟨['\t'], hw, '\t', rfl, rfl⟩

/-- The start of a line, seen from the start of the scope. -/
theorem atLineStart_iff {s : Scope} {front : List Char} (hc : s.start.Reads front c) :
    c.atLineStart = true ↔ ∀ a ∈ front.getLast?, a = '\n' := by
  have hbefore : c.before = front.getLast? := by
    rw [hc.before]
    exact Option.or_none
  rw [Cursor.atLineStart, hbefore]
  cases front.getLast? <;> simp

section

variable {opener : Pattern} {Q : List Char → Prop} {length : Nat} (ho : OpensWith opener Q length)
include ho

theorem OpensWith.accepts_plus :
    (Pattern.plus (.group opener)).Accepts fun w => ∃ n, 1 ≤ n ∧ Repeats Q n w :=
  ho.accepts.group.plus ho.ne_nil

/-- One opener is enough, if something closes the comment after it. -/
theorem isSome_openedBy {u : List Char} (hu : c.Reads u d) (hQ : Q u) (hd : Occurs word d.rest) :
    ((openedBy opener word).partsAt c).isSome := by
  rw [openedBy, Expression.isSome_partsAt_cons]
  exact ⟨d, (ho.accepts_plus c d).2 ⟨u, hu, 1, Nat.le_refl 1, .one hQ⟩,
    isSome_interiorUpTo_iff.2 hd⟩

/-- The comment is opened as often as possible. -/
theorem exists_of_openedBy {parts : List Part} {stop : Cursor}
    (h : (openedBy opener word).partsAt c = some (parts, stop)) :
    ∃ d ps w n, parts = ⟨none, c, d⟩ :: ps ∧ (interiorUpTo word).partsAt d = some (ps, stop) ∧
      c.Reads w d ∧ 1 ≤ n ∧ Repeats Q n w ∧
      ∀ m more later, c.rest = more ++ later → Repeats Q m more → Occurs word later → m ≤ n := by
  have hpairs := Pattern.Deterministic.pairwise_oneOrMore (p := .group opener) ho.deterministic
    (fun c d hd => ho.accepts.length_lt ho.ne_nil hd) c
  obtain ⟨d, hd, ps, rfl, hps, hfirst⟩ := Expression.exists_of_partsAt_cons hpairs h
  obtain ⟨w, hw, n, hn, hrep⟩ := (ho.accepts_plus c d).1 hd
  refine ⟨d, ps, w, n, rfl, hps, hw, hn, hrep, ?_⟩
  rintro m more later hrest hmore hlater
  by_contra hlt
  obtain ⟨e, he, rfl⟩ := Cursor.exists_reads hrest
  -- more openers lead further, and such places come first
  have hfar : e.rest.length < d.rest.length := by
    have h1 := hw.length_eq
    have h2 := he.length_eq
    have h3 := Nat.mul_lt_mul_of_pos_right (Nat.lt_of_not_le hlt) ho.length_pos
    rw [hrep.length_eq ho.length_eq] at h1
    rw [hmore.length_eq ho.length_eq] at h2
    omega
  have hmem := (ho.accepts_plus c e).2 ⟨more, he, m, by omega, hmore⟩
  rcases hfirst e hmem (isSome_interiorUpTo_iff.2 hlater) with rfl | hlt'
  · omega
  · omega

theorem enclosing_neverEmpty : (enclosing opener word).NeverEmpty := by
  intro c stop parts h
  cases Expression.splits_of_partsAt h with
  | cons hplace h =>
    cases h with
    | cons hopeners h =>
      obtain ⟨u, hu⟩ := Pattern.exists_reads hplace
      obtain ⟨w, hw⟩ := h.exists_reads
      obtain ⟨v, hv, n, hn, hrep⟩ := (ho.accepts_plus _ _).1 hopeners
      have hlen := hrep.length_eq ho.length_eq
      have hpos := Nat.mul_pos hn ho.length_pos
      have h1 := hu.length_le
      have h2 := hv.length_eq
      have h3 := hw.length_le
      omega

/-- The match that begins at a place of a scope is a comment there. -/
theorem exists_enclosure {s : Scope} {front : List Char} {parts : List Part} {stop : Cursor}
    (hc : s.start.Reads front c) (h : (enclosing opener word).partsAt c = some (parts, stop)) :
    ∃ (x : Enclosure) (p q r t : Part), x.In Q word s.text ∧ x.front = front ∧
      parts = [p, q, r, t] ∧ p.name = none ∧ q.name = none ∧ r.name = some .interior ∧
      c.Reads (x.place ++ x.openers) r.start ∧ r.start.Reads x.interior r.stop ∧
      r.stop.Reads x.close stop := by
  obtain ⟨d, hd, ps, rfl, hps⟩ := Expression.exists_mem_of_partsAt_cons h
  obtain ⟨place, hplace, hcases⟩ := mem_ends_openingPlace.1 hd
  obtain ⟨e, qs, openers, n, rfl, hqs, hopeners, hn, hrep, hmost⟩ := exists_of_openedBy ho hps
  obtain ⟨e', interior, close, rfl, hinterior, hclose, hword, hfirst⟩ := exists_of_interiorUpTo hqs
  refine ⟨⟨front, place, openers, interior, close, stop.rest⟩, _, _, _, _, ?_, rfl, rfl, rfl, rfl,
    rfl, hplace.trans hopeners, hinterior, hclose⟩
  have hrest : d.rest = openers ++ (interior ++ (close ++ stop.rest)) := by
    rw [hopeners.rest, hinterior.rest, hclose.rest]
  refine ⟨?_, ?_, ⟨n, hn, hrep, hrest ▸ hmost⟩, hclose.rest ▸ hfirst, hword⟩
  · rw [← hrest, ← hplace.rest, ← hc.rest]
    rfl
  · exact hcases.imp_left (And.imp_right (atLineStart_iff hc).1)

/-- Every match of a search is a comment. -/
theorem exists_enclosure_of_mem_findAll {s : Scope} {m : Match}
    (hm : m ∈ (enclosing opener word).findAll s.offset s.text) :
    ∃ (x : Enclosure) (interior : Part), m.part? .interior = some interior ∧
      x.In Q word s.text ∧ Region.Covers s ⟨m.start.offset, m.stop.offset, interior⟩ x := by
  obtain ⟨front, hfront, -⟩ := Expression.exists_reads_of_mem_findAll hm
  obtain ⟨x, p, q, r, t, hx, rfl, hparts, hp, hq, hr, hopen, hinterior, hclose⟩ :=
    exists_enclosure ho hfront (Expression.partsAt_of_mem_matchesFrom hm)
  refine ⟨x, r, ?_, hx, hfront.offset, hopen.offset, hinterior.upTo_eq, ?_⟩
  · rw [Match.part?, hparts]
    simp [hp, hq, hr]
  · exact (hinterior.trans hclose).offset

/-- Wherever an opener stands that something closes later, the search takes a match. -/
theorem exists_match_over_opener {s : Scope} {front place u later : List Char}
    (htext : s.text = front ++ (place ++ (u ++ later))) (hplace : OpeningPlace front place)
    (hu : Q u) (hlater : Occurs word later) :
    ∃ m ∈ (enclosing opener word).findAll s.offset s.text,
      m.start.offset ≤ s.offset + byteLength front ∧
        s.offset + byteLength front < m.stop.offset := by
  obtain ⟨c, hfront, hc⟩ := Cursor.exists_reads (c := s.start) htext
  obtain ⟨d, hread, hd⟩ := Cursor.exists_reads hc
  obtain ⟨e, hopener, rfl⟩ := Cursor.exists_reads hd
  have hmem : d ∈ openingPlace.pattern.ends c := mem_ends_openingPlace.2
    ⟨place, hread, hplace.imp_left (And.imp_right (atLineStart_iff hfront).2)⟩
  have hsome : ((enclosing opener word).partsAt c).isSome :=
    Expression.isSome_partsAt_cons.2 ⟨d, hmem, isSome_openedBy ho hopener hu hlater⟩
  obtain ⟨m, hm, hover⟩ := Expression.exists_match_over (enclosing_neverEmpty ho) hfront hsome
  rw [hfront.offset] at hover
  exact ⟨m, hm, hover⟩

/-- **Comments between openers and a text that closes them are found without loss or overlap.** -/
theorem regions_enclosing (s : Scope) :
    FoundIn Q word s (regions (enclosing opener word) s) where
  ordered := by
    refine (Expression.pairwise_matchesFrom _ true s.start).filterMap _ ?_
    rintro m m' hmm r hr r' hr'
    obtain ⟨-, -, rfl⟩ := Option.map_eq_some_iff.1 hr
    obtain ⟨-, -, rfl⟩ := Option.map_eq_some_iff.1 hr'
    exact hmm
  enclosed r hr := by
    obtain ⟨m, hm, hr⟩ := List.mem_filterMap.1 hr
    obtain ⟨x, interior, hpart, hx, hcovers⟩ := exists_enclosure_of_mem_findAll ho hm
    rw [hpart, Option.map_some, Option.some_inj] at hr
    exact ⟨x, hx, hr ▸ hcovers⟩
  complete front place u later htext hplace hu hlater := by
    obtain ⟨m, hm, hover⟩ := exists_match_over_opener ho htext hplace hu hlater
    obtain ⟨x, interior, hpart, -⟩ := exists_enclosure_of_mem_findAll ho hm
    exact ⟨⟨m.start.offset, m.stop.offset, interior⟩,
      List.mem_filterMap.2 ⟨m, hm, by rw [hpart, Option.map_some]⟩, hover⟩

end

end

/-! ## The comments of a language, and documentation comments -/

/-- What opens a block comment: the opener of the language and one white character. -/
def BlockOpener (word w : List Char) : Prop :=
  ∃ v a, w = v ++ [a] ∧ Spells word v ∧ isWhite a = true

theorem opensWith_block (word : List Char) :
    OpensWith (.seq (.literal word) (.one .white)) (BlockOpener word) (word.length + 1) where
  accepts c d := by
    rw [(Pattern.accepts_literal word).seq (Pattern.accepts_one .white) c d]
    refine exists_congr fun w => and_congr_right fun _ => ?_
    constructor
    · rintro ⟨v, _, rfl, hv, a, rfl, ha⟩
      exact ⟨v, a, rfl, hv, ha⟩
    · rintro ⟨v, a, rfl, hv, ha⟩
      exact ⟨v, [a], rfl, hv, a, rfl, ha⟩
  deterministic := (Pattern.deterministic_literal word).seq (Pattern.deterministic_one .white)
  length_eq := by
    rintro _ ⟨v, a, rfl, hv, -⟩
    rw [List.length_append, hv.length_eq, List.length_singleton]
  length_pos := Nat.succ_pos _

theorem opensWith_literal {word : List Char} (hword : word ≠ []) :
    OpensWith (.literal word) (Spells word) word.length :=
  ⟨Pattern.accepts_literal word, Pattern.deterministic_literal word, fun _ => Spells.length_eq,
    List.length_pos_of_ne_nil hword⟩

/-- The block comments of a language, whatever its delimiters are. -/
theorem foundIn_blockRegions {p : Profile} (hscans : p.scansBlocks = true) (s : Scope) :
    FoundIn (BlockOpener p.blockStart) p.blockEnd s (blockRegions p s) := by
  rw [blockRegions, if_pos hscans]
  exact regions_enclosing (opensWith_block p.blockStart) s

theorem exists_enclosure_of_mem_blockRegions {p : Profile} {s : Scope} {r : Region}
    (h : r ∈ blockRegions p s) :
    ∃ x : Enclosure, x.In (BlockOpener p.blockStart) p.blockEnd s.text ∧ r.Covers s x := by
  cases hscans : p.scansBlocks with
  | true => exact (foundIn_blockRegions hscans s).enclosed r h
  | false =>
    rw [blockRegions, hscans] at h
    exact absurd h List.not_mem_nil

/-- **Block comments are found without loss or overlap**, and so are documentation comments. -/
theorem blockRegions_foundIn {p : Profile} {opener close : String} (hscans : p.scansBlocks = true)
    (hblock : p.block = some (opener, close)) (s : Scope) :
    FoundIn (BlockOpener opener.toList) close.toList s (blockRegions p s) ∧
      FoundIn (Spells "/**".toList) "*/".toList s (regions docExpression s) := by
  have hp : p.blockStart = opener.toList ∧ p.blockEnd = close.toList := by
    rw [Profile.blockStart, Profile.blockEnd, hblock]
    exact ⟨rfl, rfl⟩
  rw [← hp.1, ← hp.2]
  exact ⟨foundIn_blockRegions hscans s, regions_enclosing (opensWith_literal (by decide)) s⟩

set_option maxRecDepth 20000 in
/-- An opener that is repeated, a comment right after another one, and an opener that nothing
closes. -/
theorem blockRegions_foundIn_repeated :
    let p := Profile.of "rust" (some ⟨none, some ("/*", "*/")⟩) {}
    let s : Scope := .document "/* /* a */\t/* b */ /* c".toList
    p.scansBlocks = true ∧
      (blockRegions p s).map (fun r => (r.start, r.stop)) = [(0, 10), (10, 18)] ∧
      FoundIn (BlockOpener "/*".toList) "*/".toList s (blockRegions p s) :=
  ⟨by decide, by cbv, (blockRegions_foundIn (by decide) (by decide) _).1⟩

end CommentTags
