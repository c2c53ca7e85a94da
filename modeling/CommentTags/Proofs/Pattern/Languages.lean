import CommentTags.Proofs.Pattern.Places
import CommentTags.Proofs.Text.Occurrences

/-!
# What patterns read

`CommentTags.Proofs.Pattern.Places` says that a pattern stops where it has read some text.  For a
pattern that does not look around, the converse holds too: it stops at every place that is reached
by reading a text of the kind that it describes.

* `Cursor.Reads.unique` and its like — a text leads to one place, and a place is known by what is
  left to read after it.
* `Pattern.Accepts Q p` — from every place, `p` stops exactly where a text of the kind `Q` has been
  read.  There is one lemma for each way to make a pattern of others.
* `Extends`, `extends_oneOrMore` — the correctness of the search in `oneOrMore`: each place that is
  found has had its next places found as well.
* `Pattern.Accepts.plus` — a repeated pattern reads one text after another (`Repeats`).
-/

set_option autoImplicit false

namespace CommentTags

open Text

/-! ## Places in order -/

namespace Cursor.Reads

variable {c d e : Cursor} {v w : List Char}

/-- One text leads to one place. -/
theorem unique (hd : c.Reads w d) (he : c.Reads w e) : d = e := by
  obtain ⟨offset, before, rest⟩ := d
  obtain ⟨offset', before', rest'⟩ := e
  obtain rfl : offset = offset' := hd.offset.trans he.offset.symm
  obtain rfl : before = before' := hd.before.trans he.before.symm
  obtain rfl : rest = rest' := List.append_cancel_left (hd.rest.symm.trans he.rest)
  rfl

/-- What is left to read after a first part of a text. -/
theorem of_append (hd : c.Reads v d) (he : c.Reads (v ++ w) e) : d.Reads w e where
  rest := by
    have h := hd.rest.symm.trans he.rest
    rw [List.append_assoc] at h
    exact List.append_cancel_left h
  offset := by rw [he.offset, hd.offset, byteLength_append, Nat.add_assoc]
  before := by rw [he.before, hd.before, List.getLast?_append, Option.or_assoc]

/-- Of two places, the one with more text after it comes first. -/
theorem exists_append (hd : c.Reads v d) (he : c.Reads w e)
    (hle : e.rest.length ≤ d.rest.length) : ∃ u, w = v ++ u ∧ d.Reads u e := by
  have hrest : v ++ d.rest = w ++ e.rest := hd.rest.symm.trans he.rest
  obtain ⟨u, rfl⟩ : v <+: w := by
    refine List.prefix_of_prefix_length_le ⟨_, hrest⟩ (List.prefix_append w e.rest) ?_
    have h1 := hd.length_eq
    have h2 := he.length_eq
    omega
  exact ⟨u, rfl, hd.of_append he⟩

/-- The first of two places is followed by a character that is read up to the other one. -/
theorem exists_mem_head? (hd : c.Reads v d) (he : c.Reads w e)
    (hlt : e.rest.length < d.rest.length) : ∃ a ∈ w, a ∈ d.rest.head? := by
  obtain ⟨u, rfl, hu⟩ := hd.exists_append he hlt.le
  have hlen := hu.length_eq
  cases u with
  | nil =>
    rw [List.length_nil, Nat.zero_add] at hlen
    omega
  | cons a u => exact ⟨a, by simp, by rw [hu.rest]; rfl⟩

/-- Places with the same number of characters after them are the same. -/
theorem eq_of_length_eq (hd : c.Reads v d) (he : c.Reads w e)
    (h : d.rest.length = e.rest.length) : d = e := by
  obtain ⟨u, rfl, hu⟩ := hd.exists_append he (Nat.le_of_eq h.symm)
  have hlen := hu.length_eq
  obtain rfl : u = [] := List.eq_nil_of_length_eq_zero (by omega)
  exact (Cursor.Reads.refl d).unique hu

/-- Places with the same offset are the same. -/
theorem eq_of_offset_eq (hd : c.Reads v d) (he : c.Reads w e) (h : d.offset = e.offset) :
    d = e := by
  obtain ⟨rfl, -⟩ := append_inj_of_byteLength (hd.rest.symm.trans he.rest) (by
    have h1 := hd.offset
    have h2 := he.offset
    omega)
  exact hd.unique he

end Cursor.Reads

/-- Each first part of the text leads to a place. -/
theorem Cursor.exists_reads {c : Cursor} {v w : List Char} (h : c.rest = v ++ w) :
    ∃ d, c.Reads v d ∧ d.rest = w :=
  ⟨⟨c.offset + byteLength v, v.getLast?.or c.before, w⟩, ⟨h, rfl, rfl⟩, rfl⟩

/-- A text that is read in two steps. -/
theorem Cursor.Reads.split {c e : Cursor} {v w : List Char} (h : c.Reads (v ++ w) e) :
    ∃ d, c.Reads v d ∧ d.Reads w e := by
  obtain ⟨d, hd, -⟩ := Cursor.exists_reads (h.rest.trans (List.append_assoc v w e.rest))
  exact ⟨d, hd, hd.of_append h⟩

/-- The first character that is read, and the place after it. -/
theorem Cursor.Reads.exists_step {offset : Nat} {before : Option Char} {s w : List Char} {a : Char}
    {d : Cursor} (h : Reads ⟨offset, before, s⟩ (a :: w) d) :
    ∃ rest, s = a :: rest ∧ Reads ⟨offset + a.utf8Size, some a, rest⟩ w d := by
  obtain rfl : s = a :: (w ++ d.rest) := h.rest
  exact ⟨_, rfl, (Reads.step offset before a _).of_append h⟩

/-! ## Patterns that do not look around -/

/-- From every place, the pattern stops exactly where a text of one kind has been read. -/
def Pattern.Accepts (p : Pattern) (Q : List Char → Prop) : Prop :=
  ∀ c d : Cursor, d ∈ p.ends c ↔ ∃ w, c.Reads w d ∧ Q w

theorem mem_classRuns_iff {k : CharClass} {offset : Nat} {before : Option Char} {s : List Char}
    {d : Cursor} : d ∈ classRuns k offset before s ↔
      ∃ w, Cursor.Reads ⟨offset, before, s⟩ w d ∧ ∀ a ∈ w, k.contains a = true := by
  refine ⟨exists_reads_of_mem_classRuns, ?_⟩
  rintro ⟨w, hw, hk⟩
  induction w generalizing offset before s with
  | nil =>
    rw [← (Cursor.Reads.refl _).unique hw]
    cases s <;> simp [classRuns]
  | cons a w ih =>
    rw [List.forall_mem_cons] at hk
    obtain ⟨rest, rfl, hread⟩ := hw.exists_step
    rw [classRuns, if_pos hk.1]
    exact List.mem_cons_of_mem _ (ih hread hk.2)

theorem literalEnd_eq_some_iff {s : List Char} {offset : Nat} {before : Option Char}
    {rest : List Char} {d : Cursor} : literalEnd offset before s rest = some d ↔
      ∃ w, Cursor.Reads ⟨offset, before, rest⟩ w d ∧ Spells s w := by
  refine ⟨exists_reads_of_literalEnd, ?_⟩
  rintro ⟨w, hw, hs⟩
  induction hs generalizing offset before rest with
  | nil => rw [literalEnd, (Cursor.Reads.refl _).unique hw]
  | @cons b a s w hba hs ih =>
    obtain ⟨rest, rfl, hread⟩ := hw.exists_step
    rw [literalEnd, if_pos hba]
    exact ih hread

/-- A text stands here exactly if reading it leads somewhere. -/
theorem isSome_literalEnd_iff {s : List Char} {c : Cursor} :
    (literalEnd c.offset c.before s c.rest).isSome ↔ StandsAt s c.rest := by
  rw [Option.isSome_iff_exists]
  constructor
  · rintro ⟨d, hd⟩
    obtain ⟨w, hw, hs⟩ := literalEnd_eq_some_iff.1 hd
    exact ⟨w, d.rest, hw.rest, hs⟩
  · rintro ⟨w, back, hrest, hs⟩
    obtain ⟨d, hw, -⟩ := Cursor.exists_reads hrest
    exact ⟨d, literalEnd_eq_some_iff.2 ⟨w, hw, hs⟩⟩

namespace Pattern

theorem accepts_one (k : CharClass) :
    (Pattern.one k).Accepts fun w => ∃ a, w = [a] ∧ k.contains a = true := by
  intro c d
  constructor
  · intro hd
    obtain ⟨a, ha, hk⟩ := exists_reads_of_mem_ends_one hd
    exact ⟨[a], ha, a, rfl, hk⟩
  · rintro ⟨_, ha, a, rfl, hk⟩
    obtain ⟨offset, before, rest⟩ := c
    obtain rfl : rest = a :: d.rest := ha.rest
    rw [← (Cursor.Reads.step offset before a d.rest).unique ha]
    simp [Pattern.ends, hk]

theorem accepts_exactly (a : Char) : (Pattern.one (.exactly a)).Accepts (· = [a]) := by
  intro c d
  rw [accepts_one (.exactly a) c d]
  simp [CharClass.contains]

theorem accepts_lazyRun (k : CharClass) :
    (Pattern.lazyRun k).Accepts fun w => ∀ a ∈ w, k.contains a = true :=
  fun _ _ => mem_classRuns_iff

theorem accepts_run (k : CharClass) :
    (Pattern.run k).Accepts fun w => ∀ a ∈ w, k.contains a = true := by
  intro c d
  rw [Pattern.ends, List.mem_reverse]
  exact mem_classRuns_iff

theorem accepts_literal (s : List Char) : (Pattern.literal s).Accepts (Spells s) := by
  intro c d
  rw [Pattern.ends, Option.mem_toList]
  exact literalEnd_eq_some_iff

theorem accepts_oneOf (words : List (List Char)) :
    (Pattern.oneOf words).Accepts fun w => ∃ s ∈ words, Spells s w := by
  intro c d
  rw [Pattern.ends, List.mem_filterMap]
  constructor
  · rintro ⟨s, hs, hd⟩
    obtain ⟨w, hw, hsw⟩ := literalEnd_eq_some_iff.1 hd
    exact ⟨w, hw, s, hs, hsw⟩
  · rintro ⟨w, hw, s, hs, hsw⟩
    exact ⟨s, hs, literalEnd_eq_some_iff.2 ⟨w, hw, hsw⟩⟩

variable {p q : Pattern} {P Q : List Char → Prop}

theorem Accepts.seq (hp : p.Accepts P) (hq : q.Accepts Q) :
    (Pattern.seq p q).Accepts fun w => ∃ u v, w = u ++ v ∧ P u ∧ Q v := by
  intro c e
  rw [Pattern.ends, List.mem_flatMap]
  constructor
  · rintro ⟨d, hd, he⟩
    obtain ⟨u, hu, hP⟩ := (hp c d).1 hd
    obtain ⟨v, hv, hQ⟩ := (hq d e).1 he
    exact ⟨u ++ v, hu.trans hv, u, v, rfl, hP, hQ⟩
  · rintro ⟨_, hw, u, v, rfl, hP, hQ⟩
    obtain ⟨d, hu, hv⟩ := hw.split
    exact ⟨d, (hp c d).2 ⟨u, hu, hP⟩, (hq d e).2 ⟨v, hv, hQ⟩⟩

theorem Accepts.opt (hp : p.Accepts P) : (Pattern.opt p).Accepts fun w => P w ∨ w = [] := by
  intro c d
  rw [Pattern.ends, List.mem_append, List.mem_singleton, hp c d]
  constructor
  · rintro (⟨w, hw, hP⟩ | rfl)
    · exact ⟨w, hw, .inl hP⟩
    · exact ⟨[], .refl d, .inr rfl⟩
  · rintro ⟨w, hw, hP | rfl⟩
    · exact .inl ⟨w, hw, hP⟩
    · exact .inr (hw.unique (.refl c))

theorem Accepts.group (hp : p.Accepts P) : (Pattern.group p).Accepts P := hp

end Pattern

/-! ## Repetitions -/

/-- Places are added to those that were found before: all of `ds`, and with each new place all that
one step leads to from there. -/
structure Extends (step : Cursor → List Cursor) (ds found result : List Cursor) : Prop where
  old : ∀ d ∈ found, d ∈ result
  new : ∀ d ∈ ds, d ∈ result
  closed : ∀ d ∈ result, d ∈ found ∨ ∀ e ∈ step d, e ∈ result

namespace Extends

variable {step : Cursor → List Cursor} {d : Cursor} {ds found mid result : List Cursor}

theorem nil (found : List Cursor) : Extends step [] found found :=
  ⟨fun _ => id, by simp, fun _ => .inl⟩

theorem cons (hd : Extends step [d] found mid) (hds : Extends step ds mid result) :
    Extends step (d :: ds) found result where
  old e he := hds.old e (hd.old e he)
  new := List.forall_mem_cons.2 ⟨hds.old d (hd.new d (List.mem_singleton_self d)), hds.new⟩
  closed e he := by
    rcases hds.closed e he with he | he
    · exact (hd.closed e he).imp_right fun h x hx => hds.old x (h x hx)
    · exact .inr he

end Extends

section

variable {step : Cursor → List Cursor} {S : Cursor → Prop}
  (heq : ∀ c d, S c → S d → c.rest.length = d.rest.length → c = d)
  (hclosed : ∀ c, S c → ∀ d ∈ step c, S d)
  (hlt : ∀ c, ∀ d ∈ step c, d.rest.length < c.rest.length)
include heq hclosed hlt

/-- A place and all that is reached from it are added. -/
theorem extends_reachAll (c : Cursor) (hc : S c) (found : List Cursor)
    (hfound : ∀ d ∈ found, S d) : Extends step [c] found (reachAll step c found) := by
  induction hn : c.rest.length using Nat.strongRecOn generalizing c found with
  | ind n ih =>
    -- the fold over the next places `ds`, each of which has less text after it than `c`
    have hfold (ds : List Cursor) (hds : ∀ d ∈ ds, S d ∧ d.rest.length < c.rest.length) :
        ∀ found : List Cursor, (∀ d ∈ found, S d) →
        Extends step ds found (ds.foldl (fun found d =>
          if _h : d.rest.length < c.rest.length then reachAll step d found else found) found) := by
      induction ds with
      | nil => exact fun found _ => .nil found
      | cons d ds ihd =>
        intro found hfound
        obtain ⟨⟨hd, hdlt⟩, hds⟩ := List.forall_mem_cons.1 hds
        rw [List.foldl_cons, dif_pos hdlt]
        exact .cons (ih _ (hn ▸ hdlt) d hd found hfound rfl)
          (ihd hds _ (forall_mem_reachAll hclosed hd hfound))
    rw [reachAll]
    split
    · next hany =>
      -- it was found before, since no other place has as much text after it
      obtain ⟨d, hd, hlen⟩ := List.any_eq_true.1 hany
      obtain rfl := heq d c (hfound d hd) hc (beq_iff_eq.1 hlen)
      exact ⟨fun _ => id, List.forall_mem_singleton.2 hd, fun _ => .inl⟩
    · have h := hfold (step c) (fun d hd => ⟨hclosed c hc d hd, hlt c d hd⟩) found hfound
      refine ⟨fun d hd => .tail c (h.old d hd), List.forall_mem_singleton.2 (.head _), ?_⟩
      intro d hd
      rcases List.mem_cons.1 hd with rfl | hd
      · exact .inr fun e he => .tail d (h.new e he)
      · exact (h.closed d hd).imp_right fun h e he => .tail c (h e he)

/-- **Repetition finds the places after the first step, and what each step leads to from a place
that it finds.** -/
theorem extends_oneOrMore (c : Cursor) (hc : S c) :
    Extends step (step c) [] (oneOrMore step c) := by
  have hfold (ds : List Cursor) (hds : ∀ d ∈ ds, S d) : ∀ found : List Cursor,
      (∀ d ∈ found, S d) →
      Extends step ds found (ds.foldl (fun found d => reachAll step d found) found) := by
    induction ds with
    | nil => exact fun found _ => .nil found
    | cons d ds ih =>
      intro found hfound
      obtain ⟨hd, hds⟩ := List.forall_mem_cons.1 hds
      exact .cons (extends_reachAll heq hclosed hlt d hd found hfound)
        (ih hds _ (forall_mem_reachAll hclosed hd hfound))
  obtain ⟨old, new, closed⟩ := hfold (step c) (hclosed c hc) [] (by simp)
  rw [oneOrMore]
  refine ⟨by simp, fun d hd => List.mem_reverse.2 (new d hd), fun d hd => ?_⟩
  refine (closed d (List.mem_reverse.1 hd)).imp_right fun h e he => ?_
  exact List.mem_reverse.2 (h e he)

end

/-- Between the two places there are pieces of one kind, or nothing. -/
def Cursor.ReadsRepeats (Q : List Char → Prop) (c d : Cursor) : Prop :=
  ∃ n w, Repeats Q n w ∧ c.Reads w d

theorem Cursor.ReadsRepeats.refl {Q : List Char → Prop} (c : Cursor) : c.ReadsRepeats Q c :=
  ⟨0, [], rfl, .refl c⟩

theorem Cursor.ReadsRepeats.trans {Q : List Char → Prop} {c d e : Cursor}
    (hd : c.ReadsRepeats Q d) (he : d.ReadsRepeats Q e) : c.ReadsRepeats Q e := by
  obtain ⟨m, v, hm, hv⟩ := hd
  obtain ⟨n, w, hn, hw⟩ := he
  exact ⟨m + n, v ++ w, hm.append hn, hv.trans hw⟩

namespace Pattern.Accepts

variable {p : Pattern} {Q : List Char → Prop} (hp : p.Accepts Q)
include hp

/-- A repetition reads texts of the pattern, and so does the first step of it. -/
theorem exists_of_mem_oneOrMore {c e : Cursor} (he : e ∈ oneOrMore p.ends c) :
    ∃ w, c.Reads w e ∧ ∃ n, 1 ≤ n ∧ Repeats Q n w := by
  have hstep (c d : Cursor) (hd : d ∈ p.ends c) : c.ReadsRepeats Q d := by
    obtain ⟨w, hw, hw'⟩ := (hp c d).1 hd
    exact ⟨1, w, .one hw', hw⟩
  obtain ⟨d, hd, n, w, hn, hw⟩ :=
    exists_step_of_mem_oneOrMore .refl (fun _ _ _ => .trans) hstep he
  obtain ⟨u, hu, hu'⟩ := (hp c d).1 hd
  exact ⟨u ++ w, hu.trans hw, n + 1, Nat.le_add_left 1 n, u, w, rfl, hu', hn⟩

variable (hQ : ∀ w, Q w → w ≠ [])
include hQ

theorem length_lt {c d : Cursor} (hd : d ∈ p.ends c) : d.rest.length < c.rest.length := by
  obtain ⟨w, hw, hw'⟩ := (hp c d).1 hd
  have hpos := List.length_pos_of_ne_nil (hQ w hw')
  have hlen := hw.length_eq
  omega

/-- A place that is read up to is known by what is left, so nothing is left out as already found. -/
theorem extends_ends (c : Cursor) : Extends p.ends (p.ends c) [] (oneOrMore p.ends c) := by
  have hunique (d e : Cursor) (hd : ∃ w, c.Reads w d) (he : ∃ w, c.Reads w e) :
      d.rest.length = e.rest.length → d = e := by
    obtain ⟨_, hd⟩ := hd
    obtain ⟨_, he⟩ := he
    exact hd.eq_of_length_eq he
  have hstep (d : Cursor) (hd : ∃ w, c.Reads w d) (e : Cursor) (he : e ∈ p.ends d) :
      ∃ w, c.Reads w e := by
    obtain ⟨v, hv⟩ := hd
    obtain ⟨w, hw⟩ := Pattern.exists_reads he
    exact ⟨v ++ w, hv.trans hw⟩
  exact extends_oneOrMore hunique hstep (fun d e he => hp.length_lt hQ he) c ⟨[], .refl c⟩

/-- From a place that is found, the remaining texts lead to places that are found. -/
theorem mem_oneOrMore_of_repeats {c d e : Cursor} {n : Nat} {w : List Char}
    (hd : d ∈ oneOrMore p.ends c) (hn : Repeats Q n w) (hw : d.Reads w e) :
    e ∈ oneOrMore p.ends c := by
  induction n generalizing d w with
  | zero =>
    obtain rfl : w = [] := hn
    exact hw.unique (.refl d) ▸ hd
  | succ n ih =>
    obtain ⟨u, v, rfl, hu, hv⟩ := hn
    obtain ⟨d', hd', hw⟩ := hw.split
    refine ih ?_ hv hw
    exact ((hp.extends_ends hQ c).closed d hd).resolve_left (by simp) d'
      ((hp d d').2 ⟨u, hd', hu⟩)

/-- **A repeated pattern reads one text after another.** -/
theorem plus : (Pattern.plus p).Accepts fun w => ∃ n, 1 ≤ n ∧ Repeats Q n w := by
  intro c e
  rw [Pattern.ends]
  refine ⟨hp.exists_of_mem_oneOrMore, ?_⟩
  rintro ⟨_, hw, n, hn, hrep⟩
  obtain ⟨n, rfl⟩ := Nat.exists_eq_add_of_le' hn
  obtain ⟨u, v, rfl, hu, hv⟩ := hrep
  obtain ⟨d, hd, hw⟩ := hw.split
  have hfirst : d ∈ oneOrMore p.ends c := (hp.extends_ends hQ c).new d ((hp c d).2 ⟨u, hd, hu⟩)
  exact hp.mem_oneOrMore_of_repeats hQ hfirst hv hw

end Pattern.Accepts

end CommentTags
