import Mathlib.Order.Monotone.Basic
import CommentTags.Proofs.Pattern.Languages
import CommentTags.Proofs.Pattern.Parts

/-!
# Which match is taken

Of the places where a pattern can stop, the first one is taken from which the rest of the expression
matches.  Lazy runs list their places from near to far and repetitions from far to near, as long as
there is only one way to repeat, so a lazy run is as short and a repetition as long as the rest
allows.

* `Expression.exists_of_partsAt_cons` — the first piece leads to the first place in order from which
  the rest matches.
* `Expression.exists_of_partsAt_lazyRun` — a lazy run is as short as the rest allows.
* `Pattern.Deterministic`, `Pattern.Deterministic.pairwise_oneOrMore` — a repetition is as long as
  the rest allows.
* `Expression.NeverEmpty`, `Expression.matchesFrom_of_some`, `Expression.matchesFrom_of_none` —
  where no match is empty, a search is a walk along the text that takes a match wherever one begins.
* `Expression.exists_match_over` — so a place where the expression matches lies inside one of the
  matches that are found.
-/

set_option autoImplicit false

namespace CommentTags

open Text

/-! ## The first place that will do -/

/-- What is found in a list in order comes before everything else that would do. -/
theorem exists_of_findSome?_of_pairwise {α β : Type} {R : α → α → Prop} {f : α → Option β}
    {l : List α} {b : β} (hl : l.Pairwise R) (h : l.findSome? f = some b) :
    ∃ a ∈ l, f a = some b ∧ ∀ x ∈ l, f x = none ∨ x = a ∨ R a x := by
  obtain ⟨front, a, back, rfl, ha, hfront⟩ := List.findSome?_eq_some_iff.1 h
  refine ⟨a, by simp, ha, fun x hx => ?_⟩
  rcases List.mem_append.1 hx with hx | hx
  · exact .inl (hfront x hx)
  · have hback := (List.pairwise_append.1 hl).2.1
    exact .inr ((List.mem_cons.1 hx).imp_right (List.rel_of_pairwise_cons hback))

/-- The places of a run, the nearest one first. -/
theorem pairwise_classRuns (k : CharClass) (offset : Nat) (before : Option Char) (s : List Char) :
    (classRuns k offset before s).Pairwise fun d e => e.rest.length < d.rest.length := by
  induction s generalizing offset before with
  | nil => exact List.pairwise_singleton _ _
  | cons a s ih =>
    rw [classRuns]
    split
    · refine List.pairwise_cons.2 ⟨fun d hd => ?_, ih _ _⟩
      obtain ⟨w, hw, -⟩ := exists_reads_of_mem_classRuns hd
      exact Nat.lt_succ_of_le hw.length_le
    · exact List.pairwise_singleton _ _

/-- From every place, the pattern can stop at one place at most. -/
def Pattern.Deterministic (p : Pattern) : Prop :=
  ∀ c, p.ends c = [] ∨ ∃ d, p.ends c = [d]

namespace Pattern

theorem deterministic_literal (s : List Char) : (Pattern.literal s).Deterministic := by
  intro c
  rw [Pattern.ends]
  cases literalEnd c.offset c.before s c.rest with
  | none => exact .inl rfl
  | some d => exact .inr ⟨d, rfl⟩

theorem deterministic_one (k : CharClass) : (Pattern.one k).Deterministic := by
  rintro ⟨offset, before, rest⟩
  cases rest with
  | nil => exact .inl rfl
  | cons a rest =>
    simp only [Pattern.ends]
    split
    · exact .inr ⟨_, rfl⟩
    · exact .inl rfl

variable {p q : Pattern}

theorem Deterministic.seq (hp : p.Deterministic) (hq : q.Deterministic) :
    (Pattern.seq p q).Deterministic := by
  intro c
  rw [Pattern.ends]
  rcases hp c with h | ⟨d, h⟩
  · exact .inl (by rw [h, List.flatMap_nil])
  · rw [h, List.flatMap_singleton]
    exact hq d

/-- With one way to repeat, more repetitions come first. -/
theorem Deterministic.pairwise_oneOrMore (hp : p.Deterministic)
    (hlt : ∀ c, ∀ d ∈ p.ends c, d.rest.length < c.rest.length) (c : Cursor) :
    (oneOrMore p.ends c).Pairwise fun d e => d.rest.length < e.rest.length := by
  have hnext (c : Cursor) :
      p.ends c = [] ∨ ∃ d, p.ends c = [d] ∧ d.rest.length < c.rest.length :=
    (hp c).imp_right fun ⟨d, h⟩ => ⟨d, h, hlt c d (h ▸ List.mem_singleton_self d)⟩
  induction hn : c.rest.length using Nat.strongRecOn generalizing c with
  | ind n ih =>
    rcases hnext c with h | ⟨d, h, hdlt⟩
    · rw [oneOrMore_of_eq_nil h]
      exact .nil
    · rw [oneOrMore_of_eq_singleton h (hnext d)]
      refine List.pairwise_append.2 ⟨ih _ (hn ▸ hdlt) d rfl, List.pairwise_singleton _ _, ?_⟩
      intro x hx e he
      rw [List.mem_singleton.1 he]
      obtain ⟨y, hy, hxy⟩ := exists_step_of_mem_oneOrMore
        (R := fun c d => d.rest.length ≤ c.rest.length) (fun _ => Nat.le_refl _)
        (fun _ _ _ h1 h2 => h2.trans h1) (fun c d hd => (hlt c d hd).le) hx
      exact hxy.trans_lt (hlt d y hy)

end Pattern

/-! ## Expressions -/

namespace Expression

variable {e : Expression} {p : Piece} {c d stop : Cursor} {parts : List Part}

@[simp] theorem isSome_partsAt_nil (c : Cursor) : (partsAt [] c).isSome = true := rfl

/-- An expression matches if its first piece leads to a place where the rest matches. -/
theorem isSome_partsAt_cons :
    (partsAt (p :: e) c).isSome ↔ ∃ d ∈ p.pattern.ends c, (e.partsAt d).isSome := by
  rw [partsAt, List.findSome?_isSome_iff]
  simp only [Option.isSome_map]

/-- The place that the first piece leads to is the first one in order from which the rest
matches. -/
theorem exists_of_partsAt_cons {R : Cursor → Cursor → Prop}
    (hends : (p.pattern.ends c).Pairwise R) (h : partsAt (p :: e) c = some (parts, stop)) :
    ∃ d ∈ p.pattern.ends c, ∃ ps, parts = ⟨p.name, c, d⟩ :: ps ∧
      e.partsAt d = some (ps, stop) ∧
      ∀ x ∈ p.pattern.ends c, (e.partsAt x).isSome → x = d ∨ R d x := by
  rw [partsAt] at h
  obtain ⟨d, hd, h, hfirst⟩ := exists_of_findSome?_of_pairwise hends h
  obtain ⟨⟨ps, stop'⟩, hps, h⟩ := Option.map_eq_some_iff.1 h
  obtain ⟨rfl, rfl⟩ := Prod.mk.inj h
  refine ⟨d, hd, ps, rfl, hps, fun x hx hsome => (hfirst x hx).resolve_left fun hnone => ?_⟩
  rw [Option.map_eq_none_iff.1 hnone] at hsome
  exact Bool.noConfusion hsome

/-- The same, in whatever order the first piece lists its places. -/
theorem exists_mem_of_partsAt_cons (h : partsAt (p :: e) c = some (parts, stop)) :
    ∃ d ∈ p.pattern.ends c, ∃ ps, parts = ⟨p.name, c, d⟩ :: ps ∧
      e.partsAt d = some (ps, stop) := by
  obtain ⟨d, hd, ps, hparts, hps, -⟩ := exists_of_partsAt_cons (R := fun _ _ => True)
    (List.pairwise_of_forall fun _ _ => trivial) h
  exact ⟨d, hd, ps, hparts, hps⟩

/-- What is taken for the first pieces leads to what is taken for the rest. -/
theorem exists_of_partsAt_append {f : Expression} (h : partsAt (e ++ f) c = some (parts, stop)) :
    ∃ ps d qs, parts = ps ++ qs ∧ e.Splits c ps d ∧ f.partsAt d = some (qs, stop) := by
  induction e generalizing c parts with
  | nil => exact ⟨[], c, parts, rfl, .nil c, h⟩
  | cons p e ih =>
    obtain ⟨d, hd, _, rfl, hps⟩ := exists_mem_of_partsAt_cons h
    obtain ⟨ps, d', qs, rfl, he, hf⟩ := ih hps
    exact ⟨_ :: ps, d', qs, rfl, .cons hd he, hf⟩

/-- A lazy run stops at the first place from which the rest matches. -/
theorem exists_of_partsAt_lazyRun {k : CharClass} {n : PieceName}
    (h : partsAt ((Pattern.lazyRun k).named n :: e) c = some (parts, stop)) :
    ∃ d w ps, parts = ⟨some n, c, d⟩ :: ps ∧ e.partsAt d = some (ps, stop) ∧ c.Reads w d ∧
      (∀ a ∈ w, k.contains a = true) ∧
      ∀ u v, w = u ++ v → v ≠ [] → ∃ x : Cursor, x.Reads v d ∧ e.partsAt x = none := by
  obtain ⟨d, hd, ps, rfl, hps, hfirst⟩ :=
    exists_of_partsAt_cons (pairwise_classRuns k c.offset c.before c.rest) h
  obtain ⟨w, hw, hk⟩ := (Pattern.accepts_lazyRun k c d).1 hd
  refine ⟨d, w, ps, rfl, hps, hw, hk, ?_⟩
  rintro u v rfl hv
  obtain ⟨x, hu, hread⟩ := hw.split
  refine ⟨x, hread, Option.not_isSome_iff_eq_none.1 fun hsome => ?_⟩
  have hlen := hread.length_eq
  have hpos := List.length_pos_of_ne_nil hv
  have hmem := (Pattern.accepts_lazyRun k c x).2
    ⟨u, hu, fun a ha => hk a (List.mem_append_left v ha)⟩
  rcases hfirst x hmem hsome with rfl | hlt
  · omega
  · omega

/-! ## Searching -/

/-- No match is empty, wherever it begins. -/
def NeverEmpty (e : Expression) : Prop :=
  ∀ ⦃c stop : Cursor⦄ ⦃parts : List Part⦄, e.partsAt c = some (parts, stop) →
    stop.rest.length < c.rest.length

/-- The matches of a search that begins behind the next character. -/
def matchesBehind (e : Expression) (c : Cursor) : List Match :=
  match c.next? with
  | none => []
  | some d => e.matchesFrom true d

/-- Where no match is accepted, the search goes on behind the next character. -/
theorem matchesFrom_of_acceptedAt {fresh : Bool} (h : e.acceptedAt fresh c = none) :
    e.matchesFrom fresh c = e.matchesBehind c := by
  obtain ⟨offset, before, rest⟩ := c
  rw [matchesFrom, h, matchesBehind, Cursor.next?]
  cases rest <;> rfl

namespace NeverEmpty

variable (he : e.NeverEmpty)
include he

theorem acceptedAt_eq (fresh : Bool) (c : Cursor) : e.acceptedAt fresh c = e.matchAt c := by
  rw [acceptedAt, matchAt]
  cases h : e.partsAt c with
  | none => rfl
  | some r =>
    obtain ⟨parts, stop⟩ := r
    have hlt := he h
    rw [Option.map_some, Option.filter_some, decide_eq_true hlt, Bool.or_true, if_pos rfl]

theorem acceptedAt_ne_none (fresh : Bool) (h : (e.partsAt c).isSome) :
    e.acceptedAt fresh c ≠ none := by
  rw [he.acceptedAt_eq, matchAt, ne_eq, Option.map_eq_none_iff]
  exact Option.isSome_iff_ne_none.1 h

/-- Where nothing begins, the search goes on behind the next character. -/
theorem matchesFrom_of_none (fresh : Bool) (h : e.partsAt c = none) :
    e.matchesFrom fresh c = e.matchesBehind c :=
  matchesFrom_of_acceptedAt (by rw [he.acceptedAt_eq, matchAt, h, Option.map_none])

/-- Where a match begins, the search goes on behind it. -/
theorem matchesFrom_of_some (fresh : Bool) (h : e.partsAt c = some (parts, stop)) :
    e.matchesFrom fresh c = ⟨c, parts, stop⟩ :: e.matchesFrom false stop := by
  rw [matchesFrom, he.acceptedAt_eq, matchAt, h, Option.map_some]
  simp only [he h, dif_pos]

end NeverEmpty

theorem partsAt_of_acceptedAt {fresh : Bool} {m : Match} (h : e.acceptedAt fresh c = some m) :
    m.start = c ∧ e.partsAt m.start = some (m.parts, m.stop) := by
  rw [acceptedAt, Option.filter_eq_some_iff, matchAt, Option.map_eq_some_iff] at h
  obtain ⟨⟨r, hr, rfl⟩, -⟩ := h
  exact ⟨rfl, hr⟩

/-- Every match that is found is the one that is taken where it begins. -/
theorem partsAt_of_mem_matchesFrom {fresh : Bool} {m : Match} (h : m ∈ e.matchesFrom fresh c) :
    e.partsAt m.start = some (m.parts, m.stop) := by
  fun_induction Expression.matchesFrom e fresh c with
  | case1 fresh c m' hm ih_stop ih_here =>
    rcases List.mem_cons.1 h with rfl | h
    · exact (partsAt_of_acceptedAt hm).2
    split at h
    · next hlt => exact ih_stop hlt h
    · next hlt =>
      split at h
      · next hf => exact ih_here hf h
      · simp at h
  | case2 => simp at h
  | case3 fresh c hnone a rest hrest ih => exact ih h

/-- **Nothing is missed.**  A place where the expression matches lies inside a match that is
found. -/
theorem exists_match_over (he : e.NeverEmpty) {fresh : Bool} {w : List Char} (hw : c.Reads w d)
    (hd : (e.partsAt d).isSome) :
    ∃ m ∈ e.matchesFrom fresh c, m.start.offset ≤ d.offset ∧ d.offset < m.stop.offset := by
  fun_induction Expression.matchesFrom e fresh c generalizing w with
  | case1 fresh c m hm ih_stop ih_here =>
    obtain ⟨rfl, hparts⟩ := partsAt_of_acceptedAt hm
    have hlt := he hparts
    obtain ⟨v, hv⟩ := (splits_of_partsAt hparts).exists_reads
    rcases Nat.lt_or_ge m.stop.rest.length d.rest.length with hbefore | hafter
    · -- the place lies before the end of the match
      obtain ⟨u, rfl, hu⟩ := hw.exists_append hv hbefore.le
      refine ⟨m, List.mem_cons_self, by rw [hw.offset]; exact Nat.le_add_right _ _, ?_⟩
      have h1 := length_le_byteLength u
      have h2 := hu.length_eq
      rw [hu.offset]
      omega
    · -- the search goes on behind the match, and the place lies there
      obtain ⟨u, rfl, hu⟩ := hv.exists_append hw hafter
      obtain ⟨n, hn, hle⟩ := ih_stop hlt hu
      rw [dif_pos hlt]
      exact ⟨n, List.mem_cons_of_mem _ hn, hle⟩
  | case2 fresh c hnone hrest =>
    have hlen := hw.length_eq
    rw [hrest, List.length_nil] at hlen
    obtain rfl : w = [] := List.eq_nil_of_length_eq_zero (by omega)
    obtain rfl := hw.unique (.refl c)
    exact absurd hnone (he.acceptedAt_ne_none fresh hd)
  | case3 fresh c hnone a rest hrest ih =>
    obtain ⟨offset, before, _⟩ := c
    cases hrest
    cases w with
    | nil =>
      obtain rfl := hw.unique (.refl _)
      exact absurd hnone (he.acceptedAt_ne_none fresh hd)
    | cons b w =>
      obtain ⟨rest', hrest', hread⟩ := hw.exists_step
      obtain ⟨rfl, rfl⟩ := List.cons.inj hrest'
      exact ih hread

end Expression

end CommentTags
