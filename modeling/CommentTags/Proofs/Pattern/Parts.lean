import CommentTags.Proofs.Pattern.Places

/-!
# The parts of a match

`Expression.Splits` says that a list of parts cuts the text between two places into one part for
each piece of an expression.  The search only reports such cuts, and it reports them from left to
right.

* `Expression.splits_of_partsAt` — what is found at a place is a cut of the text after it.
* `Expression.Splits.exists_part` — the part of a named piece, with what lies before and after it.
* `Expression.exists_reads_of_mem_matchesFrom` — each match lies behind the place where the search
  began.
* `Expression.pairwise_matchesFrom` — and behind the matches before it.
-/

set_option autoImplicit false

namespace CommentTags

/-- The parts lie end to end from one place to another, and each piece can read its part. -/
inductive Expression.Splits : Expression → Cursor → List Part → Cursor → Prop
  | nil (c : Cursor) : Splits [] c [] c
  | cons {p : Piece} {e : Expression} {c d stop : Cursor} {parts : List Part}
      (hd : d ∈ p.pattern.ends c) (h : Splits e d parts stop) :
      Splits (p :: e) c (⟨p.name, c, d⟩ :: parts) stop

namespace Expression.Splits

variable {e f : Expression} {c stop : Cursor} {parts : List Part}

theorem exists_reads_of_readsOnly {P : Char → Prop} (h : e.Splits c parts stop)
    (he : ∀ p ∈ e, p.pattern.ReadsOnly P) : ∃ w, c.Reads w stop ∧ ∀ a ∈ w, P a := by
  induction h with
  | nil c => exact ⟨[], .refl c, by simp⟩
  | cons hd _ ih =>
    rw [List.forall_mem_cons] at he
    obtain ⟨v, hv, hpv⟩ := Pattern.exists_reads_of_mem_ends he.1 hd
    obtain ⟨w, hw, hpw⟩ := ih he.2
    refine ⟨v ++ w, hv.trans hw, fun a ha => ?_⟩
    exact (List.mem_append.1 ha).elim (hpv a) (hpw a)

theorem exists_reads (h : e.Splits c parts stop) : ∃ w, c.Reads w stop := by
  obtain ⟨w, hw, -⟩ := h.exists_reads_of_readsOnly fun p _ => p.pattern.readsOnly_true
  exact ⟨w, hw⟩

/-- Each part stops before or where the last one stops. -/
theorem exists_reads_of_mem {part : Part} (h : e.Splits c parts stop) (hpart : part ∈ parts) :
    ∃ w, part.stop.Reads w stop := by
  induction h with
  | nil => exact absurd hpart List.not_mem_nil
  | cons _ h ih =>
    rcases List.mem_cons.1 hpart with rfl | hpart
    · exact h.exists_reads
    · exact ih hpart

theorem of_append (h : Splits (e ++ f) c parts stop) :
    ∃ ps d qs, parts = ps ++ qs ∧ e.Splits c ps d ∧ f.Splits d qs stop := by
  induction e generalizing c parts with
  | nil => exact ⟨[], c, parts, rfl, .nil c, h⟩
  | cons p e ih =>
    cases h with
    | cons hd h =>
      obtain ⟨ps, d', qs, rfl, he, hf⟩ := ih h
      exact ⟨_ :: ps, d', qs, rfl, .cons hd he, hf⟩

/-- A name that no piece bears is the name of no part. -/
theorem find?_eq_none {n : PieceName} (h : e.Splits c parts stop)
    (hn : e.all (·.name != some n)) : parts.find? (·.name == some n) = none := by
  induction h with
  | nil => rfl
  | cons _ _ ih =>
    rw [List.all_cons, Bool.and_eq_true] at hn
    rw [List.find?_cons_of_neg (by simpa using hn.1), ih hn.2]

theorem find?_append {n : PieceName} (h : e.Splits c parts stop)
    (hn : e.all (·.name != some n)) (qs : List Part) :
    (parts ++ qs).find? (·.name == some n) = qs.find? (·.name == some n) := by
  rw [List.find?_append, h.find?_eq_none hn, Option.none_or]

/-- The part of a named piece, with what lies before it and after it. -/
theorem exists_part {p : Piece} {n : PieceName} (h : Splits (e ++ p :: f) c parts stop)
    (hp : p.name = some n) (hn : e.all (·.name != some n)) :
    ∃ ps part qs, parts = ps ++ part :: qs ∧ parts.find? (·.name == some n) = some part ∧
      e.Splits c ps part.start ∧ part.stop ∈ p.pattern.ends part.start ∧
      f.Splits part.stop qs stop := by
  obtain ⟨ps, d, qs, rfl, he, hf⟩ := h.of_append
  cases hf with
  | @cons _ _ _ d' _ qs hd hf =>
    refine ⟨ps, ⟨p.name, d, d'⟩, qs, rfl, ?_, he, hd, hf⟩
    rw [List.find?_append, he.find?_eq_none hn, Option.none_or, List.find?_cons_of_pos]
    simp [hp]

end Expression.Splits

/-! ## What a search reports -/

/-- A piece without a name reads up to its first place, if it is the only one that will do. -/
theorem Expression.partsAt_piece {p : Pattern} {c d : Cursor} {e : Expression}
    (later : List Cursor) (hp : p.ends c = d :: later)
    (hlater : ∀ c' ∈ later, e.partsAt c' = none) :
    Expression.partsAt (p.piece :: e) c =
      (e.partsAt d).map fun r => (⟨none, c, d⟩ :: r.1, r.2) := by
  have hnone : (later.findSome? fun d =>
      (e.partsAt d).map fun r => ((⟨none, c, d⟩ : Part) :: r.1, r.2)) = none :=
    List.findSome?_eq_none_iff.2 fun c' hc' => by rw [hlater c' hc', Option.map_none]
  rw [partsAt, Pattern.piece, hp, List.findSome?_cons, hnone]
  cases e.partsAt d <;> rfl

theorem Expression.splits_of_partsAt {e : Expression} {c stop : Cursor} {parts : List Part}
    (h : e.partsAt c = some (parts, stop)) : e.Splits c parts stop := by
  induction e generalizing c parts with
  | nil =>
    simp only [partsAt, Option.some_inj, Prod.mk.injEq] at h
    obtain ⟨rfl, rfl⟩ := h
    exact .nil c
  | cons p e ih =>
    rw [partsAt] at h
    obtain ⟨d, hd, h⟩ := List.exists_of_findSome?_eq_some h
    obtain ⟨⟨qs, d'⟩, hq, h⟩ := Option.map_eq_some_iff.1 h
    simp only [Prod.mk.injEq] at h
    obtain ⟨rfl, rfl⟩ := h
    exact .cons hd (ih hq)

theorem Expression.splits_of_acceptedAt {e : Expression} {fresh : Bool} {c : Cursor} {m : Match}
    (h : e.acceptedAt fresh c = some m) :
    m.start = c ∧ e.Splits c m.parts m.stop ∧
      (fresh = true ∨ m.stop.rest.length < c.rest.length) := by
  rw [acceptedAt, Option.filter_eq_some_iff, matchAt, Option.map_eq_some_iff] at h
  obtain ⟨⟨⟨parts, stop⟩, hp, rfl⟩, hf⟩ := h
  exact ⟨rfl, splits_of_partsAt hp, by simpa using hf⟩

/-- After an empty match nothing more is found at the same place. -/
theorem Expression.acceptedAt_false_of_empty {e : Expression} {c : Cursor} {m : Match}
    (h : e.acceptedAt true c = some m) (hm : ¬m.stop.rest.length < c.rest.length) :
    e.acceptedAt false c = none := by
  rw [acceptedAt, Option.filter_eq_some_iff] at h
  rw [acceptedAt, h.1, Option.filter_some, if_neg (by simpa using hm)]

/-- **Every match is a cut of the text that was searched.** -/
theorem Expression.exists_reads_of_mem_matchesFrom {e : Expression} {fresh : Bool} {c : Cursor}
    {m : Match} (h : m ∈ e.matchesFrom fresh c) :
    ∃ w, c.Reads w m.start ∧ e.Splits m.start m.parts m.stop := by
  fun_induction Expression.matchesFrom e fresh c with
  | case1 fresh c m' hm ih_stop ih_here =>
    obtain ⟨rfl, hs, -⟩ := splits_of_acceptedAt hm
    rcases List.mem_cons.1 h with rfl | h
    · exact ⟨[], .refl _, hs⟩
    split at h
    · next hlt =>
      obtain ⟨v, hv⟩ := hs.exists_reads
      obtain ⟨w, hw, hm⟩ := ih_stop hlt h
      exact ⟨v ++ w, hv.trans hw, hm⟩
    · next hlt =>
      split at h
      · next hf => exact ih_here hf h
      · simp at h
  | case2 => simp at h
  | case3 fresh c hnone a rest hrest ih =>
    obtain ⟨w, hw, hm⟩ := ih h
    have hstep := Cursor.Reads.step c.offset c.before a rest
    rw [← hrest] at hstep
    exact ⟨a :: w, hstep.trans hw, hm⟩

theorem Expression.offset_le_of_mem_matchesFrom {e : Expression} {fresh : Bool} {c : Cursor}
    {m : Match} (h : m ∈ e.matchesFrom fresh c) : c.offset ≤ m.start.offset := by
  obtain ⟨w, hw, -⟩ := exists_reads_of_mem_matchesFrom h
  rw [hw.offset]
  omega

/-- Where nothing begins, the search goes on behind the next character. -/
theorem Expression.offset_lt_of_mem_matchesFrom {e : Expression} {fresh : Bool} {c : Cursor}
    {m : Match} (hc : e.acceptedAt fresh c = none) (h : m ∈ e.matchesFrom fresh c) :
    c.offset < m.start.offset := by
  rw [matchesFrom, hc] at h
  dsimp only at h
  split at h
  · simp at h
  · next a rest _ =>
    have h1 := offset_le_of_mem_matchesFrom h
    have h2 := a.utf8Size_pos
    simp only at h1
    omega

/-- **Matches follow one another.**  Each begins after the beginning of the one before, and not
before its end. -/
theorem Expression.pairwise_matchesFrom (e : Expression) (fresh : Bool) (c : Cursor) :
    (e.matchesFrom fresh c).Pairwise fun m n =>
      m.start.offset < n.start.offset ∧ m.stop.offset ≤ n.start.offset := by
  fun_induction Expression.matchesFrom e fresh c with
  | case1 fresh c m hm ih_stop ih_here =>
    obtain ⟨rfl, hs, hempty⟩ := splits_of_acceptedAt hm
    obtain ⟨w, hw⟩ := hs.exists_reads
    split
    · next hlt =>
      refine List.pairwise_cons.2 ⟨fun n hn => ?_, ih_stop hlt⟩
      have h1 := offset_le_of_mem_matchesFrom hn
      have h2 := hw.offset
      have h3 := Text.length_le_byteLength w
      have h4 := hw.length_eq
      omega
    · next hlt =>
      have hfresh : fresh = true := by simpa [hlt] using hempty
      subst hfresh
      rw [dif_pos rfl]
      refine List.pairwise_cons.2 ⟨fun n hn => ?_, ih_here rfl⟩
      have h1 := offset_lt_of_mem_matchesFrom (acceptedAt_false_of_empty hm hlt) hn
      have h2 := hw.offset
      have h3 := hw.length_eq
      have h4 : w = [] := List.eq_nil_of_length_eq_zero (by omega)
      rw [h4, Text.byteLength_nil] at h2
      omega
  | case2 => exact .nil
  | case3 fresh c hnone a rest hrest ih => exact ih

/-- Only the match that is taken right here begins here; all others begin later. -/
theorem Expression.exists_matchesFrom_eq (e : Expression) (fresh : Bool) (c : Cursor) :
    ∃ later, e.matchesFrom fresh c = (e.acceptedAt fresh c).toList ++ later ∧
      ∀ m ∈ later, c.offset < m.start.offset := by
  cases hc : e.acceptedAt fresh c with
  | none => exact ⟨_, rfl, fun m hm => offset_lt_of_mem_matchesFrom hc hm⟩
  | some m =>
    obtain ⟨rfl, -, -⟩ := splits_of_acceptedAt hc
    have hpairs := e.pairwise_matchesFrom fresh m.start
    rw [matchesFrom, hc] at hpairs ⊢
    exact ⟨_, rfl, fun n hn => (List.rel_of_pairwise_cons hpairs hn).1⟩

end CommentTags
