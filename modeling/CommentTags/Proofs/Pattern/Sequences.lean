import CommentTags.Proofs.Pattern.Preference

/-!
# Pieces one after another

The first pieces of an expression can stop at several places.  The rest of the expression decides: a
match goes through the first place in order from which the rest matches.  Where the places are
listed from far to near, as they are for what stands before a tag, as much is read as the rest
allows.

* `Expression.places` — the places where pieces one after another can stop, the preferred one first.
* `Expression.exists_place_of_partsAt_append` — a match goes through the first one that will do.
* `Expression.Accepts`, `Expression.Eager` — pieces that read exactly the texts of one kind, and
  those that list their places from far to near.
* `Expression.partsAt_run` — a run reads all that it can, unless the rest needs some of it.
-/

set_option autoImplicit false

namespace CommentTags

open Text

namespace Expression

/-! ## Where pieces can stop -/

/-- The places where pieces one after another can stop, the preferred one first. -/
def places : Expression → Cursor → List Cursor
  | [], c => [c]
  | p :: e, c => (p.pattern.ends c).flatMap (places e)

variable {e f : Expression} {p : Piece} {c d stop : Cursor} {parts : List Part}

theorem mem_places_nil : d ∈ places [] c ↔ d = c := List.mem_singleton

theorem mem_places_cons : d ∈ places (p :: e) c ↔ ∃ x ∈ p.pattern.ends c, d ∈ e.places x :=
  List.mem_flatMap

theorem isSome_partsAt_append :
    (partsAt (e ++ f) c).isSome ↔ ∃ d ∈ e.places c, (f.partsAt d).isSome := by
  induction e generalizing c with
  | nil => simp [places]
  | cons p e ih =>
    rw [List.cons_append, isSome_partsAt_cons]
    simp only [ih, mem_places_cons]
    constructor
    · rintro ⟨x, hx, d, hd, h⟩
      exact ⟨d, ⟨x, hx, hd⟩, h⟩
    · rintro ⟨d, ⟨x, hx, hd⟩, h⟩
      exact ⟨x, hx, d, hd, h⟩

/-- An expression matches if it can stop anywhere. -/
theorem isSome_partsAt_iff : (e.partsAt c).isSome ↔ ∃ d, d ∈ e.places c := by
  have h := isSome_partsAt_append (e := e) (f := []) (c := c)
  rw [List.append_nil] at h
  simpa using h

theorem Splits.mem_places (h : e.Splits c parts d) : d ∈ e.places c := by
  induction h with
  | nil c => exact mem_places_nil.2 rfl
  | cons hd _ ih => exact mem_places_cons.2 ⟨_, hd, ih⟩

/-- **The first pieces lead to the first place in order from which the rest matches.** -/
theorem exists_place_of_partsAt_append {R : Cursor → Cursor → Prop}
    (hplaces : (e.places c).Pairwise R) (h : partsAt (e ++ f) c = some (parts, stop)) :
    ∃ ps d qs, parts = ps ++ qs ∧ e.Splits c ps d ∧ f.partsAt d = some (qs, stop) ∧
      ∀ x ∈ e.places c, (f.partsAt x).isSome → x = d ∨ R d x := by
  induction e generalizing c parts with
  | nil => exact ⟨[], c, parts, rfl, .nil c, h, fun x hx _ => .inl (mem_places_nil.1 hx)⟩
  | cons p e ih =>
    -- the first piece leads to the first place from which the other pieces and the rest match
    rw [places, List.pairwise_flatMap] at hplaces
    obtain ⟨y, hy, _, rfl, hys, hfirst⟩ := exists_of_partsAt_cons hplaces.2 h
    obtain ⟨ps, d, qs, rfl, he, hf, hleast⟩ := ih (hplaces.1 y hy) hys
    refine ⟨⟨p.name, c, y⟩ :: ps, d, qs, rfl, .cons hy he, hf, fun x hx hsome => ?_⟩
    obtain ⟨z, hz, hx⟩ := mem_places_cons.1 hx
    rcases hfirst z hz (isSome_partsAt_append.2 ⟨x, hx, hsome⟩) with rfl | hyz
    · exact hleast x hx hsome
    · exact .inr (hyz d he.mem_places x hx)

/-! ## What pieces read -/

/-- From every place, the pieces stop exactly where a text of one kind has been read. -/
def Accepts (e : Expression) (Q : List Char → Prop) : Prop :=
  ∀ c d : Cursor, d ∈ e.places c ↔ ∃ w, c.Reads w d ∧ Q w

theorem accepts_nil : Accepts [] (· = []) := by
  intro c d
  rw [mem_places_nil]
  constructor
  · rintro rfl
    exact ⟨[], .refl d, rfl⟩
  · rintro ⟨_, hw, rfl⟩
    exact hw.unique (.refl c)

theorem Accepts.cons {P Q : List Char → Prop} (hp : p.pattern.Accepts P) (he : e.Accepts Q) :
    Accepts (p :: e) fun w => ∃ u v, w = u ++ v ∧ P u ∧ Q v := by
  intro c d
  rw [mem_places_cons]
  constructor
  · rintro ⟨x, hx, hd⟩
    obtain ⟨u, hu, hP⟩ := (hp c x).1 hx
    obtain ⟨v, hv, hQ⟩ := (he x d).1 hd
    exact ⟨u ++ v, hu.trans hv, u, v, rfl, hP, hQ⟩
  · rintro ⟨_, hw, u, v, rfl, hP, hQ⟩
    obtain ⟨x, hu, hv⟩ := hw.split
    exact ⟨x, (hp c x).2 ⟨u, hu, hP⟩, (he x d).2 ⟨v, hv, hQ⟩⟩

theorem Accepts.congr {P Q : List Char → Prop} (he : e.Accepts P) (h : ∀ w, P w ↔ Q w) :
    e.Accepts Q := by
  intro c d
  rw [he c d]
  simp only [h]

/-! ## Pieces that read as much as they can -/

/-- The places where the pieces can stop are listed from far to near. -/
def Eager (e : Expression) : Prop :=
  ∀ c, (e.places c).Pairwise fun d e => d.rest.length < e.rest.length

theorem Eager.cons_of_deterministic (he : e.Eager) (hp : p.pattern.Deterministic) :
    Eager (p :: e) := by
  intro c
  rw [places]
  rcases hp c with h | ⟨d, h⟩
  · rw [h, List.flatMap_nil]
    exact .nil
  · rw [h, List.flatMap_singleton]
    exact he d

/-- A run before pieces that begin with other characters can only stop at its end. -/
theorem Eager.cons_run {k : CharClass} {n : Option PieceName} (he : e.Eager)
    (hstop : ∀ (c : Cursor) (a : Char), a ∈ c.rest.head? → k.contains a = true → e.places c = []) :
    Eager (⟨n, .run k⟩ :: e) := by
  intro c
  rw [places, List.pairwise_flatMap]
  refine ⟨fun d _ => he d, List.pairwise_reverse.2 ?_⟩
  refine (pairwise_classRuns k c.offset c.before c.rest).imp_of_mem ?_
  -- the nearer place is followed by a character of the run
  intro d d' hd hd' hlt x _ y hy
  obtain ⟨w, hw, -⟩ := mem_classRuns_iff.1 hd
  obtain ⟨w', hw', hk⟩ := mem_classRuns_iff.1 hd'
  obtain ⟨a, ha, hhead⟩ := hw.exists_mem_head? hw' hlt
  rw [hstop d a hhead (hk a ha)] at hy
  exact absurd hy List.not_mem_nil

/-- The last run reads as much as it can. -/
theorem eager_run (k : CharClass) (n : Option PieceName) : Eager [⟨n, .run k⟩] := by
  intro c
  have h : places [⟨n, .run k⟩] c = (classRuns k c.offset c.before c.rest).reverse :=
    List.flatMap_singleton' _
  rw [h, List.pairwise_reverse]
  exact pairwise_classRuns k c.offset c.before c.rest

/-- A text that may be left out is read if it stands there. -/
theorem eager_opt_literal {word : List Char} (hword : word ≠ []) (n : Option PieceName) :
    Eager [⟨n, .opt (.group (.literal word))⟩] := by
  intro c
  have h : places [⟨n, .opt (.group (.literal word))⟩] c =
      (literalEnd c.offset c.before word c.rest).toList ++ [c] :=
    List.flatMap_singleton' _
  rw [h]
  cases hd : literalEnd c.offset c.before word c.rest with
  | none => exact List.pairwise_singleton _ _
  | some d =>
    obtain ⟨w, hw, hword'⟩ := literalEnd_eq_some_iff.1 hd
    have hlen : c.rest.length = w.length + d.rest.length := hw.length_eq
    have hpos := List.length_pos_of_ne_nil hword
    rw [hword'.length_eq] at hlen
    refine List.pairwise_cons.2 ⟨fun x hx => ?_, List.pairwise_singleton _ _⟩
    rw [List.mem_singleton.1 hx]
    omega

/-! ## One of several words -/

/-- Of several words, the first one is read after which the rest matches. -/
theorem exists_of_partsAt_oneOf {words : List (List Char)} {n : Option PieceName}
    (h : partsAt (⟨n, .oneOf words⟩ :: f) c = some (parts, stop)) :
    ∃ i word w d ps, words[i]? = some word ∧ Spells word w ∧ c.Reads w d ∧
      parts = ⟨n, c, d⟩ :: ps ∧ f.partsAt d = some (ps, stop) ∧
      ∀ (j : Nat) word' w' d', words[j]? = some word' → Spells word' w' → c.Reads w' d' →
        (f.partsAt d').isSome → i ≤ j := by
  rw [partsAt, Pattern.ends, ← List.head?_filterMap, List.filterMap_filterMap,
    List.head?_filterMap, List.findSome?_eq_some_iff] at h
  obtain ⟨front, word, back, rfl, hword, hfront⟩ := h
  obtain ⟨d, hd, h⟩ := Option.bind_eq_some_iff.1 hword
  obtain ⟨⟨ps, _⟩, hps, h⟩ := Option.map_eq_some_iff.1 h
  obtain ⟨rfl, rfl⟩ := Prod.mk.inj h
  obtain ⟨w, hw, hspells⟩ := literalEnd_eq_some_iff.1 hd
  refine ⟨front.length, word, w, d, ps, by simp, hspells, hw, rfl, hps, ?_⟩
  intro j word' w' d' hj hspells' hw' hsome
  by_contra hlt
  -- an earlier word would have been read
  have hmem : word' ∈ front := by
    rw [List.getElem?_append_left (Nat.lt_of_not_le hlt)] at hj
    exact List.mem_of_getElem? hj
  have hnone := hfront word' hmem
  rw [literalEnd_eq_some_iff.2 ⟨w', hw', hspells'⟩, Option.bind_some,
    Option.map_eq_none_iff] at hnone
  rw [hnone] at hsome
  exact Bool.noConfusion hsome

/-! ## Runs -/

/-- **A run reads all that it can**, if the rest matches there whenever it matches earlier. -/
theorem partsAt_run {k : CharClass} {n : Option PieceName} {w : List Char} (hw : c.Reads w d)
    (hk : ∀ a ∈ w, k.contains a = true) (hmax : ∀ a ∈ d.rest.head?, k.contains a = false)
    (hrest : ∀ x u, c.Reads u x → (∀ a ∈ u, k.contains a = true) →
      (f.partsAt x).isSome → (f.partsAt d).isSome) :
    partsAt (⟨n, .run k⟩ :: f) c = (f.partsAt d).map fun r => (⟨n, c, d⟩ :: r.1, r.2) := by
  have hpairs : ((Pattern.run k).ends c).Pairwise fun x y => x.rest.length < y.rest.length :=
    List.pairwise_reverse.2 (pairwise_classRuns k c.offset c.before c.rest)
  cases h : partsAt (⟨n, .run k⟩ :: f) c with
  | none =>
    cases hd : f.partsAt d with
    | none => rfl
    | some r =>
      have hsome : (partsAt (⟨n, .run k⟩ :: f) c).isSome := isSome_partsAt_cons.2
        ⟨d, (Pattern.accepts_run k c d).2 ⟨w, hw, hk⟩, by rw [hd]; rfl⟩
      rw [h] at hsome
      exact Bool.noConfusion hsome
  | some r =>
    obtain ⟨parts, stop⟩ := r
    obtain ⟨x, hx, ps, rfl, hps, hfirst⟩ := exists_of_partsAt_cons hpairs h
    obtain ⟨u, hu, hku⟩ := (Pattern.accepts_run k c x).1 hx
    have hd := hrest x u hu hku (by rw [hps]; rfl)
    rcases hfirst d ((Pattern.accepts_run k c d).2 ⟨w, hw, hk⟩) hd with rfl | hlt
    · rw [hps]
      rfl
    · -- what is read beyond the run is not of the class
      obtain ⟨a, ha, hhead⟩ := hw.exists_mem_head? hu hlt
      exact absurd (hku a ha) (Bool.eq_false_iff.1 (hmax a hhead))

/-- A lazy run passes over a text if the rest matches nowhere in it. -/
theorem findSome?_classRuns_of_reads {α : Type} {g : Cursor → Option α} {k : CharClass}
    {w : List Char} (hw : c.Reads w d) (hk : ∀ a ∈ w, k.contains a = true)
    (hnone : ∀ x u v, w = u ++ v → v ≠ [] → c.Reads u x → g x = none) :
    (classRuns k c.offset c.before c.rest).findSome? g =
      (classRuns k d.offset d.before d.rest).findSome? g := by
  induction w generalizing c with
  | nil => rw [hw.unique (.refl c)]
  | cons a w ih =>
    obtain ⟨offset, before, rest⟩ := c
    obtain ⟨rest, rfl, hread⟩ := hw.exists_step
    rw [List.forall_mem_cons] at hk
    have hhere : g ⟨offset, before, a :: rest⟩ = none :=
      hnone _ [] (a :: w) rfl (List.cons_ne_nil a w) (.refl _)
    rw [classRuns, if_pos hk.1, List.findSome?_cons, hhere]
    refine ih hread hk.2 fun x u v huv hv hx => ?_
    have hstep := (Cursor.Reads.step offset before a rest).trans hx
    exact hnone x (a :: u) v (by rw [huv, List.cons_append]) hv hstep

end Expression

end CommentTags
