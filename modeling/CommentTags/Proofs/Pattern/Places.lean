import Mathlib.Data.List.Forall2
import CommentTags.Pattern.Search
import CommentTags.Proofs.Text.Boundaries

/-!
# The places that a match passes through

A pattern only ever moves forward: where it can stop is reached from where it starts by reading
some text.

* `Cursor.Reads` — the text between two places, with what it does to the offset and to the
  character before the place.
* `Pattern.ReadsOnly` — every character that a pattern can read has a property.
* `rel_of_mem_oneOrMore` — what holds of no step, of each step and of one after another holds of
  repetitions.  All that is said about `plus` goes through it.
* `Pattern.exists_reads_of_mem_ends` — the induction over patterns: a pattern stops where reading
  has led it, and what it has read consists of characters that it can read.
* `oneOrMore_map` — two kinds of steps that a map of places takes to each other are repeated alike.
-/

set_option autoImplicit false

namespace CommentTags

/-- `d` is the place that is reached from `c` by reading the text `w`. -/
structure Cursor.Reads (c : Cursor) (w : List Char) (d : Cursor) : Prop where
  /-- The text stands right after `c`, and the rest of it after `d`. -/
  rest : c.rest = w ++ d.rest
  offset : d.offset = c.offset + Text.byteLength w
  /-- Where nothing is read, the character before the place stays the same. -/
  before : d.before = w.getLast?.or c.before

namespace Cursor.Reads

variable {c d e : Cursor} {v w : List Char}

theorem refl (c : Cursor) : c.Reads [] c := ⟨rfl, rfl, rfl⟩

theorem trans (hd : c.Reads v d) (he : d.Reads w e) : c.Reads (v ++ w) e := by
  refine ⟨by rw [hd.rest, he.rest, List.append_assoc], ?_, ?_⟩
  · rw [he.offset, hd.offset, Text.byteLength_append, Nat.add_assoc]
  · rw [he.before, hd.before, List.getLast?_append, Option.or_assoc]

/-- Reading one character. -/
theorem step (offset : Nat) (before : Option Char) (a : Char) (rest : List Char) :
    Reads ⟨offset, before, a :: rest⟩ [a] ⟨offset + a.utf8Size, some a, rest⟩ :=
  ⟨rfl, rfl, rfl⟩

theorem length_eq (h : c.Reads w d) : c.rest.length = w.length + d.rest.length := by
  rw [h.rest, List.length_append]

theorem length_le (h : c.Reads w d) : d.rest.length ≤ c.rest.length := by
  rw [h.length_eq]
  exact Nat.le_add_left _ _

/-- What does not stand after a place does not stand after a later one. -/
theorem not_mem (h : c.Reads w d) {a : Char} (ha : a ∉ c.rest) : a ∉ d.rest := fun hd =>
  ha (h.rest ▸ List.mem_append_right w hd)

theorem upTo_eq (h : c.Reads w d) : c.upTo d = w := by
  rw [Cursor.upTo, h.rest]
  simp

end Cursor.Reads

/-! ## Where a pattern can stop -/

/-- Every character that the pattern can read has a property. -/
def Pattern.ReadsOnly (P : Char → Prop) : Pattern → Prop
  | .lineStart | .lineEnd => True
  | .one k | .run k | .lazyRun k => ∀ a, k.contains a → P a
  | .literal s => ∀ b ∈ s, ∀ a, Text.sameLetter b a → P a
  | .oneOf words => ∀ s ∈ words, ∀ b ∈ s, ∀ a, Text.sameLetter b a → P a
  | .seq p q | .alt p q => p.ReadsOnly P ∧ q.ReadsOnly P
  | .opt p | .plus p | .group p => p.ReadsOnly P

theorem Pattern.readsOnly_true (p : Pattern) : p.ReadsOnly fun _ => True := by
  induction p <;> simp_all [Pattern.ReadsOnly]

theorem exists_reads_of_mem_classRuns {k : CharClass} {s : List Char} :
    ∀ {offset : Nat} {before : Option Char} {d : Cursor}, d ∈ classRuns k offset before s →
      ∃ w, Cursor.Reads ⟨offset, before, s⟩ w d ∧ ∀ a ∈ w, k.contains a := by
  induction s with
  | nil =>
    intro offset before d hd
    rw [classRuns, List.mem_singleton] at hd
    subst hd
    exact ⟨[], .refl _, by simp⟩
  | cons a s ih =>
    intro offset before d hd
    rw [classRuns, List.mem_cons] at hd
    rcases hd with rfl | hd
    · exact ⟨[], .refl _, by simp⟩
    · split at hd
      · next ha =>
        obtain ⟨w, hw, hk⟩ := ih hd
        exact ⟨a :: w, (Cursor.Reads.step offset before a s).trans hw, by simpa [ha] using hk⟩
      · simp at hd

/-- A literal text is read letter by letter. -/
theorem exists_reads_of_literalEnd {s : List Char} :
    ∀ {offset : Nat} {before : Option Char} {rest : List Char} {d : Cursor},
      literalEnd offset before s rest = some d →
      ∃ w, Cursor.Reads ⟨offset, before, rest⟩ w d ∧
        List.Forall₂ (fun b a => Text.sameLetter b a = true) s w := by
  induction s with
  | nil =>
    intro offset before rest d hd
    rw [literalEnd, Option.some_inj] at hd
    subst hd
    exact ⟨[], .refl _, .nil⟩
  | cons b s ih =>
    intro offset before rest d hd
    cases rest with
    | nil => simp [literalEnd] at hd
    | cons a rest =>
      rw [literalEnd] at hd
      split at hd
      · next hba =>
        obtain ⟨w, hw, hs⟩ := ih hd
        exact ⟨a :: w, (Cursor.Reads.step offset before a rest).trans hw, .cons hba hs⟩
      · simp at hd

theorem forall_of_forall₂_sameLetter {P : Char → Prop} {s w : List Char}
    (h : List.Forall₂ (fun b a => Text.sameLetter b a = true) s w)
    (hs : ∀ b ∈ s, ∀ a, Text.sameLetter b a → P a) : ∀ a ∈ w, P a := by
  induction h with
  | nil => simp
  | @cons b a s w hba h ih =>
    rw [List.forall_mem_cons]
    exact ⟨hs b (by simp) a hba, ih fun b hb => hs b (List.mem_cons_of_mem _ hb)⟩

/-- Whatever holds of no step, of one step after another, and of each step, holds of repetitions. -/
theorem rel_of_mem_reachAll {R : Cursor → Cursor → Prop} {step : Cursor → List Cursor}
    (hrefl : ∀ c, R c c) (htrans : ∀ c d e, R c d → R d e → R c e)
    (hstep : ∀ c, ∀ d ∈ step c, R c d) :
    ∀ (c : Cursor) (found : List Cursor), ∀ e ∈ reachAll step c found, e ∈ found ∨ R c e := by
  intro c
  induction hn : c.rest.length using Nat.strongRecOn generalizing c with
  | ind n ih =>
    -- the fold adds only what is reached through the steps `ds` that it runs over
    have hfold (ds : List Cursor) (hds : ∀ d ∈ ds, R c d) : ∀ found, ∀ e ∈ ds.foldl (fun found d =>
        if _h : d.rest.length < c.rest.length then reachAll step d found else found) found,
        e ∈ found ∨ R c e := by
      induction ds with
      | nil => exact fun found e he => .inl he
      | cons d ds ihd =>
        intro found e he
        rw [List.foldl_cons] at he
        rcases ihd (fun d hd => hds d (List.mem_cons_of_mem _ hd)) _ e he with he | he
        · split at he
          · next hlt =>
            refine (ih _ (hn ▸ hlt) d rfl _ e he).imp_right fun h => ?_
            exact htrans c d e (hds d (by simp)) h
          · exact .inl he
        · exact .inr he
    intro found e he
    rw [reachAll] at he
    split at he
    · exact .inl he
    · rw [List.mem_cons] at he
      rcases he with rfl | he
      · exact .inr (hrefl e)
      · exact hfold _ (hstep c) found e he

/-- What is reached by one step or more is reached from where the first step leads. -/
theorem exists_step_of_mem_oneOrMore {R : Cursor → Cursor → Prop} {step : Cursor → List Cursor}
    (hrefl : ∀ c, R c c) (htrans : ∀ c d e, R c d → R d e → R c e)
    (hstep : ∀ c, ∀ d ∈ step c, R c d) {c e : Cursor} (he : e ∈ oneOrMore step c) :
    ∃ d ∈ step c, R d e := by
  have hfold (ds : List Cursor) (hds : ∀ d ∈ ds, d ∈ step c) : ∀ found,
      (∀ e ∈ found, ∃ d ∈ step c, R d e) →
      ∀ e ∈ ds.foldl (fun found d => reachAll step d found) found, ∃ d ∈ step c, R d e := by
    induction ds with
    | nil => exact fun found h => h
    | cons d ds ih =>
      intro found hf
      refine ih (fun d hd => hds d (List.mem_cons_of_mem _ hd)) _ fun e he => ?_
      rcases rel_of_mem_reachAll hrefl htrans hstep d found e he with he | he
      · exact hf e he
      · exact ⟨d, hds d (by simp), he⟩
  rw [oneOrMore, List.mem_reverse] at he
  exact hfold _ (fun d hd => hd) [] (by simp) e he

theorem rel_of_mem_oneOrMore {R : Cursor → Cursor → Prop} {step : Cursor → List Cursor}
    (hrefl : ∀ c, R c c) (htrans : ∀ c d e, R c d → R d e → R c e)
    (hstep : ∀ c, ∀ d ∈ step c, R c d) {c e : Cursor} (he : e ∈ oneOrMore step c) : R c e := by
  obtain ⟨d, hd, hde⟩ := exists_step_of_mem_oneOrMore hrefl htrans hstep he
  exact htrans c d e (hstep c d hd) hde

theorem oneOrMore_of_eq_nil {step : Cursor → List Cursor} {c : Cursor} (h : step c = []) :
    oneOrMore step c = [] := by
  rw [oneOrMore, h]
  rfl

/-- Where there is one way to go on at most, the places are reached one after another. -/
theorem oneOrMore_of_eq_singleton {step : Cursor → List Cursor} {c d : Cursor} (h : step c = [d])
    (hd : step d = [] ∨ ∃ e, step d = [e] ∧ e.rest.length < d.rest.length) :
    oneOrMore step c = oneOrMore step d ++ [d] := by
  have hreach : reachAll step d [] = d :: (oneOrMore step d).reverse := by
    rw [reachAll, oneOrMore]
    rcases hd with hd | ⟨e, hd, hlt⟩
    · simp [hd]
    · simp [hd, hlt]
  rw [oneOrMore, h, List.foldl_cons, List.foldl_nil, hreach, List.reverse_cons, List.reverse_reverse]

/-- Whatever each step keeps holds of all that is reached. -/
theorem forall_mem_reachAll {S : Cursor → Prop} {step : Cursor → List Cursor}
    (hclosed : ∀ c, S c → ∀ d ∈ step c, S d) {c : Cursor} {found : List Cursor} (hc : S c)
    (hfound : ∀ d ∈ found, S d) : ∀ e ∈ reachAll step c found, S e := by
  intro e he
  have h := rel_of_mem_reachAll (R := fun c d => S c → S d) (fun _ => id)
    (fun _ _ _ h1 h2 => h2 ∘ h1) (fun c d hd hc => hclosed c hc d hd) c found e he
  exact h.elim (hfound e) (· hc)

section Maps

variable {φ : Cursor → Cursor} {S : Cursor → Prop} {step step' : Cursor → List Cursor}
  (hlt : ∀ c d, S c → S d → ((φ d).rest.length < (φ c).rest.length ↔ d.rest.length < c.rest.length))
  (hclosed : ∀ c, S c → ∀ d ∈ step c, S d) (hstep : ∀ c, S c → step' (φ c) = (step c).map φ)
include hlt hclosed hstep

/-- What is reached by repetition is reached from the images of the places, in the same order: only
the number of characters that are left decides what has been found before. -/
theorem reachAll_map (c : Cursor) (hc : S c) (found : List Cursor) (hfound : ∀ d ∈ found, S d) :
    reachAll step' (φ c) (found.map φ) = (reachAll step c found).map φ := by
  have heq (c d : Cursor) (hc : S c) (hd : S d) :
      (φ d).rest.length = (φ c).rest.length ↔ d.rest.length = c.rest.length := by
    have h1 := hlt c d hc hd
    have h2 := hlt d c hd hc
    omega
  induction hn : c.rest.length using Nat.strongRecOn generalizing c found with
  | ind n ih =>
    have hfold (ds : List Cursor) (hds : ∀ d ∈ ds, S d) : ∀ found : List Cursor,
        (∀ d ∈ found, S d) →
        (ds.map φ).foldl (fun found d =>
            if _h : d.rest.length < (φ c).rest.length then reachAll step' d found else found)
            (found.map φ) =
          (ds.foldl (fun found d =>
            if _h : d.rest.length < c.rest.length then reachAll step d found else found)
            found).map φ := by
      induction ds with
      | nil => exact fun _ _ => rfl
      | cons d ds ihd =>
        intro found hfound
        have hd := hds d List.mem_cons_self
        rw [List.map_cons, List.foldl_cons, List.foldl_cons]
        simp only [hlt c d hc hd]
        split
        · next hlt' =>
          rw [ih _ (hn ▸ hlt') d hd found hfound rfl]
          exact ihd (fun d hd => hds d (List.mem_cons_of_mem _ hd)) _
            (forall_mem_reachAll hclosed hd hfound)
        · exact ihd (fun d hd => hds d (List.mem_cons_of_mem _ hd)) _ hfound
    have hany : (found.map φ).any (·.rest.length == (φ c).rest.length) =
        found.any (·.rest.length == c.rest.length) := by
      rw [List.any_map, Bool.eq_iff_iff, List.any_eq_true, List.any_eq_true]
      refine exists_congr fun d => and_congr_right fun hd => ?_
      rw [Function.comp_apply, beq_iff_eq, beq_iff_eq, heq c d hc (hfound d hd)]
    rw [reachAll, reachAll, hany, hstep c hc, hfold _ (hclosed c hc) _ hfound]
    split <;> rfl

theorem oneOrMore_map (c : Cursor) (hc : S c) :
    oneOrMore step' (φ c) = (oneOrMore step c).map φ := by
  have hfold (ds : List Cursor) (hds : ∀ d ∈ ds, S d) : ∀ found : List Cursor,
      (∀ d ∈ found, S d) →
      (ds.map φ).foldl (fun found d => reachAll step' d found) (found.map φ) =
        (ds.foldl (fun found d => reachAll step d found) found).map φ := by
    induction ds with
    | nil => exact fun _ _ => rfl
    | cons d ds ih =>
      intro found hfound
      have hd := hds d List.mem_cons_self
      rw [List.map_cons, List.foldl_cons, List.foldl_cons,
        reachAll_map hlt hclosed hstep d hd found hfound]
      exact ih (fun d hd => hds d (List.mem_cons_of_mem _ hd)) _
        (forall_mem_reachAll hclosed hd hfound)
  rw [oneOrMore, oneOrMore, hstep c hc, List.map_reverse, ← hfold _ (hclosed c hc) [] (by simp)]
  rfl

end Maps

/-- A class reads one of its characters. -/
theorem exists_reads_of_mem_ends_one {k : CharClass} {c d : Cursor}
    (hd : d ∈ (Pattern.one k).ends c) :
    ∃ a, c.Reads [a] d ∧ k.contains a := by
  obtain ⟨offset, before, rest⟩ := c
  cases rest with
  | nil => simp [Pattern.ends] at hd
  | cons a rest =>
    simp only [Pattern.ends] at hd
    split at hd
    · next ha =>
      rw [List.mem_singleton.1 hd]
      exact ⟨a, .step offset before a rest, ha⟩
    · simp at hd

/-- `d` is reached from `c` by reading characters with a property. -/
def Cursor.ReachesBy (P : Char → Prop) (c d : Cursor) : Prop :=
  ∃ w, c.Reads w d ∧ ∀ a ∈ w, P a

section ReachesBy

variable {P : Char → Prop} {c d e : Cursor}

theorem Cursor.ReachesBy.refl (c : Cursor) : c.ReachesBy P c := ⟨[], .refl c, by simp⟩

theorem Cursor.ReachesBy.trans (hd : c.ReachesBy P d) (he : d.ReachesBy P e) :
    c.ReachesBy P e := by
  obtain ⟨v, hv, hpv⟩ := hd
  obtain ⟨w, hw, hpw⟩ := he
  exact ⟨v ++ w, hv.trans hw, fun a ha => (List.mem_append.1 ha).elim (hpv a) (hpw a)⟩

/-- An assertion about a place stops where it starts, if at all. -/
theorem eq_of_mem_assertion {b : Bool} (hd : d ∈ if b then [c] else []) : d = c := by
  split at hd
  · exact List.mem_singleton.1 hd
  · simp at hd

theorem reachesBy_of_mem_classRuns {k : CharClass} (hk : ∀ a, k.contains a → P a)
    (hd : d ∈ classRuns k c.offset c.before c.rest) : c.ReachesBy P d := by
  obtain ⟨w, hw, hin⟩ := exists_reads_of_mem_classRuns hd
  exact ⟨w, hw, fun a ha => hk a (hin a ha)⟩

theorem reachesBy_of_literalEnd {s : List Char} (hs : ∀ b ∈ s, ∀ a, Text.sameLetter b a → P a)
    (hd : literalEnd c.offset c.before s c.rest = some d) : c.ReachesBy P d := by
  obtain ⟨w, hw, hletters⟩ := exists_reads_of_literalEnd hd
  exact ⟨w, hw, forall_of_forall₂_sameLetter hletters hs⟩

end ReachesBy

/-- **A pattern stops where reading has led it.**  What it has read consists of characters that it
can read. -/
theorem Pattern.exists_reads_of_mem_ends {P : Char → Prop} {p : Pattern} (hp : p.ReadsOnly P) :
    ∀ {c d : Cursor}, d ∈ p.ends c → ∃ w, c.Reads w d ∧ ∀ a ∈ w, P a := by
  change ∀ {c d : Cursor}, d ∈ p.ends c → c.ReachesBy P d
  induction p with
  | lineStart | lineEnd =>
    intro c d hd
    rw [Pattern.ends] at hd
    rw [eq_of_mem_assertion hd]
    exact .refl c
  | one k =>
    intro c d hd
    obtain ⟨a, ha, hk⟩ := exists_reads_of_mem_ends_one hd
    exact ⟨[a], ha, by simpa using hp a hk⟩
  | run k =>
    intro c d hd
    rw [Pattern.ends, List.mem_reverse] at hd
    exact reachesBy_of_mem_classRuns hp hd
  | lazyRun k => exact reachesBy_of_mem_classRuns hp
  | literal s =>
    intro c d hd
    rw [Pattern.ends, Option.mem_toList] at hd
    exact reachesBy_of_literalEnd hp hd
  | oneOf words =>
    intro c d hd
    rw [Pattern.ends, List.mem_filterMap] at hd
    obtain ⟨s, hs, hd⟩ := hd
    exact reachesBy_of_literalEnd (hp s hs) hd
  | seq p q ihp ihq =>
    intro c e he
    rw [Pattern.ends, List.mem_flatMap] at he
    obtain ⟨d, hd, he⟩ := he
    exact (ihp hp.1 hd).trans (ihq hp.2 he)
  | alt p q ihp ihq =>
    intro c d hd
    rw [Pattern.ends, List.mem_append] at hd
    exact hd.elim (ihp hp.1) (ihq hp.2)
  | opt p ih =>
    intro c d hd
    rw [Pattern.ends, List.mem_append, List.mem_singleton] at hd
    rcases hd with hd | rfl
    · exact ih hp hd
    · exact .refl d
  | plus p ih =>
    intro c d hd
    rw [Pattern.ends] at hd
    exact rel_of_mem_oneOrMore (R := Cursor.ReachesBy P) .refl (fun _ _ _ => .trans)
      (fun _ _ hd => ih hp hd) hd
  | group p ih => exact fun hd => ih hp hd

theorem Pattern.exists_reads {p : Pattern} {c d : Cursor} (hd : d ∈ p.ends c) :
    ∃ w, c.Reads w d := by
  obtain ⟨w, hw, -⟩ := Pattern.exists_reads_of_mem_ends p.readsOnly_true hd
  exact ⟨w, hw⟩

end CommentTags
