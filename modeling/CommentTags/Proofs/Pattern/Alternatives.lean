import Mathlib.Data.List.Perm.Basic
import CommentTags.Proofs.Pattern.Languages
import CommentTags.Proofs.Pattern.Parts
import CommentTags.Proofs.Text.Ascii

/-!
# The order of alternatives

Of words in ASCII none of which is a beginning of another one, no two stand at the same place of a
text, whatever their case.  So the order in which a pattern tries them is of no account.  A word
with the same letters as an earlier one stops where that one has stopped before.

A search tries the places where the pieces of its expression can stop, and takes the first one that
will do.  Where the first one is the same whatever is asked of it, the search finds the same
matches.

* `Excludes` — two words that cannot stand at one place.
* `Pattern.ends_oneOf_perm` — the order of such words is of no account.
* `SameFirst` — the first place that will do is the same in both lists, whatever is asked of it.
* `Pattern.sameFirst_oneOf_repeated` — a word that is repeated is never taken.
* `Expression.findAll_congr` — only where the pieces stop first decides what a search finds.
-/

set_option autoImplicit false

namespace CommentTags

open Text

/-! ## Words that exclude each other -/

theorem fold_of_ascii {a : Char} (h : a.toNat < 0x80) : fold a = a.toLower := if_pos h

theorem map_fold_of_ascii {s : List Char} (h : ∀ a ∈ s, a.toNat < 0x80) :
    s.map fold = s.map Char.toLower :=
  List.map_congr_left fun a ha => fold_of_ascii (h a ha)

/-- Both texts cannot stand at one place in any case of their letters, unless one of them is where
the other one begins. -/
def Excludes (v w : List Char) : Prop :=
  ¬v.map Char.toLower <+: w.map Char.toLower ∧ ¬w.map Char.toLower <+: v.map Char.toLower

theorem prefix_of_literalEnd {w : List Char} {offset : Nat} {before : Option Char} {rest : List Char}
    {d : Cursor} (h : literalEnd offset before w rest = some d) :
    w.map fold <+: rest.map fold := by
  obtain ⟨u, hu, hw⟩ := exists_reads_of_literalEnd h
  have hrest : rest = u ++ d.rest := hu.rest
  rw [spells_iff.1 hw, hrest, List.map_append]
  exact List.prefix_append _ _

theorem literalEnd_eq_none_or {v w : List Char} (hv : ∀ a ∈ v, a.toNat < 0x80)
    (hw : ∀ a ∈ w, a.toNat < 0x80) (hvw : Excludes v w) (offset : Nat) (before : Option Char)
    (rest : List Char) :
    literalEnd offset before v rest = none ∨ literalEnd offset before w rest = none := by
  cases hfv : literalEnd offset before v rest with
  | none => exact .inl rfl
  | some d =>
    cases hfw : literalEnd offset before w rest with
    | none => exact .inr rfl
    | some e =>
      have h1 := prefix_of_literalEnd hfv
      have h2 := prefix_of_literalEnd hfw
      rw [map_fold_of_ascii hv] at h1
      rw [map_fold_of_ascii hw] at h2
      have hor := List.prefix_or_prefix_of_prefix h1 h2
      exact (hor.elim hvw.1 hvw.2).elim

/-- If no two members have an image, there is no order among the images. -/
theorem filterMap_eq_of_perm {α β : Type} {f : α → Option β} {l l' : List α} (hl : l.Perm l')
    (h : l.Pairwise fun a b => f a = none ∨ f b = none) : l.filterMap f = l'.filterMap f := by
  have hsome : ∀ b ∈ l.filterMap f, l.filterMap f = [b] := by
    clear hl
    induction h with
    | nil => simp
    | @cons a l ha _ ih =>
      cases hfa : f a with
      | none => rwa [List.filterMap_cons_none hfa]
      | some b =>
        have hnone : l.filterMap f = [] := List.filterMap_eq_nil_iff.2 fun c hc =>
          (ha c hc).resolve_left (by simp [hfa])
        rw [List.filterMap_cons_some hfa, hnone]
        exact fun c hc => by rw [List.mem_singleton.1 hc]
  have hperm := hl.filterMap f
  cases hm : l.filterMap f with
  | nil =>
    rw [hm] at hperm
    exact (List.nil_perm.1 hperm).symm
  | cons b m =>
    rw [hm] at hperm hsome
    rw [hsome b List.mem_cons_self] at hperm ⊢
    exact List.singleton_perm.1 hperm

/-- **The order of alternatives is of no account** if no two of them stand at the same place. -/
theorem Pattern.ends_oneOf_perm {words words' : List (List Char)} (hwords : words.Perm words')
    (hascii : ∀ w ∈ words, ∀ a ∈ w, a.toNat < 0x80) (hexcludes : words.Pairwise Excludes)
    (c : Cursor) : (oneOf words).ends c = (oneOf words').ends c := by
  rw [Pattern.ends, Pattern.ends]
  refine filterMap_eq_of_perm hwords (hexcludes.imp_of_mem fun hv hw hvw => ?_)
  exact literalEnd_eq_none_or (hascii _ hv) (hascii _ hw) hvw _ _ _

/-! ## Words that are repeated -/

/-- Whatever is asked of a place, the first place that will do is the same in both lists. -/
def SameFirst (ds es : List Cursor) : Prop :=
  ∀ (β : Type) (f : Cursor → Option β), ds.findSome? f = es.findSome? f

theorem SameFirst.of_eq {ds es : List Cursor} (h : ds = es) : SameFirst ds es := fun _ _ => h ▸ rfl

/-- A place that stands in the list already is never the first one. -/
theorem sameFirst_repeated {ds es : List Cursor} {d : Cursor} (hd : d ∈ ds) :
    SameFirst (ds ++ d :: es) (ds ++ es) := by
  intro β f
  rw [List.findSome?_append, List.findSome?_append, List.findSome?_cons]
  cases hf : f d with
  | none => rfl
  | some b =>
    have hsome : (ds.findSome? f).isSome := List.findSome?_isSome_iff.2 ⟨d, hd, by rw [hf]; rfl⟩
    rw [Option.or_of_isSome hsome, Option.or_of_isSome hsome]

/-- Words with the same letters stand at the same places. -/
theorem literalEnd_congr {v w : List Char} (h : v.map fold = w.map fold) (offset : Nat)
    (before : Option Char) (rest : List Char) :
    literalEnd offset before v rest = literalEnd offset before w rest := by
  refine Option.ext fun d => ?_
  simp only [literalEnd_eq_some_iff, spells_iff, h]

/-- **A word that is repeated is never taken**, since the earlier one with the same letters is. -/
theorem Pattern.sameFirst_oneOf_repeated {front back : List (List Char)} {v w : List Char}
    (hv : v ∈ front) (hvw : v.map fold = w.map fold) (c : Cursor) :
    SameFirst ((oneOf (front ++ w :: back)).ends c) ((oneOf (front ++ back)).ends c) := by
  rw [Pattern.ends, Pattern.ends, List.filterMap_append, List.filterMap_append]
  rw [List.filterMap_cons]
  split
  · exact .of_eq rfl
  · next d hd =>
    have hstop := (literalEnd_congr hvw c.offset c.before c.rest).trans hd
    have hmem : d ∈ front.filterMap fun w => literalEnd c.offset c.before w c.rest :=
      List.mem_filterMap.2 ⟨v, hv, hstop⟩
    exact sameFirst_repeated hmem

/-! ## Expressions that stop at the same places -/

section

variable {e e' : Expression}

/-- Only where the pieces stop first, and their names, decide what the parts of a match are. -/
theorem Expression.partsAt_congr {p q : Piece} (hname : p.name = q.name)
    (hends : ∀ c, SameFirst (p.pattern.ends c) (q.pattern.ends c)) (e f : Expression) (c : Cursor) :
    partsAt (e ++ p :: f) c = partsAt (e ++ q :: f) c := by
  induction e generalizing c with
  | nil =>
    rw [List.nil_append, List.nil_append, partsAt, partsAt, hname]
    exact hends c _ _
  | cons r e ih =>
    rw [List.cons_append, List.cons_append, partsAt, partsAt]
    simp only [ih]

theorem Expression.findAll_congr (h : ∀ c, e.partsAt c = e'.partsAt c) (offset : Nat)
    (text : List Char) : e.findAll offset text = e'.findAll offset text := by
  have haccepted (fresh : Bool) (c : Cursor) : e.acceptedAt fresh c = e'.acceptedAt fresh c := by
    rw [acceptedAt, acceptedAt, matchAt, matchAt, h]
  have hmatches (fresh : Bool) (c : Cursor) : e.matchesFrom fresh c = e'.matchesFrom fresh c := by
    fun_induction Expression.matchesFrom e fresh c with
    | case1 fresh c m hm ih_stop ih_here =>
      conv_rhs => rw [matchesFrom, ← haccepted, hm]
      dsimp only
      split
      · next hlt => rw [ih_stop hlt]
      · split
        · next hf => rw [ih_here hf]
        · rfl
    | case2 fresh c hnone hrest =>
      obtain ⟨offset, before, rest⟩ := c
      cases hrest
      conv_rhs => rw [matchesFrom, ← haccepted, hnone]
    | case3 fresh c hnone a rest hrest ih =>
      obtain ⟨offset, before, _⟩ := c
      cases hrest
      conv_rhs => rw [matchesFrom, ← haccepted, hnone]
      exact ih
  exact hmatches true _

end

end CommentTags
