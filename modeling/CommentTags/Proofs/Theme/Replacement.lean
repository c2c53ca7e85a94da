import CommentTags.Proofs.Findings.Collection
import CommentTags.Theme.Painter

/-!
# Applying a scan to a painter

A painter keeps the styles of its tags for good, and a call sets the ranges of a tag without regard
to those it had.  A collection has a group for every tag of its registry, also for those without a
comment, so that applying it sets the ranges of all tags: nothing is left of what was done to the
painter before.

* `Painter.Call`, `Painter.perform` — what can be done to a painter.
* `Painter.style?_foldl_perform` — no call changes the style of a tag.
* `Painter.getElem?_slots_apply` — a collection sets the ranges of each tag on its own.
* `Painter.paint_apply_collect` — after a scan has been applied, a painter paints like a fresh one.
-/

set_option autoImplicit false

namespace CommentTags.Painter

/-- What can be done to a painter. -/
inductive Call
  | replace (style : Nat) (ranges : List Span)
  | apply (c : Collected)
  deriving Repr, DecidableEq

/-- The painter after a call. -/
def perform (p : Painter) : Call → Painter
  | .replace style ranges => p.replace style ranges
  | .apply c => p.apply c

variable {p : Painter} {tags : Registry} {style i : Nat} {ranges : List Span}

/-! ## One tag -/

theorem getElem?_slots_replace : (p.replace style ranges).slots[i]? =
    p.slots[i]?.map fun slot => (slot.1, if style = i then ranges else slot.2) := by
  rw [replace, List.getElem?_modify]
  split <;> simp

/-- The ranges that are set by the last group of a tag, or those that are there if it has no group. -/
def lastRanges (i : Nat) (groups : List TagRanges) (ranges : List Span) : List Span :=
  groups.foldl (fun ranges g => if g.style = i then g.ranges else ranges) ranges

/-- **A collection sets the ranges of each tag on its own.** -/
theorem getElem?_slots_apply (p : Painter) (c : Collected) : (p.apply c).slots[i]? =
    p.slots[i]?.map fun slot => (slot.1, lastRanges i c.groups slot.2) := by
  obtain ⟨groups⟩ := c
  rw [apply]
  induction groups generalizing p with
  | nil => simp [lastRanges]
  | cons g groups ih =>
    rw [List.foldl_cons, ih, getElem?_slots_replace, Option.map_map]
    rfl

/-- If all groups of a tag have the same ranges, these are set. -/
theorem lastRanges_eq {groups : List TagRanges} {old : List Span}
    (hsame : ∀ g ∈ groups, g.style = i → g.ranges = ranges)
    (hset : old = ranges ∨ ∃ g ∈ groups, g.style = i) : lastRanges i groups old = ranges := by
  induction groups generalizing old with
  | nil => simpa [lastRanges] using hset
  | cons g groups ih =>
    rw [List.forall_mem_cons] at hsame
    rw [lastRanges, List.foldl_cons]
    refine ih hsame.2 ?_
    by_cases hg : g.style = i
    · exact .inl (by rw [if_pos hg, hsame.1 hg])
    · rw [if_neg hg]
      simpa [hg] using hset

/-- A collection has a group for each tag of its registry. -/
theorem lastRanges_collect (hi : i < tags.size) (found : List Finding) (old : List Span) :
    lastRanges i (Collected.collect tags found).groups old = Collected.rangesOf i found := by
  refine lastRanges_eq (fun g hg hstyle => ?_) (.inr ?_)
  · obtain ⟨j, hj⟩ := List.mem_iff_getElem?.1 hg
    rw [Collected.getElem?_groups_collect, Option.map_eq_some_iff] at hj
    obtain ⟨tag, -, rfl⟩ := hj
    obtain rfl : j = i := hstyle
    rfl
  · have hgroup : (Collected.collect tags found).groups[i]? =
        some ⟨i, tags.tags[i].marker, Collected.rangesOf i found⟩ := by
      rw [Collected.getElem?_groups_collect, Registry.tag?, List.getElem?_eq_getElem hi,
        Option.map_some]
    exact ⟨_, List.mem_of_getElem? hgroup, rfl⟩

/-! ## The styles of a painter -/

theorem style?_ofRegistry (tags : Registry) (i : Nat) :
    (ofRegistry tags).style? i = (tags.tag? i).map fun tag => AnsiStyle.ofTagStyle tag.style := by
  rw [style?, ofRegistry, List.getElem?_map, Option.map_map]
  rfl

theorem style?_perform (p : Painter) (call : Call) (i : Nat) :
    (p.perform call).style? i = p.style? i := by
  cases call with
  | replace style ranges =>
    rw [perform, style?, style?, getElem?_slots_replace, Option.map_map]
    rfl
  | apply c =>
    rw [perform, style?, style?, getElem?_slots_apply, Option.map_map]
    rfl

/-- **No call changes the style of a tag.** -/
theorem style?_foldl_perform (p : Painter) (calls : List Call) (i : Nat) :
    (calls.foldl perform p).style? i = p.style? i := by
  induction calls generalizing p with
  | nil => rfl
  | cons call calls ih => rw [List.foldl_cons, ih, style?_perform]

/-! ## All tags -/

/-- A painter with the styles of a registry holds what a collection of that registry has, once it is
applied. -/
theorem getElem?_slots_apply_collect (hp : ∀ i, p.style? i = (ofRegistry tags).style? i)
    (found : List Finding) (i : Nat) : (p.apply (Collected.collect tags found)).slots[i]? =
      (tags.tag? i).map fun tag =>
        (AnsiStyle.ofTagStyle tag.style, (Collected.collect tags found).rangesFor i) := by
  have hstyle := (hp i).trans (style?_ofRegistry tags i)
  rw [style?] at hstyle
  rw [getElem?_slots_apply, Collected.rangesFor, Collected.getElem?_groups_collect]
  cases htag : tags.tag? i with
  | none =>
    rw [htag, Option.map_none, Option.map_eq_none_iff] at hstyle
    rw [hstyle, Option.map_none, Option.map_none]
  | some tag =>
    rw [htag, Option.map_some, Option.map_eq_some_iff] at hstyle
    obtain ⟨slot, hslot, hstyle⟩ := hstyle
    have hi : i < tags.size := (List.getElem?_eq_some_iff.1 htag).1
    rw [hslot, Option.map_some, Option.map_some, Option.map_some, hstyle,
      lastRanges_collect hi]

theorem ext_slots {p q : Painter} (h : ∀ i : Nat, p.slots[i]? = q.slots[i]?) : p = q := by
  obtain ⟨slots⟩ := p
  obtain ⟨slots'⟩ := q
  rw [Painter.mk.injEq]
  exact List.ext_getElem? h

theorem apply_collect_eq (hp : ∀ i, p.style? i = (ofRegistry tags).style? i)
    (found : List Finding) : p.apply (Collected.collect tags found) =
      (ofRegistry tags).apply (Collected.collect tags found) := by
  refine ext_slots fun i => ?_
  rw [getElem?_slots_apply_collect hp, getElem?_slots_apply_collect fun _ => rfl]

/-- **Applying a scan replaces all that was there.**  Whatever was done to a painter, when the
findings of its registry have been applied it paints every text as a fresh painter does to which
nothing else has been applied; and each tag has exactly the ranges that it has in the collection. -/
theorem paint_apply_collect (tags : Registry) (calls : List Call) (found : List Finding) :
    (∀ text, ((calls.foldl perform (ofRegistry tags)).apply (Collected.collect tags found)).paint
        text = ((ofRegistry tags).apply (Collected.collect tags found)).paint text) ∧
      ∀ i, ((calls.foldl perform (ofRegistry tags)).apply (Collected.collect tags found)).slots[i]? =
        (tags.tag? i).map fun tag =>
          (AnsiStyle.ofTagStyle tag.style, (Collected.collect tags found).rangesFor i) := by
  have hstyle := style?_foldl_perform (ofRegistry tags) calls
  exact ⟨fun text => by rw [apply_collect_eq hstyle], getElem?_slots_apply_collect hstyle found⟩

end CommentTags.Painter
