import Mathlib.Order.Monotone.Basic
import CommentTags.Proofs.Scan.Equivariance
import CommentTags.Findings.Collected

/-!
# What a collection of findings holds

Collecting sorts the findings of each tag and drops repetitions, and it loses nothing else.

* `mem_rangesOf` — a range stands in the group of a tag exactly if there is such a finding.
* `mem_sorted_collect` — a finding of a registered tag is found again among all that a collection
  tells, and nothing else is.
* `collect_mapOffsets` — moving every finding in a way that keeps the order of offsets moves the
  collection; `collect_move` is the case of one number of bytes for all.
* `getElem?_groups_collect` — the groups of a collection, one for each tag of the registry.
-/

set_option autoImplicit false

namespace CommentTags

/-- The range moved by a number of bytes. -/
def Span.move (shift : Nat) (r : Span) : Span :=
  ⟨r.start + shift, r.stop + shift⟩

/-- Every range of every group moved by a number of bytes. -/
def Collected.move (shift : Nat) (c : Collected) : Collected :=
  ⟨c.groups.map fun g => { g with ranges := g.ranges.map (·.move shift) }⟩

/-- The range with its offsets mapped. -/
def Span.mapOffsets (g : Nat → Nat) (r : Span) : Span :=
  ⟨g r.start, g r.stop⟩

/-- The finding with its offsets mapped. -/
def Finding.mapOffsets (g : Nat → Nat) (f : Finding) : Finding :=
  ⟨f.style, g f.start, g f.stop⟩

/-- Every range of every group with its offsets mapped. -/
def Collected.mapOffsets (g : Nat → Nat) (c : Collected) : Collected :=
  ⟨c.groups.map fun group => { group with ranges := group.ranges.map (·.mapOffsets g) }⟩

section

variable {g : Nat → Nat} (hg : StrictMono g)
include hg

theorem Span.mapOffsets_injective : Function.Injective (Span.mapOffsets g) := by
  rintro ⟨a, b⟩ ⟨c, d⟩ h
  simp only [Span.mapOffsets, Span.mk.injEq] at h
  rw [hg.injective h.1, hg.injective h.2]

theorem Span.le_mapOffsets (a b : Span) : (a.mapOffsets g).le (b.mapOffsets g) = a.le b := by
  rw [Bool.eq_iff_iff]
  simp [Span.le, Span.mapOffsets, hg.lt_iff_lt, hg.le_iff_le, hg.injective.eq_iff]

end

section DropRepeats

variable {α β : Type} [DecidableEq α] [DecidableEq β]

theorem mem_dropRepeats {a : α} {l : List α} : a ∈ dropRepeats l ↔ a ∈ l := by
  fun_induction dropRepeats l with
  | case1 => rfl
  | case2 => rfl
  | case3 b rest ih => rw [ih]; simp
  | case4 b c rest h ih => rw [List.mem_cons, ih, List.mem_cons (l := c :: rest)]

theorem dropRepeats_map {f : α → β} (hf : Function.Injective f) (l : List α) :
    dropRepeats (l.map f) = (dropRepeats l).map f := by
  fun_induction dropRepeats l with
  | case1 => rfl
  | case2 => rfl
  | case3 b rest ih => rw [← ih, List.map_cons, List.map_cons, dropRepeats, if_pos rfl]
  | case4 b c rest h ih =>
    rw [List.map_cons, List.map_cons, dropRepeats, if_neg (hf.ne h), ← List.map_cons, ih,
      List.map_cons]

end DropRepeats

namespace Collected

theorem mem_rangesOf {style : Nat} {found : List Finding} {r : Span} :
    r ∈ rangesOf style found ↔ ⟨style, r.start, r.stop⟩ ∈ found := by
  rw [rangesOf, mem_dropRepeats, List.mem_mergeSort, List.mem_map]
  constructor
  · rintro ⟨f, hf, rfl⟩
    rw [List.mem_filter, beq_iff_eq] at hf
    obtain ⟨hf, rfl⟩ := hf
    exact hf
  · exact fun h => ⟨_, List.mem_filter.2 ⟨h, by simp⟩, rfl⟩

theorem rangesOf_mapOffsets {g : Nat → Nat} (hg : StrictMono g) (style : Nat)
    (found : List Finding) :
    rangesOf style (found.map (·.mapOffsets g)) = (rangesOf style found).map (·.mapOffsets g) := by
  have hsort (l : List Span) : (l.map (·.mapOffsets g)).mergeSort Span.le =
      (l.mergeSort Span.le).map (·.mapOffsets g) :=
    (List.map_mergeSort fun a _ b _ => (Span.le_mapOffsets hg a b).symm).symm
  rw [rangesOf, rangesOf, List.filter_map, List.map_map,
    ← dropRepeats_map (Span.mapOffsets_injective hg), ← hsort, List.map_map]
  rfl

theorem collect_mapOffsets {g : Nat → Nat} (hg : StrictMono g) (tags : Registry)
    (found : List Finding) :
    collect tags (found.map (·.mapOffsets g)) = (collect tags found).mapOffsets g := by
  rw [collect, collect, mapOffsets, Collected.mk.injEq]
  refine List.ext_getElem? fun i => ?_
  rw [List.getElem?_map, List.getElem?_mapIdx, List.getElem?_mapIdx, rangesOf_mapOffsets hg]
  cases tags.tags[i]? <;> rfl

/-- **Moving the findings moves the collection.** -/
theorem collect_move (tags : Registry) (shift : Nat) (found : List Finding) :
    collect tags (found.map (·.move shift)) = (collect tags found).move shift :=
  collect_mapOffsets (fun _ _ h => Nat.add_lt_add_right h shift) tags found

theorem collect_of_isEmpty {tags : Registry} (h : tags.isEmpty = true) (found : List Finding) :
    collect tags found = ⟨[]⟩ := by
  rw [collect, List.isEmpty_iff.1 h]
  rfl

/-- The groups are those of the registry, and each one has the ranges of its findings. -/
theorem getElem?_groups_collect (tags : Registry) (found : List Finding) (i : Nat) :
    (collect tags found).groups[i]? =
      (tags.tag? i).map fun tag => ⟨i, tag.marker, rangesOf i found⟩ := by
  rw [collect, List.getElem?_mapIdx]
  rfl

/-- **Nothing is lost or made up**: what is reported are the findings of registered tags. -/
theorem mem_sorted_collect {tags : Registry} {found : List Finding} {f : Finding} :
    f ∈ (collect tags found).sorted ↔ f ∈ found ∧ f.style < tags.size := by
  rw [sorted, List.mem_mergeSort, List.mem_flatMap]
  constructor
  · rintro ⟨g, hg, hf⟩
    obtain ⟨i, hi⟩ := List.mem_iff_getElem?.1 hg
    rw [getElem?_groups_collect, Option.map_eq_some_iff] at hi
    obtain ⟨tag, ht, rfl⟩ := hi
    obtain ⟨r, hr, rfl⟩ := List.mem_map.1 hf
    exact ⟨mem_rangesOf.1 hr, (List.getElem?_eq_some_iff.1 ht).1⟩
  · rintro ⟨hf, hlt⟩
    refine ⟨⟨f.style, tags.tags[f.style].marker, rangesOf f.style found⟩, ?_, ?_⟩
    · refine List.mem_iff_getElem?.2 ⟨f.style, ?_⟩
      rw [getElem?_groups_collect, Registry.tag?, List.getElem?_eq_getElem hlt, Option.map_some]
    · exact List.mem_map.2 ⟨⟨f.start, f.stop⟩, mem_rangesOf.2 hf, rfl⟩

end Collected

end CommentTags
