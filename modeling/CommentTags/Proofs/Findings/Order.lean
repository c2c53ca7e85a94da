import Mathlib.Data.List.Sort
import CommentTags.Proofs.Findings.Collection

/-!
# The order of a collection of findings

The findings of a collection are told in the order of the text, each of them once: the range of a
tag is not repeated in its group, and different groups are of different tags.  There is one way only
to tell them so, and everything about repetition and order follows from this.

* `Finding.Before` — the strict order of findings: start, stop, tag.
* `pairwise_sorted_collect` — a collection tells its findings in this order.
* `collect_congr` — a collection depends on nothing but which findings of registered tags there are.
* `collect_canonical` — to collect what a collection tells gives the same collection again.
-/

set_option autoImplicit false

namespace CommentTags

/-- A finding comes before another one: it starts first, or it stops first, or its tag is an earlier
one. -/
def Finding.Before (f g : Finding) : Prop :=
  f.start < g.start ∨
    f.start = g.start ∧ (f.stop < g.stop ∨ f.stop = g.stop ∧ f.style < g.style)

instance : Std.Irrefl Finding.Before where
  irrefl f := by
    rw [Finding.Before]
    omega

instance : Std.Antisymm Finding.Before where
  antisymm f g hfg hgf := by
    rw [Finding.Before] at hfg hgf
    omega

theorem Finding.le_iff {f g : Finding} : f.le g = true ↔ f.Before g ∨ f = g := by
  obtain ⟨i, a, b⟩ := f
  obtain ⟨j, c, d⟩ := g
  simp only [Finding.le, Finding.Before, Finding.mk.injEq, Bool.or_eq_true, Bool.and_eq_true,
    decide_eq_true_eq, beq_iff_eq]
  omega

theorem Finding.le_total (f g : Finding) : (f.le g || g.le f) = true := by
  simp only [Finding.le, Bool.or_eq_true, Bool.and_eq_true, decide_eq_true_eq, beq_iff_eq]
  omega

theorem Finding.le_trans (f g h : Finding) (hfg : f.le g = true) (hgh : g.le h = true) :
    f.le h = true := by
  simp only [Finding.le, Bool.or_eq_true, Bool.and_eq_true, decide_eq_true_eq, beq_iff_eq] at *
  omega

theorem Span.le_total (a b : Span) : (a.le b || b.le a) = true := by
  simp only [Span.le, Bool.or_eq_true, Bool.and_eq_true, decide_eq_true_eq, beq_iff_eq]
  omega

theorem Span.le_trans (a b c : Span) (hab : a.le b = true) (hbc : b.le c = true) :
    a.le c = true := by
  simp only [Span.le, Bool.or_eq_true, Bool.and_eq_true, decide_eq_true_eq, beq_iff_eq] at *
  omega

theorem Span.le_antisymm {a b : Span} (hab : a.le b = true) (hba : b.le a = true) : a = b := by
  obtain ⟨a, a'⟩ := a
  obtain ⟨b, b'⟩ := b
  simp only [Span.le, Bool.or_eq_true, Bool.and_eq_true, decide_eq_true_eq, beq_iff_eq] at hab hba
  simp only [Span.mk.injEq]
  omega

theorem dropRepeats_sublist {α : Type} [DecidableEq α] (l : List α) : (dropRepeats l).Sublist l := by
  fun_induction dropRepeats l with
  | case1 => exact List.Sublist.refl []
  | case2 a => exact List.Sublist.refl [a]
  | case3 b rest ih => exact ih.cons b
  | case4 a b rest _ ih => exact ih.cons_cons a

/-- Equal elements of a sorted list are neighbours, so none is left twice. -/
theorem nodup_dropRepeats {α : Type} [DecidableEq α] {R : α → α → Prop} {l : List α}
    (hR : ∀ a b, R a b → R b a → a = b) (h : l.Pairwise R) : (dropRepeats l).Nodup := by
  fun_induction dropRepeats l with
  | case1 => exact List.nodup_nil
  | case2 a => exact List.nodup_singleton a
  | case3 b rest ih => exact ih h.of_cons
  | case4 a b rest hne ih =>
    refine List.nodup_cons.2 ⟨fun ha => ?_, ih h.of_cons⟩
    rw [mem_dropRepeats, List.mem_cons] at ha
    rw [List.pairwise_cons, List.pairwise_cons] at h
    rcases ha with ha | ha
    · exact hne ha
    · exact hne (hR a b (h.1 b (by simp)) (h.2.1 a ha))

namespace Collected

theorem nodup_rangesOf (style : Nat) (found : List Finding) : (rangesOf style found).Nodup :=
  nodup_dropRepeats (fun _ _ => Span.le_antisymm)
    (List.pairwise_mergeSort Span.le_trans Span.le_total _)

theorem pairwise_rangesOf (style : Nat) (found : List Finding) :
    (rangesOf style found).Pairwise fun r s => r.le s = true :=
  (List.pairwise_mergeSort Span.le_trans Span.le_total _).sublist (dropRepeats_sublist _)

/-- The ranges of a tag depend on nothing but which findings of the tag there are. -/
theorem rangesOf_congr {style : Nat} {found found' : List Finding}
    (h : ∀ f, f.style = style → (f ∈ found ↔ f ∈ found')) :
    rangesOf style found = rangesOf style found' := by
  have hmem (r : Span) : r ∈ rangesOf style found ↔ r ∈ rangesOf style found' := by
    rw [mem_rangesOf, mem_rangesOf]
    exact h _ rfl
  have hperm : (rangesOf style found).Perm (rangesOf style found') :=
    (List.perm_ext_iff_of_nodup (nodup_rangesOf style found) (nodup_rangesOf style found')).2 hmem
  exact hperm.eq_of_pairwise (fun _ _ _ _ => Span.le_antisymm) (pairwise_rangesOf style found)
    (pairwise_rangesOf style found')

variable {tags : Registry} {found : List Finding}

/-- A collection depends on nothing but which findings of registered tags there are. -/
theorem collect_congr {found' : List Finding}
    (h : ∀ f, f.style < tags.size → (f ∈ found ↔ f ∈ found')) :
    collect tags found = collect tags found' := by
  refine congrArg Collected.mk (List.ext_getElem? fun i => ?_)
  rw [List.getElem?_mapIdx, List.getElem?_mapIdx]
  by_cases hi : i < tags.size
  · rw [rangesOf_congr fun f hf => h f (hf ▸ hi)]
  · rw [List.getElem?_eq_none (Nat.le_of_not_lt hi)]
    rfl

/-- What is told of a tag are the ranges of its group. -/
theorem mem_sorted_iff_mem_rangesFor {f : Finding} :
    f ∈ (collect tags found).sorted ↔ f.span ∈ (collect tags found).rangesFor f.style := by
  rw [mem_sorted_collect, rangesFor, getElem?_groups_collect, Registry.tag?, Registry.size]
  by_cases h : f.style < tags.tags.length
  · rw [List.getElem?_eq_getElem h, Option.map_some]
    exact ⟨fun hf => mem_rangesOf.2 hf.1, fun hf => ⟨mem_rangesOf.1 hf, h⟩⟩
  · rw [List.getElem?_eq_none (by omega), Option.map_none]
    simp [h]

theorem nodup_findings_collect : ((collect tags found).groups.flatMap (·.findings)).Nodup := by
  have hgroup {i : Nat} {g : TagRanges} (hg : (collect tags found).groups[i]? = some g) :
      ∃ tag : Tag, g = ⟨i, tag.marker, rangesOf i found⟩ := by
    rw [getElem?_groups_collect, Option.map_eq_some_iff] at hg
    obtain ⟨tag, -, rfl⟩ := hg
    exact ⟨tag, rfl⟩
  refine List.nodup_flatMap.2 ⟨fun g hg => ?_, List.pairwise_iff_getElem.2 ?_⟩
  · obtain ⟨i, hi⟩ := List.mem_iff_getElem?.1 hg
    obtain ⟨tag, rfl⟩ := hgroup hi
    refine (nodup_rangesOf i found).map fun r s hrs => ?_
    obtain ⟨-, hstart, hstop⟩ := Finding.mk.inj hrs
    exact congrArg₂ Span.mk hstart hstop
  · intro i j hi hj hij f hf hf'
    obtain ⟨tag, hg⟩ := hgroup (List.getElem?_eq_getElem hi)
    obtain ⟨tag', hg'⟩ := hgroup (List.getElem?_eq_getElem hj)
    obtain ⟨r, -, rfl⟩ := List.mem_map.1 (hg ▸ hf)
    obtain ⟨r', -, hr'⟩ := List.mem_map.1 (hg' ▸ hf')
    exact hij.ne (Finding.mk.inj hr').1.symm

/-- **The findings come in the order of the text, each of them once.** -/
theorem pairwise_sorted_collect : (collect tags found).sorted.Pairwise Finding.Before := by
  have hsorted : (collect tags found).sorted.Pairwise fun f g => f.le g = true :=
    List.pairwise_mergeSort Finding.le_trans Finding.le_total _
  have hnodup : (collect tags found).sorted.Nodup :=
    (List.mergeSort_perm _ _).nodup_iff.2 nodup_findings_collect
  refine (hsorted.and hnodup).imp fun {f g} h => ?_
  exact (Finding.le_iff.1 h.1).resolve_right h.2

theorem length_sorted (c : Collected) : c.sorted.length = c.size := by
  rw [sorted, size, List.length_mergeSort, List.length_flatMap, List.length_flatMap]
  exact congrArg List.sum (List.map_congr_left fun g _ => List.length_map _)

/-- **A collection is canonical.**  What it tells is the one list, in the order of the text and with
no finding twice, of the findings of registered tags, and it has as many ranges.  Neither the order of
the findings nor how often each of them is given matters, and what a collection tells is collected to
the same collection again. -/
theorem collect_canonical (tags : Registry) (found : List Finding) :
    (∀ l : List Finding, l = (collect tags found).sorted ↔
      l.Pairwise Finding.Before ∧ ∀ f, f ∈ l ↔ f ∈ found ∧ f.style < tags.size) ∧
    (collect tags found).sorted.length = (collect tags found).size ∧
    (∀ found' : List Finding, (∀ f, f ∈ found' ↔ f ∈ found) →
      collect tags found' = collect tags found) ∧
    collect tags (collect tags found).sorted = collect tags found := by
  refine ⟨fun l => ⟨?_, fun ⟨hpairs, hmem⟩ => ?_⟩, length_sorted _, fun found' h => ?_, ?_⟩
  · rintro rfl
    exact ⟨pairwise_sorted_collect, fun f => mem_sorted_collect⟩
  · refine hpairs.eq_of_mem_iff pairwise_sorted_collect fun f => ?_
    rw [hmem, mem_sorted_collect]
  · exact collect_congr fun f _ => h f
  · refine collect_congr fun f hf => ?_
    rw [mem_sorted_collect]
    exact and_iff_left hf

end Collected

end CommentTags
