import CommentTags.Proofs.Scan.LetterCase
import CommentTags.Proofs.Scan.TagOrder

/-!
# Tags that are declared twice

A tag that is declared again, in whatever case, has no comments: where it stands the earlier one
stands too, which a pattern tries first and which is found first for the text of the tag.  It might
as well be left out, and the tags after it get numbers that are smaller by one.

* `stepOver` — the number of a tag when another one has been put in.
* `Registry.relabels_repeated` — a repeated tag only takes up a number (`Registry.Relabels`).
* `Highlighter.scanRange_repeated` — what two scans report, with the repeated tag and without it.  A
  tag more makes a longer grammar, so the engine is asked to compile both lists or neither.
-/

set_option autoImplicit false

namespace CommentTags

open Text

/-! ## Lists with a repeated member -/

/-- Where a member of a list stands after another one has been put in at the place `j`. -/
def stepOver (j i : Nat) : Nat :=
  if i < j then i else i + 1

theorem stepOver_of_lt {i j : Nat} (h : i < j) : stepOver j i = i := if_pos h

theorem stepOver_of_le {i j : Nat} (h : j ≤ i) : stepOver j i = i + 1 := if_neg h.not_gt

theorem stepOver_ne (i j : Nat) : stepOver j i ≠ j := by
  rw [stepOver]
  split <;> omega

theorem stepOver_inj {i j k : Nat} : stepOver j k = stepOver j i ↔ k = i := by
  rw [stepOver, stepOver]
  split <;> split <;> omega

theorem exists_stepOver {i j : Nat} (h : i ≠ j) : ∃ k, stepOver j k = i := by
  rcases Nat.lt_or_gt_of_ne h with hlt | hgt
  · exact ⟨i, stepOver_of_lt hlt⟩
  · exact ⟨i - 1, by rw [stepOver_of_le (by omega)]; omega⟩

theorem exists_append_of_getElem? {α : Type} {l : List α} {j : Nat} {a : α} (h : l[j]? = some a) :
    ∃ front back, l = front ++ a :: back ∧ front.length = j := by
  obtain ⟨hj, rfl⟩ := List.getElem?_eq_some_iff.1 h
  refine ⟨l.take j, l.drop (j + 1), ?_, List.length_take_of_le hj.le⟩
  rw [← List.drop_eq_getElem_cons hj, List.take_append_drop]

theorem getElem?_append_stepOver {α : Type} (front back : List α) (a : α) (k : Nat) :
    (front ++ a :: back)[stepOver front.length k]? = (front ++ back)[k]? := by
  rcases Nat.lt_or_ge k front.length with hk | hk
  · rw [stepOver_of_lt hk, List.getElem?_append_left hk, List.getElem?_append_left hk]
  · rw [stepOver_of_le hk, List.getElem?_append_right (by omega), List.getElem?_append_right hk,
      Nat.sub_add_comm hk, List.getElem?_cons_succ]

theorem getElem?_insertIdx_stepOver {α : Type} (l : List α) (a : α) (j k : Nat) :
    (l.insertIdx j a)[stepOver j k]? = l[k]? := by
  rw [List.getElem?_insertIdx]
  rcases Nat.lt_or_ge k j with hk | hk
  · rw [stepOver_of_lt hk, if_pos hk]
  · rw [stepOver_of_le hk, if_neg (by omega), if_neg (by omega), Nat.add_sub_cancel]

/-- What is first found in a list is not a member that is like an earlier one. -/
theorem findIdx?_append_repeated {α : Type} {p : α → Bool} {front back : List α} {a b : α}
    (hb : b ∈ front) (hab : p b = p a) : (front ++ a :: back).findIdx? p =
      ((front ++ back).findIdx? p).map (stepOver front.length) := by
  rw [List.findIdx?_append, List.findIdx?_append, List.findIdx?_cons]
  cases hfront : front.findIdx? p with
  | some i =>
    have hi := (List.findIdx?_eq_some_iff_getElem.1 hfront).1
    rw [Option.some_or, Option.some_or, Option.map_some, stepOver_of_lt hi]
  | none =>
    have ha : p a = false := hab ▸ List.findIdx?_eq_none_iff.1 hfront b hb
    rw [Option.none_or, Option.none_or, ha, if_neg Bool.false_ne_true, Option.map_map,
      Option.map_map]
    refine congrArg (Option.map · _) (funext fun i => ?_)
    rw [Function.comp_apply, Function.comp_apply, stepOver_of_le (Nat.le_add_left _ i),
      Nat.add_right_comm]

/-! ## Tags with the same letters -/

theorem SameButCase.map_fold {s t : String} (h : SameButCase s t) :
    s.toList.map fold = t.toList.map fold := by
  have hsmall (w : List Char) : w.map fold = (w.map Char.toLower).map fold := by
    rw [List.map_map]
    exact List.map_congr_left fun a _ => (fold_toLower a).symm
  rw [hsmall, hsmall t.toList, h]

theorem SameButCase.lowercase_eq {s t : String} (h : SameButCase s t) :
    lowercase s.toList = lowercase t.toList := by
  have hs : lowercase (s.toList.map Char.toLower) = lowercase s.toList :=
    Renaming.small.lowercase_map s.toList
  have ht : lowercase (t.toList.map Char.toLower) = lowercase t.toList :=
    Renaming.small.lowercase_map t.toList
  rw [← hs, ← ht, h]

section

variable {front back : List Tag} {t u : Tag} (ht : t ∈ front) (hsame : SameButCase t.marker u.marker)
include ht hsame

/-- **A repeated tag only takes up a number.** -/
theorem Registry.relabels_repeated :
    (⟨front ++ back⟩ : Registry).Relabels (stepOver front.length) ⟨front ++ u :: back⟩ where
  isEmpty_eq := by
    cases front with
    | nil => exact absurd ht List.not_mem_nil
    | cons => rfl
  sameFirst c := by
    rw [words, words, List.map_append, List.map_append, List.map_cons]
    exact Pattern.sameFirst_oneOf_repeated (List.mem_map.2 ⟨t, ht, rfl⟩) hsame.map_fold c
  find?_eq text := by
    rw [find?, find?, words, words, List.map_append, List.map_append, List.map_cons,
      findIdx?_append_repeated (List.mem_map.2 ⟨t, ht, rfl⟩) (by rw [hsame.lowercase_eq]),
      List.length_map]

end

/-! ## Groups -/

/-- The groups with an empty one for a tag that is put in at the place `j`. -/
def Collected.insertEmpty (j : Nat) (marker : String) (c : Collected) : Collected :=
  ⟨(c.groups.map fun g => { g with style := stepOver j g.style }).insertIdx j ⟨j, marker, []⟩⟩

namespace Collected

theorem rangesOf_stepOver (i j : Nat) (found : List Finding) :
    rangesOf (stepOver j i) (found.map (·.relabel (stepOver j))) = rangesOf i found :=
  rangesOf_relabel (fun _ => stepOver_inj) found

theorem rangesOf_skipped (j : Nat) (found : List Finding) :
    rangesOf j (found.map (·.relabel (stepOver j))) = [] := by
  refine List.eq_nil_iff_forall_not_mem.2 fun r hr => ?_
  obtain ⟨f, -, hf⟩ := List.mem_map.1 (mem_rangesOf.1 hr)
  exact stepOver_ne f.style j (congrArg Finding.style hf)

theorem collect_insertEmpty (front back : List Tag) (u : Tag) (found : List Finding) :
    collect ⟨front ++ u :: back⟩ (found.map (·.relabel (stepOver front.length))) =
      (collect ⟨front ++ back⟩ found).insertEmpty front.length u.marker := by
  refine congrArg Collected.mk (List.ext_getElem? fun i => ?_)
  rw [List.getElem?_mapIdx]
  by_cases hi : i = front.length
  · subst hi
    have hle : front.length ≤ (collect ⟨front ++ back⟩ found).groups.length := by
      rw [collect, List.length_mapIdx, List.length_append]
      omega
    rw [List.getElem?_insertIdx_self, if_pos (by rwa [List.length_map]),
      List.getElem?_append_right (Nat.le_refl _), Nat.sub_self, List.getElem?_cons_zero,
      Option.map_some, rangesOf_skipped]
  · obtain ⟨k, rfl⟩ := exists_stepOver hi
    rw [getElem?_insertIdx_stepOver, getElem?_append_stepOver, List.getElem?_map,
      getElem?_groups_collect, Option.map_map]
    simp only [rangesOf_stepOver]
    rfl

end Collected

namespace Highlighter

/-- **A repeated tag is inert.**  If a tag is, up to the case of letters of ASCII, one that is declared
before it, then its group is empty, and the groups of all other tags have the ranges that they have
when it is left out, if the engine compiles the grammars of the languages with it and without it or
in neither case. -/
theorem scanRange_repeated {m : Type → Type} [Monad m] [LawfulMonad m] [Engine] {tags : List Tag}
    {i j : Nat} {t u : Tag} (hij : i < j) (hi : tags[i]? = some t) (hj : tags[j]? = some u)
    (hsame : SameButCase t.marker u.marker) (toggles : Toggles) (resolve : SyntaxSource m)
    (text : String) (start stop : Nat) (language : String)
    (hengine : CompilesAlike ⟨tags.eraseIdx j⟩ ⟨tags⟩ toggles resolve
      (languages ⟨⟨tags.eraseIdx j⟩, toggles⟩ text start stop language)) :
    scanRange ⟨⟨tags⟩, toggles⟩ resolve text start stop language =
      (·.insertEmpty j u.marker) <$>
        scanRange ⟨⟨tags.eraseIdx j⟩, toggles⟩ resolve text start stop language := by
  obtain ⟨front, back, rfl, rfl⟩ := exists_append_of_getElem? hj
  rw [List.getElem?_append_left hij] at hi
  rw [List.eraseIdx_append_of_length_le (Nat.le_refl _), Nat.sub_self,
    List.eraseIdx_cons_zero] at hengine ⊢
  rw [scanRange_eq_map, scanRange_eq_map,
    findings_relabel (Registry.relabels_repeated (List.mem_of_getElem? hi) hsame) hengine,
    Functor.map_map, Functor.map_map]
  exact congrArg (· <$> _) (funext fun found => Collected.collect_insertEmpty front back u found)

set_option maxRecDepth 20000 in
/-- A tag that is repeated in capitals, between tags that begin in the same way. -/
theorem scanRange_repeated_todo :
    let tags : List Tag := [⟨"todo", {}⟩, ⟨"to", {}⟩, ⟨"TODO", {}⟩, ⟨"fix", {}⟩]
    let resolve := SyntaxSource.builtin (m := Id)
    let text := "// TODO a\n// to b\n/* \nFIX c */\n"
    (scanRange ⟨⟨tags⟩, {}⟩ resolve text 0 31 "c").run.groups =
        [⟨0, "todo", [⟨3, 9⟩]⟩, ⟨1, "to", [⟨13, 17⟩]⟩, ⟨2, "TODO", []⟩, ⟨3, "fix", [⟨22, 27⟩]⟩] ∧
      scanRange ⟨⟨tags⟩, {}⟩ resolve text 0 31 "c" =
        (·.insertEmpty 2 "TODO") <$>
          scanRange ⟨⟨tags.eraseIdx 2⟩, {}⟩ resolve text 0 31 "c" := by
  refine ⟨by cbv, ?_⟩
  have hengine {tags tags' : Registry} {languages : List String} :
      CompilesAlike tags tags' {} (SyntaxSource.builtin (m := Id)) languages := fun _ _ =>
    .of_forall (fun _ => by rw [Grammar.compiles_unbounded, Grammar.compiles_unbounded]) _
  exact scanRange_repeated (i := 0) (t := ⟨"todo", {}⟩) (u := ⟨"TODO", {}⟩) (by decide) rfl rfl
    (by decide) _ _ _ _ _ _ hengine

end Highlighter

end CommentTags
