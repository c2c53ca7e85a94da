/-!
# Looking up keys

Tables are lists of pairs of a key and a value, in which the first value of a key counts.
-/

set_option autoImplicit false

namespace CommentTags

variable {κ α : Type}

section

variable [BEq κ] [LawfulBEq κ]

/-- Leaving out entries by their keys leaves the values of the other keys as they are. -/
theorem lookup_filter (kept : κ → Bool) (l : List (κ × α)) (k : κ) :
    (l.filter fun p => kept p.1).lookup k = if kept k then l.lookup k else none := by
  induction l with
  | nil => simp
  | cons p l ih =>
    rw [List.filter_cons]
    cases hkept : kept p.1 with
    | true =>
      rw [if_pos rfl, List.lookup_cons, List.lookup_cons, ih]
      by_cases hk : k = p.1
      · simp [hk, hkept]
      · rw [beq_false_of_ne hk]
    | false =>
      rw [if_neg Bool.false_ne_true, ih, List.lookup_cons]
      by_cases hk : k = p.1
      · rw [hk, hkept, if_neg Bool.false_ne_true, if_neg Bool.false_ne_true]
      · rw [beq_false_of_ne hk]

theorem filter_key_eq_nil {l : List (κ × α)} {k : κ} (h : k ∉ l.map Prod.fst) :
    l.filter (·.1 == k) = [] := by
  rw [List.filter_eq_nil_iff]
  intro p hp hk
  exact h (List.mem_map.2 ⟨p, hp, beq_iff_eq.1 hk⟩)

end

theorem lookup_map_toList {β : Type} (f : α → β) (l : List (String × α)) (name : String) :
    (l.map fun p => (p.1.toList, f p.2)).lookup name.toList = (l.lookup name).map f := by
  induction l with
  | nil => rfl
  | cons p l ih =>
    rw [List.map_cons, List.lookup_cons, List.lookup_cons, ih]
    by_cases hk : name = p.1
    · simp [hk]
    · rw [beq_false_of_ne hk, beq_false_of_ne fun h => hk (String.toList_inj.1 h)]

end CommentTags
