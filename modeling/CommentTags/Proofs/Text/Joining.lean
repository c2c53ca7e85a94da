/-!
# Texts with a separator between them

What stands in a text that was joined from others stands in one of them, or is the separator.
-/

set_option autoImplicit false

namespace CommentTags.Text

theorem mem_intercalate {α : Type} {separator a : α} {texts : List (List α)}
    (h : a ∈ [separator].intercalate texts) : a = separator ∨ ∃ t ∈ texts, a ∈ t := by
  induction texts with
  | nil => simp at h
  | cons t texts ih =>
    cases texts with
    | nil => exact .inr ⟨t, by simp, by rwa [List.intercalate_singleton] at h⟩
    | cons u texts =>
      rw [List.intercalate_cons_cons, List.mem_append, List.mem_append, List.mem_singleton] at h
      obtain (h | rfl) | h := h
      · exact .inr ⟨t, by simp, h⟩
      · exact .inl rfl
      · exact (ih h).imp_right fun ⟨t, ht, ha⟩ => ⟨t, List.mem_cons_of_mem _ ht, ha⟩

end CommentTags.Text
