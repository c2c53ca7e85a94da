import Mathlib.Order.Bounds.Defs
import Mathlib.Order.Monotone.Basic
import CommentTags.Proofs.Text.Boundaries

/-!
# Offsets inside a character

An offset stands for the characters that end at or before it.  So an offset inside a character
counts as the start of that character, and an offset behind the text as its end.

* `charsWithin_mono`, `charsWithin_byteLength` — how many characters these are.
* `isGreatest_isBoundary` — an offset is rounded down to the greatest boundary that it reaches.
-/

set_option autoImplicit false

namespace CommentTags.Text

theorem charsWithin_byteLength (s t : List Char) :
    charsWithin (byteLength s) (s ++ t) = s.length := by
  induction s with
  | nil =>
    cases t with
    | nil => rfl
    | cons a t =>
      have ha := a.utf8Size_pos
      rw [List.nil_append, charsWithin, byteLength_nil, if_neg (by omega), List.length_nil]
  | cons a s ih =>
    rw [List.cons_append, charsWithin, byteLength_cons, if_pos (Nat.le_add_right _ _),
      Nat.add_sub_cancel_left, ih, List.length_cons]

theorem charsWithin_mono (s : List Char) : Monotone fun n => charsWithin n s := by
  induction s with
  | nil => exact fun _ _ _ => Nat.le_refl 0
  | cons a s ih =>
    intro m n hmn
    simp only [charsWithin]
    split
    · next hm =>
      rw [if_pos (hm.trans hmn)]
      exact Nat.succ_le_succ (ih (Nat.sub_le_sub_right hmn _))
    · exact Nat.zero_le _

theorem byteLength_take_charsWithin_le (n : Nat) (s : List Char) :
    byteLength (s.take (charsWithin n s)) ≤ n := by
  induction s generalizing n with
  | nil => exact Nat.zero_le n
  | cons a s ih =>
    rw [charsWithin]
    split
    · next ha =>
      have hrest := ih (n - a.utf8Size)
      rw [List.take_succ_cons, byteLength_cons]
      omega
    · exact Nat.zero_le n

theorem charsWithin_le_length (n : Nat) (s : List Char) : charsWithin n s ≤ s.length := by
  induction s generalizing n with
  | nil => exact Nat.le_refl 0
  | cons a s ih =>
    rw [charsWithin]
    split
    · exact Nat.succ_le_succ (ih _)
    · exact Nat.zero_le _

/-- **An offset is rounded down to the greatest boundary that it reaches.** -/
theorem isGreatest_isBoundary (s : List Char) (n : Nat) :
    IsGreatest {m | IsBoundary s m ∧ m ≤ n} (byteLength (s.take (charsWithin n s))) := by
  constructor
  · exact ⟨⟨_, _, (List.take_append_drop _ s).symm, rfl⟩, byteLength_take_charsWithin_le n s⟩
  · rintro m ⟨⟨front, back, rfl, rfl⟩, hle⟩
    have hcount : front.length ≤ charsWithin n (front ++ back) := by
      have hmono : charsWithin (byteLength front) (front ++ back) ≤ charsWithin n (front ++ back) :=
        charsWithin_mono _ hle
      rwa [charsWithin_byteLength] at hmono
    obtain ⟨t, ht⟩ := List.take_prefix_take_left (l := front ++ back) hcount
    rw [List.take_left] at ht
    rw [← ht, byteLength_append]
    exact Nat.le_add_right _ _

end CommentTags.Text
