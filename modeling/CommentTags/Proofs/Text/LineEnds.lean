import Mathlib.Data.List.Count
import Mathlib.Data.List.Induction
import CommentTags.Proofs.Text.Lowercase
import CommentTags.Proofs.Text.Rounding
import CommentTags.Text.Fold

/-!
# Line feeds with and without carriage returns

* `crlf` puts a carriage return before each line feed of a text.
* `crlfOffset` — an offset of the text then stands as many bytes later as line feeds come before it.
* `Inline` — a text that is not empty and can stand on one line.
* `Uncased`, `eq_of_sameLetter` — neither of the two characters is the other case of a letter, so no
  text spells them by accident.
* `trimEnd_concat_return` — a carriage return at the end of a text is trimmed off.
-/

set_option autoImplicit false

namespace CommentTags.Text

/-- The text with a carriage return before each line feed. -/
def crlf (s : List Char) : List Char :=
  s.flatMap fun a => if a = '\n' then ['\r', '\n'] else [a]

/-- The text is not empty, and it can stand on one line. -/
def Inline (s : List Char) : Prop :=
  s ≠ [] ∧ '\r' ∉ s ∧ '\n' ∉ s

instance (s : List Char) : Decidable (Inline s) :=
  inferInstanceAs (Decidable (s ≠ [] ∧ '\r' ∉ s ∧ '\n' ∉ s))

/-- The number of line feeds before a byte offset. -/
def feedsBefore (s : List Char) (offset : Nat) : Nat :=
  (s.take (charsWithin offset s)).count '\n'

/-- Where a byte offset of the text stands when a carriage return is put before each line feed. -/
def crlfOffset (s : List Char) (offset : Nat) : Nat :=
  offset + feedsBefore s offset

/-! ## The text -/

@[simp] theorem crlf_nil : crlf [] = [] := rfl

@[simp] theorem crlf_cons_feed (s : List Char) : crlf ('\n' :: s) = '\r' :: '\n' :: crlf s := rfl

theorem crlf_cons {a : Char} (ha : a ≠ '\n') (s : List Char) : crlf (a :: s) = a :: crlf s := by
  rw [crlf, List.flatMap_cons, if_neg ha]
  rfl

theorem crlf_append (s t : List Char) : crlf (s ++ t) = crlf s ++ crlf t :=
  List.flatMap_append

theorem crlf_of_not_mem {s : List Char} (h : '\n' ∉ s) : crlf s = s := by
  induction s with
  | nil => rfl
  | cons a s ih =>
    rw [List.mem_cons, not_or] at h
    rw [crlf_cons (Ne.symm h.1), ih h.2]

theorem length_crlf (s : List Char) : (crlf s).length = s.length + s.count '\n' := by
  induction s with
  | nil => rfl
  | cons a s ih =>
    by_cases ha : a = '\n'
    · subst ha
      rw [crlf_cons_feed, List.count_cons_self]
      simp only [List.length_cons, ih]
      omega
    · rw [crlf_cons ha, List.count_cons_of_ne ha, List.length_cons, List.length_cons, ih]
      omega

theorem byteLength_crlf (s : List Char) : byteLength (crlf s) = byteLength s + s.count '\n' := by
  induction s with
  | nil => rfl
  | cons a s ih =>
    by_cases ha : a = '\n'
    · subst ha
      have h1 : '\r'.utf8Size = 1 := rfl
      rw [crlf_cons_feed, List.count_cons_self, byteLength_cons, byteLength_cons, byteLength_cons,
        ih, h1]
      omega
    · rw [crlf_cons ha, List.count_cons_of_ne ha, byteLength_cons, byteLength_cons, ih, Nat.add_assoc]

theorem getLast?_crlf (s : List Char) : (crlf s).getLast? = s.getLast? := by
  induction s using List.reverseRecOn with
  | nil => rfl
  | append_singleton s a _ =>
    rw [crlf_append, List.getLast?_concat]
    by_cases ha : a = '\n'
    · subst ha
      rw [crlf_cons_feed, List.getLast?_append]
      rfl
    · rw [crlf_cons ha, crlf_nil, List.getLast?_concat]

/-! ## Offsets -/

/-- At a boundary, the line feeds of the text before it are counted. -/
theorem crlfOffset_byteLength (s t : List Char) :
    crlfOffset (s ++ t) (byteLength s) = byteLength s + s.count '\n' := by
  rw [crlfOffset, feedsBefore, charsWithin_byteLength, List.take_left]

theorem strictMono_crlfOffset (s : List Char) : StrictMono (crlfOffset s) := by
  intro m n hmn
  have h : feedsBefore s m ≤ feedsBefore s n :=
    (List.take_prefix_take_left (charsWithin_mono s hmn.le)).sublist.count_le '\n'
  exact Nat.add_lt_add_of_lt_of_le hmn h

theorem crlfOffset_zero (s : List Char) : crlfOffset s 0 = 0 :=
  crlfOffset_byteLength [] s

/-! ## Letter case and white space -/

/-- The character has no other letter case, and it comes before the small letters. -/
def Uncased (a : Char) : Prop :=
  fold a = a ∧ a ≠ '\x00' ∧ a.toNat < 0x61

instance (a : Char) : Decidable (Uncased a) :=
  inferInstanceAs (Decidable (fold a = a ∧ a ≠ '\x00' ∧ a.toNat < 0x61))

/-- What folds to another character folds to a letter. -/
theorem fold_eq_self_or (b : Char) : fold b = b ∨ fold b = '\x00' ∨ 0x61 ≤ (fold b).toNat := by
  rw [fold]
  split
  · next hascii =>
    have h : b.toLower = b ∨ 0x61 ≤ b.toLower.toNat :=
      forall_ascii (P := fun a => a.toLower = a ∨ 0x61 ≤ a.toLower.toNat) (by decide) hascii
    exact h.imp_right .inr
  · rw [shiftCase]
    cases hk : foldRanges.findSome? (·.image? b.toNat) with
    | none => exact .inl rfl
    | some k =>
      obtain ⟨r, hr, hk⟩ := List.exists_of_findSome?_eq_some hk
      have htarget : ∀ r ∈ foldRanges, 0x61 ≤ r.target := by decide +kernel
      have hle := htarget r hr
      obtain ⟨-, -, -, hk⟩ := CaseRange.image?_eq_some_iff.1 hk
      refine .inr ?_
      by_cases hvalid : k.isValidChar
      · refine .inr ?_
        rw [toNat_ofNat hvalid]
        omega
      · exact .inl (dif_neg hvalid)

/-- A character without letter case is the same letter as itself only. -/
theorem Uncased.eq_of_sameLetter {b a : Char} (ha : Uncased a) (h : sameLetter b a = true) :
    b = a := by
  obtain ⟨hfold, hne, hlt⟩ := ha
  rw [sameLetter_iff, hfold] at h
  have hb := fold_eq_self_or b
  rw [h] at hb
  rcases hb with hb | hb | hb
  · exact hb.symm
  · exact absurd hb hne
  · omega

/-- Only a line feed is a line feed in another case, and only a carriage return is a carriage
return. -/
theorem eq_of_sameLetter {b a : Char} (h : sameLetter b a = true) (ha : a = '\r' ∨ a = '\n') :
    b = a := by
  have huncased : Uncased a := by rcases ha with rfl | rfl <;> decide
  exact huncased.eq_of_sameLetter h

theorem trimEnd_concat_return (s : List Char) : trimEnd (s ++ ['\r']) = trimEnd s := by
  rw [trimEnd, trimEnd, List.reverse_concat, List.dropWhile_cons_of_pos (by decide)]

end CommentTags.Text
