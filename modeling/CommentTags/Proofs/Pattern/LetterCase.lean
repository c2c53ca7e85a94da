import CommentTags.Proofs.Pattern.Equivariance
import CommentTags.Proofs.Text.Lowercase

/-!
# Capital letters as small ones

Writing every capital letter of ASCII as a small one is a `Renaming`: nothing that a search or a
look at the tags and language names depends on is changed by it.  Each of its laws is checked for
the characters of ASCII; all other characters stay.

* `fold_toLower`, `CharClass.contains_toLower` — what a pattern can see of a character.
* `lowercaseAfter_map_toLower` — the lowercase of a text, which looks at the characters around a
  sigma.
* `Renaming.small` — the laws put together.
-/

set_option autoImplicit false

namespace CommentTags

open Text

theorem fold_toLower (a : Char) : fold a.toLower = fold a :=
  rel_toLower (R := fun a b => fold b = fold a) (fun _ => rfl) (by decide) a

/-- Only a letter is written in another way, and then as a letter. -/
theorem toLower_eq_or_isAlpha (a : Char) : a.toLower = a ∨ a.isAlpha ∧ a.toLower.isAlpha :=
  rel_toLower (R := fun a b => b = a ∨ a.isAlpha ∧ b.isAlpha) (fun _ => .inl rfl)
    (by decide) a

theorem CharClass.contains_toLower {k : CharClass} (hk : k.caseless) (a : Char) :
    k.contains a.toLower = k.contains a := by
  cases k with
  | exactly b =>
    rcases toLower_eq_or_isAlpha a with h | ⟨h1, h2⟩
    · rw [h]
    · -- the class is that of a character which is not a letter, unlike `a` and its small letter
      have hb : b.isAlpha = false := by simpa [CharClass.caseless] using hk
      have hne {c : Char} (hc : c.isAlpha) : (c == b) = false := by
        rw [beq_eq_false_iff_ne]
        rintro rfl
        rw [hb] at hc
        exact Bool.noConfusion hc
      rw [CharClass.contains, CharClass.contains, hne h1, hne h2]
  | _ =>
    exact rel_toLower (R := fun a b => CharClass.contains _ b = CharClass.contains _ a)
      (fun _ => rfl) (by decide) a

/-! ## Lowercase -/

theorem nextIsCased_map_toLower (s : List Char) :
    nextIsCased (s.map Char.toLower) = nextIsCased s := by
  have hsame (a : Char) : inRanges caseIgnorableRanges a.toLower = inRanges caseIgnorableRanges a ∧
      inRanges casedRanges a.toLower = inRanges casedRanges a :=
    rel_toLower (R := fun a b => inRanges caseIgnorableRanges b = inRanges caseIgnorableRanges a ∧
      inRanges casedRanges b = inRanges casedRanges a) (fun _ => ⟨rfl, rfl⟩) (by decide +kernel) a
  induction s with
  | nil => rfl
  | cons a s ih =>
    rw [List.map_cons, nextIsCased, nextIsCased, (hsame a).1, (hsame a).2, ih]

theorem lowered_map_toLower (before : List Char) (c : Char) (rest : List Char) :
    lowered (before.map Char.toLower) c.toLower (rest.map Char.toLower) =
      lowered before c rest := by
  have hsame : (c.toLower = 'Σ' ↔ c = 'Σ') ∧ (c.toLower = 'İ' ↔ c = 'İ') ∧
      lowercaseChar c.toLower = lowercaseChar c :=
    rel_toLower (R := fun a b => (b = 'Σ' ↔ a = 'Σ') ∧ (b = 'İ' ↔ a = 'İ') ∧
      lowercaseChar b = lowercaseChar a) (fun _ => ⟨.rfl, .rfl, rfl⟩) (by decide) c
  simp only [lowered, hsame, nextIsCased_map_toLower]

theorem lowercaseAfter_map_toLower (before s : List Char) :
    lowercaseAfter (before.map Char.toLower) (s.map Char.toLower) = lowercaseAfter before s := by
  induction s generalizing before with
  | nil => rfl
  | cons c s ih =>
    rw [List.map_cons, lowercaseAfter_cons, lowercaseAfter_cons, lowered_map_toLower,
      ← List.map_cons, ih]

/-- **Capital letters of ASCII written as small ones.** -/
def Renaming.small : Renaming where
  shift := 0
  letter := Char.toLower
  letter_eq a ha := (toLower_eq_or_isAlpha a).resolve_right fun h => by
    rw [ha] at h
    exact Bool.noConfusion h.1
  utf8Size_letter a :=
    rel_toLower (R := fun a b => b.utf8Size = a.utf8Size) (fun _ => rfl) (by decide) a
  contains_letter _ hk a := CharClass.contains_toLower hk a
  sameLetter_letter a b := by
    rw [Bool.eq_iff_iff, sameLetter_iff, sameLetter_iff, fold_toLower, fold_toLower]
  lowercase_map s := lowercaseAfter_map_toLower [] s

end CommentTags
