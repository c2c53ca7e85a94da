/-!
# Characters of ASCII

What is to be shown of every character of ASCII can be checked for one after another.
-/

set_option autoImplicit false

namespace CommentTags.Text

/-- A code point that is a character is the code point of that character. -/
theorem toNat_ofNat {n : Nat} (h : n.isValidChar) : (Char.ofNat n).toNat = n := by
  have hchar : Char.ofNat n = Char.ofNatAux n h := dif_pos h
  rw [hchar]
  rfl

/-- What holds of the first 128 characters holds of every character of ASCII. -/
theorem forall_ascii {P : Char → Prop} (h : ∀ n : Fin 128, P (Char.ofNat n)) {c : Char}
    (hc : c.toNat < 0x80) : P c := by
  rw [← Char.ofNat_toNat c]
  exact h ⟨c.toNat, hc⟩

/-- Only capital letters of ASCII are changed. -/
theorem toLower_eq_self {c : Char} (h : c.toNat < 0x41 ∨ 0x5A < c.toNat) : c.toLower = c := by
  refine dif_neg ?_
  rintro ⟨h1, h2⟩
  have h3 : 0x41 ≤ c.toNat := UInt32.le_iff_toNat_le.1 h1
  have h4 : c.toNat ≤ 0x5A := UInt32.le_iff_toNat_le.1 h2
  omega

/-- What relates every character to itself, and the 26 capital letters to their small ones, relates
every character to its small one. -/
theorem rel_toLower {R : Char → Char → Prop} (hrefl : ∀ c, R c c)
    (h : ∀ n : Fin 26, R (Char.ofNat (0x41 + n)) (Char.ofNat (0x41 + n)).toLower) (c : Char) :
    R c c.toLower := by
  by_cases hc : c.toNat < 0x41 ∨ 0x5A < c.toNat
  · rw [toLower_eq_self hc]
    exact hrefl c
  · have hn : 0x41 + (c.toNat - 0x41) = c.toNat := by omega
    have hletter := h ⟨c.toNat - 0x41, by omega⟩
    simp only [hn, Char.ofNat_toNat] at hletter
    exact hletter

end CommentTags.Text
