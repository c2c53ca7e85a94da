import CommentTags.Language.Names
import CommentTags.Proofs.Text.Lowercase

/-!
# Canonical names are canonical

Bringing a name to its canonical form twice is doing it once (`canonical_canonical`): a name is
trimmed and written small, which is done once and for all, and what an alias stands for is no alias
(`canonical_of_mem_aliases`).  A language may thus be named by its canonical name wherever a name of
it is asked for.
-/

set_option autoImplicit false

namespace CommentTags.Language

open Text

theorem normalized_normalized (name : String) : normalized (normalized name) = normalized name := by
  have htrim : trim (lowercase (trim name.toList)) = lowercase (trim name.toList) :=
    trim_eq_self (isWhite_of_mem_head?_lowercaseAfter fun a ha => isWhite_of_mem_head?_trim ha)
      (isWhite_of_mem_getLast?_lowercaseAfter fun a ha => isWhite_of_mem_getLast?_trim ha)
  rw [normalized, normalized, String.toList_ofList, htrim, lowercase_lowercase]

/-- What an alias stands for is a canonical name. -/
theorem canonical_of_mem_aliases : ∀ pair ∈ aliases, canonical pair.2 = pair.2 := by
  decide +kernel

/-- **Canonical names are canonical.** -/
theorem canonical_canonical (name : String) : canonical (canonical name) = canonical name := by
  cases h : aliases.lookup (normalized name) with
  | none =>
    have hname : canonical name = normalized name := by rw [canonical, h, Option.getD_none]
    rw [hname, canonical, normalized_normalized, h, Option.getD_none]
  | some target =>
    have hname : canonical name = target := by rw [canonical, h, Option.getD_some]
    obtain ⟨before, after, hsplit, -⟩ := List.lookup_eq_some_iff.1 h
    rw [hname]
    exact canonical_of_mem_aliases (normalized name, target) (by rw [hsplit]; simp)

end CommentTags.Language
