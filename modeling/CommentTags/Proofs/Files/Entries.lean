import CommentTags.Files.Basic
import CommentTags.Files.Path

/-!
# Entries of a directory

* `EntryName` — a name of an entry: it does not lead to the directory itself, out of it, or through
  other directories.
* `FilePath.entry` — the path of an entry of a directory.
* `FilePath.ofString_joinPath` — a name that is joined to the path of a directory leads to that
  entry, whether or not the path of the directory ends in a slash.
-/

set_option autoImplicit false

namespace CommentTags

/-- A name of an entry, as opposed to one that leads to the directory itself, out of it, or through
other directories. -/
structure EntryName (name : String) : Prop where
  ne_empty : name ≠ ""
  ne_dot : name ≠ "."
  ne_dots : name ≠ ".."
  no_separator : ∀ c ∈ ['/', '\\'], c ∉ name.toList

/-- The path of an entry of a directory. -/
def FilePath.entry (directory : FilePath) (name : String) : FilePath :=
  { directory with
    names := directory.names ++ [name]
    mustBeDirectory := false
    endsInSlash := false }

namespace Language

theorem pathParts_ne_nil (s : List Char) : pathParts s ≠ [] := by
  cases s with
  | nil => simp [pathParts]
  | cons c s =>
    rw [pathParts]
    split
    · simp
    · split <;> simp

theorem pathParts_append (s t : List Char) :
    pathParts (s ++ '/' :: t) = pathParts s ++ pathParts t := by
  induction s with
  | nil => simp [pathParts]
  | cons c s ih =>
    rw [List.cons_append, pathParts, pathParts, ih]
    split
    · rfl
    · cases h : pathParts s with
      | nil => exact absurd h (pathParts_ne_nil s)
      | cons part parts => rfl

theorem pathParts_of_not_mem {s : List Char} (h : '/' ∉ s) : pathParts s = [s] := by
  induction s with
  | nil => rfl
  | cons c s ih =>
    rw [List.mem_cons, not_or] at h
    rw [pathParts, if_neg (Ne.symm h.1), ih h.2]

end Language

namespace EntryName

variable {name : String}

theorem toList_ne_nil (h : EntryName name) : name.toList ≠ [] :=
  fun hnil => h.ne_empty (String.toList_eq_nil_iff.1 hnil)

theorem toList_ne_dot (h : EntryName name) : name.toList ≠ ['.'] :=
  fun hdot => h.ne_dot (String.toList_inj.1 hdot)

theorem pathParts_eq (h : EntryName name) : Language.pathParts name.toList = [name.toList] :=
  Language.pathParts_of_not_mem (h.no_separator '/' (by simp))

theorem getLast?_ne (h : EntryName name) : name.toList.getLast? ≠ some '/' :=
  fun hlast => h.no_separator '/' (by simp) (List.mem_of_getLast? hlast)

theorem head?_ne (h : EntryName name) : name.toList.head? ≠ some '/' :=
  fun hhead => h.no_separator '/' (by simp) (List.mem_of_head? hhead)

end EntryName

namespace FilePath

/-- A path leads to an entry of a directory if it has the parts of the directory and the name.  The
path of the directory may end in a slash, which makes one more part. -/
theorem ofString_eq_entry {path directory name : String} (h : EntryName name)
    {parts : List (List Char)} (hparts : Language.pathParts path.toList = parts ++ [name.toList])
    (hdirectory : Language.pathParts directory.toList = parts ∨
      Language.pathParts directory.toList = parts ++ [[]])
    (hroot : path.toList.head? = some '/' ↔ directory.toList.head? = some '/')
    (hend : name.toList <:+ path.toList) : ofString path = (ofString directory).entry name := by
  have hname := h.toList_ne_nil
  have hdot := h.toList_ne_dot
  have hlast : path.toList.getLast? ≠ some '/' := by
    obtain ⟨u, hu⟩ := hend
    obtain ⟨c, hc⟩ := Option.ne_none_iff_exists'.1 (mt List.getLast?_eq_none_iff.1 hname)
    simpa [← hu, hc] using h.getLast?_ne
  obtain hdirectory | hdirectory := hdirectory <;>
    simp [ofString, entry, hparts, hdirectory, hname, hdot, hroot, hlast]

/-- **A name joined to a directory leads to an entry of the directory.** -/
theorem ofString_joinPath {name : String} (h : EntryName name) (directory : String) :
    ofString (joinPath directory name) = (ofString directory).entry name := by
  rw [joinPath]
  split
  · next hempty =>
    subst hempty
    have hparts : Language.pathParts name.toList = [] ++ [name.toList] := h.pathParts_eq
    exact ofString_eq_entry h hparts (.inr rfl) (by simpa using h.head?_ne) List.suffix_rfl
  have hne : directory.toList ≠ [] := fun hnil => ‹¬directory = ""› (String.toList_eq_nil_iff.1 hnil)
  obtain ⟨c, hc⟩ := Option.ne_none_iff_exists'.1 (mt List.head?_eq_none_iff.1 hne)
  split
  · next hslash =>
    obtain ⟨s, hs⟩ := List.getLast?_eq_some_iff.1 hslash
    have hparts : Language.pathParts (directory ++ name).toList =
        Language.pathParts s ++ [name.toList] := by
      rw [String.toList_append, hs, List.append_assoc, List.singleton_append,
        Language.pathParts_append, h.pathParts_eq]
    refine ofString_eq_entry h hparts (.inr ?_) (by simp [hc]) (by simp)
    rw [hs, Language.pathParts_append]
    rfl
  · have hparts : Language.pathParts (directory ++ "/" ++ name).toList =
        Language.pathParts directory.toList ++ [name.toList] := by
      simp [Language.pathParts_append, h.pathParts_eq]
    refine ofString_eq_entry h hparts (.inl rfl) (by simp [hc]) ?_
    rw [String.toList_append]
    exact List.suffix_append _ _

end FilePath

end CommentTags
