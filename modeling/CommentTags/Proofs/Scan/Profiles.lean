import CommentTags.Proofs.Scan.Equivariance

/-!
# Profiles

What is looked for in the texts of a language follows from how its comments are written.

* `Profile.of_cases` — what the flags of a profile come from.
* `Profile.delimiters_of_supported`, `Profile.exists_of_mem_openers` — the delimiters in use come
  from the syntax.
* `Profile.ne_nil_of_mem_openerWords` — no delimiter that is looked for is empty.
* `Profile.of_rename` — if the delimiters are written anew, the profile that follows from them is
  the old one, written anew.
-/

set_option autoImplicit false

namespace CommentTags

/-! ## The flags of a profile -/

section

variable {language : String} {c : Option CommentSyntax} {toggles : Toggles}

/-- The comments of a language are not known, and none are looked for; or they are known, and only
its name decides whether the start of a text is left out. -/
theorem Profile.of_cases (language : String) (c : Option CommentSyntax) (toggles : Toggles) :
    ((Profile.of language c toggles).supported = false ∧
      (Profile.of language c toggles).ignoresFirstLine = false ∧
      (Profile.of language c toggles).scansLines = false ∧
      (Profile.of language c toggles).scansBlocks = false) ∨
    ((Profile.of language c toggles).supported = true ∧
      (Profile.of language c toggles).ignoresFirstLine =
        Language.suppressesFirstLine language) := by
  simp only [Profile.of, apply_ite Profile.supported, apply_ite Profile.ignoresFirstLine,
    apply_ite Profile.scansLines, apply_ite Profile.scansBlocks]
  generalize (if language == Language.plainText then toggles.highlightPlainText else c.isSome) =
    known
  cases known with
  | false => exact .inl ⟨rfl, rfl, rfl, rfl⟩
  | true => exact .inr ⟨rfl, rfl⟩

/-- The fields of the profile of a language whose comments are known. -/
theorem Profile.fields_of_supported (h : (Profile.of language c toggles).supported = true) :
    let p := Profile.of language c toggles
    p.openers = (c.map openersOf).getD [] ∧
      p.block = c.bind (·.blockPair) ∧
      p.scansLines = (p.plainText || !p.openers.isEmpty) ∧
      p.scansBlocks = (p.block.isSome && toggles.multilineComments) ∧
      p.borrowsOpener = (((c.map (·.lineOpeners)).getD []).isEmpty && !p.openers.isEmpty) := by
  simp only [Profile.of] at h ⊢
  generalize (if language == Language.plainText then toggles.highlightPlainText else c.isSome) =
    known at h ⊢
  cases known with
  | false => exact Bool.noConfusion h
  | true => exact ⟨rfl, rfl, rfl, rfl, rfl⟩

/-- The profile of a language whose comments are not known has no delimiters, and nothing is looked
for. -/
theorem Profile.fields_of_not_supported (h : (Profile.of language c toggles).supported = false) :
    let p := Profile.of language c toggles
    p.openers = [] ∧ p.block = none ∧ p.scansLines = false ∧ p.scansBlocks = false ∧
      p.scansDocs = false ∧ p.borrowsOpener = false := by
  simp only [Profile.of] at h ⊢
  generalize (if language == Language.plainText then toggles.highlightPlainText else c.isSome) =
    known at h ⊢
  cases known with
  | false => exact ⟨rfl, rfl, rfl, rfl, rfl, rfl⟩
  | true => exact Bool.noConfusion h

theorem Profile.suppresses_of_ignores
    (h : (Profile.of language c toggles).ignoresFirstLine = true) :
    Language.suppressesFirstLine language = true := by
  rcases Profile.of_cases language c toggles with ⟨-, hi, -⟩ | ⟨-, hi⟩
  · rw [hi] at h
    exact Bool.noConfusion h
  · rw [← hi, h]

/-- Nothing is looked for in a language whose comments are not known. -/
theorem Profile.scans_of_not_supported (h : (Profile.of language c toggles).supported = false) :
    (Profile.of language c toggles).scansLines = false ∧
      (Profile.of language c toggles).scansBlocks = false := by
  obtain ⟨-, -, hl, hb, -⟩ := Profile.fields_of_not_supported h
  exact ⟨hl, hb⟩

theorem Profile.plainText_of :
    (Profile.of language c toggles).plainText = (language == Language.plainText) := by
  simp only [Profile.of, apply_ite Profile.plainText]
  exact ite_self _

theorem Profile.markdown_of : (Profile.of language c toggles).markdown =
    (language == Language.markdown && toggles.highlightMarkdown) := by
  simp only [Profile.of, apply_ite Profile.markdown]
  exact ite_self _

end

/-! ## Delimiters in use -/

namespace CommentSyntax

variable {c : CommentSyntax}

theorem ne_of_mem_lineOpeners {o : String} (h : o ∈ c.lineOpeners) : o ≠ "" := by
  rw [lineOpeners] at h
  split at h
  · simp at h
  · rw [LineComment.openers, List.mem_filter] at h
    simpa using h.2

theorem ne_of_mem_blockPair {pair : String × String} (h : pair ∈ c.blockPair) :
    pair.1 ≠ "" ∧ pair.2 ≠ "" := by
  have h' := (Option.filter_eq_some_iff.1 h).2
  simpa using h'

theorem ne_of_mem_openersOf {o : String} (h : o ∈ Profile.openersOf c) : o ≠ "" := by
  rw [Profile.openersOf] at h
  split at h
  · obtain ⟨pair, hpair, rfl⟩ := List.mem_map.1 h
    exact (ne_of_mem_blockPair (Option.mem_toList.1 hpair)).1
  · exact ne_of_mem_lineOpeners h

end CommentSyntax

/-- The delimiters in use are those of the syntax. -/
theorem Profile.delimiters_of_supported {language : String} {c : CommentSyntax} {toggles : Toggles}
    (h : (Profile.of language (some c) toggles).supported = true) :
    (Profile.of language (some c) toggles).openers = openersOf c ∧
      (Profile.of language (some c) toggles).block = c.blockPair := by
  obtain ⟨hopeners, hblock, -⟩ := fields_of_supported h
  exact ⟨hopeners, hblock⟩

/-- Where nothing is looked for, there are no delimiters in use. -/
theorem Profile.delimiters_of_not_supported {language : String} {c : Option CommentSyntax}
    {toggles : Toggles} (h : (Profile.of language c toggles).supported = false) :
    (Profile.of language c toggles).openers = [] ∧
      (Profile.of language c toggles).block = none := by
  obtain ⟨hopeners, hblock, -⟩ := fields_of_not_supported h
  exact ⟨hopeners, hblock⟩

/-- Every opener in use comes from the syntax. -/
theorem Profile.exists_of_mem_openers {language : String} {comments : Option CommentSyntax}
    {toggles : Toggles} {o : String} (h : o ∈ (Profile.of language comments toggles).openers) :
    ∃ c ∈ comments, o ∈ openersOf c := by
  cases hs : (Profile.of language comments toggles).supported with
  | false =>
    rw [(fields_of_not_supported hs).1] at h
    exact absurd h List.not_mem_nil
  | true =>
    rw [(fields_of_supported hs).1] at h
    cases comments with
    | none => exact absurd h List.not_mem_nil
    | some c => exact ⟨c, rfl, h⟩

/-- No opener that is looked for is empty. -/
theorem Profile.ne_nil_of_mem_openerWords {language : String} {comments : Option CommentSyntax}
    {toggles : Toggles} : ∀ w ∈ (Profile.of language comments toggles).openerWords, w ≠ [] := by
  intro w hw
  obtain ⟨o, ho, rfl⟩ := List.mem_map.1 hw
  obtain ⟨c, -, ho⟩ := exists_of_mem_openers ho
  simpa using CommentSyntax.ne_of_mem_openersOf ho

/-! ## Comment syntax written anew -/

/-- The openers written anew. -/
def LineComment.rename (ρ : Renaming) : LineComment → LineComment
  | .single opener => .single (ρ.string opener)
  | .several openers => .several (openers.map ρ.string)

/-- The delimiters written anew. -/
def CommentSyntax.rename (ρ : Renaming) (c : CommentSyntax) : CommentSyntax where
  line := c.line.map (·.rename ρ)
  block := c.block.map fun pair => (ρ.string pair.1, ρ.string pair.2)

section

variable {ρ : Renaming}

theorem Renaming.string_ne_empty (s : String) : ρ.string s ≠ "" ↔ s ≠ "" := by
  rw [Ne, Ne, ← String.toList_inj, ← String.toList_inj, Renaming.toList_string]
  simp

theorem LineComment.openers_rename (c : LineComment) :
    (c.rename ρ).openers = c.openers.map ρ.string := by
  have h : (c.rename ρ).declared = c.declared.map ρ.string := by cases c <;> rfl
  rw [LineComment.openers, LineComment.openers, h, List.filter_map]
  congr 2
  funext s
  simp only [Function.comp_apply, Renaming.string_ne_empty]

theorem CommentSyntax.rename_move (shift : Nat) (c : CommentSyntax) :
    c.rename (.move shift) = c := by
  have h : (Renaming.move shift).string = id := funext (Renaming.string_move shift)
  have hline (l : LineComment) : l.rename (.move shift) = l := by
    cases l <;> simp only [LineComment.rename, h, id, List.map_id]
  simp only [CommentSyntax.rename, hline, h, id, Option.map_id']

theorem CommentSyntax.lineOpeners_rename (c : CommentSyntax) :
    (c.rename ρ).lineOpeners = c.lineOpeners.map ρ.string := by
  rw [CommentSyntax.lineOpeners, CommentSyntax.lineOpeners, CommentSyntax.rename]
  cases c.line with
  | none => rfl
  | some line => exact line.openers_rename

theorem CommentSyntax.blockPair_rename (c : CommentSyntax) :
    (c.rename ρ).blockPair = c.blockPair.map fun pair => (ρ.string pair.1, ρ.string pair.2) := by
  rw [CommentSyntax.blockPair, CommentSyntax.blockPair, CommentSyntax.rename]
  cases c.block with
  | none => rfl
  | some pair =>
    simp only [Option.map_some, Option.filter_some, Renaming.string_ne_empty]
    split <;> rfl

theorem Profile.openersOf_rename (c : CommentSyntax) :
    Profile.openersOf (c.rename ρ) = (Profile.openersOf c).map ρ.string := by
  rw [Profile.openersOf, Profile.openersOf, CommentSyntax.lineOpeners_rename,
    CommentSyntax.blockPair_rename, List.isEmpty_map]
  split
  · cases c.blockPair <;> rfl
  · rfl

/-- The profile follows from the syntax in the same way. -/
theorem Profile.of_rename (language : String) (c : Option CommentSyntax) (toggles : Toggles) :
    Profile.of language (c.map (·.rename ρ)) toggles =
      (Profile.of language c toggles).rename ρ := by
  have hopeners : ((c.map (·.rename ρ)).map Profile.openersOf).getD [] =
      ((c.map Profile.openersOf).getD []).map ρ.string := by
    cases c with
    | none => rfl
    | some c => exact Profile.openersOf_rename c
  have hblock : (c.map (·.rename ρ)).bind (·.blockPair) =
      (c.bind (·.blockPair)).map fun pair => (ρ.string pair.1, ρ.string pair.2) := by
    cases c with
    | none => rfl
    | some c => exact c.blockPair_rename
  have hlines : (((c.map (·.rename ρ)).map (·.lineOpeners)).getD []).isEmpty =
      ((c.map (·.lineOpeners)).getD []).isEmpty := by
    cases c with
    | none => rfl
    | some c =>
      rw [Option.map_some, Option.map_some, Option.getD_some, CommentSyntax.lineOpeners_rename]
      exact List.isEmpty_map
  simp only [Profile.of, hopeners, hblock, hlines, Option.isSome_map, List.isEmpty_map,
    apply_ite (Profile.rename ρ)]
  rfl

end

end CommentTags
