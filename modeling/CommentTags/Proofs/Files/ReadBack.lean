import CommentTags.Files.Tree
import CommentTags.Proofs.Effects
import CommentTags.Proofs.Keys

/-!
# What is written to a file is read back

The program runs on any files; what is asked of them is that they keep what is written to them.  The
files in memory, which are used to show that this can be had, are such files: to write a file
changes nothing on the way to it, since it never takes the place of a directory.

* `Files.ReadsBack` — if a text is written to a path and then the path is read, with nothing
  between, the text is there.
* `FileTree.readText_of_write` — a text that has been written is read back from the tree, through
  whatever links its path leads.
* `FileTree.readsBack_files` — so files in memory have the property.
-/

set_option autoImplicit false

namespace CommentTags

/-- To write a text to a file and read the file at once. -/
def Files.writeAndRead {m : Type → Type} [Monad m] (files : Files m) (path text : String) :
    m (Except FileError Unit × Except FileError String) := do
  let written ← files.writeText path text
  let read ← files.readText path
  return (written, read)

/-- A text that has been written is read back. -/
def Files.ReadsBack {m : Type → Type} [Monad m] (files : Files m) : Prop :=
  ∀ path text, Ensures (fun p => p.1 = .ok () → p.2 = .ok text) (files.writeAndRead path text)

/-- What holds of the result in every state. -/
theorem Ensures.of_state {σ α : Type} {P : α → Prop} {x : StateM σ α}
    (h : ∀ d, P (x.run d).run.1) : Ensures P x :=
  ⟨fun d => (⟨(x.run d).run.1, h d⟩, (x.run d).run.2), rfl⟩

namespace FileTree

variable {t : FileTree} {place : List String} {e : TreeEntry}

theorem lookup_set_self (hne : place ≠ []) : entry? (t.set place e) place = some e := by
  unfold entry?
  simp [set, hne]

theorem lookup_set_of_ne {other : List String} (h : other ≠ place) :
    entry? (t.set place e) other = t.entry? other := by
  have hrest := lookup_filter (fun p => decide (p ≠ place)) t.entries other
  rw [if_pos (decide_eq_true h)] at hrest
  unfold entry?
  rw [set, List.lookup_cons, beq_false_of_ne h, hrest]

/-- What is not a directory is on the way to nothing. -/
theorem follow_set (hplace : t.entry? place ≠ some .directory) {start names goal : List String}
    (h : t.follow start names = .ok goal) : (t.set place e).follow start names = .ok goal := by
  induction names generalizing start with
  | nil => exact h
  | cons name names ih =>
    rw [follow] at h ⊢
    cases hentry : t.entry? start with
    | none => simp [hentry] at h
    | some found =>
      cases found with
      | directory =>
        have hne : start ≠ place := fun heq => hplace (heq ▸ hentry)
        rw [lookup_set_of_ne hne, hentry]
        rw [hentry] at h
        dsimp only at h ⊢
        split
        · next hup =>
          rw [if_pos hup] at h
          split
          · next htop => simp [htop] at h
          · next htop => exact ih (by rwa [if_neg htop] at h)
        · next hup =>
          rw [if_neg hup] at h
          split
          · next hlong => simp [hlong] at h
          · next hlong => exact ih (by rwa [if_neg hlong] at h)
      | text s => simp [hentry] at h
      | bytes => simp [hentry] at h

theorem locate_set (hplace : t.entry? place ≠ some .directory) {path : String}
    {goal : List String} (h : t.locate path = .ok goal) :
    (t.set place e).locate path = .ok goal := by
  rw [locate] at h ⊢
  split
  · next hname =>
    rw [if_pos hname] at h
    cases h
  · next hname =>
    rw [if_neg hname] at h
    split
    · next hoff =>
      rw [if_pos hoff] at h
      cases h
    · next hoff =>
      rw [if_neg hoff] at h
      split
      · next hlong =>
        rw [if_pos hlong] at h
        cases h
      · next hlong => exact follow_set hplace (by rwa [if_neg hlong] at h)

/-- A file is written to the place to which the path leads, which is no directory. -/
theorem eq_set_of_write {t' : FileTree} {path : String} (h : t.write path e = .ok t') :
    ∃ place, t.locate path = .ok place ∧ t.entry? place ≠ some .directory ∧
      (FilePath.ofString path).mustBeDirectory = false ∧ t' = t.set place e := by
  have hset {place : List String} (err : FileError)
      (h : (if (FilePath.ofString path).mustBeDirectory then .error err
        else pure (t.set place e)) = (.ok t' : Except FileError FileTree)) :
      (FilePath.ofString path).mustBeDirectory = false ∧ t' = t.set place e := by
    split at h
    · cases h
    · next hfile =>
      cases h
      exact ⟨Bool.eq_false_iff.2 hfile, rfl⟩
  cases hplace : t.locate path with
  | error err => simp [write, hplace, bind, Except.bind] at h
  | ok place =>
    simp only [write, hplace, bind, Except.bind] at h
    refine ⟨place, rfl, ?_⟩
    cases hentry : t.entry? place with
    | none =>
      simp only [hentry] at h
      split at h
      · cases h
      · exact ⟨by simp, hset _ h⟩
    | some found =>
      cases found with
      | directory => simp [hentry] at h
      | text s => exact ⟨by simp, hset .notDirectory (by simpa only [hentry] using h)⟩
      | bytes => exact ⟨by simp, hset .notDirectory (by simpa only [hentry] using h)⟩

/-- **A text that has been written to a file of the tree is read back.** -/
theorem readText_of_write {t' : FileTree} {path text : String}
    (h : t.write path (.text text) = .ok t') : t'.readText path = .ok text := by
  obtain ⟨place, hplace, hentry, hfile, rfl⟩ := eq_set_of_write h
  have hne : place ≠ [] := fun hnil => hentry (hnil ▸ rfl)
  have hfind : (t.set place (.text text)).find path = .ok (.text text) := by
    simp [find, locate_set hentry hplace, lookup_set_self hne, hfile, bind, Except.bind, pure,
      Except.pure]
  rw [readText, hfind]
  rfl

/-- Files in memory keep what is written to them. -/
theorem readsBack_files : FileTree.files.ReadsBack := by
  intro path text
  refine .of_state fun t => ?_
  cases h : t.write path (.text text) with
  | error e => simp [Files.writeAndRead, files, change, h]
  | ok t' => simp [Files.writeAndRead, files, change, h, readText_of_write h]

end FileTree

end CommentTags
