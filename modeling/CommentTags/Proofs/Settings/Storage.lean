import CommentTags.Proofs.Files.ReadBack
import CommentTags.Proofs.Settings.Reading
import CommentTags.Settings.Storage

/-!
# Settings are kept in files

Whatever the settings are, what has been saved is loaded again.  That depends on files only in that
they keep what is written to them (`Files.ReadsBack`), and on nothing that a text in the settings
looks like.

* `Settings.saveAndLoad` — to save settings and load them at once.
* `Settings.saveIn_loadFrom` — the directories may be made first.
* `Settings.loadFrom_saveTo` — settings that have been saved are loaded again, and an entry that is
  left out of the document is as in a fresh installation.
-/

set_option autoImplicit false

namespace CommentTags.Settings

open Yaml

variable {m : Type → Type} [Monad m]

/-- The settings in what was read from a file. -/
def ofRead (path : String) (read : Except FileError String) : Except SettingsError Settings :=
  match read with
  | .error e => .error (.unreadable path e)
  | .ok text => (parse text).mapError (.malformedFile path)

/-- To save settings and load them at once. -/
def saveAndLoad (files : Files m) (path : String) (s : Settings) :
    m (Except SettingsError Unit × Except SettingsError Settings) := do
  let saved ← s.saveTo files path
  let loaded ← loadFrom files path
  return (saved, loaded)

/-- To make the directories that a file lies in. -/
def makeParents (files : Files m) (path : String) : m (Except FileError Unit) :=
  match parentPath? path with
  | none => pure (.ok ())
  | some parent => files.makeDirectories parent

/-- To write settings to a file once its directories have been made. -/
def saveIn (files : Files m) (path : String) (s : Settings) :
    Except FileError Unit → m (Except SettingsError Unit)
  | .error e => pure (.error (.noDirectory e))
  | .ok () => (·.mapError (.unwritable path)) <$> files.writeText path s.toYaml

section

variable [LawfulMonad m]

theorem loadFrom_eq (files : Files m) (path : String) :
    loadFrom files path = ofRead path <$> files.readText path := by
  rw [loadFrom, map_eq_pure_bind]
  refine bind_congr fun read => ?_
  cases read <;> rfl

theorem saveTo_eq (files : Files m) (path : String) (s : Settings) :
    s.saveTo files path = makeParents files path >>= s.saveIn files path := by
  rw [saveTo, makeParents]
  cases parentPath? path <;>
  · refine bind_congr fun made => ?_
    cases made with
    | error e => rfl
    | ok _ => exact (map_eq_pure_bind _ _).symm

/-- What comes of saving in directories that have been made is what comes of writing the text. -/
theorem saveIn_loadFrom (files : Files m) (path : String) (s : Settings) :
    (do
      let saved ← s.saveIn files path (.ok ())
      let loaded ← loadFrom files path
      return (saved, loaded)) =
    (fun p => (p.1.mapError (.unwritable path), ofRead path p.2)) <$>
      files.writeAndRead path s.toYaml := by
  simp only [saveIn, Files.writeAndRead, loadFrom_eq, map_eq_pure_bind, bind_assoc, pure_bind]

/-- **Settings that have been saved are loaded again**, and what is left out of the document in
which they are saved is as in a fresh installation. -/
theorem loadFrom_saveTo {files : Files m} (hfiles : files.ReadsBack) (path : String)
    (s : Settings) :
    Ensures (fun p => p.1 = .ok () → p.2 = .ok s) (s.saveAndLoad files path) ∧
      s.toYaml = String.ofList (s.printOnly fun _ => true) ∧
      ∀ kept, ofYaml (String.ofList (s.printOnly kept)) = .ok (s.only kept) := by
  refine ⟨?_, by rw [printOnly_all, toYaml], fun kept => by rw [ofYaml, parse_printOnly]; rfl⟩
  rw [saveAndLoad, saveTo_eq, bind_assoc]
  refine (Ensures.of_forall (fun _ => trivial) (makeParents files path)).bind fun made _ => ?_
  cases made with
  | error e =>
    rw [saveIn, pure_bind, ← map_eq_pure_bind]
    exact .map_of_forall (fun loaded hsaved => by cases hsaved) _
  | ok _ =>
    rw [saveIn_loadFrom]
    refine (hfiles path s.toYaml).map fun p hp hsaved => ?_
    have hwritten : p.1 = .ok () := by
      cases hp1 : p.1 with
      | error e => simp [hp1, Except.mapError] at hsaved
      | ok _ => rfl
    rw [hp hwritten, ofRead, parse_toYaml]
    rfl

end

/-- Settings with texts that look like something else, or take several lines. -/
def awkward : Settings where
  tags := [⟨"null", { color := "~", bold := true }⟩, ⟨"- x: #y", { backgroundColor := "0x1F" }⟩,
    ⟨" a\n\n  b \t", { color := "" }⟩, ⟨"it's\u2028", { color := "line\n" }⟩]
  toggles := { highlightPlainText := true }

/-- Saving does succeed, here in files in memory, and then `loadFrom_saveTo` speaks of it. -/
theorem loadFrom_saveTo_awkward :
    ((awkward.saveTo FileTree.files "tagline/config.yaml").run {}).run.1 = .ok () ∧
      Ensures (fun p => p.1 = .ok () → p.2 = .ok awkward)
        (awkward.saveAndLoad FileTree.files "tagline/config.yaml") ∧
      awkward.toYaml = String.ofList (awkward.printOnly fun _ => true) ∧
      ∀ kept, ofYaml (String.ofList (awkward.printOnly kept)) = .ok (awkward.only kept) :=
  ⟨by rfl, loadFrom_saveTo FileTree.readsBack_files "tagline/config.yaml" awkward⟩

end CommentTags.Settings
