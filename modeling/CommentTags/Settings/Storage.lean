import CommentTags.Files.Path
import CommentTags.Settings.Place
import CommentTags.Settings.Printer
import CommentTags.Settings.Reader

/-!
# Settings in files

Settings are read from a file that is named, where every fault is an error, or from the file of the
user, where a fault means the settings of a fresh installation. They are written with the directories
that they lie in.
-/

namespace CommentTags

/-- Why settings could not be read or written. -/
inductive SettingsError
  /-- A text does not stand for settings. -/
  | malformed (e : Yaml.Error)
  /-- A file cannot be read. -/
  | unreadable (path : String) (e : FileError)
  /-- The text of a file does not stand for settings. -/
  | malformedFile (path : String) (e : Yaml.Error)
  /-- The directory for a file cannot be made. -/
  | noDirectory (e : FileError)
  /-- A file cannot be written. -/
  | unwritable (path : String) (e : FileError)
  /-- The directory for logs cannot be made. -/
  | noLogs (path : String) (e : FileError)
  /-- The directory of the program is not known. -/
  | noPlace
  deriving Repr, DecidableEq

namespace SettingsError

/-- What is wrong with a text. -/
def describe (e : Yaml.Error) : String := "YAML parse error: " ++ e.message

/-- The text of an error. -/
def message : SettingsError → String
  | .malformed e => describe e
  | .unreadable path e => "Failed to read config at " ++ path ++ ": " ++ e.message
  | .malformedFile path e => "Failed to parse config at " ++ path ++ ": " ++ describe e
  | .noDirectory e => "Failed to create config directory: " ++ e.message
  | .unwritable path e => "Failed to write config to " ++ path ++ ": " ++ e.message
  | .noLogs path e => "Failed to create directory " ++ path ++ ": " ++ e.message
  | .noPlace => "No config directory available"

end SettingsError

/-- The directory of a path as a text; nothing for the empty path and for the root. -/
def parentPath? (path : String) : Option String :=
  (FilePath.ofString path).parent?.map fun parent =>
    (if parent.absolute then "/" else "") ++ "/".intercalate parent.names

namespace Settings

variable {m : Type → Type} [Monad m]

/-- Read settings from a text. -/
def ofYaml (text : String) : Except SettingsError Settings :=
  (parse text).mapError .malformed

/-- Read settings from a file. -/
def loadFrom (files : Files m) (path : String) : m (Except SettingsError Settings) := do
  match ← files.readText path with
  | .error e => return .error (.unreadable path e)
  | .ok text => return (parse text).mapError (.malformedFile path)

/-- Read the settings of the user. -/
def load (files : Files m) (around : Surroundings) : m Settings := do
  match around.settingsFile? with
  | none => return {}
  | some path =>
    if ← files.isPresent path then
      match ← loadFrom files path with
      | .error _ => return {}
      | .ok settings => return settings
    else return {}

/-- Write settings to a file and make the directories that it lies in. -/
def saveTo (files : Files m) (path : String) (s : Settings) : m (Except SettingsError Unit) := do
  let made ← match parentPath? path with
    | none => pure (.ok ())
    | some parent => files.makeDirectories parent
  match made with
  | .error e => return .error (.noDirectory e)
  | .ok () => return (← files.writeText path s.toYaml).mapError (.unwritable path)

/-- Write the settings of the user. -/
def save (files : Files m) (around : Surroundings) (s : Settings) :
    m (Except SettingsError Unit) := do
  match around.settingsFile? with
  | none => return .error .noPlace
  | some path => s.saveTo files path

end Settings

/-- Make the directory for logs. The answer is its path. -/
def ensureLogs {m : Type → Type} [Monad m] (files : Files m) (around : Surroundings) :
    m (Except SettingsError String) := do
  match around.logsDirectory? with
  | none => return .error .noPlace
  | some path =>
    match ← files.makeDirectories path with
    | .error e => return .error (.noLogs path e)
    | .ok () => return .ok path

end CommentTags
