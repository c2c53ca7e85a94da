import CommentTags.Scan.Profile

/-!
# The command line

Arguments are read from left to right. An option may take its value from the next argument, and files
may stand anywhere between options; what has been collected for an option or for the files is looked
at only when something else begins. After two dashes every argument is a file.
-/

namespace CommentTags

/-- How matches are written. -/
inductive OutputFormat
  | text
  | json
  | paint
  deriving Repr, DecidableEq

/-- A format by its name. -/
def OutputFormat.ofName? (name : String) : Option OutputFormat :=
  if name = "text" then some .text
  else if name = "json" then some .json
  else if name = "paint" then some .paint
  else none

/-- Where a text to be scanned comes from. -/
inductive TextPlace
  | standardInput
  | file (path : String)
  deriving Repr, DecidableEq

/-- What the arguments ask for. -/
structure Arguments where
  paths : List String := []
  /-- The language of all texts. -/
  language : Option String := none
  /-- The file with the settings. -/
  settingsFile : Option String := none
  /-- The directory with the comment syntax of languages. -/
  languages : Option String := none
  format : OutputFormat := .text
  noMultiline : Bool := false
  noMarkdown : Bool := false
  plainText : Bool := false
  verbose : Bool := false
  deriving Repr, DecidableEq

namespace Arguments

/-- The place that a path stands for; a dash stands for the standard input. -/
def placeOf (path : String) : TextPlace :=
  if path = "-" then .standardInput else .file path

/-- The texts to be scanned; the standard input if no files are given. -/
def places (a : Arguments) : List TextPlace :=
  if a.paths.isEmpty then [.standardInput] else a.paths.map placeOf

/-- The switches of the user as the arguments change them. -/
def override (a : Arguments) (t : Toggles) : Toggles :=
  { t with
    multilineComments := t.multilineComments && !a.noMultiline
    highlightMarkdown := t.highlightMarkdown && !a.noMarkdown
    highlightPlainText := t.highlightPlainText || a.plainText }

end Arguments

/-- Why the arguments cannot be followed. -/
inductive UsageError
  /-- An option that does not exist. -/
  | unknownArgument
  /-- A value that is missing or not allowed. -/
  | invalidValue
  /-- An option that is given twice. -/
  | argumentConflict
  /-- A value for an option that takes none. -/
  | tooManyValues
  deriving Repr, DecidableEq

/-- The text of a usage error. -/
def UsageError.message : UsageError → String
  | .unknownArgument => "unexpected argument found"
  | .invalidValue => "a value is missing or invalid"
  | .argumentConflict => "an argument cannot be used multiple times"
  | .tooManyValues => "unexpected value for an argument found"

/-- Why arguments are not read to their end. -/
inductive ArgumentsStop
  | help
  | version
  | wrong (e : UsageError)
  deriving Repr, DecidableEq

/-- The options that take a value. -/
inductive ValueOption
  | language
  | settingsFile
  | languages
  | format
  deriving Repr, DecidableEq

/-- The options that take no value. -/
inductive Flag
  | noMultiline
  | noMarkdown
  | plainText
  | verbose
  | help
  | version
  deriving Repr, DecidableEq

/-- An option. -/
inductive Switch
  | value (o : ValueOption)
  | flag (f : Flag)
  deriving Repr, DecidableEq

/-- The options by their names. -/
def longNames : List (String × Switch) :=
  [("language", .value .language), ("config", .value .settingsFile),
    ("languages", .value .languages), ("format", .value .format),
    ("no-multiline", .flag .noMultiline), ("no-markdown", .flag .noMarkdown),
    ("plain-text", .flag .plainText), ("verbose", .flag .verbose), ("help", .flag .help),
    ("version", .flag .version)]

/-- The options by their letters. -/
def shortNames : List (Char × Switch) :=
  [('l', .value .language), ('c', .value .settingsFile), ('f', .value .format),
    ('v', .flag .verbose), ('h', .flag .help), ('V', .flag .version)]

/-- What has been collected and is still to be looked at. -/
inductive PendingArgument
  | nothing
  /-- An option, with its value once it is there. -/
  | option (o : ValueOption) (value : Option String)
  | paths (paths : List String)
  deriving Repr, DecidableEq

/-- The arguments that have been read. -/
structure ArgumentsReader where
  language : Option String := none
  settingsFile : Option String := none
  languages : Option String := none
  format : Option OutputFormat := none
  flags : List Flag := []
  paths : List String := []
  pending : PendingArgument := .nothing
  deriving Repr, DecidableEq

namespace ArgumentsReader

/-- A value that may be given once. -/
def once {α : Type} (old : Option α) (new : Option α) : Except ArgumentsStop (Option α) :=
  if old.isSome then .error (.wrong .argumentConflict)
  else if new.isNone then .error (.wrong .invalidValue)
  else .ok new

/-- A path, which may not be empty. -/
def path? (value : String) : Option String :=
  if value = "" then none else some value

/-- Set an option to a value. -/
def setOption (r : ArgumentsReader) (o : ValueOption) (value : String) :
    Except ArgumentsStop ArgumentsReader :=
  match o with
  | .language => (once r.language (some value)).map fun v => { r with language := v }
  | .settingsFile => (once r.settingsFile (path? value)).map fun v => { r with settingsFile := v }
  | .languages => (once r.languages (path? value)).map fun v => { r with languages := v }
  | .format => (once r.format (OutputFormat.ofName? value)).map fun v => { r with format := v }

/-- Add files. -/
def addPaths (r : ArgumentsReader) (paths : List String) : Except ArgumentsStop ArgumentsReader :=
  if paths.contains "" then .error (.wrong .invalidValue)
  else .ok { r with paths := r.paths ++ paths }

/-- Look at what has been collected. -/
def settle (r : ArgumentsReader) : Except ArgumentsStop ArgumentsReader :=
  let rest := { r with pending := .nothing }
  match r.pending with
  | .nothing => .ok rest
  | .option _ none => .error (.wrong .invalidValue)
  | .option o (some value) => rest.setOption o value
  | .paths paths => rest.addPaths paths

/-- Set an option that takes no value. -/
def setFlag (r : ArgumentsReader) (f : Flag) : Except ArgumentsStop ArgumentsReader := do
  let r ← r.settle
  match f with
  | .help => .error .help
  | .version => .error .version
  | f =>
    if r.flags.contains f then .error (.wrong .argumentConflict)
    else return { r with flags := f :: r.flags }

/-- Begin an option with the value that is attached to it, or else one that awaits its value. -/
def beginOption (r : ArgumentsReader) (o : ValueOption) (value : Option String) :
    Except ArgumentsStop ArgumentsReader := do
  let r ← r.settle
  match value with
  | none => return { r with pending := .option o none }
  | some value => r.setOption o value

/-- Read an option by its name, and its value after an equals sign. -/
def readLong (r : ArgumentsReader) (s : List Char) : Except ArgumentsStop ArgumentsReader :=
  let name := String.ofList (s.takeWhile (· != '='))
  let value : Option String :=
    match s.dropWhile (· != '=') with
    | [] => none
    | _ :: v => some (String.ofList v)
  match longNames.lookup name with
  | none => .error (.wrong .unknownArgument)
  | some (.value o) => r.beginOption o value
  | some (.flag f) => if value.isSome then .error (.wrong .tooManyValues) else r.setFlag f

/-- The value that is attached to the letter of an option, perhaps after an equals sign. -/
def attachedValue : List Char → Option String
  | [] => none
  | '=' :: v => some (String.ofList v)
  | v => some (String.ofList v)

/-- Read options by their letters, of which the last one may have a value. -/
def readShort (r : ArgumentsReader) : List Char → Except ArgumentsStop ArgumentsReader
  | [] => .ok r
  | c :: s =>
    match shortNames.lookup c with
    | none => .error (.wrong .unknownArgument)
    | some (.value o) => r.beginOption o (attachedValue s)
    | some (.flag f) =>
      match r.setFlag f with
      | .error e => .error e
      | .ok r => readShort r s

/-- Read a file. -/
def readPath (r : ArgumentsReader) (path : String) : Except ArgumentsStop ArgumentsReader := do
  match r.pending with
  | .paths paths => return { r with pending := .paths (paths ++ [path]) }
  | _ =>
    let r ← r.settle
    return { r with pending := .paths [path] }

/-- Read an argument that is no option: the value of the option before it, or else a file. -/
def readValue (r : ArgumentsReader) (value : String) : Except ArgumentsStop ArgumentsReader :=
  match r.pending with
  | .option o none => .ok { r with pending := .option o (some value) }
  | _ => r.readPath value

/-- Read an argument. -/
def readArgument (r : ArgumentsReader) (argument : String) :
    Except ArgumentsStop ArgumentsReader :=
  match argument.toList with
  | '-' :: '-' :: s => r.readLong s
  | ['-'] => r.readValue argument
  | '-' :: s => r.readShort s
  | _ => r.readValue argument

/-- Read all arguments. -/
def readAll (r : ArgumentsReader) : List String → Except ArgumentsStop ArgumentsReader
  | [] => r.settle
  | argument :: rest =>
    if argument = "--" then do
      let r ← rest.foldlM readPath r
      r.settle
    else
      match r.readArgument argument with
      | .error e => .error e
      | .ok r => r.readAll rest

/-- What has been read. -/
def arguments (r : ArgumentsReader) : Arguments :=
  { paths := r.paths
    language := r.language
    settingsFile := r.settingsFile
    languages := r.languages
    format := r.format.getD .text
    noMultiline := r.flags.contains .noMultiline
    noMarkdown := r.flags.contains .noMarkdown
    plainText := r.flags.contains .plainText
    verbose := r.flags.contains .verbose }

end ArgumentsReader

/-- Read the arguments of a command. -/
def Arguments.parse (arguments : List String) : Except ArgumentsStop Arguments :=
  (ArgumentsReader.readAll {} arguments).map (·.arguments)

end CommentTags
