import CommentTags.CommandLine.Arguments
import CommentTags.CommandLine.Host
import CommentTags.Comment.Directory
import CommentTags.Report.Basic
import CommentTags.Scan.Highlighter
import CommentTags.Settings.Storage
import CommentTags.Theme.Painter

/-!
# Running a command

A command scans its texts one after the other and writes the matches of each. A text that cannot be
read is told in a message and does not keep the command from going on, but in the end the command
fails.

What does keep a command from going on is a fault in writing: it stops at the first piece of output or
the first message that is not taken. A log that cannot be opened stops it before it begins. Nothing
else is said of the log here: its lines are left out.
-/

namespace CommentTags

/-- What a command leaves behind. -/
structure Outcome where
  exitCode : Nat
  /-- What the standard output has taken. -/
  output : String := ""
  /-- The lines that the standard error has taken. Lines of the log, which may go there too, are left
  out. -/
  messages : List String := []
  deriving Repr, DecidableEq

/-- What stops a command. -/
inductive Stop
  /-- The standard output does not take what is written. -/
  | output (fault : FileError)
  /-- The standard error does not take a message. -/
  | message
  deriving Repr, DecidableEq

/-- What the program is called, with its version. -/
def versionLine : String := "tagline 0.1.0\n"

/-- The lines that tell how the program is used. -/
def usageLines : List String :=
  ["Highlight tagged comments in source files",
    "",
    "Usage: tagline [OPTIONS] [PATHS]...",
    "",
    "Arguments:",
    "  [PATHS]...  Files to scan (reads stdin when empty)",
    "",
    "Options:",
    "  -l, --language <ID>    Language id to scan as, instead of detecting it from the extension",
    "  -c, --config <FILE>    Config file to use instead of ~/.config/tagline/config.yaml",
    "      --languages <DIR>  Directory of <languageId>.json comment syntax files",
    "  -f, --format <FORMAT>  Output format [default: text] [possible values: text, json, paint]",
    "      --no-multiline     Ignore block comments",
    "      --no-markdown      Ignore Markdown list items and code fences",
    "      --plain-text       Treat lines of plain text files as comments",
    "  -v, --verbose          Log debug output to stderr",
    "  -h, --help             Print help",
    "  -V, --version          Print version"]

/-- How the program is used. -/
def usageText : String := String.join (usageLines.map (· ++ "\n"))

/-- A text that has been read, with the name of its source. -/
structure LoadedText where
  label : String
  document : Document
  deriving Repr, DecidableEq

/-- What comes of a text: what is written for it, or why it cannot be read. -/
inductive TextResult
  | written (output : String)
  | failed (message : String)
  deriving Repr, DecidableEq

/-- What is written for a text; nothing if it cannot be read. -/
def TextResult.output : TextResult → String
  | .written output => output
  | .failed _ => ""

/-- Why a text cannot be read, if it cannot. -/
def TextResult.message? : TextResult → Option String
  | .written _ => none
  | .failed message => some message

/-- What is written for a scanned text, piece by piece. -/
def matchTexts (format : OutputFormat) (tags : Registry) (t : LoadedText) (c : Collected) :
    List String :=
  match format with
  | .text => (TagMatch.collect t.label t.document tags c).map (·.textLine ++ "\n")
  | .json => (TagMatch.collect t.label t.document tags c).map (·.jsonLine ++ "\n")
  | .paint => [((Painter.ofRegistry tags).apply c).paint t.document.text]

/-- All that is written for a scanned text. -/
def writeMatches (format : OutputFormat) (tags : Registry) (t : LoadedText) (c : Collected) :
    String :=
  String.join (matchTexts format tags t c)

section Streams

variable {m : Type → Type} [Monad m]

/-- Write a line to the standard error, whether it is taken or not. -/
def Host.tell (host : Host m) (line : String) : m (List String) := do
  match ← host.writeMessage line with
  | .ok () => return [line]
  | .error _ => return []

/-- Write a text to the standard output, whether it is taken or not. -/
def Host.print (host : Host m) (text : String) : m String := do
  match ← host.writeOutput text with
  | .ok () => return text
  | .error _ => return ""

/-- Write texts to the standard output, up to the first one that is not taken. -/
def Host.writeAll (host : Host m) : List String → m (String × Option Stop)
  | [] => return ("", none)
  | text :: rest => do
    match ← host.writeOutput text with
    | .error e => return ("", some (.output e))
    | .ok () =>
      let (taken, stop) ← host.writeAll rest
      return (text ++ taken, stop)

/-- Hand on all that has been written. -/
def Host.flush (host : Host m) : m (Option Stop) := do
  match ← host.flushOutput with
  | .ok () => return none
  | .error e => return some (.output e)

end Streams

section Running

variable {m : Type → Type} [Monad m] [Engine]

/-- Read a text in its language, or in the language that is given. -/
def readPlace (host : Host m) (language : Option String) :
    TextPlace → m (Except String LoadedText)
  | .standardInput => do
    match ← host.readInput with
    | .error e => return .error ("Failed to read stdin: " ++ e.message)
    | .ok text => return .ok ⟨"<stdin>", ⟨text, language.getD Language.plainText, none⟩⟩
  | .file path => do
    match ← host.files.readText path with
    | .error e => return .error ("Failed to read " ++ path ++ ": " ++ e.message)
    | .ok text =>
      let document := Document.ofFile path text
      return .ok ⟨path, (language.map document.withLanguage).getD document⟩

/-- Scan a text and write its matches, or tell why it cannot be read. -/
def scanPlace (host : Host m) (a : Arguments) (h : Highlighter) (source : SyntaxSource m)
    (place : TextPlace) : StateT Resolver m (TextResult × Option Stop) := do
  match ← (readPlace host a.language place : m _) with
  | .error message =>
    let message := "tagline: " ++ message
    match ← (host.writeMessage message : m _) with
    | .ok () => return (.failed message, none)
    | .error _ => return (.written "", some .message)
  | .ok t =>
    let c ← h.scan (Resolver.resolve source) t.document.text t.document.language
    let (taken, stop) ← (host.writeAll (matchTexts a.format h.tags t c) : m _)
    return (.written taken, stop)

/-- Scan texts one after the other, up to the first one that stops the command. -/
def scanPlaces (host : Host m) (a : Arguments) (h : Highlighter) (source : SyntaxSource m) :
    List TextPlace → StateT Resolver m (List TextResult × Option Stop)
  | [] => return ([], none)
  | place :: places => do
    let (result, stop) ← scanPlace host a h source place
    match stop with
    | some stop => return ([result], some stop)
    | none =>
      let (results, stop) ← scanPlaces host a h source places
      return (result :: results, stop)

/-- The end of a command that has looked at its texts, or has been stopped. -/
def conclude (host : Host m) (results : List TextResult) (stop : Option Stop) : m Outcome := do
  let output := String.join (results.map (·.output))
  let messages := results.filterMap (·.message?)
  match stop with
  | some .message => return ⟨101, output, messages⟩
  | some (.output e) => return ⟨1, output, messages ++ (← host.tell ("Error: " ++ e.message))⟩
  | none =>
    if messages.isEmpty then return ⟨0, output, []⟩
    else
      let count := "Error: " ++ toString messages.length ++ " input(s) could not be read"
      return ⟨1, output, messages ++ (← host.tell count)⟩

/-- The settings that the arguments name, or those of the user. -/
def chooseSettings (host : Host m) (a : Arguments) : m (Except SettingsError Settings) := do
  match a.settingsFile with
  | some path => Settings.loadFrom host.files path
  | none => return .ok (← Settings.load host.files host.around)

/-- Where the comment syntax of languages is looked up: in the directory that the arguments name or
else in that of the user, then among the languages known from the start. -/
def chooseSource (host : Host m) (a : Arguments) : SyntaxSource m :=
  let directory := a.languages.or host.around.languagesDirectory?
  .layered ((directory.map (SyntaxSource.ofDirectory host.files)).toList ++ [.builtin])

/-- Scan all texts with the given settings. -/
def scanAll (host : Host m) (a : Arguments) (settings : Settings) : m Outcome := do
  let h : Highlighter := ⟨settings.registry, a.override settings.toggles⟩
  let ((results, stop), _) ← (scanPlaces host a h (chooseSource host a) a.places).run {}
  match stop with
  | some stop => conclude host results (some stop)
  | none => conclude host results (← host.flush)

/-- Prepare the log. The answer are the lines that are told about it; they are the last ones if the
command cannot go on. -/
def startLog (host : Host m) : m (Except (List String) (List String)) := do
  match ← ensureLogs host.files host.around with
  | .ok directory =>
    match ← host.openLog directory with
    | .ok () => return .ok []
    | .error message => return .error (← host.tell message)
  | .error e =>
    let warning := "Warning: Could not initialize file logging: " ++ e.message
    match ← host.writeMessage warning with
    | .ok () => return .ok [warning]
    | .error _ => return .error []

/-- Run a command whose arguments have been read. -/
def runArguments (host : Host m) (a : Arguments) : m Outcome := do
  match ← startLog host with
  | .error told => return ⟨101, "", told⟩
  | .ok told =>
    let outcome ← match ← chooseSettings host a with
      | .error e => do pure ⟨1, "", ← host.tell ("Error: " ++ e.message)⟩
      | .ok settings => scanAll host a settings
    return { outcome with messages := told ++ outcome.messages }

/-- Run a command. -/
def run (host : Host m) (arguments : List String) : m Outcome := do
  match Arguments.parse arguments with
  | .error .help => return ⟨0, ← host.print usageText, []⟩
  | .error .version => return ⟨0, ← host.print versionLine, []⟩
  | .error (.wrong e) => return ⟨2, "", ← host.tell ("error: " ++ e.message)⟩
  | .ok a => runArguments host a

end Running

end CommentTags
