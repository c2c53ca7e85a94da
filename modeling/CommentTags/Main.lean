import Mathlib.Init
import CommentTags.CommandLine.Run

/-!
# The program

Runs a command on the files of the computer.
-/

namespace CommentTags

/-- Whether a fault has a number of the system. It is kept as it is or negated in 32 bits. -/
def isFault (given number : UInt32) : Bool :=
  given = number || given = -number

/-- The cause of a fault in reading or writing a file. -/
def FileError.ofIO : IO.Error → FileError
  | .noFileOrDirectory _ _ _ => .notFound
  | .noSuchThing _ _ _ => .notFound
  | .alreadyExists _ _ _ => .alreadyExists
  | .inappropriateType _ number _ => if isFault number 20 then .notDirectory else .isDirectory
  | .permissionDenied _ number text =>
    if isFault number 13 then .other "Permission denied (os error 13)" else .other text
  | .invalidArgument _ number text => if isFault number 36 then .nameTooLong else .other text
  | e => .other (toString e)

/-- Do something with files, and keep the fault if there is one. -/
def attempt {α : Type} (act : IO α) : IO (Except FileError α) := do
  try
    return .ok (← act)
  catch e =>
    return .error (.ofIO e)

/-- The text that bytes stand for. -/
def textOfBytes (bytes : ByteArray) : Except FileError String :=
  match String.fromUTF8? bytes with
  | some text => .ok text
  | none => .error .notText

/-- Whether there is a directory at a path. -/
def leadsToDirectory (path : String) : IO Bool := do
  match ← attempt (IO.FS.realPath path) with
  | .ok real => real.isDir
  | .error _ => return false

/-- Make a directory, given by its names from the last to the first after a start, and all that it
lies in. -/
def makeAll (start : String) : List String → IO (Except FileError Unit)
  | [] => return .ok ()
  | name :: above => do
    let path := start ++ "/".intercalate (name :: above).reverse
    let unlessPresent (made : Except FileError Unit) : IO (Except FileError Unit) := do
      match made with
      | .ok () => return .ok ()
      | .error e => if ← leadsToDirectory path then return .ok () else return .error e
    match ← attempt (IO.FS.createDir path) with
    | .error .notFound =>
      match ← makeAll start above with
      | .ok () => unlessPresent (← attempt (IO.FS.createDir path))
      | .error e => return .error e
    | made => unlessPresent made

/-- The files of the computer. -/
def systemFiles : Files IO where
  readText path := return (← attempt (IO.FS.readBinFile path)).bind textOfBytes
  isPresent path := return (← attempt (IO.FS.realPath path)).toOption.isSome
  isDirectory := leadsToDirectory
  makeDirectories path :=
    let parts := FilePath.ofString path
    makeAll (if parts.absolute then "/" else "") parts.names.reverse
  writeText path text := attempt (IO.FS.writeFile path text)

/-- Open the file for the log of today, which is named after the date. Nothing is written to it. -/
def openLog (directory : String) : IO (Except String Unit) := do
  let today := Std.Time.PlainDate.ofEpochDay (← Std.Time.Timestamp.now).toDaysSinceUnixEpoch
  let file := joinPath directory ("tagline.log." ++ today.toSQLDateString)
  match ← attempt (IO.FS.Handle.mk file .append) with
  | .ok _ => return .ok ()
  | .error e => return .error ("initializing rolling file appender failed: " ++ e.message)

/-- The computer as a host. -/
def systemHost : IO (Host IO) := do
  return {
    files := systemFiles
    readInput := return (← attempt (do (← IO.getStdin).readBinToEnd)).bind textOfBytes
    writeOutput := fun text => attempt (do (← IO.getStdout).putStr text)
    flushOutput := attempt (do (← IO.getStdout).flush)
    writeMessage := fun line => attempt (do (← IO.getStderr).putStrLn line)
    openLog
    around := {
      configurationHome := ← IO.getEnv "XDG_CONFIG_HOME"
      home := ← IO.getEnv "HOME" } }

end CommentTags

def main (arguments : List String) : IO UInt32 := do
  let outcome ← CommentTags.run (← CommentTags.systemHost) arguments
  return outcome.exitCode.toUInt32
