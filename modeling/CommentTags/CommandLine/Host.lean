import CommentTags.Files.Tree
import CommentTags.Settings.Place

/-!
# What a command runs on

A command reads and writes files, reads the standard input, writes to the standard output and the
standard error, keeps a log, and knows where the user keeps settings. It can run on a computer as well
as on a tree of files in memory.
-/

namespace CommentTags

/-- What a command runs on. -/
structure Host (m : Type → Type) where
  files : Files m
  /-- Read what is left of the standard input. -/
  readInput : m (Except FileError String)
  /-- Write to the standard output. -/
  writeOutput : String → m (Except FileError Unit)
  /-- Hand on what the standard output has kept back. -/
  flushOutput : m (Except FileError Unit)
  /-- Write a line to the standard error. -/
  writeMessage : String → m (Except FileError Unit)
  /-- Open the log of the day in a directory, or say why this is not possible. -/
  openLog : String → m (Except String Unit)
  around : Surroundings

/-- A computer in memory: its files, and its standard input unless that has been read. -/
structure Desk where
  tree : FileTree := {}
  input : Option TreeEntry := none
  deriving Repr, DecidableEq

namespace Desk

/-- Change the files. -/
def onTree {α : Type} (act : StateM FileTree α) : StateM Desk α :=
  modifyGet fun d =>
    let (a, tree) := act.run d.tree
    (a, { d with tree })

/-- Read what is left of the standard input. -/
def readInput : StateM Desk (Except FileError String) :=
  modifyGet fun d =>
    let text : Except FileError String :=
      match d.input with
      | none | some .directory => .ok ""
      | some (.text s) => .ok s
      | some .bytes => .error .notText
    (text, { d with input := none })

/-- Operations on the files. -/
def files : Files (StateM Desk) where
  readText path := onTree (FileTree.files.readText path)
  isPresent path := onTree (FileTree.files.isPresent path)
  isDirectory path := onTree (FileTree.files.isDirectory path)
  makeDirectories path := onTree (FileTree.files.makeDirectories path)
  writeText path text := onTree (FileTree.files.writeText path text)

/-- The computer as a host. It takes all that is written, and every log can be opened. -/
def host (around : Surroundings) : Host (StateM Desk) where
  files := files
  readInput := readInput
  writeOutput _ := pure (.ok ())
  flushOutput := pure (.ok ())
  writeMessage _ := pure (.ok ())
  openLog _ := pure (.ok ())
  around := around

end Desk

end CommentTags
