import CommentTags.Files.Basic
import CommentTags.Files.Path

/-!
# Files in memory

A tree of files below one directory, from which all paths start. Paths that lead out of that
directory lead nowhere.
-/

namespace CommentTags

/-- What is found at a place of the tree. -/
inductive TreeEntry
  | directory
  | text (s : String)
  /-- A file whose bytes are not a text. -/
  | bytes
  deriving Repr, DecidableEq

/-- The entries of a tree, each with the names that lead to it. -/
structure FileTree where
  entries : List (List String × TreeEntry) := []
  deriving Repr, DecidableEq

namespace FileTree

/-- What stands at a place; the top of the tree is a directory. -/
def entry? (t : FileTree) (place : List String) : Option TreeEntry :=
  if place = [] then some .directory else t.entries.lookup place

/-- Set what stands at a place. -/
def set (t : FileTree) (place : List String) (e : TreeEntry) : FileTree :=
  ⟨(place, e) :: t.entries.filter (·.1 ≠ place)⟩

/-- Remove what stands at a place. -/
def unset (t : FileTree) (place : List String) : FileTree :=
  ⟨t.entries.filter (·.1 ≠ place)⟩

/-- Follow names from a place. All places but the last one have to be directories. -/
def follow (t : FileTree) (place : List String) : List String → Except FileError (List String)
  | [] => .ok place
  | name :: names =>
    match t.entry? place with
    | none => .error .notFound
    | some .directory =>
      if name = ".." then
        if place = [] then .error .notFound else follow t place.dropLast names
      else if 255 < name.utf8ByteSize then .error .nameTooLong
      else follow t (place ++ [name]) names
    | some _ => .error .notDirectory

/-- The place that a path leads to, whether or not something stands there. -/
def locate (t : FileTree) (path : String) : Except FileError (List String) :=
  let p := FilePath.ofString path
  if path.toList.contains '\x00' then .error .badName
  else if path = "" || p.absolute then .error .notFound
  else if 4096 ≤ path.utf8ByteSize then .error .nameTooLong
  else t.follow [] p.names

/-- What a path leads to. -/
def find (t : FileTree) (path : String) : Except FileError TreeEntry := do
  let place ← t.locate path
  match t.entry? place with
  | none => .error .notFound
  | some .directory => return .directory
  | some e => if (FilePath.ofString path).mustBeDirectory then .error .notDirectory else return e

/-- The text of a file. -/
def readText (t : FileTree) (path : String) : Except FileError String := do
  match ← t.find path with
  | .directory => .error .isDirectory
  | .bytes => .error .notText
  | .text s => return s

/-- Whether a path leads to a file or directory. -/
def isPresent (t : FileTree) (path : String) : Bool :=
  (t.find path).toOption.isSome

/-- Whether a path leads to a directory. -/
def isDirectory (t : FileTree) (path : String) : Bool :=
  (t.find path).toOption = some .directory

/-- Make a directory in a directory that exists. -/
def makeDirectory (t : FileTree) (names : List String) : Except FileError FileTree := do
  let place ← t.follow [] names
  match t.entry? place with
  | some _ => .error .alreadyExists
  | none => return t.set place .directory

/-- Whether names lead to a directory. -/
def leadsToDirectory (t : FileTree) (names : List String) : Bool :=
  match t.follow [] names with
  | .error _ => false
  | .ok place => t.entry? place = some .directory

/-- Make a directory, given by its names from the last to the first, and all that it lies in. -/
def makeAll (t : FileTree) : List String → Except FileError FileTree
  | [] => .ok t
  | name :: above =>
    let names := (name :: above).reverse
    match t.makeDirectory names with
    | .ok t => .ok t
    | .error .notFound => do
      let t ← makeAll t above
      match t.makeDirectory names with
      | .ok t => return t
      | .error e => if t.leadsToDirectory names then return t else .error e
    | .error e => if t.leadsToDirectory names then .ok t else .error e

/-- Make a directory and all that it lies in. -/
def makeDirectories (t : FileTree) (path : String) : Except FileError FileTree :=
  if path.toList.contains '\x00' then .error .badName
  else if (FilePath.ofString path).absolute then .error .notFound
  else t.makeAll (FilePath.ofString path).names.reverse

/-- Write a file in a directory that exists. -/
def write (t : FileTree) (path : String) (e : TreeEntry) : Except FileError FileTree := do
  let p := FilePath.ofString path
  let place ← t.locate path
  match t.entry? place with
  | some .directory => .error .isDirectory
  | some _ => if p.mustBeDirectory then .error .notDirectory else return t.set place e
  | none =>
    if p.endsInSlash then .error .isDirectory
    else if p.mustBeDirectory then .error .notFound
    else return t.set place e

/-- Write a file and make the directories that it lies in; nothing happens if that cannot be. -/
def plant (t : FileTree) (path : String) (e : TreeEntry) : FileTree :=
  let attempt : Except FileError FileTree := do
    let t ← t.makeAll (FilePath.ofString path).names.reverse.tail
    t.write path e
  match attempt with
  | .ok t => t
  | .error _ => t

/-- Remove a file; nothing happens if there is none. -/
def remove (t : FileTree) (path : String) : FileTree :=
  match t.locate path with
  | .error _ => t
  | .ok place => if t.entry? place = some .directory then t else t.unset place

/-- Change the tree by an operation that may fail. -/
def change (f : FileTree → Except FileError FileTree) : StateM FileTree (Except FileError Unit) :=
  modifyGet fun t =>
    match f t with
    | .ok t' => (.ok (), t')
    | .error e => (.error e, t)

/-- The operations on a tree. -/
def files : Files (StateM FileTree) where
  readText path := return (← get).readText path
  isPresent path := return (← get).isPresent path
  isDirectory path := return (← get).isDirectory path
  makeDirectories path := change (·.makeDirectories path)
  writeText path text := change (·.write path (.text text))

end FileTree

end CommentTags
