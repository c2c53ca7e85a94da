import CommentTags.Yaml.Character

/-!
# What is left of a text

A place in a YAML text with its line and column, which decide how blocks are nested.
-/

namespace CommentTags.Yaml

/-- What is left to read, and where it begins. -/
structure Input where
  rest : List Char
  line : Nat := 0
  column : Nat := 0
  deriving Repr, DecidableEq

namespace Input

/-- Move past characters of the line. -/
def skip (i : Input) (n : Nat) : Input :=
  { i with rest := i.rest.drop n, column := i.column + n }

/-- Move past the end of the line. -/
def nextLine (i : Input) : Input :=
  ⟨i.rest.tail, i.line + 1, 0⟩

/-- The characters of the line from here on that have a property. -/
def span (i : Input) (p : Char → Bool) : List Char × Input :=
  let s := i.rest.takeWhile p
  (s, i.skip s.length)

/-- Move past characters with a property. -/
def skipWhile (i : Input) (p : Char → Bool) : Input :=
  (i.span p).2

/-- Move past spaces and tabs. -/
def skipBlanks (i : Input) : Input :=
  i.skipWhile isBlank

/-- Move past a comment, if there is one. -/
def skipComment (i : Input) : Input :=
  match i.rest with
  | '#' :: _ => i.skipWhile fun c => !isBreak c
  | _ => i

/-- Whether the line begins with three times the given character, as a word. -/
def atMark (c : Char) (i : Input) : Bool :=
  i.column == 0 && i.rest.take 3 == [c, c, c] && endsWord (i.rest.drop 3)

/-- Whether a document begins or ends here. -/
def atDocumentMark (i : Input) : Bool :=
  i.atMark '-' || i.atMark '.'

end Input

end CommentTags.Yaml
