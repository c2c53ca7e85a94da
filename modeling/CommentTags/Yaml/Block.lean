import CommentTags.Yaml.Error
import CommentTags.Yaml.Input

/-!
# Block scalars

A block scalar stands in lines of its own, all of them indented. Its header says whether its lines
are folded, what becomes of the line breaks at its end, and possibly how far it is indented.
-/

namespace CommentTags.Yaml

/-- What becomes of the line breaks at the end of a block scalar. -/
inductive Chomping
  /-- None of them counts. -/
  | strip
  /-- The first one counts. -/
  | clip
  /-- All of them count. -/
  | keep
  deriving Repr, DecidableEq

/-- The header of a block scalar. -/
structure BlockHeader where
  chomping : Chomping := .clip
  /-- How far the scalar is indented, if it is said. -/
  indent : Option Nat := none
  deriving Repr, DecidableEq

/-- How a line end is kept, by its indicator. -/
def chomping? : Char → Option Chomping
  | '+' => some .keep
  | '-' => some .strip
  | _ => none

/-- Read a sign for chomping, if there is one. -/
def readChomping (i : Input) : Option Chomping × Input :=
  match i.rest.head?.bind chomping? with
  | none => (none, i)
  | some chomping => (some chomping, i.skip 1)

/-- Read a digit for the indent, if there is one. -/
def readIndent (i : Input) : Except Error (Option Nat × Input) :=
  match i.rest.head?.filter Char.isDigit with
  | none => .ok (none, i)
  | some c => if c = '0' then .error .badBlockHeader else .ok (some (c.toNat - '0'.toNat), i.skip 1)

/-- Read the two signs of a header in either order. -/
def readBlockSigns (i : Input) : Except Error (BlockHeader × Input) := do
  match readChomping i with
  | (some chomping, i) =>
    let (indent, i) ← readIndent i
    return (⟨chomping, indent⟩, i)
  | (none, i) =>
    let (indent, i) ← readIndent i
    match indent with
    | none => return ({}, i)
    | some n =>
      let (chomping, i) := readChomping i
      return (⟨chomping.getD .clip, some n⟩, i)

/-- Read a header with the end of its line. -/
def readBlockHeader (i : Input) : Except Error (BlockHeader × Input) := do
  let (header, i) ← readBlockSigns i
  let i := i.skipBlanks.skipComment
  match i.rest with
  | [] => return (header, i)
  | c :: _ => if isBreak c then return (header, i.nextLine) else .error .badBlockHeader

/-- Empty lines of a block scalar. -/
structure EmptyLines where
  breaks : List Char
  /-- The rightmost column that spaces reach. -/
  widest : Nat
  /-- The line that follows, after its indent. -/
  next : Input
  deriving Repr, DecidableEq

/-- Read empty lines, and the spaces that the line after them begins with, as far as the indent
goes if it is known. -/
def readEmptyLines (indent : Option Nat) (widest line column : Nat) :
    List Char → Except Error EmptyLines
  | [] => .ok ⟨[], max widest column, ⟨[], line, column⟩⟩
  | c :: s =>
    let inIndent := indent.all (column < ·)
    if c = ' ' && inIndent then readEmptyLines indent widest line (column + 1) s
    else if c = '\t' && inIndent then .error .tabInIndent
    else if isBreak c then
      (readEmptyLines indent (max widest column) (line + 1) 0 s).map fun e =>
        { e with breaks := c :: e.breaks }
    else .ok ⟨[], max widest column, ⟨c :: s, line, column⟩⟩

/-- Empty lines do not reach past the end of the text. -/
theorem readEmptyLines_length_le {indent : Option Nat} {s : List Char} :
    ∀ {widest line column : Nat} {e : EmptyLines},
      readEmptyLines indent widest line column s = .ok e → e.next.rest.length ≤ s.length := by
  induction s with
  | nil =>
    intro _ _ _ _ h
    cases h
    simp
  | cons c s ih =>
    intro widest line column e h
    simp only [readEmptyLines] at h
    split at h
    · exact Nat.le_succ_of_le (ih h)
    · split at h
      · cases h
      · split at h
        · cases hr : readEmptyLines indent (max widest column) (line + 1) 0 s with
          | error e' => simp [hr, Except.map] at h
          | ok e' =>
            simp only [hr, Except.map, Except.ok.injEq] at h
            have hle := ih hr
            rw [← h]
            exact Nat.le_succ_of_le hle
        · cases h
          exact Nat.le_refl _

/-- The text of a block scalar, before the line breaks at its end are chomped. -/
structure BlockText where
  text : List Char
  /-- The line break after the last line. -/
  lineEnd : List Char
  /-- The line breaks of the empty lines after it. -/
  trailing : List Char
  next : Input
  deriving Repr, DecidableEq

/-- The text with the line ends that are kept. -/
def BlockText.chomped (b : BlockText) : Chomping → List Char
  | .strip => b.text
  | .clip => b.text ++ b.lineEnd
  | .keep => b.text ++ b.lineEnd ++ b.trailing

/-- What stands between two lines: the end of the first one, then empty lines. Folding makes a space
of a line feed, or leaves it out before empty lines, unless one of the lines begins with a blank. -/
def joinLines (folds : Bool) (lineEnd empty : List Char) : List Char :=
  if folds && lineEnd == ['\n'] then (if empty.isEmpty then [' '] else empty)
  else lineEnd ++ empty

/-- Whether a text begins with a blank. -/
def startsBlank (s : List Char) : Bool := s.head?.any isBlank

/-- Read the lines of a block scalar that begin in the column `indent`. Before them stand the line
end and the empty lines that are given; `plainBefore` says that the line before begins with no
blank. -/
def readBlockLines (fold : Bool) (indent : Nat) (plainBefore : Bool) (lineEnd empty : List Char)
    (i : Input) : Except Error BlockText :=
  if _h : i.column = indent ∧ i.rest ≠ [] then
    let content := i.rest.takeWhile fun c => !isBreak c
    let stop := i.skip content.length
    let plain := !startsBlank content
    let before := joinLines (fold && plainBefore && plain) lineEnd empty
    match _he : readEmptyLines (some indent) 0 (stop.line + 1) 0 stop.rest.tail with
    | .error e => .error e
    | .ok e =>
      (readBlockLines fold indent plain (stop.rest.take 1) e.breaks e.next).map fun b =>
        { b with text := before ++ content ++ b.text }
  else .ok ⟨[], lineEnd, empty, i⟩
termination_by i.rest.length
decreasing_by
  have hle := readEmptyLines_length_le _he
  have hpos := List.length_pos_iff.2 _h.2
  simp only [stop, Input.skip, List.length_tail, List.length_drop] at hle
  omega

/-- Read a block scalar, which starts after its first character. The blocks around it begin to the
left of the column `margin`. -/
def readBlock (fold : Bool) (margin : Nat) (i : Input) : Except Error (List Char × Input) := do
  let (header, i) ← readBlockHeader i
  let known := header.indent.map (margin - 1 + ·)
  let e ← readEmptyLines known 0 i.line i.column i.rest
  let indent := known.getD (max e.widest (max margin 1))
  let b ← readBlockLines fold indent true [] e.breaks e.next
  return (b.chomped header.chomping, b.next)

end CommentTags.Yaml
