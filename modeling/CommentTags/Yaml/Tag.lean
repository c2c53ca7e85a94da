import CommentTags.Text.Digits
import CommentTags.Yaml.Error
import CommentTags.Yaml.Input
import CommentTags.Yaml.Token

/-!
# Tags and directives

A tag names the type of a value, in full or by a handle that a directive declares. Bytes that may not
stand in a tag are written as percent signs with two hexadecimal digits.
-/

namespace CommentTags.Yaml

/-- A character of a tag as a byte; all of them are ASCII characters. -/
def tagByte (c : Char) : UInt8 := c.toNat.toUInt8

/-- The characters of tags. The punctuation of flow collections is among them only where a tag is
written in full. -/
def isTagChar (full : Bool) (c : Char) : Bool :=
  isNameChar c || ";/?:@&=+$.%!~*'()".toList.contains c ||
    (full && (c = ',' || c = '[' || c = ']'))

/-- Read a percent sign with two hexadecimal digits. -/
def readOctet (i : Input) : Except Error (UInt8 × Input) :=
  match i.rest with
  | '%' :: a :: b :: _ =>
    match Text.number? 16 [a, b] with
    | some n => .ok (n.toUInt8, i.skip 3)
    | none => .error .badTag
  | _ => .error .badTag

/-- A byte takes three characters. -/
theorem readOctet_length {i next : Input} {octet : UInt8} (h : readOctet i = .ok (octet, next)) :
    next.rest.length + 3 = i.rest.length := by
  rw [readOctet] at h
  split at h
  · next hr =>
    split at h
    · cases h
      simp [Input.skip, hr]
    · cases h
  · cases h

/-- Read bytes that go on with a character. -/
def readOctets : Nat → Input → Except Error (List UInt8 × Input)
  | 0, i => .ok ([], i)
  | n + 1, i => do
    let (octet, i) ← readOctet i
    if octet &&& 0xC0 ≠ 0x80 then .error .badTag
    else
      let (octets, i) ← readOctets n i
      return (octet :: octets, i)

/-- Bytes do not reach past the end of the text. -/
theorem readOctets_length_le {n : Nat} :
    ∀ {i next : Input} {octets : List UInt8},
      readOctets n i = .ok (octets, next) → next.rest.length ≤ i.rest.length := by
  induction n with
  | zero =>
    intro i next octets h
    cases h
    exact Nat.le_refl _
  | succ n ih =>
    intro i next octets h
    cases ho : readOctet i with
    | error e => simp [readOctets, ho, bind, Except.bind] at h
    | ok first =>
      simp only [readOctets, ho, bind, Except.bind] at h
      split at h
      · cases h
      · cases hs : readOctets n first.2 with
        | error e => simp [hs] at h
        | ok more =>
          simp only [hs, pure, Except.pure, Except.ok.injEq, Prod.mk.injEq] at h
          have hfirst := readOctet_length ho
          have hmore := ih hs
          rw [← h.2]
          omega

/-- The number of bytes that follow the first byte of a character. -/
def octetsAfter? (first : UInt8) : Option Nat :=
  if first &&& 0x80 = 0 then some 0
  else if first &&& 0xE0 = 0xC0 then some 1
  else if first &&& 0xF0 = 0xE0 then some 2
  else if first &&& 0xF8 = 0xF0 then some 3
  else none

/-- Read the bytes of a character. -/
def readOctetSequence (i : Input) : Except Error (List UInt8 × Input) := do
  let (first, i) ← readOctet i
  match octetsAfter? first with
  | none => .error .badTag
  | some n =>
    let (octets, i) ← readOctets n i
    return (first :: octets, i)

/-- A sequence of bytes has a byte. -/
theorem readOctetSequence_length_lt {i next : Input} {octets : List UInt8}
    (h : readOctetSequence i = .ok (octets, next)) : next.rest.length < i.rest.length := by
  cases ho : readOctet i with
  | error e => simp [readOctetSequence, ho, bind, Except.bind] at h
  | ok first =>
    simp only [readOctetSequence, ho, bind, Except.bind] at h
    split at h
    · cases h
    · next n _ =>
      cases hs : readOctets n first.2 with
      | error e => simp [hs] at h
      | ok more =>
        simp only [hs, pure, Except.pure, Except.ok.injEq, Prod.mk.injEq] at h
        have hfirst := readOctet_length ho
        have hmore := readOctets_length_le hs
        rw [← h.2]
        omega

/-- Read a character of a tag as its bytes; no bytes where no such character stands. -/
def readTagChar (full : Bool) (i : Input) : Except Error (List UInt8 × Input) :=
  match i.rest with
  | [] => .ok ([], i)
  | c :: _ =>
    if !isTagChar full c then .ok ([], i)
    else if c = '%' then readOctetSequence i
    else .ok ([tagByte c], i.skip 1)

/-- Bytes of a tag come from characters. -/
theorem readTagChar_length_lt {full : Bool} {i next : Input} {b : UInt8} {bytes : List UInt8}
    (h : readTagChar full i = .ok (b :: bytes, next)) : next.rest.length < i.rest.length := by
  rw [readTagChar] at h
  split at h
  · cases h
  · next hr =>
    split at h
    · cases h
    · split at h
      · exact readOctetSequence_length_lt h
      · cases h
        simp [Input.skip, hr]

/-- Read as many characters of a tag as there are. -/
def readTagText (full : Bool) (i : Input) : Except Error (List UInt8 × Input) :=
  match _h : readTagChar full i with
  | .error e => .error e
  | .ok ([], next) => .ok ([], next)
  | .ok (b :: bytes, next) =>
    (readTagText full next).map fun (more, stop) => (b :: bytes ++ more, stop)
termination_by i.rest.length
decreasing_by exact readTagChar_length_lt _h

/-- Read characters of a tag, of which there has to be one. -/
def readSomeTagText (full : Bool) (i : Input) : Except Error (List UInt8 × Input) :=
  if i.rest.head?.any (isTagChar full) then readTagText full i else .error .badTag

/-- Read a handle, or the start of a tag without one: an exclamation mark, a name, and perhaps
another exclamation mark. -/
def readHandle (i : Input) : Except Error (List Char × Input) :=
  match i.rest with
  | '!' :: _ =>
    let (name, i) := (i.skip 1).span isNameChar
    if i.rest.head? = some '!' then .ok ('!' :: name ++ ['!'], i.skip 1)
    else .ok ('!' :: name, i)
  | _ => .error .badTag

/-- Whether a text that begins with an exclamation mark is a handle. -/
def isHandle (s : List Char) : Bool := 2 ≤ s.length && s.getLast? = some '!'

/-- A tag ends at a byte that is zero. -/
def cutAtZero (bytes : List UInt8) : List UInt8 := bytes.takeWhile (· ≠ 0)

/-- Read a tag up to the character that ends it. -/
def readTagName (i : Input) : Except Error (TagName × Input) := do
  if i.rest.take 2 = ['!', '<'] then
    let (name, i) ← readSomeTagText true (i.skip 2)
    if i.rest.head? = some '>' then return (⟨[], cutAtZero name⟩, i.skip 1) else .error .badTag
  else
    let (start, i) ← readHandle i
    if isHandle start then
      let (name, i) ← readSomeTagText false i
      return (⟨start, cutAtZero name⟩, i)
    else
      let (name, i) ← readTagText false i
      match cutAtZero (start.tail.map tagByte ++ name) with
      | [] => return (⟨[], [tagByte '!']⟩, i)
      | suffix => return (⟨['!'], suffix⟩, i)

/-- Read a tag. A blank or a line break has to follow it, or a comma inside a flow collection. -/
def readTag (inFlow : Bool) (i : Input) : Except Error (TagName × Input) := do
  let (name, i) ← readTagName i
  if endsWord i.rest || (inFlow && i.rest.head? = some ',') then return (name, i)
  else .error .badTag

/-- Read a number of at most nine digits. -/
def readVersionNumber (i : Input) : Except Error (Nat × Input) :=
  let (digits, next) := i.span Char.isDigit
  match Text.number? 10 digits with
  | none => .error .badDirective
  | some n => if digits.isEmpty || 9 < digits.length then .error .badDirective else .ok (n, next)

/-- Read a version, which starts after the name of its directive. -/
def readVersion (i : Input) : Except Error (Token × Input) := do
  let (major, i) ← readVersionNumber i.skipBlanks
  if i.rest.head? ≠ some '.' then .error .badDirective
  else
    let (minor, i) ← readVersionNumber (i.skip 1)
    return (.versionDirective major minor, i)

/-- Read the declaration of a handle, which starts after the name of its directive. -/
def readHandleDeclaration (i : Input) : Except Error (Token × Input) := do
  let (handle, i) ← readHandle i.skipBlanks
  if !(handle = ['!'] || isHandle handle) || !i.rest.head?.any isBlank then .error .badDirective
  else
    let (start, i) ← readSomeTagText true i.skipBlanks
    if endsWord i.rest then return (.tagDirective handle (cutAtZero start), i)
    else .error .badDirective

/-- Read a directive with its line, which starts after the percent sign. -/
def readDirective (i : Input) : Except Error (Token × Input) := do
  let (name, i) := i.span isNameChar
  if !endsWord i.rest then .error .badDirective
  else
    let (token, i) ←
      if name = "YAML".toList then readVersion i
      else if name = "TAG".toList then readHandleDeclaration i
      else .error .badDirective
    let i := i.skipBlanks.skipComment
    match i.rest with
    | [] => return (token, i)
    | c :: _ => if isBreak c then return (token, i.nextLine) else .error .badDirective

end CommentTags.Yaml
