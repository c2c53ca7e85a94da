import CommentTags.Yaml.Character
import CommentTags.Yaml.Schema

/-!
# Writing scalars

A text is written as plainly as it can be read back: plain if it looks like nothing else, between
single quotes if it does, between double quotes if it has characters that need an escape, and as a
literal block if it has line feeds.
-/

namespace CommentTags.Yaml

/-- The characters that no plain scalar in block style begins with. -/
def plainBarriers : List Char := "#,[]\x7b\x7d&*!|>'\"%@\x60".toList

/-- Whether a text begins like something other than a plain scalar. -/
def beginsLikeIndicator : List Char → Bool
  | [] => false
  | c :: rest =>
    plainBarriers.contains c || ((c = '?' || c = ':' || c = '-') && endsWord rest)

/-- Whether a text holds a colon at the end of a word or a number sign at the start of one, which
would end a plain scalar. -/
def holdsIndicator : List Char → Bool
  | [] => false
  | c :: rest =>
    (c = ':' && endsWord rest) || (isSpacing c && rest.head? = some '#') || holdsIndicator rest

/-- Whether a text begins like a mark between documents. -/
def beginsLikeMark (s : List Char) : Bool :=
  s.take 3 == "---".toList || s.take 3 == "...".toList

/-- Whether a space is followed by a line break. -/
def hasSpaceBeforeBreak : List Char → Bool
  | [] => false
  | c :: rest => (c = ' ' && rest.head?.any isBreak) || hasSpaceBeforeBreak rest

/-- Whether a line break is followed by a space. -/
def hasSpaceAfterBreak : List Char → Bool
  | [] => false
  | c :: rest => (isBreak c && rest.head? = some ' ') || hasSpaceAfterBreak rest

/-- Whether a text can only be written with escapes. -/
def needsEscapes (s : List Char) : Bool :=
  !s.all isPrintable || hasSpaceBeforeBreak s

/-- Whether a text can be written without quotes, as far as its characters go. -/
def fitsPlain (s : List Char) : Bool :=
  !needsEscapes s && !s.any isBreak && s.head? != some ' ' && s.getLast? != some ' ' &&
    !beginsLikeMark s && !beginsLikeIndicator s && !holdsIndicator s

/-- Whether a text can be written between single quotes. -/
def fitsSingleQuotes (s : List Char) : Bool :=
  !needsEscapes s && !hasSpaceAfterBreak s

/-- Whether a text can be written as a literal block. -/
def fitsLiteral (s : List Char) : Bool :=
  !needsEscapes s && s.getLast? != some ' '

/-- Whether a text would be read as something other than a text if it were plain. -/
def isAmbiguous (s : List Char) : Bool :=
  hasNeedlessZero s || PlainKind.ofText s != .text

/-- The style in which a text is written. -/
def styleOf (s : List Char) : ScalarStyle :=
  if s.contains '\n' then if fitsLiteral s then .literal else .doubleQuoted
  else if fitsPlain s && !isAmbiguous s then .plain
  else if fitsSingleQuotes s then .singleQuoted
  else .doubleQuoted

/-- A number in hexadecimal digits, written in a fixed width. -/
def hexDigits : Nat → Nat → List Char
  | 0, _ => []
  | width + 1, n => hexDigits width (n / 16) ++ [(Nat.digitChar (n % 16)).toUpper]

/-- The escapes of one letter that are written. -/
def writtenEscapes : List (Char × Char) :=
  [('\x00', '0'), ('\x07', 'a'), ('\x08', 'b'), ('\t', 't'), ('\n', 'n'), ('\x0B', 'v'),
    ('\x0C', 'f'), ('\r', 'r'), ('\x1B', 'e'), ('"', '"'), ('\\', '\\'), ('\x85', 'N'),
    ('\xA0', '_'), ('\u2028', 'L'), ('\u2029', 'P')]

/-- A character as an escape. -/
def escapeOf (c : Char) : List Char :=
  match writtenEscapes.lookup c with
  | some letter => ['\\', letter]
  | none =>
    if c.toNat ≤ 0xFF then '\\' :: 'x' :: hexDigits 2 c.toNat
    else if c.toNat ≤ 0xFFFF then '\\' :: 'u' :: hexDigits 4 c.toNat
    else '\\' :: 'U' :: hexDigits 8 c.toNat

/-- A character between double quotes. -/
def printDoubleQuotedChar (c : Char) : List Char :=
  if !isPrintable c || isBreak c || c = '"' || c = '\\' then escapeOf c else [c]

/-- A text in double quotes. -/
def printDoubleQuoted (s : List Char) : List Char :=
  '"' :: s.flatMap printDoubleQuotedChar ++ ['"']

/-- A text between single quotes up to the closing one. What follows a line break is indented. -/
def printSingleQuotedFrom (indent : List Char) (afterBreak : Bool) : List Char → List Char
  | [] => (if afterBreak then indent else []) ++ ['\'']
  | c :: s =>
    if isBreak c then c :: printSingleQuotedFrom indent true s
    else
      (if afterBreak then indent else []) ++ (if c = '\'' then ['\'', '\''] else [c]) ++
        printSingleQuotedFrom indent false s

/-- A text in single quotes. -/
def printSingleQuoted (indent s : List Char) : List Char :=
  '\'' :: printSingleQuotedFrom indent false s

/-- The sign for the line breaks at the end of a text. -/
def chompingSign (s : List Char) : List Char :=
  match s.reverse with
  | [] => ['-']
  | [c] => if isBreak c then ['+'] else ['-']
  | c :: d :: _ => if !isBreak c then ['-'] else if isBreak d then ['+'] else []

/-- The sign for the indent, which is needed if the text begins with a blank line or a space. -/
def indentSign (s : List Char) : List Char :=
  if s.head?.any fun c => c = ' ' || isBreak c then ['2'] else []

/-- The lines of a text, those that are not empty indented. -/
def printLines (indent : List Char) (lineStart : Bool) : List Char → List Char
  | [] => []
  | c :: s =>
    if isBreak c then c :: printLines indent true s
    else (if lineStart then indent else []) ++ c :: printLines indent false s

/-- A text as a literal block. -/
def printLiteral (indent s : List Char) : List Char :=
  '|' :: indentSign s ++ chompingSign s ++ ['\n'] ++ printLines indent true s

/-- A text in a style. -/
def printAs (style : ScalarStyle) (indent s : List Char) : List Char :=
  match style with
  | .plain => s
  | .singleQuoted => printSingleQuoted indent s
  | .doubleQuoted => printDoubleQuoted s
  | .literal | .folded => printLiteral indent s

/-- A text as the value of a key, up to the start of the next line. The lines of the text itself are
indented as given. -/
def printText (indent s : List Char) : List Char :=
  printAs (styleOf s) indent s ++
    (if styleOf s = .literal && s.getLast?.any isBreak then [] else ['\n'])

end CommentTags.Yaml
