import CommentTags.Comment.Basic
import CommentTags.Json.Commented
import CommentTags.Json.Printer
import CommentTags.Json.Reader
import CommentTags.Text.Quoted

/-!
# Comment syntax in JSON

A language is described by a JSON text with comments. Its delimiters are fields of the top object or
of an object in its field `comments`; an array with the two values in order will do too.
-/

namespace CommentTags

/-- What a JSON value is found to be where something else was expected. -/
inductive JsonKind
  | null
  | bool (b : Bool)
  | number (n : JsonNumber)
  | string (s : String)
  | sequence
  | map
  deriving Repr, DecidableEq

/-- What a value is, as errors tell it. -/
def Json.kind : Json → JsonKind
  | .null => .null
  | .bool b => .bool b
  | .number n => .number n
  | .string s => .string s
  | .array _ => .sequence
  | .object _ => .map

/-- What was found, in words. -/
def JsonKind.describe : JsonKind → String
  | .null => "null"
  | .bool b => "boolean \x60" ++ (if b then "true" else "false") ++ "\x60"
  | .number (.float bits) =>
    "floating point \x60" ++ String.ofList (Decimal.text bits) ++ "\x60"
  | .number n => "integer \x60" ++ String.ofList n.print ++ "\x60"
  | .string s => "string " ++ String.ofList (Text.quoted s.toList)
  | .sequence => "sequence"
  | .map => "map"

/-- What is expected of a value. -/
inductive Expected
  | comments
  | delimiter
  | pair
  deriving Repr, DecidableEq

/-- What was expected, in words. -/
def Expected.describe : Expected → String
  | .comments => "struct CommentSyntax"
  | .delimiter => "a string"
  | .pair => "a tuple of size 2"

/-- Why a text does not describe the comments of a language. -/
inductive ConfigurationError
  /-- The text is not JSON. -/
  | unreadable (e : Json.Error)
  /-- A value is not of the expected kind. -/
  | wrongKind (found : JsonKind) (expected : Expected)
  /-- A pair has fewer than two items. -/
  | tooShort (count : Nat)
  /-- An array has more items than are expected. -/
  | tooLong (count : Nat)
  /-- Line comments are neither a string nor a list of strings. -/
  | lineComment
  deriving Repr, DecidableEq

/-- The text of an error. -/
def ConfigurationError.message : ConfigurationError → String
  | .unreadable e => "JSON parse error: " ++ e.message
  | .wrongKind found expected =>
    "Invalid comment syntax: invalid type: " ++ found.describe ++ ", expected " ++ expected.describe
  | .tooShort count =>
    "Invalid comment syntax: invalid length " ++ toString count ++ ", expected " ++
      Expected.describe .pair
  | .tooLong count =>
    "Invalid comment syntax: invalid length " ++ toString count ++
      ", expected fewer elements in array"
  | .lineComment =>
    "Invalid comment syntax: data did not match any variant of untagged enum LineComment"

namespace CommentSyntax

/-- Read strings, if all values are strings. -/
def strings? : List Json → Option (List String)
  | [] => some []
  | .string s :: rest => (strings? rest).map (s :: ·)
  | _ :: _ => none

/-- Read the openers of line comments. -/
def lineOfJson : Json → Except ConfigurationError (Option LineComment)
  | .null => .ok none
  | .string s => .ok (some (.single s))
  | .array xs =>
    match strings? xs with
    | some openers => .ok (some (.several openers))
    | none => .error .lineComment
  | _ => .error .lineComment

/-- Read a delimiter of block comments. -/
def delimiterOfJson : Json → Except ConfigurationError String
  | .string s => .ok s
  | v => .error (.wrongKind v.kind .delimiter)

/-- Read the delimiters of block comments. -/
def blockOfJson : Json → Except ConfigurationError (Option (String × String))
  | .null => .ok none
  | .array [] => .error (.tooShort 0)
  | .array [start] => do
    let _ ← delimiterOfJson start
    .error (.tooShort 1)
  | .array (start :: stop :: rest) => do
    let start ← delimiterOfJson start
    let stop ← delimiterOfJson stop
    if rest.isEmpty then return some (start, stop) else .error (.tooLong (rest.length + 2))
  | v => .error (.wrongKind v.kind .pair)

/-- Read the comments of a language from a value. Missing fields stand for no such comments, and
other fields do not count. -/
def ofJson : Json → Except ConfigurationError CommentSyntax
  | .object fields => do
    let block ← blockOfJson ((Json.field? fields "blockComment").getD .null)
    let line ← lineOfJson ((Json.field? fields "lineComment").getD .null)
    return { line, block }
  | .array xs => do
    let line ← lineOfJson (xs[0]?.getD .null)
    let block ← blockOfJson (xs[1]?.getD .null)
    if xs.length ≤ 2 then return { line, block } else .error (.tooLong xs.length)
  | v => .error (.wrongKind v.kind .comments)

/-- The part of a value that describes comments. -/
def commentsPart : Json → Json
  | .object fields => (Json.field? fields "comments").getD (.object fields)
  | v => v

/-- Read the comments of a language from a JSON text with comments. -/
def parse (text : String) : Except ConfigurationError CommentSyntax :=
  match Json.parse (Json.withoutComments text) with
  | .error e => .error (.unreadable e)
  | .ok v => ofJson (commentsPart v)

/-- The openers of line comments as JSON. -/
def lineToJson : Option LineComment → Json
  | none => .null
  | some (.single s) => .string s
  | some (.several openers) => .array (openers.map .string)

/-- The delimiters of block comments as JSON. -/
def blockToJson : Option (String × String) → Json
  | none => .null
  | some (start, stop) => .array [.string start, .string stop]

/-- The comments of a language as JSON. -/
def toJson (s : CommentSyntax) : Json :=
  .object [("lineComment", lineToJson s.line), ("blockComment", blockToJson s.block)]

end CommentSyntax

end CommentTags
