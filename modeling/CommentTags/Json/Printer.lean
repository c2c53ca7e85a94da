import CommentTags.Decimal.Shortest
import CommentTags.Json.Basic

/-!
# Writing JSON

Values are written without blanks. Inside a string only quotes, backslashes and control characters
are escaped.
-/

namespace CommentTags

/-- The text of a number. -/
def JsonNumber.print : JsonNumber → List Char
  | .nonneg n => Nat.toDigits 10 n
  | .negative n => '-' :: Nat.toDigits 10 n
  | .float bits => Decimal.text bits

namespace Json

/-- A hexadecimal digit in lowercase. -/
def hexDigit (n : Nat) : Char := Nat.digitChar n

/-- A character as it stands inside a string. -/
def printChar (c : Char) : List Char :=
  if c = '"' then ['\\', '"']
  else if c = '\\' then ['\\', '\\']
  else if c = '\x08' then ['\\', 'b']
  else if c = '\x0C' then ['\\', 'f']
  else if c = '\n' then ['\\', 'n']
  else if c = '\r' then ['\\', 'r']
  else if c = '\t' then ['\\', 't']
  else if c.toNat < 0x20 then ['\\', 'u', '0', '0', hexDigit (c.toNat / 16), hexDigit (c.toNat % 16)]
  else [c]

/-- The text of a string, in quotes. -/
def printString (s : List Char) : List Char :=
  '"' :: s.flatMap printChar ++ ['"']

mutual

/-- The text of a value. -/
def print : Json → List Char
  | .null => "null".toList
  | .bool true => "true".toList
  | .bool false => "false".toList
  | .number n => n.print
  | .string s => printString s.toList
  | .array items => '[' :: printItems items ++ [']']
  | .object fields => '\x7b' :: printFields fields ++ ['\x7d']

/-- The items of an array with commas between them. -/
def printItems : List Json → List Char
  | [] => []
  | [item] => item.print
  | item :: items => item.print ++ ',' :: printItems items

/-- The fields of an object with commas between them. -/
def printFields : List (String × Json) → List Char
  | [] => []
  | [(name, value)] => printString name.toList ++ ':' :: value.print
  | (name, value) :: fields =>
    printString name.toList ++ ':' :: value.print ++ ',' :: printFields fields

end

end Json

end CommentTags
