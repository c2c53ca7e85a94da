/-!
# JSON values

A number is kept as a natural number, as the size of a negative one, or as the 64 bits of a binary
floating point number. The fields of an object stay in the order in which they were written.
-/

namespace CommentTags

/-- A number of JSON. -/
inductive JsonNumber
  | nonneg (n : Nat)
  /-- The number below zero of the given size. -/
  | negative (n : Nat)
  /-- The floating point number with the given bits. -/
  | float (bits : UInt64)
  deriving Repr, DecidableEq

/-- A value of JSON. The fields of an object keep their order. -/
inductive Json
  | null
  | bool (b : Bool)
  | number (n : JsonNumber)
  | string (s : String)
  | array (items : List Json)
  | object (fields : List (String × Json))
  deriving Repr

namespace Json

/-- The value of a field. Of several fields of one name the last one counts. -/
def field? (fields : List (String × Json)) (name : String) : Option Json :=
  (fields.reverse.find? (·.1 == name)).map (·.2)

/-- A natural number as a value. -/
def nat (n : Nat) : Json := .number (.nonneg n)

end Json

end CommentTags
