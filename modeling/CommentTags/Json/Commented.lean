import CommentTags.Text.Blank

/-!
# JSON with comments

Comments and the commas after a last item are taken out of a text, so that what is left is JSON.
Strings stay as they are.
-/

namespace CommentTags.Json

/-- Where the reading of a text with comments stands. -/
inductive CommentMode
  | plain
  | inString
  /-- After a backslash in a string. -/
  | escaped
  /-- In a comment that runs to the end of the line. -/
  | lineComment
  /-- In a comment between two delimiters; `starred` after a star. -/
  | blockComment (starred : Bool)
  deriving Repr, DecidableEq

/-- Take comments out of a text. A comment to the end of the line leaves its line feed, a comment
between delimiters leaves a space. -/
def dropComments : CommentMode → List Char → List Char
  | .blockComment _, [] => [' ']
  | _, [] => []
  | .plain, '/' :: '/' :: s => dropComments .lineComment s
  | .plain, '/' :: '*' :: s => dropComments (.blockComment false) s
  | .plain, c :: s => c :: dropComments (if c = '"' then .inString else .plain) s
  | .inString, c :: s =>
    c :: dropComments (if c = '\\' then .escaped else if c = '"' then .plain else .inString) s
  | .escaped, c :: s => c :: dropComments .inString s
  | .lineComment, c :: s =>
    if c = '\n' then '\n' :: dropComments .plain s else dropComments .lineComment s
  | .blockComment starred, c :: s =>
    if starred && c = '/' then ' ' :: dropComments .plain s
    else dropComments (.blockComment (c = '*')) s

/-- Whether the first character that is not white space closes an array or an object. -/
def closesNext (s : List Char) : Bool :=
  match Text.trimStart s with
  | ']' :: _ => true
  | '\x7d' :: _ => true
  | _ => false

/-- Where the reading of a text without comments stands. -/
inductive StringMode
  | plain
  | inString
  /-- After a backslash in a string. -/
  | escaped
  deriving Repr, DecidableEq

/-- Take out the commas before a closing bracket. -/
def dropLastCommas : StringMode → List Char → List Char
  | _, [] => []
  | .plain, c :: s =>
    if c = ',' && closesNext s then dropLastCommas .plain s
    else c :: dropLastCommas (if c = '"' then .inString else .plain) s
  | .inString, c :: s =>
    c :: dropLastCommas (if c = '\\' then .escaped else if c = '"' then .plain else .inString) s
  | .escaped, c :: s => c :: dropLastCommas .inString s

/-- Take comments and commas after a last item out of a text. -/
def withoutComments (text : String) : String :=
  String.ofList (dropLastCommas .plain (dropComments .plain text.toList))

end CommentTags.Json
