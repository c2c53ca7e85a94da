import CommentTags.Comment.Basic

/-!
# Comment syntax of common languages
-/

namespace CommentTags

/-- A line of the table: a language, the openers of its line comments, and its block comments. -/
structure BuiltinSyntax where
  language : String
  openers : List String
  block : Option (String × String)

/-- The block comments of C and its relatives. -/
def slashStar : Option (String × String) := some ("/*", "*/")

/-- The block comments of markup languages. -/
def angleBang : Option (String × String) := some ("<!--", "-->")

/-- The languages known from the start. -/
def builtinTable : List BuiltinSyntax :=
  [⟨"apex", ["//"], slashStar⟩,
    ⟨"bat", ["@REM"], none⟩,
    ⟨"c", ["//"], slashStar⟩,
    ⟨"clojure", [";"], none⟩,
    ⟨"coffeescript", ["#"], some ("###", "###")⟩,
    ⟨"cpp", ["//"], slashStar⟩,
    ⟨"csharp", ["//"], slashStar⟩,
    ⟨"css", [], slashStar⟩,
    ⟨"dart", ["//"], slashStar⟩,
    ⟨"dockerfile", ["#"], none⟩,
    ⟨"elixir", ["#"], none⟩,
    ⟨"erlang", ["%"], none⟩,
    ⟨"fsharp", ["//"], some ("(*", "*)")⟩,
    ⟨"go", ["//"], slashStar⟩,
    ⟨"haskell", ["--"], some ("\x7b-", "-\x7d")⟩,
    ⟨"html", [], angleBang⟩,
    ⟨"ini", [";"], none⟩,
    ⟨"java", ["//"], slashStar⟩,
    ⟨"javascript", ["//"], slashStar⟩,
    ⟨"javascriptreact", ["//"], slashStar⟩,
    ⟨"julia", ["#"], some ("#=", "=#")⟩,
    ⟨"kotlin", ["//"], slashStar⟩,
    ⟨"less", ["//"], slashStar⟩,
    ⟨"lua", ["--"], some ("--[[", "]]")⟩,
    ⟨"makefile", ["#"], none⟩,
    ⟨"markdown", [], angleBang⟩,
    ⟨"perl", ["#"], none⟩,
    ⟨"php", ["//", "#"], slashStar⟩,
    ⟨"powershell", ["#"], some ("<#", "#>")⟩,
    ⟨"python", ["#"], some ("\"\"\"", "\"\"\"")⟩,
    ⟨"r", ["#"], none⟩,
    ⟨"ruby", ["#"], some ("=begin", "=end")⟩,
    ⟨"rust", ["//"], slashStar⟩,
    ⟨"scala", ["//"], slashStar⟩,
    ⟨"scss", ["//"], slashStar⟩,
    ⟨"shellscript", ["#"], none⟩,
    ⟨"sql", ["--"], slashStar⟩,
    ⟨"swift", ["//"], slashStar⟩,
    ⟨"tcl", ["#"], none⟩,
    ⟨"terraform", ["#", "//"], slashStar⟩,
    ⟨"toml", ["#"], none⟩,
    ⟨"typescript", ["//"], slashStar⟩,
    ⟨"typescriptreact", ["//"], slashStar⟩,
    ⟨"vb", ["'"], none⟩,
    ⟨"xml", [], angleBang⟩,
    ⟨"yaml", ["#"], none⟩,
    ⟨"zig", ["//"], none⟩]

/-- The names of the languages known from the start. -/
def builtinLanguages : List String := builtinTable.map (·.language)

/-- One opener is kept as a single one, several as a list. -/
def LineComment.ofOpeners : List String → Option LineComment
  | [] => none
  | [opener] => some (.single opener)
  | openers => some (.several openers)

/-- The comment syntax that a line of the table stands for. -/
def BuiltinSyntax.commentSyntax (b : BuiltinSyntax) : CommentSyntax :=
  { line := LineComment.ofOpeners b.openers, block := b.block }

/-- The comment syntax of a language known from the start. -/
def builtinSyntax? (language : String) : Option CommentSyntax :=
  (builtinTable.find? (·.language == language)).map (·.commentSyntax)

end CommentTags
