import CommentTags.Language.Names

/-!
# The language of a file

A file's language is told from its name: a few names are known as a whole, all others go by their
extension, which is what follows the last dot unless the name begins with that dot.
-/

namespace CommentTags.Language

/-- Extensions with their languages. -/
def extensions : List (String × String) :=
  [("rs", "rust"),
    ("js", "javascript"), ("mjs", "javascript"), ("cjs", "javascript"),
    ("jsx", "javascriptreact"),
    ("ts", "typescript"), ("mts", "typescript"), ("cts", "typescript"),
    ("tsx", "typescriptreact"),
    ("py", "python"), ("pyw", "python"),
    ("rb", "ruby"),
    ("go", "go"),
    ("c", "c"), ("h", "c"),
    ("cpp", "cpp"), ("cc", "cpp"), ("cxx", "cpp"), ("hpp", "cpp"), ("hh", "cpp"), ("hxx", "cpp"),
    ("cs", "csharp"),
    ("java", "java"),
    ("kt", "kotlin"), ("kts", "kotlin"),
    ("swift", "swift"),
    ("php", "php"),
    ("sh", "shellscript"), ("bash", "shellscript"), ("zsh", "shellscript"),
    ("ps1", "powershell"), ("psm1", "powershell"),
    ("lua", "lua"),
    ("sql", "sql"),
    ("ex", "elixir"), ("exs", "elixir"),
    ("erl", "erlang"), ("hrl", "erlang"),
    ("hs", "haskell"),
    ("tcl", "tcl"),
    ("pl", "perl"), ("pm", "perl"),
    ("r", "r"),
    ("jl", "julia"),
    ("yaml", "yaml"), ("yml", "yaml"),
    ("toml", "toml"),
    ("ini", "ini"), ("cfg", "ini"),
    ("html", "html"), ("htm", "html"),
    ("xml", "xml"), ("svg", "xml"),
    ("css", "css"),
    ("scss", "scss"), ("sass", "scss"),
    ("less", "less"),
    ("md", markdown), ("markdown", markdown),
    ("apex", "apex"), ("cls", "apex"),
    ("dart", "dart"),
    ("scala", "scala"),
    ("zig", "zig"),
    ("vb", "vb"),
    ("bat", "bat"), ("cmd", "bat"),
    ("tf", "terraform"), ("hcl", "terraform")]

/-- The language of an extension, in any letter case. -/
def ofExtension (extension : String) : String :=
  (extensions.lookup (String.ofList (Text.lowercase extension.toList))).getD plainText

/-- The parts of a path between its slashes. -/
def pathParts : List Char → List (List Char)
  | [] => [[]]
  | c :: rest =>
    if c = '/' then [] :: pathParts rest
    else match pathParts rest with
      | [] => [[c]]
      | part :: parts => (c :: part) :: parts

/-- The name of the file that a path leads to. Empty parts and single dots do not count, and a path
that ends in two dots has no name. -/
def fileName? (path : List Char) : Option (List Char) :=
  match ((pathParts path).filter fun part => part != [] && part != ['.']).getLast? with
  | none => none
  | some name => if name = ['.', '.'] then none else some name

/-- What follows the last dot of a name, unless that dot is its first character or is missing. -/
def extension? (name : List Char) : Option (List Char) :=
  let reversed := name.reverse
  let after := reversed.takeWhile (· != '.')
  if after.length + 1 < name.length then some after.reverse else none

/-- Files whose whole name tells their language. -/
def fileNames : List (String × String) :=
  [("Dockerfile", "dockerfile"), ("Makefile", "makefile"), ("makefile", "makefile"),
    ("GNUmakefile", "makefile")]

/-- The language of the file at a path. -/
def ofPath (path : String) : String :=
  match fileName? path.toList with
  | none => plainText
  | some name =>
    match fileNames.lookup (String.ofList name) with
    | some language => language
    | none =>
      match extension? name with
      | some extension => ofExtension (String.ofList extension)
      | none => plainText

end CommentTags.Language
