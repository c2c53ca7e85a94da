import CommentTags.Text.Blank
import CommentTags.Text.Lowercase

/-!
# Language names

A language is known by a canonical name. Short names and the hints of code fences are brought to it
by removing white space around them, taking the lowercase and looking up an alias.
-/

namespace CommentTags.Language

/-- The language of texts that have none. -/
def plainText : String := "plaintext"

/-- The language whose texts hold lists and fenced texts of other languages. -/
def markdown : String := "markdown"

/-- Short names with the languages they stand for. -/
def aliases : List (String × String) :=
  [("js", "javascript"), ("mjs", "javascript"), ("cjs", "javascript"), ("node", "javascript"),
    ("jsx", "javascriptreact"),
    ("ts", "typescript"), ("mts", "typescript"), ("cts", "typescript"),
    ("tsx", "typescriptreact"),
    ("py", "python"), ("py3", "python"), ("python3", "python"),
    ("rs", "rust"),
    ("rb", "ruby"),
    ("sh", "shellscript"), ("bash", "shellscript"), ("zsh", "shellscript"),
    ("shell", "shellscript"), ("console", "shellscript"),
    ("ps1", "powershell"), ("pwsh", "powershell"), ("ps", "powershell"),
    ("yml", "yaml"),
    ("md", "markdown"),
    ("c++", "cpp"), ("cc", "cpp"), ("cxx", "cpp"), ("hpp", "cpp"),
    ("h", "c"),
    ("cs", "csharp"), ("c#", "csharp"),
    ("f#", "fsharp"), ("fs", "fsharp"),
    ("golang", "go"),
    ("kt", "kotlin"), ("kts", "kotlin"),
    ("ex", "elixir"), ("exs", "elixir"),
    ("erl", "erlang"),
    ("hs", "haskell"),
    ("pl", "perl"), ("pm", "perl"),
    ("htm", "html"), ("xhtml", "html"),
    ("svg", "xml"),
    ("sass", "scss"),
    ("docker", "dockerfile"),
    ("make", "makefile"), ("mk", "makefile"),
    ("tf", "terraform"), ("hcl", "terraform"),
    ("vbnet", "vb"),
    ("cmd", "bat"),
    ("jl", "julia"),
    ("txt", plainText), ("text", plainText), ("plain", plainText)]

/-- The name without white space around it, in lowercase. -/
def normalized (name : String) : String :=
  String.ofList (Text.lowercase (Text.trim name.toList))

/-- The canonical name of a language. -/
def canonical (name : String) : String :=
  (aliases.lookup (normalized name)).getD (normalized name)

/-- Languages whose first line often says how to run the file. -/
def suppressesFirstLine (language : String) : Bool :=
  ["elixir", "python", "tcl"].contains language

/-- Languages that document their code in `/** … */` comments. -/
def usesDocBlocks (language : String) : Bool :=
  ["apex", "javascript", "javascriptreact", "typescript", "typescriptreact"].contains language

end CommentTags.Language
