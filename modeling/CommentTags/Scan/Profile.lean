import CommentTags.Comment.Basic
import CommentTags.Language.Names

/-!
# What to look for in a language

A profile says which kinds of comments are looked for in a text of a language, and with which
delimiters. It follows from the language, its comment syntax and the switches of the user.
-/

namespace CommentTags

/-- The switches of the user. -/
structure Toggles where
  /-- Look at list items and code fences of Markdown texts. -/
  highlightMarkdown : Bool := true
  /-- Look at block comments. -/
  multilineComments : Bool := true
  /-- Look at the lines of plain texts. -/
  highlightPlainText : Bool := false
  /-- Look at documentation comments. -/
  useDocStyle : Bool := true
  deriving Repr, DecidableEq, Inhabited

/-- What is looked for in the texts of a language. -/
structure Profile where
  language : String
  /-- The comments of the language are known, or plain texts are looked at. -/
  supported : Bool := false
  plainText : Bool := false
  /-- A Markdown text whose list items and fences are looked at. -/
  markdown : Bool := false
  /-- A comment that begins at the very start of the text does not count. -/
  ignoresFirstLine : Bool := false
  scansLines : Bool := false
  scansBlocks : Bool := false
  scansDocs : Bool := false
  /-- What opens a comment that runs to the end of the line. -/
  openers : List String := []
  /-- The only opener is that of a block comment, since the language has no line comments. -/
  borrowsOpener : Bool := false
  block : Option (String × String) := none
  deriving Repr, DecidableEq

namespace Profile

/-- The delimiters in use: those of line comments, or else what opens a block comment. -/
def openersOf (comments : CommentSyntax) : List String :=
  if comments.lineOpeners.isEmpty then comments.blockPair.toList.map (·.1)
  else comments.lineOpeners

/-- The profile of a language, given by its canonical name. -/
def of (language : String) (comments : Option CommentSyntax) (toggles : Toggles) : Profile :=
  let plainText := language == Language.plainText
  let bare : Profile :=
    { language
      plainText
      markdown := language == Language.markdown && toggles.highlightMarkdown }
  if !(if plainText then toggles.highlightPlainText else comments.isSome) then bare
  else
    let openers := (comments.map openersOf).getD []
    let block := comments.bind (·.blockPair)
    { bare with
      supported := true
      ignoresFirstLine := Language.suppressesFirstLine language
      scansLines := plainText || !openers.isEmpty
      scansBlocks := block.isSome && toggles.multilineComments
      scansDocs := Language.usesDocBlocks language && toggles.useDocStyle
      openers
      borrowsOpener := ((comments.map (·.lineOpeners)).getD []).isEmpty && !openers.isEmpty
      block }

/-- Documentation comments are looked for inside ordinary block comments too. -/
def scansDocBlocks (p : Profile) : Bool :=
  p.scansDocs || p.scansBlocks

/-- The texts that open line comments. -/
def openerWords (p : Profile) : List (List Char) :=
  p.openers.map (·.toList)

/-- What opens a block comment; nothing if there are none. -/
def blockStart (p : Profile) : List Char :=
  match p.block with
  | none => []
  | some (start, _) => start.toList

/-- What closes a block comment; nothing if there are none. -/
def blockEnd (p : Profile) : List Char :=
  match p.block with
  | none => []
  | some (_, stop) => stop.toList

end Profile

end CommentTags
