import CommentTags.Yaml.Anchor
import CommentTags.Yaml.Block
import CommentTags.Yaml.Plain
import CommentTags.Yaml.Quoted
import CommentTags.Yaml.Tag

/-!
# Cutting a text into tokens

The columns in which blocks begin are kept on a stack: a token further to the left ends the blocks
that it is not part of. That a token is the key of a mapping shows only at the colon that follows it,
so that the tokens that tell this are put in afterwards, before the first token of the key.
-/

namespace CommentTags.Yaml

/-- A token that is a key if a colon follows. -/
structure PossibleKey where
  /-- Nothing but a key may stand here. -/
  required : Bool
  /-- The number of tokens before it. -/
  tokensBefore : Nat
  line : Nat
  column : Nat
  deriving Repr, DecidableEq

/-- The greatest number of characters between the start of a key and its colon. -/
def maxKeyLength : Nat := 1024

/-- How far a text has been cut into tokens. -/
structure Lexer where
  input : Input
  /-- The tokens up to here, the latest first. -/
  tokens : List Token := []
  /-- The number of tokens. -/
  count : Nat := 0
  /-- For each block that is open, the column after the one in which it begins. The innermost block
  comes first. -/
  margins : List Nat := []
  /-- A key may begin here. -/
  keyAllowed : Bool := true
  /-- The token that may be a key, inside the innermost flow collection. -/
  possibleKey : Option PossibleKey := none
  /-- The names of the anchors up to here. -/
  names : AnchorNames := []
  /-- The tokens that may be keys outside the flow collections that are open. -/
  outerKeys : List (Option PossibleKey) := []
  deriving Repr, DecidableEq

namespace Lexer

/-- Whether a flow collection is open. -/
def inFlow (l : Lexer) : Bool := !l.outerKeys.isEmpty

/-- The leftmost column in which the contents of the innermost block may stand. -/
def margin (l : Lexer) : Nat := l.margins.headD 0

/-- Add a token. -/
def push (l : Lexer) (t : Token) : Lexer :=
  { l with tokens := t :: l.tokens, count := l.count + 1 }

/-- Add a token and go on at a place. -/
def pushAt (l : Lexer) (t : Token) (i : Input) : Lexer :=
  { l.push t with input := i }

/-- Put in a token after the given number of tokens. -/
def insert (l : Lexer) (tokensBefore : Nat) (t : Token) : Lexer :=
  { l with tokens := l.tokens.insertIdx (l.count - tokensBefore) t, count := l.count + 1 }

/-- Whether the place that has been reached is too far from a key for its colon. -/
def isStale (l : Lexer) (k : PossibleKey) : Bool :=
  k.line < l.input.line || k.column + maxKeyLength < l.input.column

/-- Give up a possible key, which is an error if it is required. -/
def giveUp (k : Option PossibleKey) : Except Error (Option PossibleKey) :=
  if k.any (·.required) then .error .unfinishedKey else .ok none

/-- Give up a possible key if it is too far away. -/
def giveUpIfStale (l : Lexer) (k : Option PossibleKey) : Except Error (Option PossibleKey) :=
  if k.any l.isStale then giveUp k else .ok k

/-- Give up all possible keys that are too far away. -/
def dropStaleKeys (l : Lexer) : Except Error Lexer := do
  let possibleKey ← l.giveUpIfStale l.possibleKey
  let outerKeys ← l.outerKeys.mapM l.giveUpIfStale
  return { l with possibleKey, outerKeys }

/-- Give up the innermost possible key. -/
def dropKey (l : Lexer) : Except Error Lexer := do
  let possibleKey ← giveUp l.possibleKey
  return { l with possibleKey }

/-- Note that the next token may be a key. -/
def saveKey (l : Lexer) : Except Error Lexer := do
  if l.keyAllowed then
    let l ← l.dropKey
    let required := !l.inFlow && l.margin == l.input.column + 1
    return { l with possibleKey := some ⟨required, l.count, l.input.line, l.input.column⟩ }
  else return l

/-- The blocks that begin to the left of a column, and the number of those that do not. -/
def closeMargins (column : Nat) : List Nat → Nat × List Nat
  | [] => (0, [])
  | m :: margins =>
    if column < m then
      let (n, margins) := closeMargins column margins
      (n + 1, margins)
    else (0, m :: margins)

/-- End all blocks but those that begin to the left of a column. -/
def closeBlocks (l : Lexer) (column : Nat) : Lexer :=
  if l.inFlow then l
  else
    let (n, margins) := closeMargins column l.margins
    { l with
      tokens := List.replicate n .blockEnd ++ l.tokens
      count := l.count + n
      margins }

/-- Begin a block in a column, unless one begins there already. The token that tells it is put in
after the given number of tokens. -/
def openBlock (l : Lexer) (column tokensBefore : Nat) (t : Token) : Lexer :=
  if l.inFlow || column < l.margin then l
  else { l.insert tokensBefore t with margins := (column + 1) :: l.margins }

/-- Move to the next token, past blanks, comments and line ends. A tab counts as a blank only where
no key may begin. -/
def toNextToken (inFlow keyAllowed : Bool) (line column : Nat) (inComment : Bool) :
    List Char → Bool × Input
  | [] => (keyAllowed, ⟨[], line, column⟩)
  | c :: s =>
    if isBreak c then toNextToken inFlow (keyAllowed || !inFlow) (line + 1) 0 false s
    else if inComment then toNextToken inFlow keyAllowed line (column + 1) true s
    else if c = ' ' || (c = '\t' && (inFlow || !keyAllowed)) then
      toNextToken inFlow keyAllowed line (column + 1) false s
    else if c = '#' then toNextToken inFlow keyAllowed line (column + 1) true s
    else (keyAllowed, ⟨c :: s, line, column⟩)

/-- Move to the next token and end what ends before it. -/
def advance (l : Lexer) : Except Error Lexer := do
  let (keyAllowed, input) :=
    toNextToken l.inFlow l.keyAllowed l.input.line l.input.column false l.input.rest
  let l ← { l with keyAllowed, input }.dropStaleKeys
  return l.closeBlocks (input.column + 1)

/-- The end of the text. -/
def finish (l : Lexer) : Except Error Lexer :=
  (l.closeBlocks 0).dropKey

/-- A directive or a mark between documents, which ends all blocks. -/
def betweenDocuments (l : Lexer) (t : Token) (i : Input) : Except Error Lexer := do
  let l ← (l.closeBlocks 0).dropKey
  return { l.pushAt t i with keyAllowed := false }

/-- The start of a flow collection. -/
def openFlow (l : Lexer) (t : Token) : Except Error Lexer := do
  let l ← l.saveKey
  return { l.pushAt t (l.input.skip 1) with
    possibleKey := none
    outerKeys := l.possibleKey :: l.outerKeys
    keyAllowed := true }

/-- The end of a flow collection. -/
def closeFlow (l : Lexer) (t : Token) : Except Error Lexer := do
  let l ← l.dropKey
  return { l.pushAt t (l.input.skip 1) with
    possibleKey := l.outerKeys.headD none
    outerKeys := l.outerKeys.tail
    keyAllowed := false }

/-- A comma in a flow collection. -/
def flowEntry (l : Lexer) : Except Error Lexer := do
  let l ← l.dropKey
  return { l.pushAt .flowEntry (l.input.skip 1) with keyAllowed := true }

/-- An indicator that begins a block unless it stands in a flow collection. -/
def beginBlock (l : Lexer) (t : Token) : Except Error Lexer :=
  if l.inFlow then .ok l
  else if !l.keyAllowed then .error .misplacedIndicator
  else .ok (l.openBlock l.input.column l.count t)

/-- The dash before an entry of a block sequence. -/
def blockEntry (l : Lexer) : Except Error Lexer := do
  let l ← l.beginBlock .blockSequenceStart
  let l ← l.dropKey
  return { l.pushAt .blockEntry (l.input.skip 1) with keyAllowed := true }

/-- The question mark before a key. -/
def key (l : Lexer) : Except Error Lexer := do
  let l ← l.beginBlock .blockMappingStart
  let l ← l.dropKey
  return { l.pushAt .key (l.input.skip 1) with keyAllowed := !l.inFlow }

/-- The colon before a value. -/
def value (l : Lexer) : Except Error Lexer := do
  match l.possibleKey with
  | some k =>
    let l := (l.insert k.tokensBefore .key).openBlock k.column k.tokensBefore .blockMappingStart
    return { l.pushAt .value (l.input.skip 1) with possibleKey := none, keyAllowed := false }
  | none =>
    let l ← l.beginBlock .blockMappingStart
    return { l.pushAt .value (l.input.skip 1) with keyAllowed := !l.inFlow }

/-- A token that may be, or may belong to, a key. -/
def keyPart (l : Lexer) (read : Input → Except Error (Token × Input)) :
    Except Error Lexer := do
  let l ← l.saveKey
  let (t, i) ← read l.input
  return { l.pushAt t i with keyAllowed := false }

/-- An anchor, which gives a name to the node after it. -/
def anchor (l : Lexer) : Except Error Lexer := do
  let l ← l.saveKey
  let (name, i) ← readName (l.input.skip 1)
  return { l.pushAt (.anchor l.names.length) i with names := l.names.add name, keyAllowed := false }

/-- An alias, which stands for a node with a name. -/
def aliasOf (l : Lexer) : Except Error Lexer :=
  l.keyPart fun i =>
    (readKnownName l.names (i.skip 1)).map fun (number, next) => (.aliasOf number, next)

/-- A tag. -/
def tag (l : Lexer) : Except Error Lexer :=
  l.keyPart fun i => (readTag l.inFlow i).map fun (name, next) => (.tag name, next)

/-- A quoted scalar. -/
def quoted (l : Lexer) (double : Bool) : Except Error Lexer :=
  l.keyPart fun i =>
    (readQuoted double (i.skip 1)).map fun (text, next) =>
      (.scalar ⟨text, if double then .doubleQuoted else .singleQuoted⟩, next)

/-- A block scalar. -/
def block (l : Lexer) (folds : Bool) : Except Error Lexer := do
  let l ← l.dropKey
  let (text, i) ← readBlock folds l.margin (l.input.skip 1)
  return { l.pushAt (.scalar ⟨text, if folds then .folded else .literal⟩) i with
    keyAllowed := true }

/-- A plain scalar. A key may begin after it if it is followed by a line break. -/
def plain (l : Lexer) : Except Error Lexer := do
  let l ← l.saveKey
  let (text, stop) ← readPlain l.inFlow l.margin l.input
  return { l.pushAt (.scalar ⟨text, .plain⟩) stop.next with keyAllowed := stop.crossesLine }

/-- Characters with which no plain scalar begins. -/
def indicators : List Char := "-?:,[]\x7b\x7d#&*!|>'\"%@\x60".toList

/-- Whether a plain scalar begins with the given text. -/
def beginsPlain (inFlow : Bool) : List Char → Bool
  | [] => false
  | c :: rest =>
    (!isSpacing c && !indicators.contains c) || (c = '-' && !rest.head?.any isBlank) ||
      (!inFlow && (c = '?' || c = ':') && !endsWord rest)

/-- Read the next token, which begins with the given character. -/
def token (l : Lexer) (c : Char) : Except Error Lexer :=
  let i := l.input
  let endsWordAfter := endsWord (i.rest.drop 1)
  if i.column = 0 && c = '%' then do
    let (t, next) ← readDirective (i.skip 1)
    l.betweenDocuments t next
  else if i.atMark '-' then l.betweenDocuments .documentStart (i.skip 3)
  else if i.atMark '.' then l.betweenDocuments .documentEnd (i.skip 3)
  else if c = '[' then l.openFlow .flowSequenceStart
  else if c = '\x7b' then l.openFlow .flowMappingStart
  else if c = ']' then l.closeFlow .flowSequenceEnd
  else if c = '\x7d' then l.closeFlow .flowMappingEnd
  else if c = ',' then l.flowEntry
  else if c = '-' && endsWordAfter then l.blockEntry
  else if c = '?' && (l.inFlow || endsWordAfter) then l.key
  else if c = ':' && (l.inFlow || endsWordAfter) then l.value
  else if c = '*' then l.aliasOf
  else if c = '&' then l.anchor
  else if c = '!' then l.tag
  else if c = '|' && !l.inFlow then l.block false
  else if c = '>' && !l.inFlow then l.block true
  else if c = '\'' then l.quoted false
  else if c = '"' then l.quoted true
  else if beginsPlain l.inFlow i.rest then l.plain
  else .error .strangeCharacter

/-- Read all tokens up to the end of the text. Every token has a character, so that `fuel` need not
exceed the number of characters by more than one. -/
def run : Nat → Lexer → Except Error Lexer
  | 0, _ => .error .strangeCharacter
  | fuel + 1, l => do
    let l ← l.advance
    match l.input.rest with
    | [] => l.finish
    | c :: _ => run fuel (← l.token c)

end Lexer

/-- The start of a text. A byte order mark at the start counts only as a column. -/
def startOfText : List Char → Input
  | '\uFEFF' :: s => ⟨s, 0, 1⟩
  | s => ⟨s, 0, 0⟩

/-- The tokens of a text. -/
def tokens (text : String) : Except Error (List Token) :=
  if text.toList.all isAllowed then do
    let s := unifyBreaks text.toList
    let l ← Lexer.run (s.length + 1) { input := startOfText s }
    return l.tokens.reverse
  else .error .forbiddenCharacter

end CommentTags.Yaml
