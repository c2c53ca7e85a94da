/-!
# What is wrong with a YAML text
-/

namespace CommentTags.Yaml

/-- Why a text cannot be read. -/
inductive Error
  /-- A character that may not stand in a text. -/
  | forbiddenCharacter
  /-- A character with which no token begins. -/
  | strangeCharacter
  /-- A key without the colon that it needs. -/
  | unfinishedKey
  /-- An indicator of the block style where it may not stand. -/
  | misplacedIndicator
  /-- A tab where only spaces count. -/
  | tabInIndent
  /-- A directive that is not understood. -/
  | badDirective
  /-- A directive that is given twice. -/
  | repeatedDirective
  /-- An anchor or alias whose name is empty or runs into other text. -/
  | badAnchor
  /-- A tag that is not well formed. -/
  | badTag
  /-- A tag whose handle is not declared. -/
  | unknownHandle
  /-- A block scalar whose first line is not well formed. -/
  | badBlockHeader
  /-- A quoted scalar without its closing quote. -/
  | unclosedQuote
  /-- A document that begins or ends inside a quoted scalar. -/
  | markInQuote
  /-- An escape that stands for no character. -/
  | badEscape
  /-- A colon inside a plain scalar of a flow collection. -/
  | misplacedColon
  /-- A token where another one has to stand. -/
  | unexpectedToken
  /-- An alias without an anchor. -/
  | unknownAlias
  /-- More documents than one. -/
  | severalDocuments
  /-- Collections nested in each other too often. -/
  | tooDeep
  /-- Too many aliases to follow. -/
  | tooManyAliases
  /-- A value of the wrong kind. -/
  | wrongKind
  /-- A key that occurs twice. -/
  | repeatedKey
  /-- A mapping without a key that it has to have. -/
  | missingKey (key : String)
  deriving Repr, DecidableEq

/-- The text of an error. -/
def Error.message : Error → String
  | .forbiddenCharacter => "control characters are not allowed"
  | .strangeCharacter => "found character that cannot start any token"
  | .unfinishedKey => "could not find expected ':'"
  | .misplacedIndicator => "block indicators are not allowed in this context"
  | .tabInIndent => "found a tab character where an indentation space is expected"
  | .badDirective => "found unknown or incompatible directive"
  | .repeatedDirective => "found duplicate directive"
  | .badAnchor => "did not find expected alphabetic or numeric character"
  | .badTag => "did not find expected tag"
  | .unknownHandle => "found undefined tag handle"
  | .badBlockHeader => "did not find expected comment or line break"
  | .unclosedQuote => "found unexpected end of stream"
  | .markInQuote => "found unexpected document indicator"
  | .badEscape => "found unknown escape character"
  | .misplacedColon => "found unexpected ':'"
  | .unexpectedToken => "did not find expected node content"
  | .unknownAlias => "unknown anchor"
  | .severalDocuments => "deserializing from YAML containing more than one document is not supported"
  | .tooDeep => "recursion limit exceeded"
  | .tooManyAliases => "repetition limit exceeded"
  | .wrongKind => "invalid type"
  | .repeatedKey => "duplicate field"
  | .missingKey key => "missing field \x60" ++ key ++ "\x60"

end CommentTags.Yaml
