/-!
# Why a text is not YAML

One constructor for each reason that a stream can be refused: the characters, the tokens, how
tokens nest, and what anchors, tags and keys say.
-/

namespace ConfigReconcile.Yaml

inductive Fault where
  /-- a character that no stream may hold -/
  | unreadable
  /-- a character that starts no token -/
  | strayCharacter
  /-- a key at the indentation of its mapping without a colon -/
  | keyWithoutColon
  /-- an indicator where no block collection can go on -/
  | misplacedIndicator
  /-- a tab where indentation is counted -/
  | tabIndentation
  /-- a scalar that does not end, or that a document mark cuts off -/
  | openScalar
  /-- an escape that is none -/
  | badEscape
  /-- a colon against a bracket or comma inside a flow collection -/
  | badColon
  /-- a block scalar with a wrong header -/
  | badHeader
  | badDirective
  | badAnchor
  | badTag
  /-- a token that cannot stand where it stands -/
  | unexpectedToken
  /-- a tag handle that no directive declares -/
  | undefinedHandle
  | unknownAlias
  /-- more levels than a reader follows -/
  | tooDeep
  /-- more aliases followed than the size of the document allows -/
  | tooManyAliases
  /-- a value that is not of the type its tag says, or beyond 64 bits -/
  | badValue
  | duplicateKey
  deriving DecidableEq, Repr, Inhabited

end ConfigReconcile.Yaml
