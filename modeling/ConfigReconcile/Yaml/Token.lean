import ConfigReconcile.Text.Utf8

/-!
# Tokens

* `Style`    how a scalar is spelled;
* `Token`    what a text is cut into.  Block collections open with a token of their own, when a
             line is indented more than the collection around it, and close with `blockEnd`.
-/

namespace ConfigReconcile.Yaml

open Text

inductive Style where
  | plain
  | singleQuoted
  | doubleQuoted
  | literal
  | folded
  deriving DecidableEq, Repr, Inhabited

inductive Token where
  | version (major minor : Nat)
  | tagDirective (handle : String) (lead : Bytes)
  | documentStart
  | documentEnd
  | blockSequenceStart
  | blockMappingStart
  | blockEnd
  | flowSequenceStart
  | flowSequenceEnd
  | flowMappingStart
  | flowMappingEnd
  | blockEntry
  | flowEntry
  | key
  | value
  | alias (name : String)
  | anchor (name : String)
  | tag (handle : String) (suffix : Bytes)
  | scalar (style : Style) (text : String)
  deriving DecidableEq, Repr, Inhabited

end ConfigReconcile.Yaml
