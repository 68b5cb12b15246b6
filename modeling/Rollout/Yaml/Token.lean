import Rollout.Yaml.Cursor

/-!
# Tokens

The words of a document. Indentation has become explicit: a block collection is opened and closed
by tokens of its own, and a key that is only recognised by the colon after it has its `key` token
in front.
-/

namespace Rollout.Yaml

/-- How a scalar is written. -/
inductive Style where
  | plain
  | singleQuoted
  | doubleQuoted
  | literal
  | folded
deriving DecidableEq, Repr

/-- A word of a document. Tags are kept as octets, since an escape in a tag stands for an octet. -/
inductive Token where
  | versionDirective (major minor : Nat)
  | tagDirective (handle : List Char) (start : List UInt8)
  | documentStart
  | documentEnd
  | blockSequenceStart
  | blockMappingStart
  | blockEnd
  | flowSequenceStart
  | flowSequenceEnd
  | flowMappingStart
  | flowMappingEnd
  | blockEntry
  | flowEntry
  | key
  | value
  | alias (name : List Char)
  | anchor (name : List Char)
  | tag (handle : List Char) (suffix : List UInt8)
  | scalar (style : Style) (text : List Char)
deriving DecidableEq, Repr

end Rollout.Yaml
