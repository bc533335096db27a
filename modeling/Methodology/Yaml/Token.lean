/-!
# Tokens of a YAML stream

* `TagText`: what a tag is made of.
* `Token`: the marks, names, tags and scalars that a stream is made of.
-/

namespace Methodology.Yaml

/-- How a scalar is written. -/
inductive Style
  | plain
  | quoted
  deriving DecidableEq, Repr

/-- A tag or a part of one, character by character; a character is missing where escaped bytes stand
that spell none. -/
abbrev TagText := List (Option Char)

/-- A token. -/
inductive Token
  | streamEnd
  /-- The directive that states a version. -/
  | version (major minor : Nat)
  /-- The directive that gives a handle its meaning. -/
  | handle (handle : List Char) (meaning : TagText)
  | documentStart
  | documentEnd
  | blockSequenceStart
  | blockMappingStart
  | blockEnd
  | flowSequenceStart
  | flowSequenceEnd
  | flowMappingStart
  | flowMappingEnd
  | blockEntry
  | flowEntry
  | key
  | value
  | anchor (name : List Char)
  | reference (name : List Char)
  /-- A tag: a handle and what follows it; a verbatim tag has an empty handle. -/
  | tag (handle : List Char) (suffix : TagText)
  | scalar (style : Style) (text : List Char)
  deriving DecidableEq, Repr

end Methodology.Yaml
