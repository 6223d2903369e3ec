import LayeredConfig.Reference.Basic

/-!
# Parts of a value

A stored value is a text in which references may stand. It is read as a list of
parts, each a stretch of literal text or a reference.

## Main definitions

* `Part` — literal text or a reference
* `Part.source` — the text that a part was read from
* `Value.references` — the references among the parts, in order
-/

namespace LayeredConfig

/-- A part of a value. -/
inductive Part where
  /-- Literal text. -/
  | literal (text : String)
  /-- A reference standing in the text. -/
  | reference (reference : Reference)
  deriving DecidableEq, Repr

namespace Part

/-- The text that a part was read from. -/
def source : Part → String
  | literal text => text
  | reference r => r.source

/-- The reference, if the part is one. -/
def reference? : Part → Option Reference
  | literal _ => none
  | reference r => some r

end Part

namespace Value

/-- The references among the parts of a value, in order. -/
def references (parts : List Part) : List Reference :=
  parts.filterMap Part.reference?

/-- The text that the parts of a value were read from. -/
def source (parts : List Part) : String :=
  parts.foldr (fun part rest => part.source ++ rest) ""

end Value

end LayeredConfig
