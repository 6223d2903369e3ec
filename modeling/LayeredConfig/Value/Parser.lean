import LayeredConfig.Value.Part

/-!
# Reading a value

Reading a value never fails: delimiters that do not belong to a reference are
literal text. A closing delimiter makes a reference with the last opening one
before it, unless the body between them is blank; then both are literal too.
The parts always spell out the text they were read from.

## Main definitions

* `Value.parse` — the parts of a value
* `Value.hasReferences`, `Value.extractReferences` — whether and which references stand in it
-/

namespace LayeredConfig.Value

/-- Literal text in front of some parts; no text gives no part. -/
def lead (text : List Char) (parts : List Part) : List Part :=
  if text = [] then parts else .literal (String.ofList text) :: parts

/-- The literal text and the body of the reference in a piece that a closing
delimiter follows, if there is a reference in it. -/
def splitPiece? (piece : List Char) : Option (List Char × List Char) :=
  match Delimiter.cutLastOpening? piece with
  | some (before, body) => if Text.allBlank body then none else some (before, body)
  | none => none

/-- Reads the pieces that closing delimiters follow, and the tail after them:
the literal text at the start, and the parts from the first reference on. -/
def assemble (tail : List Char) : List (List Char) → List Char × List Part
  | [] => (tail, [])
  | piece :: pieces =>
    let (text, parts) := assemble tail pieces
    match splitPiece? piece with
    | some (before, body) =>
      let source := String.ofList (Delimiter.enclose body)
      (before, .reference (.ofBody body source) :: lead text parts)
    | none => (piece ++ Delimiter.closing ++ text, parts)

/-- The parts of a text. -/
def parseChars (text : List Char) : List Part :=
  let (pieces, tail) := Delimiter.spans text
  let (start, parts) := assemble tail pieces
  lead start parts

/-- The parts of a value. -/
def parse (value : String) : List Part :=
  parseChars value.toList

/-- The references that stand in a value, in order. -/
def extractReferences (value : String) : List Reference :=
  references (parse value)

/-- A reference stands in the value. A value without both delimiters needs no
reading. -/
def hasReferences (value : String) : Bool :=
  Delimiter.hasOpening value.toList && Delimiter.hasClosing value.toList &&
    !(extractReferences value).isEmpty

end LayeredConfig.Value
