/-!
# The delimiters of a reference

A reference stands in a value between two opening and two closing braces. The
functions here find the delimiters in a text. A closing delimiter is looked for
from the left, and the opening one that belongs to it is the last one before
it, so a reference never holds another one.

## Main definitions

* `Delimiter.enclose` — a body between the delimiters
* `Delimiter.cutLastOpening?` — the text before and after the last opening delimiter
* `Delimiter.spans` — the pieces of a text that end in a closing delimiter, and the rest
* `Delimiter.hasDoubled` — a brace stands twice in a row somewhere
-/

namespace LayeredConfig.Delimiter

/-- The delimiter at the start of a reference. -/
def opening : List Char := ['{', '{']

/-- The delimiter at the end of a reference. -/
def closing : List Char := ['}', '}']

/-- A body between the delimiters. -/
def enclose (body : List Char) : List Char :=
  opening ++ body ++ closing

/-- A character stands twice in a row somewhere in the text. -/
def hasDoubled (c : Char) : List Char → Bool
  | a :: b :: rest => (a = c && b = c) || hasDoubled c (b :: rest)
  | _ => false

/-- An opening delimiter stands somewhere in the text. -/
def hasOpening (text : List Char) : Bool := hasDoubled '{' text

/-- A closing delimiter stands somewhere in the text. -/
def hasClosing (text : List Char) : Bool := hasDoubled '}' text

/-- The text before and after the last opening delimiter. Of three braces in a
row the last two are the delimiter. -/
def cutLastOpening? : List Char → Option (List Char × List Char)
  | [] => none
  | c :: rest =>
    match cutLastOpening? rest with
    | some (before, after) => some (c :: before, after)
    | none =>
      match c, rest with
      | '{', '{' :: after => some ([], after)
      | _, _ => none

/-- The pieces of a text that end in a closing delimiter, each without it, and
the text after the last one. Closing delimiters are taken from the left, so of
three braces in a row the first two are the delimiter. -/
def spans : List Char → List (List Char) × List Char
  | [] => ([], [])
  | '}' :: '}' :: rest =>
    let (pieces, tail) := spans rest
    ([] :: pieces, tail)
  | c :: rest =>
    match spans rest with
    | ([], tail) => ([], c :: tail)
    | (piece :: pieces, tail) => ((c :: piece) :: pieces, tail)

end LayeredConfig.Delimiter
