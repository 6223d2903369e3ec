import LayeredConfig.Reference.Basic

/-!
# Reading a single reference

A text that must be one reference and nothing else is read strictly: delimiters
around it are optional, none may stand inside it, and it must have a path that
is not empty.

## Main definitions

* `Reference.ReadError` — why a text is not a reference
* `Reference.read` — the reference that a text is
-/

namespace LayeredConfig.Reference

/-- Why a text is not a single reference. -/
inductive ReadError where
  /-- A delimiter stands inside the body. -/
  | nestedDelimiters (text : String)
  /-- The path is missing or empty. -/
  | noPath (text : String)
  deriving DecidableEq, Repr

/-- What the error says. -/
def ReadError.message : ReadError → String
  | .nestedDelimiters text => s!"invalid reference: nested delimiters in '{text}'"
  | .noPath text => s!"invalid reference: no path in '{text}'"

/-- The text between the delimiters, if it has both. -/
def body? (text : List Char) : Option (List Char) :=
  (Text.stripPrefix? Delimiter.opening text).bind (Text.stripSuffix? Delimiter.closing)

/-- The reference that a text is, with or without delimiters and with any blanks
around it. -/
def read (text : String) : Except ReadError Reference :=
  let trimmed := Text.trim text.toList
  let body := (body? trimmed).getD trimmed
  let source := if (body? trimmed).isSome then trimmed else Delimiter.enclose trimmed
  if Delimiter.hasOpening body || Delimiter.hasClosing body then
    .error (.nestedDelimiters text)
  else
    let reference := ofBody body (String.ofList source)
    match reference.path with
    | none | some "" => .error (.noPath text)
    | some _ => .ok reference

end LayeredConfig.Reference
