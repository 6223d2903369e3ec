import LayeredConfig.Reference.Command
import LayeredConfig.Reference.Namespace
import LayeredConfig.Reference.Delimiter

/-!
# References

A reference asks for the text stored at a path. Its body is a list of tokens
separated by `;`. A token with a `:` is a command, with its name before the
first `:` and its value after it; a token without one is a path. A command that
is given twice counts as last given, and commands with unknown names are kept
in order.

## Main definitions

* `Reference` — a reference with its commands and its verbatim text
* `Reference.ofBody`, `Reference.ofPath` — the reference of a body or of a bare path
* `Reference.target?` — the namespace and the path to look up
* `Reference.isSection` — the path asks for a whole section
-/

namespace LayeredConfig

/-- A reference to a stored text. -/
structure Reference where
  /-- The value of the `Using` command. -/
  selector : Option String := none
  /-- The value of the `Alias` command. -/
  caption : Option String := none
  /-- The value of the `Path` command. -/
  path : Option String := none
  /-- The commands with unknown names, in order. -/
  unrecognized : List (String × String) := []
  /-- The verbatim text, delimiters included. -/
  source : String
  deriving DecidableEq, Repr

namespace Reference

/-- Applies a command to a reference. -/
def setCommand (reference : Reference) (name value : List Char) : Reference :=
  let text := String.ofList value
  match Command.ofName? name with
  | some .select => { reference with selector := some text }
  | some .caption => { reference with caption := some text }
  | some .path => { reference with path := some text }
  | none =>
    { reference with
      unrecognized := reference.unrecognized ++ [(String.ofList name, text)] }

/-- Applies one token of a body: a command if it has a `:`, a path otherwise.
Blanks around the token, its name and its value do not count, and a blank token
says nothing. -/
def applyToken (reference : Reference) (token : List Char) : Reference :=
  let token := Text.trim token
  if token = [] then
    reference
  else
    match Text.cutFirst? ':' token with
    | some (name, value) => reference.setCommand (Text.trim name) (Text.trim value)
    | none => { reference with path := some (String.ofList token) }

/-- The reference with the given body and verbatim text. -/
def ofBody (body : List Char) (source : String) : Reference :=
  (Text.splitOn ';' body).foldl applyToken { source }

/-- The reference to a bare path. -/
def ofPath (path : String) : Reference where
  path := some path
  source := String.ofList (Delimiter.enclose path.toList)

/-- The namespace and the path to look up, if there is a path. A `Using` command
decides the namespace; without one a reserved first segment of the path does. -/
def target? (reference : Reference) : Option (Namespace × String) :=
  reference.path.map fun path =>
    match reference.selector with
    | some selector => (.ofUsing selector, path)
    | none => (Namespace.ofPath? path).getD (.environment, path)

/-- The path as written ends in `/*` and so asks for a section. -/
def isSection (reference : Reference) : Bool :=
  match reference.path with
  | some path => (Text.stripSuffix? ['/', '*'] path.toList).isSome
  | none => false

/-- The name under which the reference is shown: its alias, else its path, else
its verbatim text. -/
def displayName (reference : Reference) : String :=
  (reference.caption <|> reference.path).getD reference.source

end Reference

end LayeredConfig
