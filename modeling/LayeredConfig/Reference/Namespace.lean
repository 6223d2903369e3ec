import LayeredConfig.Text.Blank
import LayeredConfig.Text.Split

/-!
# Namespaces of a reference

A reference is looked up in one of four places: the environment, the
environment beside the key that holds the reference, the variables of the
structure, or the secret store. The place is chosen either by a `Using` command
or by a reserved first segment of the path, such as `$struct` in
`$struct/db/name`. Reserved names are compared ignoring the case of ASCII
letters.

## Main definitions

* `Namespace` — the place a reference is looked up in
* `Namespace.ofUsing` — the namespace that a `Using` command selects
* `Namespace.ofPath?` — the namespace that a path selects by its first segment
-/

namespace LayeredConfig

/-- The place a reference is looked up in. -/
inductive Namespace where
  /-- The environment, which is the default. -/
  | environment
  /-- The environment, with the path taken relative to the parent of the key that
  holds the reference. -/
  | sibling
  /-- The variables of the structure. -/
  | vars
  /-- The secret store. -/
  | secret
  /-- A `Using` command that names no known namespace. -/
  | unknown (name : String)
  deriving DecidableEq, Repr

namespace Namespace

/-- The reserved names with the namespaces they select. -/
def reserved : List (String × Namespace) :=
  [("$this", sibling), ("$struct", vars), ("$secret", secret)]

/-- The namespace of a reserved name. -/
def ofReserved? (name : List Char) : Option Namespace :=
  (reserved.find? fun entry => Text.sameIgnoringCase name entry.1.toList).map Prod.snd

/-- The namespace that a `Using` command selects. Blanks around the name do not
count, and an empty name selects the environment. -/
def ofUsing (value : String) : Namespace :=
  let name := Text.trim value.toList
  if name = [] then
    environment
  else
    (ofReserved? name).getD (unknown (String.ofList name))

/-- The namespace that a path selects by a reserved first segment, with the path
that remains. -/
def ofPath? (path : String) : Option (Namespace × String) :=
  match Text.cutFirst? '/' path.toList with
  | some (head, rest) => (ofReserved? head).map fun space => (space, String.ofList rest)
  | none => none

/-- The name under which a namespace appears in messages. -/
def label : Namespace → String
  | environment => "environment"
  | sibling => "$this"
  | vars => "$struct"
  | secret => "$secret"
  | unknown name => name

end Namespace

end LayeredConfig
