import LayeredConfig.KeyMap.Basic
import LayeredConfig.Text.Split

/-!
# Paths as queries

A path asks either for one key or for a section, that is for all keys that begin
alike. A section is written `prefix/*` and matches the keys below `prefix`. The
older form `prefix*` matches the beginning as plain text.

## Main definitions

* `Wildcard` — the pattern of a section
* `Wildcard.suffix` — the name of a matched key inside the section
* `Query.ofPath` — what a path asks for
* `siblingPath` — a path beside a key
-/

namespace LayeredConfig

/-- The pattern of a section. -/
structure Wildcard where
  /-- The path in front of the star and, unless it is bare, of the slash. -/
  stem : String
  /-- The star stands without a slash before it. -/
  bare : Bool
  deriving DecidableEq, Repr

namespace Wildcard

/-- The path that is written for the section. -/
def path (w : Wildcard) : String :=
  if w.bare then w.stem ++ "*" else w.stem ++ "/*"

/-- The text that the keys of the section begin with. -/
def pattern (w : Wildcard) : String :=
  if w.bare then w.stem else w.stem ++ "/"

/-- The name of a matched key inside the section: what follows the pattern, and
for a bare star without the slashes at its start. -/
def suffix (w : Wildcard) (key : String) : String :=
  let rest := key.toList.drop w.pattern.length
  String.ofList (if w.bare then rest.dropWhile (· = '/') else rest)

/-- The entries of the section. -/
def entries {α : Type} (w : Wildcard) (m : KeyMap α) : List (String × α) :=
  m.below w.pattern

end Wildcard

/-- What a path asks for. -/
inductive Query where
  /-- One key. -/
  | key (path : String)
  /-- A section. -/
  | all (wildcard : Wildcard)
  deriving DecidableEq, Repr

/-- What a path asks for, seen from its end. -/
def Query.ofPath (path : String) : Query :=
  match Text.stripSuffix? ['/', '*'] path.toList with
  | some stem => .all ⟨String.ofList stem, false⟩
  | none =>
    match Text.stripSuffix? ['*'] path.toList with
    | some stem => .all ⟨String.ofList stem, true⟩
    | none => .key path

/-- A path beside a key: below the parent of the key, or the path alone if the
key has no parent. -/
def siblingPath (key path : String) : String :=
  match Text.cutLast? '/' key.toList with
  | some (parent, _) => String.ofList parent ++ "/" ++ path
  | none => path

/-- Two names inside a section joined by a slash; an empty one adds nothing. -/
def joinSuffix (outer inner : String) : String :=
  if outer = "" then inner
  else if inner = "" then outer
  else outer ++ "/" ++ inner

end LayeredConfig
