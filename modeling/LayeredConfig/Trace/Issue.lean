import LayeredConfig.Reference.Namespace

/-!
# Issues

Resolution never stops at a fault. It notes an issue on the trace and goes on
with an empty text. Issues that point at a mistake in the references themselves
are errors; those that depend on what the maps and the secret store happen to
hold are warnings.

## Main definitions

* `Issue` — what can go wrong
* `Issue.severity` — whether it is a warning or an error
* `Issue.message` — what it says
-/

namespace LayeredConfig

/-- How grave an issue is. -/
inductive Severity where
  | warning
  | error
  deriving DecidableEq, Repr

/-- Something that went wrong while references were resolved. -/
inductive Issue where
  /-- No entry at the path in the map that the label names. -/
  | missingKey (label path : String)
  /-- No secret at the path. -/
  | missingSecret (path : String)
  /-- The reference has no path. -/
  | missingPath (source : String)
  /-- The reference selects a namespace that does not exist. -/
  | unknownNamespace (name source : String)
  /-- The path is already being resolved. -/
  | cyclicReference (path : String)
  /-- The path lies deeper than the limit allows. -/
  | depthExceeded (path : String) (limit : Nat)
  /-- The path ends in `*` without a `/` before it; it was matched as it stands. -/
  | malformedWildcard (path : String)
  /-- The path ends in `*` without a `/` before it; it was refused. -/
  | rejectedWildcard (path : String)
  /-- The section holds no keys. -/
  | emptySection (path : String)
  /-- A section was asked for in the middle of a text. -/
  | sectionNotWholeValue (path : String)
  /-- A section of secrets was asked for. -/
  | secretSection (path : String)
  /-- The path was already written by another key. -/
  | keyCollision (path : String)
  deriving DecidableEq, Repr

namespace Issue

/-- Whether an issue is a warning or an error. -/
def severity : Issue → Severity
  | missingPath _ | cyclicReference _ | depthExceeded .. => .error
  | missingKey .. | missingSecret _ | unknownNamespace .. | malformedWildcard _
  | rejectedWildcard _ | emptySection _ | sectionNotWholeValue _ | secretSection _
  | keyCollision _ => .warning

/-- What an issue says. -/
def message : Issue → String
  | missingKey label path => s!"could not resolve '{path}' in {label}"
  | missingSecret path => s!"secret '{path}' not found"
  | missingPath source => s!"reference '{source}' has no path"
  | unknownNamespace name source => s!"unknown namespace '{name}' in reference '{source}'"
  | cyclicReference path => s!"cyclic reference to '{path}'"
  | depthExceeded path limit => s!"reference '{path}' exceeds the maximum depth of {limit}"
  | malformedWildcard path =>
    s!"'{path}' ends with '*' instead of '/*'; matched as a bare prefix"
  | rejectedWildcard path => s!"'{path}' ends with '*' instead of '/*'"
  | emptySection path => s!"section '{path}' matched no keys"
  | sectionNotWholeValue path => s!"section reference '{path}' must be the entire value"
  | secretSection path => s!"section references are not supported for secrets: '{path}'"
  | keyCollision path =>
    s!"'{path}' was already produced by another key; later value discarded"

end Issue

end LayeredConfig
