import LayeredConfig.Compilation.Input
import LayeredConfig.Compilation.Result
import LayeredConfig.Trace.Codec

/-!
# Environments, structures and results in JSON

All three are records. An environment and a structure must have a name; their
maps may be left out and are then empty. A stored result must have both its map
and its traces.

## Main definitions

* `Environment.toJson`, `Environment.ofJson?`
* `Structure.toJson`, `Structure.ofJson?`
* `CompilationResult.toJson`, `CompilationResult.ofJson?`
-/

namespace LayeredConfig

/-- An environment in JSON. -/
def Environment.toJson (environment : Environment) : Json :=
  .object [("name", .string environment.name), ("keys", environment.keys.toJson)]

/-- The environment that JSON writes. -/
def Environment.ofJson? (json : Json) : Option Environment := do
  let members ← json.fields? ["name", "keys"]
  return {
    name := ← Json.required members "name" Json.text?
    keys := ← Json.optional members "keys" ∅ ConfigMap.ofJson? }

/-- A structure in JSON. -/
def Structure.toJson (template : Structure) : Json :=
  .object [("name", .string template.name), ("keys", template.keys.toJson),
    ("variables", template.vars.toJson)]

/-- The structure that JSON writes. -/
def Structure.ofJson? (json : Json) : Option Structure := do
  let members ← json.fields? ["name", "keys", "variables"]
  return {
    name := ← Json.required members "name" Json.text?
    keys := ← Json.optional members "keys" ∅ ConfigMap.ofJson?
    vars := ← Json.optional members "variables" ∅ ConfigMap.ofJson? }

namespace CompilationResult

/-- A stored result in JSON. -/
def toJson (result : CompilationResult String) : Json :=
  .object [("compiled_configuration", result.compiled.toJson),
    ("trace", .array (Trace.toJsons result.trace))]

/-- The stored result that JSON writes. -/
def ofJson? (json : Json) : Option (CompilationResult String) := do
  let members ← json.fields? ["compiled_configuration", "trace"]
  return {
    compiled := ← Json.required members "compiled_configuration" ConfigMap.ofJson?
    trace := ← Json.required members "trace" fun json => json.items?.bind (Trace.ofJsons? false) }

end CompilationResult

end LayeredConfig
