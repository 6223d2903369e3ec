import LayeredConfig.Compilation.Input
import LayeredConfig.Compilation.Result
import LayeredConfig.Resolution.Resolve

/-!
# Compilation

Every key of the structure is resolved by itself and asks to write its own path,
or the paths below it when its text stands for a section. The writes are then
served in key order. The first key that writes a path keeps it; later ones are
noted as collisions.

## Main definitions

* `Draft` — what a key of the structure asks to write
* `ConfigMap.writeFree` — writes the paths that are still free
* `Compiler.compile` — the compiled configuration with its traces
-/

namespace LayeredConfig

/-- What the text of a structure key came to. -/
inductive Content where
  /-- A null or a text without references, taken as it is. -/
  | plain (value : Option String)
  /-- A text with references, and its outcome. -/
  | resolved (raw : String) (outcome : Outcome)
  deriving DecidableEq, Repr

/-- A structure key with what its text came to and the look-ups on the way. -/
structure Draft where
  key : String
  content : Content
  children : List (Trace Issue) := []
  deriving DecidableEq

namespace Draft

/-- The path of a section entry below a key. An entry without a name stands for
the key itself. -/
def pathBelow (key suffix : String) : String :=
  if suffix = "" then key else key ++ "/" ++ suffix

/-- The paths that a key asks to write: itself, or for a section one path for
each entry. -/
def writes (draft : Draft) : List (String × Option String) :=
  match draft.content with
  | .plain value => [(draft.key, value)]
  | .resolved _ (.text text) => [(draft.key, some text)]
  | .resolved _ (.entries entries) =>
    entries.map fun (suffix, value) => (pathBelow draft.key suffix, value)

/-- What the node of the trace tells, given the paths that were written. -/
def detail (draft : Draft) (written : List String) : Trace.Detail :=
  match draft.content with
  | .plain value => .value value
  | .resolved raw (.text text) => .multi (some raw) (some text) []
  | .resolved raw (.entries _) => .multi (some raw) none written

/-- The trace of a key, given the paths that it wrote and those that were taken
already. -/
def trace (draft : Draft) (written taken : List String) : Trace Issue where
  key := draft.key
  diagnostics := .ofIssues (taken.map .keyCollision)
  children := draft.children
  detail := draft.detail written

end Draft

/-- What became of the writes of one key: the map after them, the paths that were
written and those that were taken already. -/
structure WriteResult where
  map : ConfigMap
  written : List String
  taken : List String
  deriving DecidableEq

/-- Writes each path that is still free, one after the other. -/
def ConfigMap.writeFree (map : ConfigMap) : List (String × Option String) → WriteResult
  | [] => ⟨map, [], []⟩
  | (path, value) :: writes =>
    -- an explicit null takes a path like any other value
    if map.contains path then
      let rest := ConfigMap.writeFree map writes
      { rest with taken := path :: rest.taken }
    else
      let rest := ConfigMap.writeFree (map.insert path value) writes
      { rest with written := path :: rest.written }

/-- Serves the writes of several keys in order. -/
def CompilationResult.ofDrafts (map : ConfigMap) : List Draft → CompilationResult Issue
  | [] => { compiled := map }
  | draft :: drafts =>
    let writing := ConfigMap.writeFree map draft.writes
    let rest := CompilationResult.ofDrafts writing.map drafts
    { rest with trace := draft.trace writing.written writing.taken :: rest.trace }

/-- Resolves the text of one structure key. -/
def Context.draft (context : Context) (key : String) (value : Option String) : Draft :=
  match value with
  | none => { key, content := .plain none }
  | some text =>
    let parts := context.parse text
    if Value.references parts = [] then
      { key, content := .plain (some text) }
    else
      let finding := context.resolvePartsOf key parts
      { key, content := .resolved text finding.outcome, children := finding.children }

/-- Resolves the keys of a structure in order, each by itself. -/
def Context.drafts (context : Context) (keys : ConfigMap) : List Draft :=
  keys.entries.map fun entry => context.draft entry.1 entry.2

namespace Compiler

/-- The context of a structure in an environment. -/
def context (compiler : Compiler) (environment : ConfigMap) (vars : ConfigMap) : Context :=
  { compiler with environment, vars }

/-- Compiles a structure in an environment. -/
def compile (compiler : Compiler) (environment : Environment) (template : Structure) :
    CompilationResult Issue :=
  .ofDrafts ∅ ((compiler.context environment.keys template.vars).drafts template.keys)

end Compiler

end LayeredConfig
