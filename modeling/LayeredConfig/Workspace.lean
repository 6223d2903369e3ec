import LayeredConfig.Compilation.Inspection
import LayeredConfig.Compilation.Layered

/-!
# Workspaces

A workspace holds an environment, a structure and a compiler's secrets and
settings while they are being edited, together with the result of the last
compilation. Its environment can be overlaid, and can take over what was
compiled last.

## Main definitions

* `Workspace` — what is being edited, and the last result
* `Workspace.set`, `Workspace.remove` — change one entry of one of its maps
* `Workspace.compile`, `Workspace.execute`, `Workspace.adopt` — compile, and build on the result
-/

namespace LayeredConfig

/-- The maps of a workspace. -/
inductive WorkspaceMap where
  | environment
  | keys
  | vars
  | secrets
  deriving DecidableEq, Repr

/-- What is being edited, and the last result. -/
structure Workspace where
  environment : Environment
  template : Structure
  secrets : KeyMap String := ∅
  settings : Settings := {}
  last? : Option (CompilationResult Issue) := none

namespace Workspace

/-- The compiler with the secrets and the settings of a workspace. -/
def compiler (w : Workspace) : Compiler where
  secrets := w.secrets.find?
  settings := w.settings

/-- The number of entries of a map. -/
def size (w : Workspace) : WorkspaceMap → Nat
  | .environment => w.environment.keys.size
  | .keys => w.template.keys.size
  | .vars => w.template.vars.size
  | .secrets => w.secrets.size

/-- Changes one map: a configuration map by `f`, the secrets by `g`. -/
def update (w : Workspace) (f : ConfigMap → ConfigMap) (g : KeyMap String → KeyMap String) :
    WorkspaceMap → Workspace
  | .environment => { w with environment.keys := f w.environment.keys }
  | .keys => { w with template.keys := f w.template.keys }
  | .vars => { w with template.vars := f w.template.vars }
  | .secrets => { w with secrets := g w.secrets }

/-- Puts a value at a key. A secret cannot be null, so a null removes it. -/
def set (w : Workspace) (map : WorkspaceMap) (key : String) (value : Option String) : Workspace :=
  let setSecret (secrets : KeyMap String) : KeyMap String :=
    match value with
    | some text => secrets.insert key text
    | none => secrets.erase key
  w.update (·.insert key value) setSecret map

/-- Removes the entry at a key. -/
def remove (w : Workspace) (map : WorkspaceMap) (key : String) : Workspace :=
  w.update (·.erase key) (·.erase key) map

/-- Lays a map over the environment, which takes a new name. -/
def overlay (w : Workspace) (name : String) (overrides : ConfigMap) : Workspace :=
  { w with environment := w.environment.overlay name overrides }

/-- Keeps a result as the last one. -/
def keep (w : Workspace) (result : CompilationResult Issue) : Workspace :=
  { w with last? := some result }

/-- Compiles the structure in the environment; the result is kept. -/
def compile (w : Workspace) : Workspace × CompilationResult Issue :=
  let result := w.compiler.compile w.environment w.template
  (w.keep result, result)

/-- Compiles the structure over layered environments; the result is kept. -/
def execute (w : Workspace) (base? : Option Environment) :
    Except CompileError (Workspace × Layered) := do
  let layered ← w.compiler.compileLayered w.environment base? w.template
  return (w.keep layered.result, layered)

/-- The environment takes over the keys that were compiled last. -/
def adopt (w : Workspace) : Option Workspace :=
  w.last?.map fun result => { w with environment.keys := result.compiled }

/-- The dangling references of the structure. -/
def danglingReports (w : Workspace) : List Report :=
  w.compiler.danglingReports w.environment w.template

/-- The references that are reached from one key of the structure. -/
def reportsFor (w : Workspace) (key : String) : Except CompileError (List Report) :=
  w.compiler.reportsFor w.environment w.template key

end Workspace

end LayeredConfig
