import LayeredConfig.Compilation.Compile
import LayeredConfig.Compilation.Error

/-!
# Layered compilation

An environment can be laid over a default one. Its own texts are then resolved
first, as if it were a structure, seeing its keys laid over the default ones.
What they compile to takes the place of all of its keys in the default
environment, so a key of the environment that was expanded or dropped does not
fall back to the default, and the structure is compiled in the merged
environment.

## Main definitions

* `Layered` — a compiled configuration with the trace of the layering
* `Compiler.merge` — an environment compiled into a default one
* `Compiler.compileLayered` — compiles a structure over layered environments
-/

namespace LayeredConfig

/-- A compiled configuration with the trace of the layering, which is empty
without a default environment. -/
structure Layered where
  result : CompilationResult Issue
  environmentTrace : List (Trace Issue) := []
  deriving DecidableEq

/-- Nothing was noted on any node of either trace. -/
def Layered.isClean (layered : Layered) : Bool :=
  (layered.result.trace ++ layered.environmentTrace).all Trace.isClean

namespace Compiler

/-- The compiler that reads its settings from a document. -/
def withSettingsDocument (compiler : Compiler) (document : String) :
    Except CompileError Compiler :=
  match Settings.read document with
  | .ok settings => .ok { compiler with settings }
  | .error error => .error (.settings error)

/-- Compiles the keys of an environment as they are seen over a default one. -/
def compileOver (compiler : Compiler) (base environment : Environment) (vars : ConfigMap) :
    CompilationResult Issue :=
  compiler.compile (base.overlay environment.name environment.keys)
    { name := environment.name, keys := environment.keys, vars }

/-- The default environment with what an environment compiles to in place of all
of its keys, and the trace of that. -/
def merge (compiler : Compiler) (base environment : Environment) (vars : ConfigMap) :
    Environment × List (Trace Issue) :=
  -- a key of the environment hides the default even if it compiled to something else
  let layer := compiler.compileOver base environment vars
  let hidden := base.keys.filter fun key => !environment.keys.contains key
  ({ name := environment.name, keys := hidden.overlay layer.compiled }, layer.trace)

/-- Refuses a blank name. -/
def checkName (role : NameRole) (name : String) : Except CompileError Unit :=
  if isBlankName name then .error (.blankName role) else .ok ()

/-- Compiles a structure in an environment, laid over a default one if there is
any. -/
def compileLayered (compiler : Compiler) (environment : Environment)
    (base? : Option Environment) (template : Structure) : Except CompileError Layered := do
  -- the first name that is refused decides the error
  checkName .template template.name
  checkName .environment environment.name
  match base? with
  | none => return { result := compiler.compile environment template }
  | some base =>
    checkName .defaultEnvironment base.name
    let (merged, environmentTrace) := compiler.merge base environment template.vars
    return { result := compiler.compile merged template, environmentTrace }

end Compiler

end LayeredConfig
