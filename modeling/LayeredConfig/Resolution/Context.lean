import LayeredConfig.Value.Parser
import LayeredConfig.Settings.Basic
import LayeredConfig.Resolution.Stack
import LayeredConfig.KeyMap.Basic

/-!
# What references are resolved against

## Main definitions

* `Compiler` — how texts are read, where secrets come from, and the settings
* `Context` — a compiler with the maps in which keys are looked up
* `Context.frameBound` — how many different frames a text can open
-/

namespace LayeredConfig

/-- How texts are read, where secrets come from, and the settings. -/
structure Compiler where
  parse : String → List Part := Value.parse
  secrets : String → Option String := fun _ => none
  settings : Settings := {}

/-- A compiler with the maps in which keys are looked up. -/
structure Context extends Compiler where
  environment : ConfigMap := ∅
  vars : ConfigMap := ∅

namespace Context

/-- The keys of a map. -/
def keys (context : Context) : Space → ConfigMap
  | .environment => context.environment
  | .vars => context.vars

/-- The references in the texts of a map. -/
def referencesIn (context : Context) (map : ConfigMap) : List Reference :=
  map.entries.flatMap fun entry =>
    match entry.2 with
    | some text => Value.references (context.parse text)
    | none => []

/-- How many different frames can be opened for a list of parts. A frame is a
key of a map or a section that some reference asks for, and since a path is only
taken relative to the key that holds the reference, no reference asks for two
sections. -/
def frameBound (context : Context) (parts : List Part) : Nat :=
  context.environment.size + context.vars.size + (Value.references parts).length +
    (context.referencesIn context.environment).length + (context.referencesIn context.vars).length

/-- How many frames may be open at a time: as many as the settings allow, and
without a limit as many as there are. -/
def room (context : Context) (parts : List Part) : Nat :=
  context.settings.depthLimit.getD (context.frameBound parts)

end Context

end LayeredConfig
