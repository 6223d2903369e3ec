import LayeredConfig.KeyMap.Basic
import LayeredConfig.Text.Blank

/-!
# Environments and structures

An environment gives texts to keys. A structure lists the keys that a compiled
configuration is to have, with texts that refer to the environment, to the
variables of the structure and to secrets.

## Main definitions

* `Environment`, `Structure` — what a configuration is compiled from
* `Environment.overlay` — an environment with another map laid over its keys
-/

namespace LayeredConfig

/-- A named environment. -/
structure Environment where
  name : String
  keys : ConfigMap := ∅
  deriving DecidableEq

/-- A named structure with its variables. -/
structure Structure where
  name : String
  keys : ConfigMap := ∅
  vars : ConfigMap := ∅
  deriving DecidableEq

/-- The map that gives texts to keys; of two texts for a key the later one
counts. -/
def ConfigMap.ofPairs (pairs : List (String × String)) : ConfigMap :=
  KeyMap.ofList (pairs.map fun pair => (pair.1, some pair.2))

/-- An environment under a new name, with another map laid over its keys. -/
def Environment.overlay (environment : Environment) (name : String) (overrides : ConfigMap) :
    Environment where
  name
  keys := environment.keys.overlay overrides

/-- A name of blanks only is as good as none. -/
def isBlankName (name : String) : Bool := Text.allBlank name.toList

end LayeredConfig
