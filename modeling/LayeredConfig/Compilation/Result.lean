import LayeredConfig.KeyMap.Basic
import LayeredConfig.Trace.Basic

/-!
# Compiled configurations

A compiled configuration comes with the trace of every key of the structure.
What went wrong, how many references were looked up and which keys were used is
read off the trace.

## Main definitions

* `CompilationResult` — the compiled map and its traces
* `CompilationResult.warnings`, `CompilationResult.errors` — what was noted, with its keys
* `CompilationResult.usedKeys` — the keys that were looked up without any diagnostic
-/

namespace LayeredConfig

/-- A compiled configuration with the traces of its keys. -/
structure CompilationResult (δ : Type) where
  compiled : ConfigMap := ∅
  /-- One trace for each key of the structure, in key order. -/
  trace : List (Trace δ) := []
  deriving DecidableEq

namespace CompilationResult

variable {δ ε : Type}

/-- The compiled text at a key; a null counts as absent. -/
def find? (result : CompilationResult δ) (key : String) : Option String :=
  (result.compiled.find? key).join

/-- The first top-level trace of a key. -/
def traceOf? (result : CompilationResult δ) (key : String) : Option (Trace δ) :=
  result.trace.find? (·.key = key)

/-- All nodes of the traces, each before its children. -/
def nodes (result : CompilationResult δ) : List (Trace δ) :=
  result.trace.flatMap Trace.nodes

/-- The warnings of all nodes, each with the key of its node. -/
def warnings (result : CompilationResult δ) : List (String × δ) :=
  result.nodes.flatMap fun node => node.diagnostics.warnings.map (node.key, ·)

/-- The errors of all nodes, each with the key of its node. -/
def errors (result : CompilationResult δ) : List (String × δ) :=
  result.nodes.flatMap fun node => node.diagnostics.errors.map (node.key, ·)

/-- An error was noted on some node. -/
def hasErrors (result : CompilationResult δ) : Bool :=
  result.nodes.any fun node => !node.diagnostics.errors.isEmpty

/-- How many references were looked up. -/
def referenceCount (result : CompilationResult δ) : Nat :=
  result.nodes.countP Trace.isLookup

/-- The keys that were looked up in a namespace without any diagnostic, each
once and in key order. -/
def usedKeys (result : CompilationResult δ) (space : Namespace) : List String :=
  let used := result.nodes.filter fun node => node.looksIn space && node.diagnostics.isClean
  (KeyMap.ofList (used.map fun node => (node.key, ()))).keys

/-- The result with other diagnostics. -/
def map (f : δ → ε) (result : CompilationResult δ) : CompilationResult ε where
  compiled := result.compiled
  trace := result.trace.map (Trace.map f)

end CompilationResult

end LayeredConfig
