import LayeredConfig.Compilation.Compile
import LayeredConfig.Compilation.Error

/-!
# Inspection of references

An inspection lists every reference that is looked up while a structure is
compiled, with the structure key from which it was reached. A reference on which
anything was noted is dangling.

## Main definitions

* `Report` — one reference that was looked up
* `Compiler.reports` — all references of a structure
* `Compiler.danglingReports`, `Compiler.reportsFor` — the dangling ones, those of one key
-/

namespace LayeredConfig

/-- One reference that was looked up. -/
structure Report where
  /-- The structure key from which the reference was reached. -/
  structureKey : String
  reference : Reference
  /-- The namespace in which the path was looked up. -/
  space : Namespace
  /-- The path that was looked up. -/
  path : String
  /-- What was noted on the look-up, warnings first. -/
  diagnostics : List Issue
  deriving DecidableEq, Repr

namespace Report

/-- Nothing was noted on the look-up. -/
def isResolved (report : Report) : Bool := report.diagnostics.isEmpty

/-- The report on a node below the trace of a structure key, if the node is a
look-up. -/
def ofNode? (structureKey : String) (node : Trace Issue) : Option Report :=
  match node.detail with
  | .key reference space _ =>
    some { structureKey, reference, space, path := node.key, diagnostics := node.diagnostics.all }
  | _ => none

/-- The reports on all look-ups of a result, in the order of its nodes. -/
def ofResult (result : CompilationResult Issue) : List Report :=
  result.trace.flatMap fun root => root.nodes.filterMap (ofNode? root.key)

end Report

namespace Compiler

/-- All references that are looked up while a structure is compiled. -/
def reports (compiler : Compiler) (environment : Environment) (template : Structure) :
    List Report :=
  Report.ofResult (compiler.compile environment template)

/-- The references on which anything was noted. -/
def danglingReports (compiler : Compiler) (environment : Environment) (template : Structure) :
    List Report :=
  (compiler.reports environment template).filter fun report => !report.isResolved

/-- The references that were reached from one structure key. -/
def reportsFor (compiler : Compiler) (environment : Environment) (template : Structure)
    (key : String) : Except CompileError (List Report) :=
  if template.keys.contains key then
    .ok ((compiler.reports environment template).filter (·.structureKey = key))
  else
    .error (.noSuchKey template.name key)

end Compiler

end LayeredConfig
