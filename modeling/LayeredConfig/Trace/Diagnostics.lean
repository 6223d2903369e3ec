import LayeredConfig.Trace.Issue

/-!
# Diagnostics

A node of a trace keeps its warnings and its errors apart, each in the order in
which they were noted. While a configuration is compiled they are issues; in a
stored trace they are messages.

## Main definitions

* `Diagnostics` — warnings and errors
* `Diagnostics.record` — notes one more issue by its severity
-/

namespace LayeredConfig

/-- Warnings and errors, each in the order in which they were noted. -/
structure Diagnostics (δ : Type) where
  warnings : List δ := []
  errors : List δ := []
  deriving DecidableEq, Repr

namespace Diagnostics

variable {δ ε : Type}

/-- Notes one more warning or error. -/
def add (diagnostics : Diagnostics δ) (severity : Severity) (diagnostic : δ) : Diagnostics δ :=
  match severity with
  | .warning => { diagnostics with warnings := diagnostics.warnings ++ [diagnostic] }
  | .error => { diagnostics with errors := diagnostics.errors ++ [diagnostic] }

/-- Issues sorted by their severity, each kind in the order given. -/
def ofIssues (issues : List Issue) : Diagnostics Issue where
  warnings := issues.filter (·.severity = .warning)
  errors := issues.filter (·.severity = .error)

/-- The message of an issue noted by its severity. -/
def record (diagnostics : Diagnostics String) (issue : Issue) : Diagnostics String :=
  diagnostics.add issue.severity issue.message

/-- Warnings and errors together, warnings first. -/
def all (diagnostics : Diagnostics δ) : List δ :=
  diagnostics.warnings ++ diagnostics.errors

/-- Nothing was noted. -/
def isClean (diagnostics : Diagnostics δ) : Bool :=
  diagnostics.warnings.isEmpty && diagnostics.errors.isEmpty

/-- The diagnostics under a function. -/
def map (f : δ → ε) (diagnostics : Diagnostics δ) : Diagnostics ε where
  warnings := diagnostics.warnings.map f
  errors := diagnostics.errors.map f

theorem isClean_iff {diagnostics : Diagnostics δ} :
    diagnostics.isClean = true ↔ diagnostics.warnings = [] ∧ diagnostics.errors = [] := by
  simp [isClean]

theorem ofIssues_append_singleton (issues : List Issue) (issue : Issue) :
    ofIssues (issues ++ [issue]) = (ofIssues issues).add issue.severity issue := by
  cases h : issue.severity <;> simp [ofIssues, add, h]

end Diagnostics

end LayeredConfig
