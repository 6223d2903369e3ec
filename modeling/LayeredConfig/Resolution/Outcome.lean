import LayeredConfig.Resolution.Query
import LayeredConfig.Trace.Basic

/-!
# Outcomes

A text or a reference comes to a text or, if it stands for a section as a whole,
to the entries of that section.

## Main definitions

* `Outcome` — what a text or a reference comes to
* `Outcome.entriesUnder` — the entries that an outcome gives under a name
* `Finding` — an outcome with what belongs on its node of the trace
-/

namespace LayeredConfig

/-- The entries of an expanded section: names inside the section with their
texts. Nulls of the section stay null. -/
abbrev SectionEntries := List (String × Option String)

/-- What a text or a reference comes to. -/
inductive Outcome where
  /-- A text. -/
  | text (text : String)
  /-- A section that takes the place of the key holding the reference. -/
  | entries (entries : SectionEntries)
  deriving DecidableEq, Repr

namespace Outcome

/-- The text, unless the outcome is a section. -/
def text? : Outcome → Option String
  | text t => some t
  | entries _ => none

/-- The entries that an outcome gives under a name: a text is one entry of that
name, and the names inside a section are appended to it. -/
def entriesUnder (name : String) : Outcome → SectionEntries
  | text t => [(name, some t)]
  | entries es => es.map fun (inner, value) => (joinSuffix name inner, value)

/-- The names under which the entries of a section are given; a text needs
none. -/
def namesUnder (name : String) : Outcome → List String
  | text _ => []
  | entries es => es.map fun (inner, _) => joinSuffix name inner

end Outcome

/-- An outcome with what belongs on its node of the trace. -/
structure Finding where
  outcome : Outcome
  /-- The issues in the order in which they came up. -/
  issues : List Issue := []
  children : List (Trace Issue) := []
  deriving DecidableEq

namespace Finding

/-- An issue leaves an empty text. -/
def fault (issue : Issue) : Finding where
  outcome := .text ""
  issues := [issue]

/-- The finding with an issue that came up before all others. -/
def after (finding : Finding) (issue : Issue) : Finding :=
  { finding with issues := issue :: finding.issues }

/-- The node of the trace for a finding about a key. -/
def trace (finding : Finding) (key : String) (detail : Trace.Detail) : Trace Issue where
  key
  diagnostics := .ofIssues finding.issues
  children := finding.children
  detail

end Finding

end LayeredConfig
