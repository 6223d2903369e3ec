import LayeredConfig.KeyMap.Lemmas
import LayeredConfig.Reference.Strict
import LayeredConfig.Value.Codec
import LayeredConfig.Compilation.Codec
import LayeredConfig.Workspace
import LayeredConfig.Proofs.Resolution.View
import LayeredConfig.Proofs.Resolution.Request
import LayeredConfig.Proofs.Resolution.Scene
import LayeredConfig.Proofs.Resolution.Termination
import LayeredConfig.Proofs.Resolution.Evaluation
import LayeredConfig.Proofs.Resolution.Dependency
import LayeredConfig.Proofs.Compilation.Writes
import LayeredConfig.Proofs.Compilation.Clean
import LayeredConfig.Proofs.Resolution.Acyclic
import LayeredConfig.Proofs.Compilation.Layering
import LayeredConfig.Proofs.Resolution.Cycle
import LayeredConfig.Proofs.Resolution.Lockstep
import LayeredConfig.Proofs.Compilation.Traces
import LayeredConfig.Proofs.Compilation.Cycles
import LayeredConfig.Proofs.Compilation.Inspection
import LayeredConfig.Proofs.Resolution.Settled
import LayeredConfig.Proofs.Compilation.Overlay
import LayeredConfig.Proofs.Compilation.Influence
import LayeredConfig.Proofs.Compilation.Composition
import LayeredConfig.Proofs.Compilation.Provenance
import LayeredConfig.Proofs.Text.Cutting
import LayeredConfig.Proofs.Value.Canonical
import LayeredConfig.Proofs.Compilation.Settings
import LayeredConfig.Proofs.Resolution.Replay
import LayeredConfig.Proofs.Compilation.Replay
import LayeredConfig.Proofs.Resolution.Section
import LayeredConfig.Proofs.Value.Strict
import LayeredConfig.Proofs.Compilation.Expansion
import LayeredConfig.Proofs.Json.Order
import LayeredConfig.Proofs.Json.RoundTrip
import LayeredConfig.Proofs.Resolution.Concatenation
import LayeredConfig.Proofs.Resolution.Enumeration
import LayeredConfig.Proofs.Compilation.Overriding
import LayeredConfig.Proofs.Resolution.Relocation
import LayeredConfig.Proofs.Compilation.Wording
import LayeredConfig.Proofs.Resolution.Chain
import LayeredConfig.Proofs.Compilation.Usage
import LayeredConfig.Proofs.Compilation.Null
import LayeredConfig.Proofs.Reference.Body
import LayeredConfig.Proofs.Value.Path
import LayeredConfig.Proofs.Compilation.Reports
import LayeredConfig.Proofs.Trace.Walk
import LayeredConfig.Proofs.Compilation.Summary
