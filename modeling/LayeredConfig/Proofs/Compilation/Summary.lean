import LayeredConfig.Proofs.Trace.Walk
import LayeredConfig.Proofs.Compilation.Layering
import LayeredConfig.Proofs.Compilation.Usage

/-!
# Summaries of a trace

What is told of a compilation as a whole, its warnings and errors, how many references were
looked up, which keys were used and whether anything was noted at all, is read off a walk over
its traces. As a walk comes to each place of a trace once, nothing that was noted anywhere is
missing from a summary or stands in it twice.

## Main definitions

* `CompilationResult.SummarisesNodes` — the summaries of a result tell what its nodes do
* `Layered.layering` — the layering of the environments as a result of its own
* `Compiler.firstPass` — the pass over the environment before that over the structure

## Main results

* `CompilationResult.summarisesNodes` — all results are summarised by their nodes
* `Layered.isClean_iff_reports_nothing` — a compilation is clean iff no pass reports anything
* `Compiler.summaries_follow_preorder` — walks, summaries and cleanness together
-/

namespace LayeredConfig

namespace CompilationResult

variable {δ : Type}

/-- The summaries of a result tell what its nodes do, in preorder. -/
structure SummarisesNodes (result : CompilationResult δ) : Prop where
  warnings : result.warnings =
    (Trace.preorderAll result.trace).flatMap fun node => node.diagnostics.warnings.map (node.key, ·)
  errors : result.errors =
    (Trace.preorderAll result.trace).flatMap fun node => node.diagnostics.errors.map (node.key, ·)
  hasErrors : result.hasErrors = true ↔ result.errors ≠ []
  referenceCount :
    result.referenceCount = (Trace.preorderAll result.trace).countP Trace.isLookup
  usedKeys : ∀ space path, path ∈ result.usedKeys space ↔
    ∃ node ∈ Trace.preorderAll result.trace,
      node.looksIn space = true ∧ node.diagnostics.isClean = true ∧ node.key = path

theorem nodes_eq_preorderAll (result : CompilationResult δ) :
    result.nodes = Trace.preorderAll result.trace := by
  rw [nodes, Trace.preorderAll_eq_flatMap, funext Trace.nodes_eq_preorder]

theorem hasErrors_iff (result : CompilationResult δ) :
    result.hasErrors = true ↔ result.errors ≠ [] := by
  simp [hasErrors, errors]

theorem summarisesNodes (result : CompilationResult δ) : result.SummarisesNodes where
  warnings := by rw [CompilationResult.warnings, nodes_eq_preorderAll]
  errors := by rw [CompilationResult.errors, nodes_eq_preorderAll]
  hasErrors := hasErrors_iff result
  referenceCount := by rw [CompilationResult.referenceCount, nodes_eq_preorderAll]
  usedKeys space path := by rw [mem_usedKeys_iff, nodes_eq_preorderAll]

end CompilationResult

namespace Layered

/-- The layering of the environments, as a result that writes nothing. -/
def layering (layered : Layered) : CompilationResult Issue := { trace := layered.environmentTrace }

/-- A compilation is clean iff neither the structure nor the layering reports anything. -/
theorem isClean_iff_reports_nothing (layered : Layered) :
    layered.isClean = true ↔
      (layered.result.warnings = [] ∧ layered.result.errors = []) ∧
        layered.layering.warnings = [] ∧ layered.layering.errors = [] := by
  rw [CompilationResult.reports_nothing_iff, CompilationResult.reports_nothing_iff, isClean,
    List.all_append, Bool.and_eq_true]
  rfl

end Layered

theorem exists_of_bind_eq_ok {ε α β : Type} {x : Except ε α} {f : α → Except ε β} {b : β}
    (ran : x >>= f = .ok b) : ∃ a, x = .ok a ∧ f a = .ok b := by
  cases x with
  | error e => cases ran
  | ok a => exact ⟨a, rfl, ran⟩

namespace Compiler

/-- The first pass over an environment, which writes nothing without a default one. -/
def firstPass (compiler : Compiler) (environment : Environment) (base? : Option Environment)
    (template : Structure) : CompilationResult Issue :=
  match base? with
  | none => {}
  | some base => compiler.compileOver base environment template.vars

/-- A compilation keeps the trace of its first pass. -/
theorem environmentTrace_of_compileLayered {compiler : Compiler} {environment : Environment}
    {base? : Option Environment} {template : Structure} {layered : Layered}
    (ran : compiler.compileLayered environment base? template = .ok layered) :
    layered.environmentTrace = (compiler.firstPass environment base? template).trace := by
  obtain ⟨_, -, ran⟩ := exists_of_bind_eq_ok ran
  obtain ⟨_, -, ran⟩ := exists_of_bind_eq_ok ran
  cases base? with
  | none =>
    cases ran
    rfl
  | some base =>
    obtain ⟨_, -, ran⟩ := exists_of_bind_eq_ok ran
    cases ran
    rfl

/-- A walk over a trace comes to each of its places once and in preorder, and all summaries of
a result follow it. A layered compilation keeps the trace of its first pass, and it counts as
clean iff there are neither warnings nor errors in its result and in that trace. -/
theorem summaries_follow_preorder :
    (∀ (δ : Type) (trace : Trace δ), trace.WalkedOnce ∧
      (trace.isClean = true ↔
        ∀ place node, trace.nodeAt? place = some node → node.diagnostics.isClean = true)) ∧
    (∀ (δ : Type) (result : CompilationResult δ), result.SummarisesNodes) ∧
    ∀ (compiler : Compiler) (environment : Environment) (base? : Option Environment)
      (template : Structure) (layered : Layered),
      compiler.compileLayered environment base? template = .ok layered →
      layered.environmentTrace = (compiler.firstPass environment base? template).trace ∧
      (layered.isClean = true ↔
        (layered.result.warnings = [] ∧ layered.result.errors = []) ∧
          layered.layering.warnings = [] ∧ layered.layering.errors = []) := by
  refine ⟨fun δ trace => ⟨trace.walkedOnce, trace.isClean_iff_places⟩,
    fun δ result => result.summarisesNodes, ?_⟩
  intro compiler environment base? template layered ran
  exact ⟨environmentTrace_of_compileLayered ran, layered.isClean_iff_reports_nothing⟩

/-- An environment with a key that refers to nothing, reached through another key. -/
def danglingLayer : Environment where
  name := "dev"
  keys := .ofPairs [("T", "<{{U}}>"), ("U", "{{lost}}")]

/-- A structure with a key that refers to both layers. -/
def danglingUser : Structure := { name := "app", keys := .ofPairs [("K", "{{T}} {{A}}")] }

/-- The first pass reports the missing key below each of the keys that lead to it. The
structure sees only the texts that are left, so it reports nothing. -/
theorem summaries_follow_preorder_dangling :
    ∃ layered,
      ({} : Compiler).compileLayered danglingLayer (some baseLayer) danglingUser = .ok layered ∧
      layered.isClean = false ∧
      layered.result.warnings = [] ∧ layered.result.errors = [] ∧
      layered.layering.warnings =
        [("lost", .missingKey "environment" "lost"), ("lost", .missingKey "environment" "lost")] ∧
      layered.layering.errors = [] := by
  have ran : ({} : Compiler).compileLayered danglingLayer (some baseLayer) danglingUser = .ok _ :=
    compileLayered_eq_ok _ (by decide +kernel) (by decide +kernel) (by decide +kernel)
  obtain ⟨traced, clean⟩ := summaries_follow_preorder.2.2 {} danglingLayer (some baseLayer)
    danglingUser _ ran
  have reported : (({} : Compiler).firstPass danglingLayer (some baseLayer) danglingUser).warnings =
      [("lost", .missingKey "environment" "lost"),
        ("lost", .missingKey "environment" "lost")] := by
    decide +kernel
  refine ⟨_, ran, Bool.eq_false_iff.2 fun isClean => ?_, by decide +kernel, by decide +kernel,
    reported, by decide +kernel⟩
  have nothing := (clean.1 isClean).2.1
  rw [Layered.layering, traced] at nothing
  exact List.cons_ne_nil _ _ (reported.symm.trans nothing)

end Compiler

end LayeredConfig
