import LayeredConfig.Proofs.Resolution.Acyclic
import LayeredConfig.Proofs.Compilation.Traces

/-!
# Cycles in a compiled configuration

Compilation reports every cycle that the texts of the structure lead into. The other way
round, a cyclic reference is reported without any cycle exactly where a section matches a
key that is spelled like the section itself, since the two share one frame.

## Main results

* `Compiler.compile_reports_reachable_cycle` — every cycle that is led into is reported
* `Compiler.compile_reports_no_cycle_iff` — when nothing is reported where there is no cycle
* `Compiler.compile_reports_false_cycle` — a cyclic reference that is reported without a cycle
-/

namespace LayeredConfig.Compiler

/-! ## Every cycle is reported -/

/-- Without a limit, if the text of a structure key leads into a cycle, a cyclic reference
is noted in the trace of that key. -/
theorem compile_reports_reachable_cycle (compiler : Compiler) (environment : Environment)
    (template : Structure) (unlimited : compiler.settings.depthLimit = none) (key text : String)
    (atKey : template.keys.find? key = some (some text)) (turn : Place)
    (toTurn : Relation.ReflTransGen
      (compiler.context environment.keys template.vars).Leads (.root key text) turn)
    (cycle : Relation.TransGen
      (compiler.context environment.keys template.vars).Leads turn turn) :
    ∃ trace, (compiler.compile environment template).traceOf? key = some trace ∧
      ∃ node ∈ trace.nodes, ∃ path, .cyclicReference path ∈ node.diagnostics.errors := by
  obtain ⟨trace, found, children⟩ := exists_traceOf?_compile compiler environment atKey
  -- the run of the text comes back to an open frame, and the refusal is noted below its key
  have comesBack := Context.comesBack_of_cycle unlimited toTurn cycle
  obtain ⟨child, isChild, node, below, path, noted⟩ := Context.reportsCycle_iff.2 comesBack
  have isChild : child ∈ trace.children := by
    rw [children]
    exact isChild
  exact ⟨trace, found, node, Trace.mem_nodes_of_mem_children isChild below, path, noted⟩

/-- Two keys of an environment that refer to each other. -/
def pairLayer : Environment :=
  { name := "dev", keys := .ofPairs [("A", "{{B}}"), ("B", "x{{$this/A}}")] }

/-- A structure with a key that refers to one of them. -/
def pairUser : Structure := { name := "app", keys := .ofPairs [("K", "{{A}}!")] }

/-- What the structure is compiled against. -/
def pairContext : Context := ({} : Compiler).context pairLayer.keys pairUser.vars

theorem leads_pair :
    pairContext.Leads (.root "K" "{{A}}!") (.key .environment "A") ∧
    pairContext.Leads (.key .environment "A") (.key .environment "B") ∧
    pairContext.Leads (.key .environment "B") (.key .environment "A") := by
  have foundA : (pairContext.keys .environment).find? "A" = some (some "{{B}}") := by
    decide +kernel
  have foundB : (pairContext.keys .environment).find? "B" = some (some "x{{$this/A}}") := by
    decide +kernel
  have atA : pairContext.textAt (.key .environment "A") = some "{{B}}" := by
    rw [Context.textAt, foundA, Option.join_some]
  have atB : pairContext.textAt (.key .environment "B") = some "x{{$this/A}}" := by
    rw [Context.textAt, foundB, Option.join_some]
  refine ⟨.toKey (r := .ofPath "A") rfl ?_ ?_ ?_ foundA ?_,
    .toKey (r := .ofPath "B") atA ?_ ?_ ?_ foundB ?_,
    .toKey (r := .ofPath "$this/A") atB ?_ ?_ ?_ foundA ?_⟩ <;> decide +kernel

/-- The cycle of the two keys is reported for the key that leads into it. -/
theorem compile_reports_cycle_pair :
    ∃ trace, (({} : Compiler).compile pairLayer pairUser).traceOf? "K" = some trace ∧
      ∃ node ∈ trace.nodes, ∃ path, .cyclicReference path ∈ node.diagnostics.errors := by
  obtain ⟨enters, onward, back⟩ := leads_pair
  exact compile_reports_reachable_cycle {} pairLayer pairUser rfl "K" "{{A}}!" (by decide +kernel)
    (.key .environment "A") (.single enters) (.head onward (.single back))

/-! ## Without a cycle -/

/-- Without a limit, if no cycle of dependencies can be reached from the texts of the
structure, no cyclic reference is reported unless a section that one of them leads to
matches a key that is spelled like the section itself. -/
theorem compile_reports_no_cycle_iff (compiler : Compiler) (environment : Environment)
    (template : Structure) (unlimited : compiler.settings.depthLimit = none)
    (acyclic : ∀ key text, template.keys.find? key = some (some text) →
      (compiler.context environment.keys template.vars).AcyclicFrom (.root key text)) :
    (∀ node ∈ (compiler.compile environment template).nodes,
      ∀ path, .cyclicReference path ∉ node.diagnostics.errors) ↔
    ∀ key text, template.keys.find? key = some (some text) →
      ¬ (compiler.context environment.keys template.vars).NameClash (.root key text) := by
  have clash : ∀ key text, template.keys.find? key = some (some text) →
      ((compiler.context environment.keys template.vars).ReportsCycle key (compiler.parse text) ↔
        (compiler.context environment.keys template.vars).NameClash (.root key text)) :=
    fun key text atKey => Context.reportsCycle_iff.trans
      (Context.comesBack_iff_of_acyclicFrom unlimited (acyclic key text atKey))
  -- what is reported for a key is decided by the run of its text alone
  constructor
  · intro silent key text atKey clashes
    obtain ⟨node, member, path, noted⟩ :=
      exists_cyclicReference_iff.2 ⟨key, text, atKey, (clash key text atKey).2 clashes⟩
    exact silent node member path noted
  · intro apart node member path noted
    obtain ⟨key, text, atKey, reports⟩ := exists_cyclicReference_iff.1 ⟨node, member, path, noted⟩
    exact apart key text atKey ((clash key text atKey).1 reports)

/-- An environment with a list that stands for a section. -/
def listLayer : Environment := { name := "dev", keys := Context.databaseList.environment }

/-- A structure with a key that refers to the list. -/
def listUser : Structure := { name := "app", keys := .ofPairs [("K", "{{list}}")] }

/-- No key of the environment is spelled like a section, so nothing stops the expansion of
the list. -/
theorem compile_reports_no_cycle_list :
    (({} : Compiler).compile listLayer listUser).compiled = .ofPairs [("K/host", "localhost")] ∧
    ∀ node ∈ (({} : Compiler).compile listLayer listUser).nodes,
      ∀ path, .cyclicReference path ∉ node.diagnostics.errors := by
  refine ⟨by decide +kernel, ?_⟩
  have acyclic : ∀ key text, listUser.keys.find? key = some (some text) →
      (({} : Compiler).context listLayer.keys listUser.vars).AcyclicFrom (.root key text) :=
    fun _ _ _ place _ => Context.acyclic_databaseList.not_transGen place
  refine (compile_reports_no_cycle_iff {} listLayer listUser rfl acyclic).2 fun key text _ => ?_
  exact Context.starless_databaseList.not_nameClash _

/-- An environment in which a key is spelled like the section that it belongs to. -/
def starLayer : Environment :=
  { name := "dev", keys := .ofPairs [("a/*", "{{x}}"), ("x", "1")] }

/-- A structure with a key that asks for the section. -/
def starUser : Structure := { name := "app", keys := .ofPairs [("K", "{{a/*}}")] }

/-- What the structure is compiled against. -/
def starContext : Context := ({} : Compiler).context starLayer.keys starUser.vars

/-- The section ranks above its key, and that key above the one it refers to. -/
def starRank (_ : Space) : Query → Nat
  | .all _ => 2
  | .key name => if name = "a/*" then 1 else 0

theorem acyclic_starContext : starContext.Acyclic starRank := by
  refine Context.acyclic_of_ranksReferences (by decide +kernel) ?_
  intro space wildcard entry member
  simp only [starRank]
  split <;> omega

/-- The section leads to its key and the key to another one, so there is no cycle. The key
is refused all the same, as its frame is the one of the section. -/
theorem compile_reports_false_cycle :
    ({} : Compiler).settings.depthLimit = none ∧
    (∀ key text, starUser.keys.find? key = some (some text) →
      (({} : Compiler).context starLayer.keys starUser.vars).AcyclicFrom (.root key text)) ∧
    (({} : Compiler).compile starLayer starUser).compiled.find? "K/*" = some (some "") ∧
    ∃ node ∈ (({} : Compiler).compile starLayer starUser).nodes,
      .cyclicReference "a/*" ∈ node.diagnostics.errors := by
  refine ⟨rfl, ?_, by decide +kernel, ?_⟩
  · intro key text _ place _
    exact acyclic_starContext.not_transGen place
  · have noted : (({} : Compiler).compile starLayer starUser).nodes.any
        (fun node => .cyclicReference "a/*" ∈ node.diagnostics.errors) = true := by
      decide +kernel
    obtain ⟨node, member, noted⟩ := List.any_eq_true.1 noted
    exact ⟨node, member, of_decide_eq_true noted⟩

end LayeredConfig.Compiler
