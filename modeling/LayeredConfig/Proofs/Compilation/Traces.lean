import LayeredConfig.Proofs.Compilation.Clean
import LayeredConfig.Proofs.Resolution.Cycle

/-!
# The traces of a compiled configuration

Every key of a structure has one trace, whose children are those of its text. On its top
nothing but collisions is noted, and collisions are only warnings, so all errors stand
below.

## Main results

* `Compiler.exists_traceOf?_compile` — the trace of a key holds the look-ups of its text
* `Compiler.exists_draft_or_text_of_mem_nodes` — where a node of a result stands
* `Compiler.exists_text_of_error` — an error stands among the look-ups of some text
* `Compiler.exists_cyclicReference_iff` — when a cyclic reference is reported
-/

namespace LayeredConfig

theorem Trace.mem_nodes_of_mem_children {δ : Type} {trace child node : Trace δ}
    (isChild : child ∈ trace.children) (below : node ∈ child.preorder) : node ∈ trace.nodes := by
  rw [nodes_eq_preorder]
  exact mem_preorder_of_child isChild below

namespace CompilationResult

variable {drafts : List Draft}

/-- A trace is that of a draft, whose writes are served in some map. What it writes there
stays in the result. -/
theorem exists_draft_of_mem_trace {map : ConfigMap} {trace : Trace Issue}
    (member : trace ∈ (ofDrafts map drafts).trace) :
    ∃ draft ∈ drafts, ∃ before : ConfigMap,
      trace = draft.trace (before.writeFree draft.writes).written
        (before.writeFree draft.writes).taken ∧
      ∀ path ∈ (before.writeFree draft.writes).written,
        (ofDrafts map drafts).compiled.find? path = draft.writes.lookup path := by
  induction drafts generalizing map with
  | nil => cases member
  | cons draft drafts ih =>
    rcases List.mem_cons.1 member with rfl | member
    · refine ⟨draft, List.mem_cons_self, map, rfl, fun path written => ?_⟩
      obtain ⟨asked, free⟩ := ConfigMap.mem_written_iff.1 written
      obtain ⟨value, first⟩ := Option.isSome_iff_exists.1 (ConfigMap.isSome_lookup_iff.2 asked)
      rw [find?_ofDrafts, KeyMap.contains_eq_false_iff.1 free, Draft.allWrites_cons,
        List.lookup_append, first]
      rfl
    · obtain ⟨other, isOther, before, same, stays⟩ := ih member
      exact ⟨other, List.mem_cons_of_mem _ isOther, before, same, stays⟩

theorem map_key_trace_ofDrafts (map : ConfigMap) (drafts : List Draft) :
    (ofDrafts map drafts).trace.map Trace.key = drafts.map Draft.key := by
  induction drafts generalizing map with
  | nil => rfl
  | cons draft drafts ih => exact congrArg (draft.key :: ·) (ih _)

/-- The first trace of a key is its own, as no two keys are alike. -/
theorem exists_traceOf?_ofDrafts (map : ConfigMap) {draft : Draft}
    (keys : (drafts.map Draft.key).Nodup) (member : draft ∈ drafts) :
    ∃ written taken,
      (ofDrafts map drafts).traceOf? draft.key = some (draft.trace written taken) := by
  induction drafts generalizing map with
  | nil => cases member
  | cons first drafts ih =>
    obtain ⟨different, keys⟩ := List.nodup_cons.1 keys
    rcases List.mem_cons.1 member with rfl | member
    · refine ⟨_, _, List.find?_cons_of_pos ?_⟩
      exact decide_eq_true rfl
    · obtain ⟨written, taken, found⟩ := ih _ keys member
      refine ⟨written, taken, (List.find?_cons_of_neg ?_).trans found⟩
      rw [decide_eq_true_eq]
      exact fun same => different (List.mem_map.2 ⟨draft, member, same.symm⟩)

end CompilationResult

namespace Draft

/-- Only warnings are noted on the top of a trace. -/
theorem errors_trace (draft : Draft) (written taken : List String) :
    (draft.trace written taken).diagnostics.errors = [] := by
  have warnings : ∀ issue ∈ taken.map Issue.keyCollision,
      ¬ decide (issue.severity = .error) = true := by
    intro issue member
    obtain ⟨path, -, rfl⟩ := List.mem_map.1 member
    exact Bool.false_ne_true
  exact List.filter_eq_nil_iff.2 warnings

end Draft

namespace Context

/-- The draft of a key holds the look-ups of its text. -/
theorem children_draft (context : Context) (key text : String) :
    (context.draft key (some text)).children = (context.resolveText key text).children := by
  by_cases plain : Value.references (context.parse text) = []
  · rw [children_draft_of_plain plain, resolveText, resolvePartsOf, children_resolveParts]
    rcases single_or_joined (context.parse text) with ⟨r, single⟩ | ⟨requests, -⟩
    · rw [single] at plain
      cases plain
    · rw [requests, plain, List.map_nil, List.map_nil]
  · rw [draft_of_references plain]

end Context

namespace Compiler

variable {compiler : Compiler} {environment : Environment} {template : Structure}

/-- The traces of a compiled configuration stand in key order. -/
theorem map_key_trace_compile (compiler : Compiler) (environment : Environment)
    (template : Structure) :
    (compiler.compile environment template).trace.map Trace.key = template.keys.keys := by
  rw [compile, CompilationResult.map_key_trace_ofDrafts, Context.map_key_drafts]

/-- The trace of a structure key is that of its draft. -/
theorem exists_traceOf?_draft (compiler : Compiler) (environment : Environment)
    {template : Structure} {key : String} {value : Option String}
    (atKey : template.keys.find? key = some value) :
    ∃ written taken, (compiler.compile environment template).traceOf? key =
      some (((compiler.context environment.keys template.vars).draft key value).trace
        written taken) := by
  have member : (compiler.context environment.keys template.vars).draft key value ∈
      (compiler.context environment.keys template.vars).drafts template.keys :=
    List.mem_map.2 ⟨(key, value), KeyMap.mem_entries_iff.2 atKey, rfl⟩
  obtain ⟨written, taken, found⟩ :=
    CompilationResult.exists_traceOf?_ofDrafts ∅ (Context.nodup_keys_drafts _) member
  rw [Context.key_draft] at found
  exact ⟨written, taken, found⟩

/-- The trace of a structure key has the look-ups of its text as children. -/
theorem exists_traceOf?_compile (compiler : Compiler) (environment : Environment)
    {template : Structure} {key text : String}
    (atKey : template.keys.find? key = some (some text)) :
    ∃ trace, (compiler.compile environment template).traceOf? key = some trace ∧
      trace.children =
        ((compiler.context environment.keys template.vars).resolveText key text).children := by
  obtain ⟨written, taken, found⟩ := exists_traceOf?_draft compiler environment atKey
  exact ⟨_, found, Context.children_draft _ key text⟩

/-- The look-ups of a key are nodes of the result. -/
theorem mem_nodes_of_mem_draft {entry : String × Option String} {child node : Trace Issue}
    (isEntry : entry ∈ template.keys.entries)
    (isChild : child ∈
      ((compiler.context environment.keys template.vars).draft entry.1 entry.2).children)
    (below : node ∈ child.preorder) : node ∈ (compiler.compile environment template).nodes := by
  obtain ⟨written, taken, found⟩ :=
    exists_traceOf?_draft compiler environment (KeyMap.mem_entries_iff.1 isEntry)
  exact List.mem_flatMap.2
    ⟨_, List.mem_of_find?_eq_some found, Trace.mem_nodes_of_mem_children isChild below⟩

/-- A node of the result is the top of a trace, or it stands among the look-ups of the text of
some structure key. -/
theorem exists_draft_or_text_of_mem_nodes {node : Trace Issue}
    (member : node ∈ (compiler.compile environment template).nodes) :
    (∃ (draft : Draft) (written taken : List String), node = draft.trace written taken) ∨
      ∃ key text, template.keys.find? key = some (some text) ∧
        ∃ child ∈ ((compiler.context environment.keys template.vars).resolveText key text).children,
          node ∈ child.preorder := by
  obtain ⟨trace, isTrace, below⟩ := List.mem_flatMap.1 member
  obtain ⟨draft, isDraft, before, rfl, -⟩ := CompilationResult.exists_draft_of_mem_trace isTrace
  obtain ⟨⟨key, value⟩, isEntry, rfl⟩ := List.mem_map.1 isDraft
  rw [Trace.nodes_eq_preorder, Trace.preorder_eq, List.mem_cons] at below
  rcases below with rfl | below
  · exact .inl ⟨_, _, _, rfl⟩
  · obtain ⟨child, isChild, deeper⟩ := Trace.mem_preorderAll_iff.1 below
    cases value with
    | none => cases isChild
    | some text =>
      have lookedUp : child ∈ ((compiler.context environment.keys template.vars).draft key
        (some text)).children := isChild
      rw [Context.children_draft] at lookedUp
      exact .inr ⟨key, text, KeyMap.mem_entries_iff.1 isEntry, child, lookedUp, deeper⟩

/-- An error stands among the look-ups of the text of some structure key. -/
theorem exists_text_of_error {node : Trace Issue} {issue : Issue}
    (member : node ∈ (compiler.compile environment template).nodes)
    (noted : issue ∈ node.diagnostics.errors) :
    ∃ key text, template.keys.find? key = some (some text) ∧
      ∃ child ∈ ((compiler.context environment.keys template.vars).resolveText key text).children,
        node ∈ child.preorder := by
  obtain ⟨draft, written, taken, rfl⟩ | below := exists_draft_or_text_of_mem_nodes member
  · -- the top itself has no errors
    rw [Draft.errors_trace] at noted
    cases noted
  · exact below

/-- A cyclic reference is reported iff one is noted among the look-ups of some text. -/
theorem exists_cyclicReference_iff :
    (∃ node ∈ (compiler.compile environment template).nodes,
      ∃ path, .cyclicReference path ∈ node.diagnostics.errors) ↔
    ∃ key text, template.keys.find? key = some (some text) ∧
      (compiler.context environment.keys template.vars).ReportsCycle key
        (compiler.parse text) := by
  constructor
  · rintro ⟨node, member, path, noted⟩
    obtain ⟨key, text, atKey, child, isChild, below⟩ := exists_text_of_error member noted
    exact ⟨key, text, atKey, child, isChild, node, below, path, noted⟩
  · rintro ⟨key, text, atKey, child, isChild, node, below, path, noted⟩
    refine ⟨node, mem_nodes_of_mem_draft (KeyMap.mem_entries_iff.2 atKey) ?_ below, path, noted⟩
    rw [Context.children_draft]
    exact isChild

end Compiler

end LayeredConfig
