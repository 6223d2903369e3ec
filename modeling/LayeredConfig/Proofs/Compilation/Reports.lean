import LayeredConfig.Compilation.Inspection
import LayeredConfig.Proofs.Compilation.Composition

/-!
# Inspection key by key

The reports on a structure are those on its single keys, one key after the other. What became
of the writes of a key stands on the top of its trace, which is no look-up, so the other keys
of the structure do not show in its reports.

## Main definitions

* `Draft.reports` — the reports on the look-ups of one key

## Main results

* `Report.ofResult_ofDrafts` — a result is reported on draft by draft
* `Compiler.reports_only` — the reports on a key are those on the structure with this key only
* `Compiler.inspection_partitions` — the reports on a structure and on its keys
-/

namespace LayeredConfig

theorem mapM_eq_ok {α β ε : Type} {f : α → Except ε β} {g : α → β} {l : List α}
    (each : ∀ a ∈ l, f a = .ok (g a)) : l.mapM f = .ok (l.map g) := by
  induction l with
  | nil => rfl
  | cons a l ih =>
    obtain ⟨first, rest⟩ := List.forall_mem_cons.1 each
    rw [List.mapM_cons, first, ih rest]
    rfl

/-- The reports on the look-ups of one key. -/
def Draft.reports (draft : Draft) : List Report :=
  (Trace.preorderAll draft.children).filterMap (Report.ofNode? draft.key)

namespace Report

variable {draft : Draft} {report : Report}

theorem isSome_ofNode? (key : String) (node : Trace Issue) :
    (ofNode? key node).isSome = node.isLookup := by
  simp only [ofNode?, Trace.isLookup]
  cases node.detail <;> rfl

/-- The top of the trace of a key is no look-up, whatever was written. -/
theorem ofNode?_trace (key : String) (draft : Draft) (written taken : List String) :
    ofNode? key (draft.trace written taken) = none := by
  obtain ⟨key, value | ⟨raw, text | entries⟩, children⟩ := draft <;> rfl

/-- A result is reported on draft by draft, however the writes were served. -/
theorem ofResult_ofDrafts (map : ConfigMap) (drafts : List Draft) :
    ofResult (.ofDrafts map drafts) = drafts.flatMap Draft.reports := by
  -- which writes of a draft are served depends on the map so far, its look-ups do not
  induction drafts generalizing map with
  | nil => rfl
  | cons draft drafts ih =>
    have served := ih (map.writeFree draft.writes).map
    rw [List.flatMap_cons, ← served]
    simp only [ofResult, CompilationResult.ofDrafts, List.flatMap_cons, Trace.nodes_eq_preorder,
      Trace.preorder_eq, List.filterMap_cons, ofNode?_trace]
    rfl

theorem structureKey_of_mem_reports (member : report ∈ draft.reports) :
    report.structureKey = draft.key := by
  obtain ⟨node, -, isReport⟩ := List.mem_filterMap.1 member
  unfold ofNode? at isReport
  split at isReport
  · cases isReport
    rfl
  · cases isReport

/-- The reports on a key are those on its drafts. -/
theorem filter_flatMap_reports (drafts : List Draft) (key : String) :
    (drafts.flatMap Draft.reports).filter (·.structureKey = key) =
      (drafts.filter (·.key = key)).flatMap Draft.reports := by
  induction drafts with
  | nil => rfl
  | cons draft drafts ih =>
    rw [List.flatMap_cons, List.filter_append, ih, List.filter_cons]
    by_cases same : draft.key = key
    · have all : draft.reports.filter (·.structureKey = key) = draft.reports :=
        List.filter_eq_self.2 fun report member =>
          decide_eq_true ((structureKey_of_mem_reports member).trans same)
      rw [all, if_pos (decide_eq_true same), List.flatMap_cons]
    · have none : draft.reports.filter (·.structureKey = key) = [] :=
        List.filter_eq_nil_iff.2 fun report member isKey =>
          same ((structureKey_of_mem_reports member).symm.trans (of_decide_eq_true isKey))
      rw [none, if_neg (by simpa using same), List.nil_append]

/-- Each look-up is reported on once. -/
theorem length_ofResult (result : CompilationResult Issue) :
    (ofResult result).length = result.referenceCount := by
  simp only [ofResult, CompilationResult.referenceCount, CompilationResult.nodes,
    List.length_flatMap, List.countP_flatMap, List.length_filterMap_eq_countP, isSome_ofNode?]
  rfl

end Report

theorem Context.filter_drafts (context : Context) (keys : ConfigMap) (key : String) :
    (context.drafts keys).filter (·.key = key) =
      context.drafts (keys.filter fun other => other = key) := by
  simp only [drafts, List.filter_map, Function.comp_def, key_draft]
  rfl

namespace Compiler

theorem reports_eq_flatMap (compiler : Compiler) (environment : Environment)
    (template : Structure) : compiler.reports environment template =
      ((compiler.context environment.keys template.vars).drafts template.keys).flatMap
        Draft.reports :=
  Report.ofResult_ofDrafts _ _

/-- The reports on a key are those on the structure with this key only. -/
theorem reports_only (compiler : Compiler) (environment : Environment) (template : Structure)
    (key : String) : compiler.reports environment (template.only key) =
      (compiler.reports environment template).filter (·.structureKey = key) := by
  rw [reports_eq_flatMap, reports_eq_flatMap, Report.filter_flatMap_reports,
    Context.filter_drafts]
  rfl

/-- An inspection of a key lists what an inspection of the structure with this key only does,
and there is nothing to inspect without the key. -/
theorem reportsFor_eq (compiler : Compiler) (environment : Environment) (template : Structure)
    (key : String) : compiler.reportsFor environment template key =
      if template.keys.contains key then .ok (compiler.reports environment (template.only key))
      else .error (.noSuchKey template.name key) := by
  rw [reports_only]
  rfl

/-- The reports on a structure are those on its keys in order. -/
theorem reports_eq_flatMap_only (compiler : Compiler) (environment : Environment)
    (template : Structure) : compiler.reports environment template =
      template.keys.keys.flatMap fun key => compiler.reports environment (template.only key) := by
  rw [reports_eq_flatMap, Context.drafts, KeyMap.keys, List.flatMap_map, List.flatMap_map]
  refine List.flatMap_congr fun entry isEntry => ?_
  rw [reports, compile_only compiler environment (KeyMap.mem_entries_iff.1 isEntry),
    Report.ofResult_ofDrafts, List.flatMap_singleton]

/-- The reports on a structure fall into those on its keys, in key order, and there are as many
of them as look-ups. The reports on a key are all reports on the structure with this key only,
and a key that the structure does not have is refused. -/
theorem inspection_partitions (compiler : Compiler) (environment : Environment)
    (template : Structure) :
    List.flatten <$> template.keys.keys.mapM (compiler.reportsFor environment template) =
        .ok (compiler.reports environment template) ∧
      (compiler.reports environment template).length =
        (compiler.compile environment template).referenceCount ∧
      ∀ key, compiler.reportsFor environment template key =
        if template.keys.contains key then
          .ok (compiler.reports environment (template.only key))
        else .error (.noSuchKey template.name key) := by
  refine ⟨?_, Report.length_ofResult _, reportsFor_eq compiler environment template⟩
  have each : ∀ key ∈ template.keys.keys, compiler.reportsFor environment template key =
      .ok (compiler.reports environment (template.only key)) := fun key isKey => by
    rw [reportsFor_eq, if_pos (KeyMap.mem_keys_iff.1 isKey)]
  rw [mapM_eq_ok each, reports_eq_flatMap_only, List.flatMap_def]
  rfl

end Compiler

end LayeredConfig
