import LayeredConfig.Proofs.Compilation.Writes

/-!
# What a clean compilation says

Compilation reports a warning or an error for everything that strict evaluation would
stop at, and for nothing else but collisions. A result without either is therefore the
result that strict evaluation gives.

## Main definitions

* `Context.evaluateStructure` — the writes of a structure under strict evaluation

## Main results

* `Compiler.compile_reports_nothing_iff` — when nothing is reported, and what then is written
-/

namespace LayeredConfig

/-- The writes of a key whose text comes to an outcome. -/
def Outcome.writesAt (key : String) : Outcome → List (String × Option String)
  | text t => [(key, some t)]
  | entries es => es.map fun (suffix, value) => (Draft.pathBelow key suffix, value)

namespace Context

/-- The writes of one key of a structure under strict evaluation. -/
def strictWrites (context : Context) (entry : String × Option String) :
    Option (List (String × Option String)) :=
  match entry.2 with
  | none => some [(entry.1, none)]
  | some text =>
    if Value.references (context.parse text) = [] then
      some [(entry.1, some text)]
    else
      (context.evaluateText entry.1 text).map (Outcome.writesAt entry.1)

/-- The writes of all keys of a structure under strict evaluation, which fails as a whole
if one of the keys does. -/
def evaluateStructure (context : Context) (keys : ConfigMap) :
    Option (List (String × Option String)) :=
  (keys.entries.mapM context.strictWrites).map List.flatten

variable {context : Context} {keys : ConfigMap}

theorem draft_of_references {key text : String}
    (references : Value.references (context.parse text) ≠ []) :
    context.draft key (some text) =
      { key
        content := .resolved text (context.resolveText key text).outcome
        children := (context.resolveText key text).children } := by
  simp only [draft, references, if_false]
  rfl

theorem children_draft_of_plain {key text : String}
    (plain : Value.references (context.parse text) = []) :
    context.draft key (some text) = { key, content := .plain (some text) } := by
  simp only [draft, plain, if_true]

@[simp] theorem key_draft (key : String) (value : Option String) :
    (context.draft key value).key = key := by
  cases value with
  | none => rfl
  | some text =>
    simp only [draft]
    split <;> rfl

theorem map_key_drafts (keys : ConfigMap) : (context.drafts keys).map Draft.key = keys.keys := by
  rw [drafts, List.map_map, Function.comp_def]
  simp only [key_draft]
  rfl

theorem nodup_keys_drafts (keys : ConfigMap) : ((context.drafts keys).map Draft.key).Nodup := by
  rw [map_key_drafts]
  exact keys.nodup_keys

theorem strictWrites_eq (entry : String × Option String) :
    context.strictWrites entry =
      if (context.draft entry.1 entry.2).children.all Trace.isClean = true then
        some (context.draft entry.1 entry.2).writes
      else
        none := by
  obtain ⟨key, _ | text⟩ := entry
  · rfl
  · by_cases plain : Value.references (context.parse text) = []
    · simp only [strictWrites, plain, if_true, children_draft_of_plain plain]
      rfl
    · simp only [strictWrites, plain, if_false, draft_of_references plain, evaluateText_eq]
      by_cases clean : (context.resolveText key text).children.all Trace.isClean = true
      · rw [if_pos clean, if_pos clean, Option.map_some]
        cases comesTo : (context.resolveText key text).outcome <;> rfl
      · rw [if_neg clean, if_neg clean, Option.map_none]

theorem evaluateStructure_eq (keys : ConfigMap) :
    context.evaluateStructure keys =
      if (context.drafts keys).all (fun draft => draft.children.all Trace.isClean) = true then
        some (Draft.allWrites (context.drafts keys))
      else
        none := by
  have writes : context.strictWrites = fun entry =>
      if (context.draft entry.1 entry.2).children.all Trace.isClean = true then
        some (context.draft entry.1 entry.2).writes
      else
        none := funext strictWrites_eq
  simp only [evaluateStructure, writes, drafts, List.all_map, Draft.allWrites, List.flatMap_def,
    List.map_map, Function.comp_def,
    mapM_ite fun entry : String × Option String =>
      (context.draft entry.1 entry.2).children.all Trace.isClean]
  exact apply_ite (Option.map List.flatten) _ _ _

/-- The look-ups of all keys are clean iff strict evaluation succeeds for every key with
references in its text. -/
theorem drafts_clean_iff (keys : ConfigMap) :
    (∀ draft ∈ context.drafts keys, draft.children.all Trace.isClean = true) ↔
      ∀ key text, keys.find? key = some (some text) →
        Value.references (context.parse text) ≠ [] →
          (context.evaluateText key text).isSome = true := by
  constructor
  · intro clean key text found references
    have member : context.draft key (some text) ∈ context.drafts keys :=
      List.mem_map.2 ⟨(key, some text), KeyMap.mem_entries_iff.2 found, rfl⟩
    have clean := clean _ member
    rw [draft_of_references references] at clean
    rw [evaluateText_eq, if_pos clean]
    rfl
  · intro succeeds draft member
    obtain ⟨⟨key, _ | text⟩, isEntry, rfl⟩ := List.mem_map.1 member
    · rfl
    · by_cases plain : Value.references (context.parse text) = []
      · rw [children_draft_of_plain plain]
        rfl
      · have success := succeeds key text (KeyMap.mem_entries_iff.1 isEntry) plain
        rw [draft_of_references plain]
        rw [evaluateText_eq] at success
        by_contra dirty
        rw [if_neg dirty] at success
        cases success

end Context

namespace Compiler

/-- Nothing is reported at any depth of the trace iff strict evaluation succeeds for every
key of the structure with references in its text and no two writes go to the same path. The
compiled configuration then holds what strict evaluation writes and nothing else. -/
theorem compile_reports_nothing_iff (compiler : Compiler) (environment : Environment)
    (template : Structure) :
    let context := compiler.context environment.keys template.vars
    let result := compiler.compile environment template
    (result.warnings = [] ∧ result.errors = [] ↔
      (∀ key text, template.keys.find? key = some (some text) →
        Value.references (compiler.parse text) ≠ [] →
          (context.evaluateText key text).isSome = true) ∧
      ((Draft.allWrites (context.drafts template.keys)).map Prod.fst).Nodup) ∧
    (result.warnings = [] ∧ result.errors = [] →
      ∃ writes, context.evaluateStructure template.keys = some writes ∧
        ∀ path value, result.compiled.find? path = some value ↔ (path, value) ∈ writes) := by
  intro context result
  have clean : result.warnings = [] ∧ result.errors = [] ↔
      (∀ draft ∈ context.drafts template.keys, draft.children.all Trace.isClean = true) ∧
      ((Draft.allWrites (context.drafts template.keys)).map Prod.fst).Nodup := by
    rw [CompilationResult.reports_nothing_iff]
    have free : ∀ path ∈ (Draft.allWrites (context.drafts template.keys)).map Prod.fst,
        (∅ : ConfigMap).contains path = false := fun _ _ => rfl
    exact (CompilationResult.isClean_ofDrafts ∅ _).trans
      (and_congr_right fun _ => and_iff_left free)
  refine ⟨clean.trans (and_congr_left' (Context.drafts_clean_iff template.keys)), ?_⟩
  -- without collisions the order of the writes no longer matters
  intro nothing
  obtain ⟨succeeds, once⟩ := clean.1 nothing
  refine ⟨Draft.allWrites (context.drafts template.keys), ?_, fun path value => ?_⟩
  · rw [Context.evaluateStructure_eq, if_pos (List.all_eq_true.2 succeeds)]
  · have found : result.compiled.find? path =
        (Draft.allWrites (context.drafts template.keys)).lookup path :=
      CompilationResult.find?_ofDrafts ∅ _
    rw [found, KeyMap.lookup_eq_some_iff_of_nodup once]

end Compiler

end LayeredConfig
