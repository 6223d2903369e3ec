import LayeredConfig.Proofs.Compilation.Traces
import LayeredConfig.Proofs.Resolution.Lockstep

/-!
# Compiled configurations under a view

Which paths are written and which of them collide depends on names alone. What is seen of a
compiled configuration is therefore decided by what is seen of the texts of its keys, and
two compilations that go in lockstep for every key cannot be told apart.

## Main definitions

* `ConfigMap.mapTexts`, `Draft.mapTexts`, `CompilationResult.mapTexts` — under a view

## Main results

* `CompilationResult.mapTexts_ofDrafts` — a view can be taken before or after the writes
* `Compiler.mapTexts_compile_of_lockstep` — compilations that keep step
* `Compiler.mapTexts_compile` — compilations that agree on all that one of them reads
-/

namespace LayeredConfig

variable {view : String → String}

/-! ## Maps -/

namespace ConfigMap

/-- A map under a view of its texts. -/
def mapTexts (view : String → String) (map : ConfigMap) : ConfigMap where
  entries := SectionEntries.mapTexts view map.entries
  sorted := List.pairwise_map.2 map.sorted

@[simp] theorem find?_mapTexts (map : ConfigMap) (path : String) :
    (map.mapTexts view).find? path = (map.find? path).map (Option.map view) :=
  KeyMap.lookup_map (fun _ => Option.map view) map.entries path

theorem contains_mapTexts (map : ConfigMap) (path : String) :
    (map.mapTexts view).contains path = map.contains path := by
  rw [KeyMap.contains, KeyMap.contains, find?_mapTexts, Option.isSome_map]

theorem mapTexts_insert (map : ConfigMap) (path : String) (value : Option String) :
    mapTexts view (map.insert path value) = (map.mapTexts view).insert path (value.map view) := by
  apply KeyMap.ext_find?
  intro path'
  simp only [find?_mapTexts, KeyMap.find?_insert]
  split <;> rfl

theorem mapTexts_id (map : ConfigMap) : map.mapTexts id = map := by
  apply KeyMap.ext_find?
  intro path
  simp

/-- Which writes are served depends on their paths alone. -/
theorem writeFree_mapTexts (map : ConfigMap) (writes : List (String × Option String)) :
    writeFree (map.mapTexts view) (SectionEntries.mapTexts view writes) =
      { writeFree map writes with map := (writeFree map writes).map.mapTexts view } := by
  induction writes generalizing map with
  | nil => rfl
  | cons write writes ih =>
    obtain ⟨path, value⟩ := write
    have split : SectionEntries.mapTexts view ((path, value) :: writes) =
        (path, value.map view) :: SectionEntries.mapTexts view writes := rfl
    rw [split]
    by_cases taken : map.contains path = true
    · simp only [writeFree, contains_mapTexts, taken, if_true, ih]
    · simp only [writeFree, contains_mapTexts, taken, Bool.false_eq_true, if_false,
        ← mapTexts_insert, ih]

end ConfigMap

/-! ## Drafts and results -/

/-- What the text of a key came to, under a view of it. -/
def Content.mapTexts (view : String → String) : Content → Content
  | .plain value => .plain (value.map view)
  | .resolved raw outcome => .resolved raw (outcome.mapTexts view)

namespace Draft

/-- A draft under a view of its texts. -/
def mapTexts (view : String → String) (draft : Draft) : Draft where
  key := draft.key
  content := draft.content.mapTexts view
  children := draft.children.map (Trace.mapTexts view)

theorem writes_mapTexts (draft : Draft) :
    (draft.mapTexts view).writes = SectionEntries.mapTexts view draft.writes := by
  obtain ⟨key, value | ⟨raw, text | entries⟩, children⟩ := draft
  · rfl
  · rfl
  · simp [mapTexts, Content.mapTexts, Outcome.mapTexts, writes, SectionEntries.mapTexts]

theorem trace_mapTexts (draft : Draft) (written taken : List String) :
    (draft.mapTexts view).trace written taken = (draft.trace written taken).mapTexts view := by
  rw [Trace.mapTexts_eq]
  obtain ⟨key, value | ⟨raw, text | entries⟩, children⟩ := draft <;> rfl

end Draft

namespace CompilationResult

/-- A result under a view of its compiled texts and of the values in its traces. -/
def mapTexts (view : String → String) (result : CompilationResult Issue) :
    CompilationResult Issue where
  compiled := result.compiled.mapTexts view
  trace := result.trace.map (Trace.mapTexts view)

theorem mapTexts_id (result : CompilationResult Issue) : result.mapTexts id = result := by
  rw [mapTexts, ConfigMap.mapTexts_id, ← Trace.mapTextsAll_eq_map, Trace.mapTextsAll_id]

/-- It is the same to take a view of the drafts and of what is compiled from them. -/
theorem mapTexts_ofDrafts (map : ConfigMap) (drafts : List Draft) :
    (ofDrafts map drafts).mapTexts view =
      ofDrafts (map.mapTexts view) (drafts.map (Draft.mapTexts view)) := by
  induction drafts generalizing map with
  | nil => rfl
  | cons draft drafts ih =>
    simp only [List.map_cons, ofDrafts, Draft.writes_mapTexts, ConfigMap.writeFree_mapTexts,
      Draft.trace_mapTexts, ← ih]
    rfl

end CompilationResult

/-! ## Two compilations -/

namespace Context

variable {first second : Context} {agree : Trace Issue → Prop} {key : String}

/-- A key is drafted alike in two contexts that keep step for all that is looked up for it. -/
theorem Lockstep.mapTexts_draft (lockstep : first.Lockstep view second agree)
    (join : RespectsJoin view) {value : Option String}
    (agrees : ∀ trace ∈ (first.draft key value).children, ∀ node ∈ trace.preorder, agree node) :
    (first.draft key value).mapTexts view = (second.draft key value).mapTexts view := by
  cases value with
  | none => rfl
  | some text =>
    by_cases plain : Value.references (first.parse text) = []
    · rw [children_draft_of_plain plain, children_draft_of_plain (lockstep.parse ▸ plain)]
    · rw [children_draft] at agrees
      have same := lockstep.mapTexts_resolveText join agrees
      rw [draft_of_references plain, draft_of_references (lockstep.parse ▸ plain)]
      have outcome := congrArg Finding.outcome same
      have children := congrArg Finding.children same
      simp only [Finding.mapTexts] at outcome children
      simp only [Draft.mapTexts, Content.mapTexts, outcome, children]

end Context

namespace Compiler

variable {first second : Compiler} {environment environment' : Environment}
  {template template' : Structure}

/-- Two compilations of the same keys come to the same, as far as a view shows, if their
contexts keep step for all nodes of one of the traces. -/
theorem mapTexts_compile_of_lockstep {agree : Trace Issue → Prop} (join : RespectsJoin view)
    (keys : template'.keys = template.keys)
    (lockstep : (first.context environment.keys template.vars).Lockstep view
      (second.context environment'.keys template'.vars) agree)
    (agrees : ∀ node ∈ (first.compile environment template).nodes, agree node) :
    (first.compile environment template).mapTexts view =
      (second.compile environment' template').mapTexts view := by
  rw [compile, compile, CompilationResult.mapTexts_ofDrafts, CompilationResult.mapTexts_ofDrafts,
    Context.drafts, Context.drafts, keys, List.map_map, List.map_map]
  congr 1
  apply List.map_congr_left
  intro entry member
  apply lockstep.mapTexts_draft join
  intro trace isChild node below
  exact agrees node (mem_nodes_of_mem_draft member isChild below)

/-- Two compilations of the same keys come to the same, as far as a view shows, if their
contexts agree on all that one of them reads. -/
theorem mapTexts_compile (first second : Compiler) (environment environment' : Environment)
    (template template' : Structure) (join : RespectsJoin view)
    (keys : template'.keys = template.keys)
    (rules : (first.context environment.keys template.vars).SameRules
      (second.context environment'.keys template'.vars))
    (agrees : ∀ node ∈ (first.compile environment template).nodes,
      (first.context environment.keys template.vars).AgreesOn view
        (second.context environment'.keys template'.vars) node) :
    (first.compile environment template).mapTexts view =
      (second.compile environment' template').mapTexts view :=
  mapTexts_compile_of_lockstep join keys (rules.lockstep join) agrees

end Compiler

end LayeredConfig
