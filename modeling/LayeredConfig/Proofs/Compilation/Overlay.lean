import LayeredConfig.Proofs.Resolution.Acyclic
import LayeredConfig.Proofs.Resolution.Settled
import LayeredConfig.Proofs.Compilation.Layering

/-!
# Two passes or one

Over a default environment a configuration is compiled in two passes. Where references ask
for keys only, dependencies have no cycle and no references are left after the first pass,
the second pass gives what a single pass over the overlaid environments gives.

## Main definitions

* `Context.settledValue` — what is written for a key that does not stand for a section
* `Compiler.overlayContext` — what a single pass over both layers resolves against

## Main results

* `Context.find?_compiled_of_sectionless` — what a pass without sections writes
* `Compiler.settles_mergedContext` — the first pass settles the keys of its environment
* `Compiler.compileLayered_eq_compile_overlay` — when two passes give what one gives
-/

namespace LayeredConfig

namespace Context

variable {context : Context} {keys : ConfigMap}

/-- What is written for a key whose text does not stand for a section. -/
def settledValue (context : Context) (key : String) : Option String → Option String
  | none => none
  | some text =>
    if Value.references (context.parse text) = [] then some text
    else (context.resolveText key text).outcome.text?

/-- Where no reference asks for a section, a key writes its own path and nothing else. -/
theorem writes_draft_of_sectionless (sectionless : context.Sectionless) {key : String}
    {value : Option String}
    (starless : ∀ text, value = some text →
      ∀ r ∈ Value.references (context.parse text), r.Starless) :
    (context.draft key value).writes = [(key, context.settledValue key value)] := by
  cases value with
  | none => rfl
  | some text =>
    by_cases plain : Value.references (context.parse text) = []
    · rw [children_draft_of_plain plain, settledValue, if_pos plain]
      rfl
    · obtain ⟨t, comesTo⟩ := sectionless.exists_text_resolveText (starless text rfl)
      rw [draft_of_references plain, settledValue, if_neg plain, comesTo]
      rfl

theorem find?_compiled_of_sectionless (sectionless : context.Sectionless)
    (starless : keys.Sectionless context.parse) (key : String) :
    (CompilationResult.ofDrafts ∅ (context.drafts keys)).compiled.find? key =
      (keys.find? key).map (context.settledValue key) := by
  have writes : Draft.allWrites (context.drafts keys) =
      keys.entries.map fun entry => (entry.1, context.settledValue entry.1 entry.2) := by
    rw [Draft.allWrites, drafts, List.flatMap_map, List.map_eq_flatMap]
    refine List.flatMap_congr fun entry member => ?_
    refine writes_draft_of_sectionless sectionless fun text isText => ?_
    exact starless entry.1 text (KeyMap.mem_entries_iff.1 (isText ▸ member))
  rw [CompilationResult.find?_ofDrafts, KeyMap.find?_empty, Option.none_or, writes,
    KeyMap.lookup_map]
  rfl

/-- What a structure compiles to is decided by the outcomes of its texts. -/
theorem compiled_drafts_congr {other : Context} (parse : other.parse = context.parse)
    (same : ∀ key text, keys.find? key = some (some text) →
      (other.resolveText key text).outcome = (context.resolveText key text).outcome) :
    (CompilationResult.ofDrafts ∅ (other.drafts keys)).compiled =
      (CompilationResult.ofDrafts ∅ (context.drafts keys)).compiled := by
  have writes : Draft.allWrites (other.drafts keys) = Draft.allWrites (context.drafts keys) := by
    rw [Draft.allWrites, Draft.allWrites, drafts, drafts, List.flatMap_map, List.flatMap_map]
    refine List.flatMap_congr fun entry member => ?_
    obtain ⟨key, _ | text⟩ := entry
    · rfl
    · -- a text without references is written as it is, whatever the context
      have outcome := same key text (KeyMap.mem_entries_iff.1 member)
      by_cases plain : Value.references (context.parse text) = []
      · rw [children_draft_of_plain plain, children_draft_of_plain (parse ▸ plain)]
      · rw [draft_of_references plain, draft_of_references (parse ▸ plain), outcome]
        rfl
  refine KeyMap.ext_find? fun key => ?_
  rw [CompilationResult.find?_ofDrafts, CompilationResult.find?_ofDrafts, writes]

end Context

namespace Compiler

/-- What a single pass over an environment laid over a default one resolves against. -/
def overlayContext (compiler : Compiler) (base environment : Environment) (template : Structure) :
    Context :=
  compiler.context (base.overlay environment.name environment.keys).keys template.vars

section Passes

variable {compiler : Compiler} {base environment : Environment} {template : Structure}

theorem find?_overlayContext (compiler : Compiler) (base environment : Environment)
    (template : Structure) (key : String) :
    ((compiler.overlayContext base environment template).keys .environment).find? key =
      (environment.keys.find? key).or (base.keys.find? key) :=
  KeyMap.find?_overlay

theorem sectionless_of_overlay
    (sectionless : (compiler.overlayContext base environment template).Sectionless) :
    environment.keys.Sectionless compiler.parse := by
  intro key text found
  refine sectionless .environment key text ?_
  rw [find?_overlayContext, found, Option.some_or]

theorem find?_compileOver_of_sectionless
    (sectionless : (compiler.overlayContext base environment template).Sectionless)
    (key : String) :
    (compiler.compileOver base environment template.vars).compiled.find? key =
      (environment.keys.find? key).map
        ((compiler.overlayContext base environment template).settledValue key) :=
  Context.find?_compiled_of_sectionless sectionless (sectionless_of_overlay sectionless) key

/-- In the merged environment a key of the upper layer holds what the first pass wrote
there, and every other key what it held before. -/
theorem find?_mergedContext_of_sectionless
    (sectionless : (compiler.overlayContext base environment template).Sectionless)
    (key : String) :
    ((compiler.mergedContext base environment template).keys .environment).find? key =
      ((environment.keys.find? key).map
        ((compiler.overlayContext base environment template).settledValue key)).or
        (base.keys.find? key) := by
  have merged : ((compiler.mergedContext base environment template).keys .environment).find? key =
      _ := compiler.find?_merge base environment template.vars key
  -- what the first pass writes are the keys of the upper layer, and just these are hidden below
  rw [merged, find?_compileOver_of_sectionless sectionless, KeyMap.contains]
  cases environment.keys.find? key <;> rfl

/-- The first pass settles the keys of its environment if it leaves no references behind. -/
theorem settles_mergedContext
    (sectionless : (compiler.overlayContext base environment template).Sectionless)
    (final : ∀ key value,
      (compiler.compileOver base environment template.vars).compiled.find? key =
        some (some value) → Value.references (compiler.parse value) = []) :
    (compiler.overlayContext base environment template).Settles
      (compiler.mergedContext base environment template) where
  compiler := rfl
  found := by
    intro space key
    cases space with
    | vars => exact .inl rfl
    | environment =>
      have merged := find?_mergedContext_of_sectionless sectionless key
      have layer := find?_compileOver_of_sectionless sectionless key
      have overlaid := find?_overlayContext compiler base environment template key
      -- a key is settled only if it belongs to the upper layer and holds references
      rcases atKey : environment.keys.find? key with _ | _ | text
      · rw [merged, overlaid, atKey]
        exact .inl rfl
      · rw [merged, overlaid, atKey]
        exact .inl rfl
      · rw [atKey, Option.map_some] at merged layer
        rw [atKey, Option.some_or] at overlaid
        by_cases plain : Value.references (compiler.parse text) = []
        · have taken : (compiler.overlayContext base environment template).settledValue key
              (some text) = some text := if_pos plain
          rw [merged, overlaid, taken, Option.some_or]
          exact .inl rfl
        · obtain ⟨value, comesTo⟩ := sectionless.exists_text_resolveText
            (sectionless .environment key text overlaid)
          have resolved : (compiler.overlayContext base environment template).settledValue key
              (some text) = some value := (if_neg plain).trans (congrArg Outcome.text? comesTo)
          rw [resolved] at merged layer
          exact .inr ⟨text, value, overlaid, plain, comesTo, merged, final key value layer⟩

end Passes

/-- Over a default environment, a structure compiles in two passes to what it compiles to in
one pass over the overlaid environments, if references ask for keys only, no dependency is
on a cycle and no references are left in what the first pass writes. -/
theorem compileLayered_eq_compile_overlay (compiler : Compiler) (base environment : Environment)
    (template : Structure) (unlimited : compiler.settings.depthLimit = none)
    (templateName : isBlankName template.name = false)
    (environmentName : isBlankName environment.name = false)
    (baseName : isBlankName base.name = false)
    (sectionless :
      (base.overlay environment.name environment.keys).keys.Sectionless compiler.parse)
    (varsSectionless : template.vars.Sectionless compiler.parse)
    (keysSectionless : template.keys.Sectionless compiler.parse)
    (acyclic : ∀ place, ¬ Relation.TransGen (compiler.context
      (base.overlay environment.name environment.keys).keys template.vars).Depends place place)
    (final : ∀ key value,
      (compiler.compileOver base environment template.vars).compiled.find? key =
        some (some value) → Value.references (compiler.parse value) = []) :
    ∃ layered, compiler.compileLayered environment (some base) template = .ok layered ∧
      layered.result.compiled =
        (compiler.compile (base.overlay environment.name environment.keys) template).compiled := by
  refine ⟨_, compileLayered_eq_ok compiler templateName environmentName baseName, ?_⟩
  have bothSectionless : (compiler.overlayContext base environment template).Sectionless := by
    intro space
    cases space with
    | environment => exact sectionless
    | vars => exact varsSectionless
  have settles := settles_mergedContext bothSectionless final
  refine Context.compiled_drafts_congr settles.parse fun key text found => ?_
  exact settles.outcome_resolveText bothSectionless unlimited acyclic
    (keysSectionless key text found)

/-- A default environment with a key that refers to one of the upper layer. -/
def lowerLayer : Environment :=
  { name := "base", keys := .ofPairs [("A", "a"), ("B", "{{T}}!")] }

/-- An environment with a key that refers to one of the default environment. -/
def upperLayer : Environment := { name := "dev", keys := .ofPairs [("T", "<{{A}}>")] }

/-- A structure with a key that refers to both layers. -/
def layersUser : Structure := { name := "app", keys := .ofPairs [("K", "{{T}} {{B}}")] }

/-- Every key ranks above the one it refers to. -/
def layersRank (_ : Space) : Query → Nat
  | .all _ => 3
  | .key name => if name = "B" then 2 else if name = "T" then 1 else 0

theorem acyclic_layers :
    (({} : Compiler).context (lowerLayer.overlay upperLayer.name upperLayer.keys).keys
      layersUser.vars).Acyclic layersRank := by
  refine Context.acyclic_of_ranksReferences (by decide +kernel) ?_
  intro space wildcard entry member
  simp only [layersRank]
  split
  · omega
  · split <;> omega

theorem compileLayered_layersUser :
    ∃ layered, ({} : Compiler).compileLayered upperLayer (some lowerLayer) layersUser =
        .ok layered ∧
      layered.result.compiled = .ofPairs [("K", "<a> <a>!")] := by
  have final : ∀ key value,
      (({} : Compiler).compileOver lowerLayer upperLayer layersUser.vars).compiled.find? key =
        some (some value) → Value.references (({} : Compiler).parse value) = [] := by
    have entries : (({} : Compiler).compileOver lowerLayer upperLayer
        layersUser.vars).compiled.entries = [("T", some "<a>")] := by decide +kernel
    intro key value found
    have member := KeyMap.mem_entries_iff.2 found
    rw [entries, List.mem_singleton] at member
    cases member
    decide +kernel
  obtain ⟨layered, ran, same⟩ := compileLayered_eq_compile_overlay {} lowerLayer upperLayer
    layersUser rfl (by decide +kernel) (by decide +kernel) (by decide +kernel) (by decide +kernel)
    (by decide +kernel) (by decide +kernel) acyclic_layers.not_transGen final
  refine ⟨layered, ran, same.trans ?_⟩
  decide +kernel

end Compiler

end LayeredConfig
