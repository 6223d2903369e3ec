import LayeredConfig.Proofs.Compilation.Provenance
import LayeredConfig.Proofs.Resolution.Replay

/-!
# Replaying a compilation

The traces of a compiled configuration can be replayed from the top down: the value of each
structure key is put together from its text and the look-ups right below, these from the
texts that are stored at their keys, and so on.

## Main definitions

* `Context.RecountsTop` — what the trace of a structure key tells

## Main results

* `Compiler.compile_recounts` — every trace of a compilation tells how its values came about
-/

namespace LayeredConfig

/-- The node of a text with references holds the text and what it came to. -/
theorem Draft.exists_detail_resolved (key raw : String) (outcome : Outcome)
    (children : List (Trace Issue)) (written taken : List String) :
    ∃ expanded, (trace { key, content := .resolved raw outcome, children } written taken).detail =
      .multi (some raw) outcome.text? expanded := by
  cases outcome <;> exact ⟨_, rfl⟩

namespace Context

/-- The trace of a structure key tells how the value of its text came about if references stand
in it, and so does every node below it. Only a key whose text stands for a section has no
value. -/
structure RecountsTop (context : Context) (keys : ConfigMap) (trace : Trace Issue) : Prop where
  notLookup : trace.isLookup = false
  resolved : ∀ text, keys.find? trace.key = some (some text) →
    Value.references (context.parse text) ≠ [] →
    ∃ value expanded, trace.detail = .multi (some text) value expanded
  text : ∀ raw value expanded, trace.detail = .multi raw value expanded →
    ∃ text, raw = some text ∧ keys.find? trace.key = some (some text) ∧
      Trace.replay (context.parse text) trace.children = some value ∧
      (value = none ↔
        ∃ entries, (context.resolveText trace.key text).outcome = .entries entries)
  below : ∀ child ∈ trace.children, ∀ node ∈ child.preorder,
    ∃ text, keys.find? trace.key = some (some text) ∧ context.Recounts trace.key text node

variable {context : Context} {keys : ConfigMap} {key : String} {value : Option String}

/-- The trace of a text in which no references stand has nothing to tell. -/
theorem recountsTop_plain
    (plain : ∀ text, keys.find? key = some (some text) → Value.references (context.parse text) = [])
    (value : Option String) (written taken : List String) :
    context.RecountsTop keys
      (({ key, content := .plain value } : Draft).trace written taken) where
  notLookup := rfl
  resolved text atKey references := absurd (plain text atKey) references
  text := nofun
  below := nofun

/-- The trace of a text with references tells how the text came about. -/
theorem recountsTop_of_references {text : String}
    (atKey : keys.find? key = some (some text))
    (references : Value.references (context.parse text) ≠ []) (written taken : List String) :
    context.RecountsTop keys ((context.draft key (some text)).trace written taken) := by
  rw [draft_of_references references]
  obtain ⟨expanded, detail⟩ := Draft.exists_detail_resolved key text
    (context.resolveText key text).outcome (context.resolveText key text).children written taken
  have replayed : Trace.replay (context.parse text) (context.resolveText key text).children =
      some (context.resolveText key text).outcome.text? :=
    (context.faithful_resolve _ _).replay_resolveParts _
  refine ⟨?_, fun text' atKey' _ => ?_, fun raw value expanded' detail' => ?_, ?_⟩
  · rw [Trace.isLookup, detail]
  · cases atKey.symm.trans atKey'
    exact ⟨_, expanded, detail⟩
  · cases detail.symm.trans detail'
    exact ⟨text, rfl, atKey, replayed, Outcome.text?_eq_none_iff⟩
  · intro child isChild node below
    exact ⟨text, atKey, recounts_of_mem_preorder isChild below⟩

theorem recountsTop_draft (atKey : keys.find? key = some value) (written taken : List String) :
    context.RecountsTop keys ((context.draft key value).trace written taken) := by
  cases value with
  | none =>
    refine recountsTop_plain (fun text atKey' => ?_) none written taken
    cases atKey.symm.trans atKey'
  | some text =>
    by_cases plain : Value.references (context.parse text) = []
    · rw [children_draft_of_plain plain]
      refine recountsTop_plain (fun text' atKey' => ?_) (some text) written taken
      cases atKey.symm.trans atKey'
      exact plain
    · exact recountsTop_of_references atKey plain written taken

end Context

namespace Compiler

/-- The traces of a compilation, one for each key of the structure, tell how all values came
about. -/
theorem compile_recounts (compiler : Compiler) (environment : Environment)
    (template : Structure) :
    (compiler.compile environment template).trace.map Trace.key = template.keys.keys ∧
      ∀ trace ∈ (compiler.compile environment template).trace,
        (compiler.context environment.keys template.vars).RecountsTop template.keys trace := by
  refine ⟨map_key_trace_compile compiler environment template, fun trace member => ?_⟩
  obtain ⟨draft, isDraft, before, rfl, -⟩ := CompilationResult.exists_draft_of_mem_trace member
  obtain ⟨⟨key, value⟩, isEntry, rfl⟩ := List.mem_map.1 isDraft
  exact Context.recountsTop_draft (KeyMap.mem_entries_iff.1 isEntry) _ _

/-- An environment with a section, and with a key that stands for another one that stands for
the section. -/
def aliasedLayer : Environment where
  name := "dev"
  keys := .ofPairs
    [("all", "{{alias}}"), ("alias", "{{db/*}}"), ("db/url", "{{host}}:1"), ("host", "h")]

/-- A structure with a key that asks for the section in the middle of its text. -/
def aliasedUser : Structure where
  name := "app"
  keys := .ofPairs [("K", "[{{all}}]{{host}}")]

/-- The section that two look-ups come to is dropped by the one in the middle of the text. -/
theorem compile_recounts_aliased :
    ∃ trace ∈ (({} : Compiler).compile aliasedLayer aliasedUser).trace,
      trace.value = some "[]h" ∧
      (({} : Compiler).context aliasedLayer.keys aliasedUser.vars).RecountsTop aliasedUser.keys
        trace := by
  have compiled : ∃ trace ∈ (({} : Compiler).compile aliasedLayer aliasedUser).trace,
      trace.value = some "[]h" := by
    decide +kernel
  obtain ⟨trace, member, value⟩ := compiled
  exact ⟨trace, member, value, (compile_recounts {} aliasedLayer aliasedUser).2 trace member⟩

end Compiler

end LayeredConfig
