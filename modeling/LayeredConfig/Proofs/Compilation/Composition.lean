import LayeredConfig.Proofs.Compilation.Traces

/-!
# Compilation key by key

The keys of a structure are resolved apart from each other and meet only where they write.
A structure is thus compiled from its single keys: each trace is the one that its key has
alone, but for the collisions, and each path is written by the first key that asks for it.

## Main definitions

* `Structure.only` — a structure cut down to one of its keys
* `Trace.AgreesUpToCollisions` — traces that differ in the fate of their writes only

## Main results

* `Compiler.find?_compile_eq_findSome?` — the compiled map is made of those of the single keys
* `Compiler.compile_composes` — the same for the compiled map and the traces
-/

namespace LayeredConfig

/-- A structure cut down to one of its keys, with all of its variables. -/
def Structure.only (template : Structure) (key : String) : Structure :=
  { template with keys := template.keys.filter fun other => other = key }

namespace Trace

/-- What a step did, but for the paths that it wrote. -/
def Detail.unexpanded : Detail → Detail
  | multi raw v _ => multi raw v []
  | detail => detail

/-- Two traces that tell the same but for the collisions on their tops and the paths that
they wrote. -/
structure AgreesUpToCollisions (trace other : Trace Issue) : Prop where
  key : trace.key = other.key
  errors : trace.diagnostics.errors = other.diagnostics.errors
  children : trace.children = other.children
  detail : trace.detail.unexpanded = other.detail.unexpanded

end Trace

namespace Draft

/-- What became of its writes shows in the collisions and written paths of a trace only. -/
theorem trace_agreesUpToCollisions (draft : Draft) (written taken written' taken' : List String) :
    (draft.trace written taken).AgreesUpToCollisions (draft.trace written' taken') where
  key := rfl
  errors := (draft.errors_trace written taken).trans (draft.errors_trace written' taken').symm
  children := rfl
  detail := by obtain ⟨key, value | ⟨raw, text | entries⟩, children⟩ := draft <;> rfl

end Draft

theorem findSome?_congr {α β : Type} {f g : α → Option β} {l : List α}
    (same : ∀ a ∈ l, f a = g a) : l.findSome? f = l.findSome? g := by
  have maps := congrArg (List.findSome? id) (List.map_congr_left same)
  simpa only [List.findSome?_map, Function.id_comp] using maps

namespace KeyMap

variable {α : Type} {m : KeyMap α} {key : String} {value : α}

theorem entries_filter_eq_singleton (found : m.find? key = some value) :
    (m.filter fun other => other = key).entries = [(key, value)] := by
  refine eq_of_lookup_eq (m.filter _).sorted (List.pairwise_singleton _ _) fun other => ?_
  refine (find?_filter _).trans ?_
  rw [lookup_cons, List.lookup_nil]
  by_cases same : other = key
  · simp [same, found]
  · simp [same]

end KeyMap

namespace Compiler

variable {template : Structure} {key : String} {value : Option String}

theorem compile_only (compiler : Compiler) (environment : Environment)
    (atKey : template.keys.find? key = some value) :
    compiler.compile environment (template.only key) =
      .ofDrafts ∅ [(compiler.context environment.keys template.vars).draft key value] := by
  rw [compile, Context.drafts]
  simp only [Structure.only, KeyMap.entries_filter_eq_singleton atKey, List.map_cons,
    List.map_nil]

theorem find?_compile_only (compiler : Compiler) (environment : Environment)
    (atKey : template.keys.find? key = some value) (path : String) :
    (compiler.compile environment (template.only key)).compiled.find? path =
      ((compiler.context environment.keys template.vars).draft key value).writes.lookup path := by
  rw [compile_only compiler environment atKey, CompilationResult.find?_ofDrafts,
    Draft.lookup_allWrites, List.findSome?_singleton]
  rfl

/-- A path is compiled to what the first key that writes it comes to alone. -/
theorem find?_compile_eq_findSome? (compiler : Compiler) (environment : Environment)
    (template : Structure) (path : String) :
    (compiler.compile environment template).compiled.find? path =
      template.keys.keys.findSome? fun key =>
        (compiler.compile environment (template.only key)).compiled.find? path := by
  rw [find?_compile, Draft.lookup_allWrites, Context.drafts, List.findSome?_map, KeyMap.keys,
    List.findSome?_map]
  apply findSome?_congr
  rintro ⟨key, value⟩ isEntry
  exact (find?_compile_only compiler environment (KeyMap.mem_entries_iff.1 isEntry) path).symm

/-- Every key of a structure is compiled as if it stood alone. In key order each key has one
trace, which tells the same as the one that the key has alone, but for the writes that
collide. The compiled map has the paths that some key has alone, each with the value of the
least such key. -/
theorem compile_composes (compiler : Compiler) (environment : Environment)
    (template : Structure) :
    let result := compiler.compile environment template
    let single := fun key => compiler.compile environment (template.only key)
    result.trace.map Trace.key = template.keys.keys ∧
    (∀ key ∈ template.keys.keys, ∃ trace alone,
      result.traceOf? key = some trace ∧ (single key).trace = [alone] ∧
        trace.AgreesUpToCollisions alone) ∧
    (∀ path, result.compiled.contains path = true ↔
      ∃ key ∈ template.keys.keys, (single key).compiled.contains path = true) ∧
    (∀ key ∈ template.keys.keys, ∀ path value,
      (single key).compiled.find? path = some value →
      (∀ other ∈ template.keys.keys, other < key →
        (single other).compiled.contains path = false) →
      result.compiled.find? path = some value) := by
  intro result single
  refine ⟨map_key_trace_compile compiler environment template, ?_, ?_, ?_⟩
  · intro key isKey
    obtain ⟨value, atKey⟩ := Option.isSome_iff_exists.1 (KeyMap.mem_keys_iff.1 isKey)
    obtain ⟨written, taken, found⟩ := exists_traceOf?_draft compiler environment atKey
    refine ⟨_, _, found, congrArg CompilationResult.trace
      (compile_only compiler environment atKey), ?_⟩
    exact Draft.trace_agreesUpToCollisions _ _ _ _ _
  · intro path
    rw [KeyMap.contains, find?_compile_eq_findSome?, List.findSome?_isSome_iff]
    rfl
  · intro key isKey path value alone first
    obtain ⟨before, after, keys⟩ := List.append_of_mem isKey
    rw [find?_compile_eq_findSome?, List.findSome?_eq_some_iff]
    refine ⟨before, key, after, keys, alone, fun other isOther => ?_⟩
    -- in key order all keys before this one are less
    have ordered := keys ▸ KeyMap.pairwise_keys template.keys
    have less := (List.pairwise_append.1 ordered).2.2 other isOther key List.mem_cons_self
    exact KeyMap.contains_eq_false_iff.1 (first other (keys ▸ List.mem_append_left _ isOther) less)

end Compiler

end LayeredConfig
