import Mathlib.Data.List.Nodup
import LayeredConfig.KeyMap.Lemmas
import LayeredConfig.Compilation.Compile
import LayeredConfig.Proofs.Trace.Level
import LayeredConfig.Proofs.Resolution.Evaluation

/-!
# Writes

The keys of a structure are served in order, and so is each path that a key asks to
write. Which value a path gets and whether a collision is noted depends on the writes of
all keys taken together.

## Main definitions

* `Draft.allWrites` — the writes of all keys of a structure, in the order they are served

## Main results

* `ConfigMap.find?_writeFree` — the first write of a path counts
* `CompilationResult.find?_ofDrafts`, `Compiler.find?_compile` — the same for all keys of a
  structure
* `CompilationResult.isClean_ofDrafts` — nothing is noted iff the look-ups of the keys are
  clean and no path is written twice
-/

namespace LayeredConfig

/-! ## The writes of one key -/

namespace ConfigMap

variable {map : ConfigMap} {writes : List (String × Option String)} {path : String}

/-- What is there already stays, and of several writes of a path the first one counts. -/
theorem find?_writeFree (map : ConfigMap) (writes : List (String × Option String)) :
    (writeFree map writes).map.find? path = (map.find? path).or (writes.lookup path) := by
  induction writes generalizing map with
  | nil => simp [writeFree]
  | cons write writes ih =>
    obtain ⟨written, value⟩ := write
    rw [KeyMap.lookup_cons]
    by_cases taken : map.contains written = true
    · -- the write is dropped: at its own path something is found before it
      simp only [writeFree, taken, if_true, ih]
      by_cases same : path = written
      · subst same
        obtain ⟨value', found⟩ := Option.isSome_iff_exists.1 taken
        simp [found]
      · rw [if_neg same]
    · simp only [writeFree, taken, Bool.false_eq_true, if_false, ih, KeyMap.find?_insert]
      by_cases same : path = written
      · subst same
        rw [Bool.not_eq_true] at taken
        have absent := KeyMap.contains_eq_false_iff.1 taken
        simp [absent]
      · simp [same]

theorem isSome_lookup_iff : (writes.lookup path).isSome = true ↔ path ∈ writes.map Prod.fst := by
  rw [List.lookup_isSome_iff, List.mem_map]
  simp only [beq_iff_eq, @eq_comm _ path]

theorem contains_writeFree (map : ConfigMap) (writes : List (String × Option String)) :
    (writeFree map writes).map.contains path = true ↔
      map.contains path = true ∨ path ∈ writes.map Prod.fst := by
  rw [KeyMap.contains, find?_writeFree, Option.isSome_or, Bool.or_eq_true, isSome_lookup_iff]
  rfl

/-- The paths that are written are those that are asked for and were free before. -/
theorem mem_written_iff :
    path ∈ (writeFree map writes).written ↔
      path ∈ writes.map Prod.fst ∧ map.contains path = false := by
  induction writes generalizing map with
  | nil => simp [writeFree]
  | cons write writes ih =>
    obtain ⟨written, value⟩ := write
    by_cases taken : map.contains written = true
    · simp only [writeFree, taken, if_true, ih, List.map_cons, List.mem_cons]
      refine and_congr_left fun free => (or_iff_right ?_).symm
      rintro rfl
      exact Bool.false_ne_true (free.symm.trans taken)
    · rw [Bool.not_eq_true] at taken
      simp only [writeFree, taken, Bool.false_eq_true, if_false, List.mem_cons, ih,
        List.map_cons, ← Bool.not_eq_true, KeyMap.contains_insert, not_or]
      by_cases same : path = written
      · simp [same, taken]
      · simp [same]

/-- Nothing collides iff all paths are free and no path is written twice. -/
theorem taken_writeFree_eq_nil (map : ConfigMap) (writes : List (String × Option String)) :
    (writeFree map writes).taken = [] ↔
      (writes.map Prod.fst).Nodup ∧ ∀ path ∈ writes.map Prod.fst, map.contains path = false := by
  induction writes generalizing map with
  | nil => simp [writeFree]
  | cons write writes ih =>
    obtain ⟨written, value⟩ := write
    by_cases taken : map.contains written = true
    · simp [writeFree, taken]
    · -- the paths of the later writes must be free after this one too
      have later : (∀ path ∈ writes.map Prod.fst,
          (map.insert written value).contains path = false) ↔
          written ∉ writes.map Prod.fst ∧
            ∀ path ∈ writes.map Prod.fst, map.contains path = false := by
        simp only [← Bool.not_eq_true, KeyMap.contains_insert, not_or]
        constructor
        · intro free
          exact ⟨fun again => (free written again).1 rfl, fun path member => (free path member).2⟩
        · rintro ⟨once, free⟩ path member
          exact ⟨fun same => once (same ▸ member), free path member⟩
      rw [Bool.not_eq_true] at taken
      simp only [writeFree, taken, Bool.false_eq_true, if_false, ih, later, List.map_cons,
        List.nodup_cons, List.forall_mem_cons, true_and]
      exact and_left_comm.trans and_assoc.symm

end ConfigMap

/-! ## The writes of all keys -/

/-- The writes of all keys of a structure, in the order in which they are served. -/
def Draft.allWrites (drafts : List Draft) : List (String × Option String) :=
  drafts.flatMap Draft.writes

theorem Draft.allWrites_cons (draft : Draft) (drafts : List Draft) :
    allWrites (draft :: drafts) = draft.writes ++ allWrites drafts :=
  List.flatMap_cons

/-- A path is written by the first key that asks for it. -/
theorem Draft.lookup_allWrites (drafts : List Draft) (path : String) :
    (allWrites drafts).lookup path = drafts.findSome? fun draft => draft.writes.lookup path := by
  induction drafts with
  | nil => rfl
  | cons draft drafts ih =>
    rw [allWrites_cons, List.lookup_append, ih, List.findSome?_cons]
    cases draft.writes.lookup path <;> rfl

namespace CompilationResult

variable {drafts : List Draft} {path : String}

/-- A path gets the first value that any key asks to write there. -/
theorem find?_ofDrafts (map : ConfigMap) (drafts : List Draft) :
    (ofDrafts map drafts).compiled.find? path =
      (map.find? path).or ((Draft.allWrites drafts).lookup path) := by
  induction drafts generalizing map with
  | nil => simp [ofDrafts, Draft.allWrites]
  | cons draft drafts ih =>
    simp only [ofDrafts, ih, ConfigMap.find?_writeFree, Draft.allWrites_cons, List.lookup_append,
      Option.or_assoc]

/-- A path that no other key writes gets what its own key writes there. -/
theorem lookup_allWrites_of_alone {draft : Draft} (keys : (drafts.map Draft.key).Nodup)
    (member : draft ∈ drafts)
    (alone : ∀ other ∈ drafts, other.key ≠ draft.key → path ∉ other.writes.map Prod.fst) :
    (Draft.allWrites drafts).lookup path = draft.writes.lookup path := by
  have others : ∀ other ∈ drafts, other ≠ draft → other.writes.lookup path = none := by
    intro other isOther different
    have unwritten := alone other isOther fun same =>
      different (List.inj_on_of_nodup_map keys isOther member same)
    rw [← ConfigMap.isSome_lookup_iff, Option.not_isSome_iff_eq_none] at unwritten
    exact unwritten
  rw [Draft.lookup_allWrites]
  cases written : draft.writes.lookup path with
  | none =>
    rw [List.findSome?_eq_none_iff]
    intro other isOther
    by_cases same : other = draft
    · rw [same, written]
    · exact others other isOther same
  | some value =>
    obtain ⟨before, after, rfl⟩ := List.append_of_mem member
    rw [List.findSome?_eq_some_iff]
    refine ⟨before, draft, after, rfl, written, fun other isBefore => ?_⟩
    apply others other (List.mem_append_left _ isBefore)
    have once := List.Nodup.of_map Draft.key keys
    exact (List.nodup_append.1 once).2.2 other isBefore draft List.mem_cons_self

theorem isClean_trace {draft : Draft} {written taken : List String} :
    (draft.trace written taken).isClean = true ↔
      draft.children.all Trace.isClean = true ∧ taken = [] := by
  rw [Trace.isClean_iff_children, List.all_eq_true, and_comm]
  refine and_congr_right' ?_
  rw [Draft.trace, Diagnostics.isClean_ofIssues, List.map_eq_nil_iff]

theorem isClean_ofDrafts (map : ConfigMap) (drafts : List Draft) :
    (ofDrafts map drafts).trace.all Trace.isClean = true ↔
      (∀ draft ∈ drafts, draft.children.all Trace.isClean = true) ∧
      ((Draft.allWrites drafts).map Prod.fst).Nodup ∧
      ∀ path ∈ (Draft.allWrites drafts).map Prod.fst, map.contains path = false := by
  induction drafts generalizing map with
  | nil => simp [ofDrafts, Draft.allWrites]
  | cons draft drafts ih =>
    simp only [ofDrafts, List.all_cons, Bool.and_eq_true, isClean_trace, ih,
      ConfigMap.taken_writeFree_eq_nil, Draft.allWrites_cons, List.map_append, List.nodup_append,
      List.forall_mem_cons, List.mem_append, ← Bool.not_eq_true, ConfigMap.contains_writeFree,
      not_or]
    -- what is free after the first key is what was free before and is not written by it
    constructor
    · rintro ⟨⟨clean, once, free⟩, cleanRest, onceRest, freeRest⟩
      refine ⟨⟨clean, cleanRest⟩, ⟨once, onceRest, ?_⟩, ?_⟩
      · rintro path member _ member' rfl
        exact (freeRest path member').2 member
      · rintro path (member | member)
        · exact free path member
        · exact (freeRest path member).1
    · rintro ⟨⟨clean, cleanRest⟩, ⟨once, onceRest, apart⟩, free⟩
      refine ⟨⟨clean, once, fun path member => free path (.inl member)⟩, cleanRest, onceRest, ?_⟩
      intro path member
      exact ⟨free path (.inr member), fun member' => apart path member' path member rfl⟩

/-- A result reports nothing iff all of its traces are clean. -/
theorem reports_nothing_iff (result : CompilationResult Issue) :
    (result.warnings = [] ∧ result.errors = []) ↔ result.trace.all Trace.isClean = true := by
  simp only [warnings, errors, nodes, List.flatMap_eq_nil_iff, List.map_eq_nil_iff,
    List.mem_flatMap, List.all_eq_true, Trace.isClean_iff, Diagnostics.isClean_iff,
    Trace.nodes_eq_preorder]
  constructor
  · rintro ⟨noWarnings, noErrors⟩ trace member node below
    exact ⟨noWarnings node ⟨trace, member, below⟩, noErrors node ⟨trace, member, below⟩⟩
  · intro clean
    refine ⟨?_, ?_⟩
    · rintro node ⟨trace, member, below⟩
      exact (clean trace member node below).1
    · rintro node ⟨trace, member, below⟩
      exact (clean trace member node below).2

end CompilationResult

/-- A compiled configuration holds the first write of each path. -/
theorem Compiler.find?_compile (compiler : Compiler) (environment : Environment)
    (template : Structure) (path : String) :
    (compiler.compile environment template).compiled.find? path =
      (Draft.allWrites ((compiler.context environment.keys template.vars).drafts
        template.keys)).lookup path :=
  CompilationResult.find?_ofDrafts ∅ _

end LayeredConfig
