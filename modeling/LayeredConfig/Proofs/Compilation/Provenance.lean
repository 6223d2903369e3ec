import LayeredConfig.Proofs.Compilation.Traces

/-!
# Where the paths of a compiled configuration come from

Every write that a key asks for leaves a mark on its trace: either the path stands among
those that the key got, or a collision is noted. All keys together write as one key would
that asks for all of their writes, so no path is got twice and none is there that nobody
got.

## Main definitions

* `Trace.claims` — the paths that a key got
* `Context.pairs` — the paths that a key asks for, with the values it resolves for them
* `CompilationResult.Accounts` — what a trace on the top tells about the writes of its key

## Main results

* `CompilationResult.claims_ofDrafts` — the keys get what their writes, put together, get
* `Compiler.compile_accounts` — the paths of a compiled configuration are accounted for
-/

namespace LayeredConfig

/-! ## Claims -/

namespace Trace

variable {δ : Type}

/-- A text was expanded into a section. -/
def isExpansion (trace : Trace δ) : Bool :=
  match trace.detail with
  | .multi _ none _ => true
  | _ => false

/-- The paths that a key got: those that its section wrote, or else the key itself, unless
that was taken already. -/
def claims (trace : Trace δ) : List String :=
  match trace.detail with
  | .multi _ none expanded => expanded
  | _ => if trace.diagnostics.warnings.isEmpty then [trace.key] else []

end Trace

/-- The paths that a structure key asks for, with their values: a null and a text without
references as they are, and else what the text resolves to, in the order of the section if
it stands for one. -/
def Context.pairs (context : Context) (key : String) (value : Option String) :
    List (String × Option String) :=
  match value with
  | none => [(key, none)]
  | some text =>
    if Value.references (context.parse text) = [] then
      [(key, some text)]
    else
      (context.resolveText key text).outcome.writesAt key

/-- What a trace on the top of a result tells about the writes of its key, to which the
structure gives a value. -/
structure CompilationResult.Accounts (result : CompilationResult Issue) (context : Context)
    (value : Option String) (trace : Trace Issue) : Prop where
  noErrors : trace.diagnostics.errors = []
  collisions : ∀ issue ∈ trace.diagnostics.warnings, ∃ path, issue = .keyCollision path
  expansion : trace.isExpansion = true ↔
    ∃ text entries, value = some text ∧
      (context.resolveText trace.key text).outcome = .entries entries
  /-- Each write is granted or noted as a collision. -/
  attempts : (context.pairs trace.key value).length =
    trace.claims.length + trace.diagnostics.warnings.length
  below : ∀ path ∈ trace.claims,
    path = trace.key ∨ ∃ rest, path = trace.key ++ "/" ++ rest
  /-- Of several pairs with one path the first one is compiled. -/
  first : ∀ path ∈ trace.claims,
    result.compiled.find? path = (context.pairs trace.key value).lookup path

/-! ## The writes of one key -/

namespace ConfigMap

variable {map : ConfigMap} {writes : List (String × Option String)} {path : String}

theorem length_written_add_length_taken (map : ConfigMap)
    (writes : List (String × Option String)) :
    (writeFree map writes).written.length + (writeFree map writes).taken.length =
      writes.length := by
  induction writes generalizing map with
  | nil => rfl
  | cons write writes ih =>
    obtain ⟨path, value⟩ := write
    by_cases taken : map.contains path = true
    · simp only [writeFree, taken, if_true, List.length_cons, ← ih map]
      omega
    · simp only [writeFree, taken, Bool.false_eq_true, if_false, List.length_cons,
        ← ih (map.insert path value)]
      omega

theorem nodup_written (map : ConfigMap) (writes : List (String × Option String)) :
    (writeFree map writes).written.Nodup := by
  induction writes generalizing map with
  | nil => exact List.nodup_nil
  | cons write writes ih =>
    obtain ⟨path, value⟩ := write
    by_cases taken : map.contains path = true
    · simp only [writeFree, taken, if_true, ih]
    · simp only [writeFree, taken, Bool.false_eq_true, if_false, List.nodup_cons, ih, and_true]
      -- once it is written the path is no longer free
      intro again
      have free := (mem_written_iff.1 again).2
      rw [KeyMap.contains_insert.2 (.inl rfl)] at free
      cases free

theorem written_writeFree_append (map : ConfigMap)
    (writes later : List (String × Option String)) :
    (writeFree map (writes ++ later)).written =
      (writeFree map writes).written ++ (writeFree (writeFree map writes).map later).written := by
  induction writes generalizing map with
  | nil => rfl
  | cons write writes ih =>
    obtain ⟨path, value⟩ := write
    by_cases taken : map.contains path = true
    · simp only [List.cons_append, writeFree, taken, if_true, ih]
    · simp only [List.cons_append, writeFree, taken, Bool.false_eq_true, if_false, ih]

end ConfigMap

namespace Draft

theorem warnings_trace (draft : Draft) (written taken : List String) :
    (draft.trace written taken).diagnostics.warnings = taken.map Issue.keyCollision := by
  apply List.filter_eq_self.2
  intro issue member
  obtain ⟨path, -, rfl⟩ := List.mem_map.1 member
  rfl

/-- A key that asks for its own path only gets it iff nothing collides. -/
theorem own_claim_eq_written {draft : Draft} {value : Option String}
    (single : draft.writes = [(draft.key, value)]) (map : ConfigMap) :
    (if (draft.trace (map.writeFree draft.writes).written
        (map.writeFree draft.writes).taken).diagnostics.warnings.isEmpty then [draft.key] else []) =
      (map.writeFree draft.writes).written := by
  rw [warnings_trace, List.isEmpty_map, single]
  by_cases taken : map.contains draft.key = true
  · simp [ConfigMap.writeFree, taken]
  · simp [ConfigMap.writeFree, taken]

/-- The claims of a trace are the paths that were written. -/
theorem claims_trace (draft : Draft) (map : ConfigMap) :
    (draft.trace (map.writeFree draft.writes).written (map.writeFree draft.writes).taken).claims =
      (map.writeFree draft.writes).written := by
  obtain ⟨key, value | ⟨raw, text | entries⟩, children⟩ := draft
  · exact own_claim_eq_written rfl map
  · exact own_claim_eq_written rfl map
  · rfl

theorem below_of_mem_writes {draft : Draft} {path : String}
    (member : path ∈ draft.writes.map Prod.fst) :
    path = draft.key ∨ ∃ rest, path = draft.key ++ "/" ++ rest := by
  obtain ⟨key, value | ⟨raw, text | entries⟩, children⟩ := draft
  · exact .inl (List.mem_singleton.1 member)
  · exact .inl (List.mem_singleton.1 member)
  · obtain ⟨write, isWrite, rfl⟩ := List.mem_map.1 member
    obtain ⟨⟨suffix, value⟩, -, rfl⟩ := List.mem_map.1 isWrite
    by_cases unnamed : suffix = ""
    · exact .inl (if_pos unnamed)
    · exact .inr ⟨suffix, if_neg unnamed⟩

end Draft

/-! ## The writes of all keys -/

namespace CompilationResult

/-- All keys together get what a single key with all of their writes would get. -/
theorem claims_ofDrafts (map : ConfigMap) (drafts : List Draft) :
    (ofDrafts map drafts).trace.flatMap Trace.claims =
      (map.writeFree (Draft.allWrites drafts)).written := by
  induction drafts generalizing map with
  | nil => rfl
  | cons draft drafts ih =>
    rw [Draft.allWrites_cons, ConfigMap.written_writeFree_append, ← ih, ← Draft.claims_trace]
    rfl

end CompilationResult

/-! ## Compiled configurations -/

namespace Context

variable {context : Context} {key : String} {value : Option String}

theorem writes_draft (context : Context) (key : String) (value : Option String) :
    (context.draft key value).writes = context.pairs key value := by
  cases value with
  | none => rfl
  | some text =>
    by_cases plain : Value.references (context.parse text) = []
    · rw [children_draft_of_plain plain, pairs, if_pos plain]
      rfl
    · rw [draft_of_references plain, pairs, if_neg plain]
      cases (context.resolveText key text).outcome <;> rfl

/-- A text stands for a section only by a reference. -/
theorem references_ne_nil_of_entries {text : String} {entries : SectionEntries}
    (comesTo : (context.resolveText key text).outcome = .entries entries) :
    Value.references (context.parse text) ≠ [] := by
  rw [resolveText, resolvePartsOf] at comesTo
  rcases single_or_joined (context.parse text) with ⟨reference, single⟩ | ⟨-, joined⟩
  · rw [single]
    exact List.cons_ne_nil _ _
  · rw [joined] at comesTo
    cases comesTo

theorem isExpansion_trace_iff (context : Context) (key : String) (value : Option String)
    (written taken : List String) :
    ((context.draft key value).trace written taken).isExpansion = true ↔
      ∃ text entries, value = some text ∧
        (context.resolveText key text).outcome = .entries entries := by
  constructor
  · intro expanded
    cases value with
    | none => cases expanded
    | some text =>
      by_cases plain : Value.references (context.parse text) = []
      · rw [children_draft_of_plain plain] at expanded
        cases expanded
      · rw [draft_of_references plain] at expanded
        cases comesTo : (context.resolveText key text).outcome with
        | text resolved =>
          rw [comesTo] at expanded
          cases expanded
        | entries entries => exact ⟨text, entries, rfl, comesTo⟩
  · rintro ⟨text, entries, rfl, comesTo⟩
    rw [draft_of_references (references_ne_nil_of_entries comesTo), comesTo]
    rfl

/-- The trace of a key accounts for its writes if these are served in some map and stay in
the result. -/
theorem accounts_draft {result : CompilationResult Issue} {before : ConfigMap}
    (stays : ∀ path ∈ (before.writeFree (context.draft key value).writes).written,
      result.compiled.find? path = (context.draft key value).writes.lookup path) :
    result.Accounts context value ((context.draft key value).trace
      (before.writeFree (context.draft key value).writes).written
      (before.writeFree (context.draft key value).writes).taken) := by
  have own (written taken : List String) :
      ((context.draft key value).trace written taken).key = key :=
    key_draft key value
  constructor
  · exact Draft.errors_trace _ _ _
  · intro issue noted
    rw [Draft.warnings_trace] at noted
    obtain ⟨path, -, same⟩ := List.mem_map.1 noted
    exact ⟨path, same.symm⟩
  · rw [own]
    exact isExpansion_trace_iff context key value _ _
  · rw [own, Draft.claims_trace, Draft.warnings_trace, List.length_map,
      ConfigMap.length_written_add_length_taken, writes_draft]
  · intro path claimed
    rw [Draft.claims_trace] at claimed
    exact Draft.below_of_mem_writes (ConfigMap.mem_written_iff.1 claimed).1
  · intro path claimed
    rw [Draft.claims_trace] at claimed
    rw [own, stays path claimed, writes_draft]

end Context

namespace Compiler

variable {compiler : Compiler} {environment : Environment} {template : Structure}

/-- Each trace on the top of a result accounts for the writes of its key. -/
theorem accounts_of_mem_trace {trace : Trace Issue}
    (member : trace ∈ (compiler.compile environment template).trace) :
    ∃ value, template.keys.find? trace.key = some value ∧
      (compiler.compile environment template).Accounts
        (compiler.context environment.keys template.vars) value trace := by
  obtain ⟨draft, isDraft, before, rfl, stays⟩ :=
    CompilationResult.exists_draft_of_mem_trace member
  obtain ⟨⟨key, value⟩, isEntry, rfl⟩ := List.mem_map.1 isDraft
  refine ⟨value, ?_, Context.accounts_draft stays⟩
  exact (congrArg template.keys.find? (Context.key_draft key value)).trans
    (KeyMap.mem_entries_iff.1 isEntry)

/-- Nothing that a structure asks to be written is lost without a note, and every path of a
compiled configuration belongs to one key. Each trace on the top accounts for the writes of
its key, and the paths that the keys got are pairwise different and are all that there
are. -/
theorem compile_accounts (compiler : Compiler) (environment : Environment)
    (template : Structure) :
    let context := compiler.context environment.keys template.vars
    let result := compiler.compile environment template
    (∀ trace ∈ result.trace, ∃ value, template.keys.find? trace.key = some value ∧
      result.Accounts context value trace) ∧
    (result.trace.flatMap Trace.claims).Nodup ∧
    ∀ path, path ∈ result.trace.flatMap Trace.claims ↔ path ∈ result.compiled.keys := by
  intro context result
  have claims : result.trace.flatMap Trace.claims =
      (ConfigMap.writeFree ∅ (Draft.allWrites (context.drafts template.keys))).written :=
    CompilationResult.claims_ofDrafts ∅ _
  rw [claims]
  refine ⟨fun trace member => accounts_of_mem_trace member, ConfigMap.nodup_written ∅ _, ?_⟩
  intro path
  rw [ConfigMap.mem_written_iff, KeyMap.mem_keys_iff, KeyMap.contains, KeyMap.contains,
    find?_compile, ConfigMap.isSome_lookup_iff]
  -- nothing is there before the first key is served
  exact and_iff_left rfl

/-- The section of `A` gets a path before the key of that path comes, which gets nothing. -/
example :
    let result := ({ secrets := fun _ => none } : Compiler).compile
      { name := "dev", keys := .ofPairs [("S/B", "from section"), ("S/C", "too")] }
      { name := "app", keys := .ofPairs [("A", "{{S/*}}"), ("A/B", "literal")] }
    result.trace.map Trace.claims = [["A/B", "A/C"], []] ∧
      result.find? "A/B" = some "from section" := by
  decide +kernel

end Compiler

end LayeredConfig
