import LayeredConfig.Proofs.Compilation.Traces

/-!
# Used keys

A key counts as used if it was looked up and nothing was noted on that look-up. Each way in
which a look-up fails is noted on the look-up itself and not on a step below it, so what counts
as used is there: a key of a map, a section of a map in which some key lies, or a secret.

## Main definitions

* `ConfigMap.Backs` — a path is there in a map, as a key or as a section
* `Context.Backs` — a path is there in the place where it is looked up

## Main results

* `Context.backs_of_isClean` — a look-up without diagnostics finds what it asks for
* `CompilationResult.mem_usedKeys_iff` — which keys count as used
* `Compiler.usedKeys_sound` — all used keys are there
-/

namespace LayeredConfig

/-- A path is there in a map: it is a key, or it asks for a section in which some key lies. -/
def ConfigMap.Backs (map : ConfigMap) (path : String) : Prop :=
  (map.contains path = true ∧ path.toList.getLast? ≠ some '*') ∨
    ∃ stem, path = stem ++ "/*" ∧
      ∃ key, map.contains key = true ∧ (stem ++ "/").toList <+: key.toList

namespace Context

variable {context : Context} {inside? : Option (Stack → Answerer)} {stack : Stack}
  {placement : Placement}

/-- A path is there in the place where it is looked up. -/
def Backs (context : Context) : Namespace → String → Prop
  | .environment, path => context.environment.Backs path
  | .vars, path => context.vars.Backs path
  | .secret, path => path.toList.getLast? ≠ some '*' ∧ ∃ text, context.secrets path = some text
  | .sibling, _ | .unknown _, _ => False

theorem backs_toNamespace (space : Space) (path : String) :
    context.Backs space.toNamespace path ↔ (context.keys space).Backs path := by
  cases space <;> exact Iff.rfl

/-! ## Look-ups without diagnostics -/

theorem contains_of_issues_resolveKey {space : Space} {key : String}
    (clean : (context.resolveKey inside? stack placement space key).issues = []) :
    (context.keys space).contains key = true := by
  rw [KeyMap.contains, ← Option.not_isNone, Bool.not_eq_true', ← Bool.not_eq_true,
    Option.isNone_iff_eq_none]
  intro missing
  simp only [resolveKey, missing, Finding.fault] at clean
  cases clean

/-- A section without diagnostics matches some key. -/
theorem exists_mem_entries_of_issues_resolveSection {space : Space} {wildcard : Wildcard}
    (clean : (context.resolveSection inside? stack placement space wildcard).issues = []) :
    ∃ entry, entry ∈ wildcard.entries (context.keys space) := by
  refine List.exists_mem_of_ne_nil _ fun nothing => ?_
  cases placement with
  | embedded => cases clean
  | whole =>
    -- a section that matches nothing is noted, and so is one that is refused
    simp only [resolveSection, expandSection, nothing] at clean
    split at clean
    · cases clean
    · cases clean

theorem backs_of_issues_resolvePath {space : Space} {path : String}
    (clean : (context.resolvePath inside? stack placement space path).issues = []) :
    (context.keys space).Backs path := by
  unfold resolvePath at clean
  cases query : Query.ofPath path with
  | key key =>
    obtain rfl := Query.eq_of_ofPath_eq_key query
    simp only [query] at clean
    exact .inl ⟨contains_of_issues_resolveKey clean, Query.ofPath_eq_key_iff.1 query⟩
  | all wildcard =>
    have written := Query.path_of_ofPath_eq_all query
    simp only [query] at clean
    split at clean
    · next slash =>
      rw [Bool.not_eq_true'] at slash
      obtain ⟨⟨key, value⟩, member⟩ := exists_mem_entries_of_issues_resolveSection clean
      obtain ⟨isEntry, begins⟩ := Wildcard.mem_entries_iff.1 member
      rw [Wildcard.pattern, slash] at begins
      rw [Wildcard.path, slash] at written
      exact .inr ⟨wildcard.stem, written.symm, key,
        KeyMap.mem_keys_iff.1 (List.mem_map_of_mem isEntry), begins⟩
    · -- a bare star is noted, whether it is allowed or refused
      split at clean
      · cases clean
      · cases clean

theorem found_of_issues_resolveSecret {path : String}
    (clean : (context.resolveSecret path).issues = []) :
    path.toList.getLast? ≠ some '*' ∧ ∃ text, context.secrets path = some text := by
  unfold resolveSecret at clean
  cases query : Query.ofPath path with
  | all wildcard =>
    simp only [query] at clean
    cases clean
  | key key =>
    obtain rfl := Query.eq_of_ofPath_eq_key query
    refine ⟨Query.ofPath_eq_key_iff.1 query, ?_⟩
    cases found : context.secrets key with
    | some text => exact ⟨text, rfl⟩
    | none =>
      simp only [query, found] at clean
      cases clean

/-- A look-up without diagnostics finds what it asks for. -/
theorem backs_of_issues_resolveTarget {target : Target}
    (clean : (context.resolveTarget inside? stack placement target).issues = []) :
    context.Backs target.toNamespace target.key := by
  cases target with
  | keys space path =>
    exact (backs_toNamespace space path).2 (backs_of_issues_resolvePath clean)
  | secret path => exact found_of_issues_resolveSecret clean
  | unknown name path source => cases clean
  | nowhere source => cases clean

/-- The same for a node of a trace. A look-up beside a key is a look-up in the environment. -/
theorem backs_of_isClean {request : Request} {room : ℕ} {space : Namespace}
    (looks : (context.resolve room stack request).2.looksIn space = true)
    (clean : (context.resolve room stack request).2.diagnostics.isClean = true) :
    context.Backs space (context.resolve room stack request).2.key := by
  rw [resolve_eq] at looks clean ⊢
  cases request with
  | entry space' key suffix text => cases looks
  | reference placement r =>
    rw [diagnostics_answer, Diagnostics.isClean_ofIssues] at clean
    have namespaces : (Target.ofReference stack.current r).toNamespace = space :=
      of_decide_eq_true looks
    rw [← namespaces]
    exact backs_of_issues_resolveTarget clean

end Context

/-! ## Used keys -/

theorem Draft.looksIn_trace (draft : Draft) (written taken : List String) (space : Namespace) :
    (draft.trace written taken).looksIn space = false := by
  obtain ⟨key, value | ⟨raw, text | entries⟩, children⟩ := draft <;> rfl

theorem Trace.IsTaken.looksIn {node : Trace Issue} (taken : node.IsTaken) (space : Namespace) :
    node.looksIn space = false := by
  obtain ⟨key, value, rfl⟩ := taken
  rfl

/-- A key counts as used iff nothing was noted on some look-up of it. -/
theorem CompilationResult.mem_usedKeys_iff {δ : Type} {result : CompilationResult δ}
    {space : Namespace} {path : String} :
    path ∈ result.usedKeys space ↔ ∃ node ∈ result.nodes,
      node.looksIn space = true ∧ node.diagnostics.isClean = true ∧ node.key = path := by
  simp only [usedKeys, KeyMap.mem_keys_iff, KeyMap.contains, KeyMap.ofList, KeyMap.find?_insertAll,
    KeyMap.find?_empty, Option.or_none, List.lookup_isSome_iff, List.mem_reverse, List.mem_map,
    List.mem_filter, Bool.and_eq_true, beq_iff_eq]
  constructor
  · rintro ⟨_, ⟨node, ⟨member, looks, clean⟩, rfl⟩, rfl⟩
    exact ⟨node, member, looks, clean, rfl⟩
  · rintro ⟨node, member, looks, clean, rfl⟩
    exact ⟨_, ⟨node, ⟨member, looks, clean⟩, rfl⟩, rfl⟩

namespace Compiler

variable {compiler : Compiler} {environment : Environment} {template : Structure}

/-- A look-up in a result answers a request that was made for some structure key. -/
theorem exists_request_of_looksIn {node : Trace Issue} {space : Namespace}
    (member : node ∈ (compiler.compile environment template).nodes)
    (looks : node.looksIn space = true) :
    ∃ room stack request, node =
      ((compiler.context environment.keys template.vars).resolve room stack request).2 := by
  obtain ⟨draft, written, taken, rfl⟩ | ⟨key, text, -, child, isChild, below⟩ :=
    exists_draft_or_text_of_mem_nodes member
  · rw [Draft.looksIn_trace] at looks
    cases looks
  · obtain ⟨n, onLevel⟩ := Trace.mem_preorder_iff.1 below
    obtain ⟨scene, -, -, taken | ⟨room, -, request, -, same⟩⟩ :=
      Context.exists_scene_of_mem_level isChild onLevel
    · rw [taken.looksIn] at looks
      cases looks
    · exact ⟨room, scene.stack, request, same⟩

theorem backs_of_mem_usedKeys {space : Namespace} {path : String}
    (used : path ∈ (compiler.compile environment template).usedKeys space) :
    (compiler.context environment.keys template.vars).Backs space path := by
  obtain ⟨node, member, looks, clean, rfl⟩ := CompilationResult.mem_usedKeys_iff.1 used
  obtain ⟨room, stack, request, rfl⟩ := exists_request_of_looksIn member looks
  exact Context.backs_of_isClean looks clean

/-- All used keys are there. Nothing is used beside a key or in a namespace that does not
exist, as such look-ups are traced in the environment or noted; what is used in a map is a key
of it without a star or a section of it in which some key lies; and what is used of the secrets
is found there, without a star. -/
theorem usedKeys_sound (compiler : Compiler) (environment : Environment) (template : Structure) :
    (compiler.compile environment template).usedKeys .sibling = [] ∧
      (∀ name, (compiler.compile environment template).usedKeys (.unknown name) = []) ∧
      (∀ path ∈ (compiler.compile environment template).usedKeys .environment,
        environment.keys.Backs path) ∧
      (∀ path ∈ (compiler.compile environment template).usedKeys .vars,
        template.vars.Backs path) ∧
      ∀ path ∈ (compiler.compile environment template).usedKeys .secret,
        path.toList.getLast? ≠ some '*' ∧ ∃ text, compiler.secrets path = some text := by
  refine ⟨?_, fun name => ?_, fun path used => ?_, fun path used => ?_, fun path used => ?_⟩
  · exact List.eq_nil_iff_forall_not_mem.2 fun path used => backs_of_mem_usedKeys used
  · exact List.eq_nil_iff_forall_not_mem.2 fun path used => backs_of_mem_usedKeys used
  · exact backs_of_mem_usedKeys used
  · exact backs_of_mem_usedKeys used
  · exact backs_of_mem_usedKeys used

/-- A section counts as used although a look-up in one of its entries fails. -/
example :
    (({} : Compiler).compile
      { name := "dev", keys := .ofPairs [("db/url", "{{host}}:1"), ("db/user", "u")] }
      { name := "app", keys := .ofPairs [("K", "{{db/*}}"), ("L", "{{db/user}}")] }).usedKeys
        .environment = ["db/*", "db/user"] := by
  decide +kernel

end Compiler

end LayeredConfig
