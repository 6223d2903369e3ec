import LayeredConfig.Compilation.Layered
import LayeredConfig.Proofs.Compilation.Clean

/-!
# Reading a layer again

Over a default environment a configuration is compiled in two passes. The second pass
takes what the first one wrote for texts of the merged environment, and reads them. A text
in which references stand is therefore resolved a second time, even one that was put
together from a secret.

## Main definitions

* `Outcome.own` — what stands at a key itself if its text comes to an outcome
* `Compiler.mergedContext` — what the second pass resolves against
* `Context.reread` — what a text of the environment comes to for a key of the structure

## Main results

* `Compiler.compileLayered_keeps_iff` — when a value of the first pass is final
* `Compiler.compileLayered_rereads_secret` — a secret that is read for references
-/

namespace LayeredConfig

/-- What stands at a key itself if its text comes to an outcome. Of a section only an entry
without a name stands there. -/
def Outcome.own : Outcome → Option (Option String)
  | text t => some (some t)
  | entries es => es.lookup ""

theorem Draft.pathBelow_eq_self_iff {key suffix : String} :
    Draft.pathBelow key suffix = key ↔ suffix = "" := by
  unfold pathBelow
  split
  · next unnamed => exact iff_of_true rfl unnamed
  · next named =>
    refine iff_of_false (fun same => ?_) named
    have longer := congrArg String.length same
    rw [String.length_append, String.length_append] at longer
    have slash : "/".length = 1 := by decide
    omega

theorem Outcome.lookup_writesAt (key : String) (outcome : Outcome) :
    (outcome.writesAt key).lookup key = outcome.own := by
  cases outcome with
  | text t => simp [writesAt, own]
  | entries es =>
    induction es with
    | nil => rfl
    | cons entry es ih =>
      have below : (key = Draft.pathBelow key entry.1) ↔ ("" = entry.1) :=
        eq_comm.trans (Draft.pathBelow_eq_self_iff.trans eq_comm)
      simp only [writesAt, own, List.map_cons, KeyMap.lookup_cons] at ih ⊢
      rw [ih, if_congr below rfl rfl]

namespace Context

variable {context : Context}

theorem lookup_writes_draft {key text : String}
    (references : Value.references (context.parse text) ≠ []) :
    (context.draft key (some text)).writes.lookup key =
      (context.resolveText key text).outcome.own := by
  rw [← Outcome.lookup_writesAt key, draft_of_references references]
  cases comesTo : (context.resolveText key text).outcome <;> rfl

/-- What the text of a key of the environment comes to when it is entered for a key of the
structure whose text has the given parts. -/
def reread (context : Context) (root : String) (parts : List Part) (key text : String) :
    Outcome :=
  match openFrame (context.inside? (context.room parts)) { root } ⟨.environment, key⟩ with
  | .error _ => .text ""
  | .ok answer => (resolveParts answer (context.parse text)).outcome

/-- A text that is one reference to a key comes to the text there, or to what that text is
read as. -/
theorem outcome_resolveText_of_target {root text source value : String} {r : Reference}
    (whole : context.parse text = [.reference r])
    (target : Target.ofReference root r = .keys .environment source)
    (starless : source.toList.getLast? ≠ some '*')
    (found : context.environment.find? source = some (some value)) :
    (context.resolveText root text).outcome =
      if Value.references (context.parse value) = [] then .text value
      else context.reread root [.reference r] source value := by
  have query := Query.ofPath_eq_key_iff.2 starless
  have asked : (context.resolveText root text).outcome =
      (context.resolveKey (context.inside? (context.room [.reference r])) { root } .whole
        .environment source).outcome := by
    have current : Stack.current { root } = root := rfl
    have single : ∀ answer : Answerer, (resolveParts answer [.reference r]).outcome =
        (answer (.reference .whole r)).1 := fun _ => rfl
    rw [resolveText, whole, resolvePartsOf, single, resolve_eq, outcome_answer, findingOf,
      current, target, resolveTarget, resolvePath, query]
  have found : (context.keys .environment).find? source = some (some value) := found
  rw [asked]
  split
  · next plain => simp only [resolveKey, found, plain, if_true]
  · next references =>
    rw [resolveKey_of_references found references, reread]
    -- nothing is open yet, so the frame is refused only by a limit of zero
    cases openFrame (context.inside? (context.room [.reference r])) { root }
        ⟨.environment, source⟩ with
    | error issue => rfl
    | ok answer => rw [Finding.outcome_passOn]

end Context

namespace Compiler

/-- What the second pass over a default environment resolves against. -/
def mergedContext (compiler : Compiler) (base environment : Environment) (template : Structure) :
    Context :=
  compiler.context (compiler.merge base environment template.vars).1.keys template.vars

/-- In the merged environment the first pass is found first, and the default only at the keys
that the environment does not have. -/
theorem find?_merge (compiler : Compiler) (base environment : Environment) (vars : ConfigMap)
    (key : String) :
    (compiler.merge base environment vars).1.keys.find? key =
      ((compiler.compileOver base environment vars).compiled.find? key).or
        (if environment.keys.contains key then none else base.keys.find? key) := by
  have merged : (compiler.merge base environment vars).1.keys =
      (base.keys.filter fun key => !environment.keys.contains key).overlay
        (compiler.compileOver base environment vars).compiled := rfl
  rw [merged, KeyMap.find?_overlay, KeyMap.find?_filter]
  cases environment.keys.contains key <;> rfl

/-- What the first pass writes is found in the merged environment. -/
theorem find?_mergedContext (compiler : Compiler) (base environment : Environment)
    (template : Structure) {source : String} {value : Option String}
    (layer : (compiler.compileOver base environment template.vars).compiled.find? source =
      some value) :
    (compiler.mergedContext base environment template).environment.find? source = some value := by
  have merged := compiler.find?_merge base environment template.vars source
  rw [layer, Option.some_or] at merged
  exact merged

theorem compileLayered_eq_ok (compiler : Compiler) {base environment : Environment}
    {template : Structure} (templateName : isBlankName template.name = false)
    (environmentName : isBlankName environment.name = false)
    (baseName : isBlankName base.name = false) :
    compiler.compileLayered environment (some base) template =
      .ok { result := .ofDrafts ∅
              ((compiler.mergedContext base environment template).drafts template.keys)
            environmentTrace := (compiler.compileOver base environment template.vars).trace } := by
  simp only [compileLayered, checkName, templateName, environmentName, baseName,
    Bool.false_eq_true, if_false]
  rfl

/-- Over a default environment, a key of the structure that is one reference to a key of the
environment keeps the text that the first pass wrote there iff no references stand in the
text or reading it again gives it back. -/
theorem compileLayered_keeps_iff (compiler : Compiler) (base environment : Environment)
    (template : Structure) (key text source value : String) (r : Reference)
    (templateName : isBlankName template.name = false)
    (environmentName : isBlankName environment.name = false)
    (baseName : isBlankName base.name = false)
    (atKey : template.keys.find? key = some (some text))
    (whole : compiler.parse text = [.reference r])
    (target : Target.ofReference key r = .keys .environment source)
    (starless : source.toList.getLast? ≠ some '*')
    (layer : (compiler.compileOver base environment template.vars).compiled.find? source =
      some (some value))
    (alone : ∀ other written, template.keys.find? other = some written → other ≠ key →
      key ∉ ((compiler.mergedContext base environment template).draft other written).writes.map
        Prod.fst) :
    ∃ layered, compiler.compileLayered environment (some base) template = .ok layered ∧
      (layered.result.compiled.find? key = some (some value) ↔
        Value.references (compiler.parse value) = [] ∨
          ((compiler.mergedContext base environment template).reread key [.reference r] source
            value).own = some (some value)) := by
  refine ⟨_, compileLayered_eq_ok compiler templateName environmentName baseName, ?_⟩
  -- no other key writes the path, so its value is what its own text comes to in pass two
  have references : Value.references (compiler.parse text) ≠ [] := by simp [whole]
  have compiled : (CompilationResult.ofDrafts ∅
      ((compiler.mergedContext base environment template).drafts template.keys)).compiled.find?
        key = ((compiler.mergedContext base environment template).resolveText key text).outcome.own := by
    have member : (compiler.mergedContext base environment template).draft key (some text) ∈
        (compiler.mergedContext base environment template).drafts template.keys :=
      List.mem_map.2 ⟨(key, some text), KeyMap.mem_entries_iff.2 atKey, rfl⟩
    rw [CompilationResult.find?_ofDrafts, KeyMap.find?_empty, Option.none_or,
      CompilationResult.lookup_allWrites_of_alone (Context.nodup_keys_drafts _) member ?_,
      Context.lookup_writes_draft references]
    intro other isOther different
    obtain ⟨⟨name, written⟩, isEntry, rfl⟩ := List.mem_map.1 isOther
    rw [Context.key_draft, Context.key_draft] at different
    exact alone name written (KeyMap.mem_entries_iff.1 isEntry) different
  have found := compiler.find?_mergedContext base environment template layer
  rw [compiled, Context.outcome_resolveText_of_target whole target starless found]
  have parse : (compiler.mergedContext base environment template).parse = compiler.parse := rfl
  by_cases plain : Value.references (compiler.parse value) = []
  · simp [parse, plain, Outcome.own]
  · simp [parse, plain]

/-- A compiler that knows one secret. -/
def withSecret (secret : String) : Compiler where
  secrets path := if path = "s" then some secret else none

/-- The default environment of the runs below. -/
def baseLayer : Environment := { name := "base", keys := .ofPairs [("A", "a")] }

/-- An environment with a key that is a secret. -/
def secretLayer : Environment := { name := "dev", keys := .ofPairs [("T", "{{$secret/s}}")] }

/-- A structure with a key that refers to the secret through the environment. -/
def secretUser : Structure := { name := "app", keys := .ofPairs [("K", "{{T}}")] }

theorem alone_secretUser (compiler : Compiler) : ∀ other written,
    secretUser.keys.find? other = some written → other ≠ "K" →
      "K" ∉ ((compiler.mergedContext baseLayer secretLayer secretUser).draft other written).writes.map
        Prod.fst := by
  intro other written found different
  have entries : secretUser.keys.entries = [("K", some "{{T}}")] := by decide +kernel
  have member := KeyMap.mem_entries_iff.2 found
  rw [entries, List.mem_singleton] at member
  exact absurd (congrArg Prod.fst member) different

/-- A secret without references is final. -/
theorem compileLayered_keeps_plain_secret :
    ∃ layered, (withSecret "hunter2").compileLayered secretLayer (some baseLayer) secretUser =
        .ok layered ∧
      layered.result.compiled.find? "K" = some (some "hunter2") := by
  obtain ⟨layered, ran, keeps⟩ := compileLayered_keeps_iff (withSecret "hunter2") baseLayer
    secretLayer secretUser "K" "{{T}}" "T" "hunter2" (.ofPath "T") (by decide +kernel)
    (by decide +kernel) (by decide +kernel) (by decide +kernel) (by decide +kernel)
    (by decide +kernel) (by decide +kernel) (by decide +kernel) (alone_secretUser _)
  exact ⟨layered, ran, keeps.2 (.inl (by decide +kernel))⟩

/-- A secret that spells a reference is written as it is by the first pass and resolved by
the second. -/
theorem compileLayered_rereads_secret :
    Value.parse "{{T}}" = [.reference (.ofPath "T")] ∧
    Target.ofReference "K" (.ofPath "T") = .keys .environment "T" ∧
    ((withSecret "{{A}}").compileOver baseLayer secretLayer ∅).compiled.find? "T" =
      some (some "{{A}}") ∧
    ∃ layered, (withSecret "{{A}}").compileLayered secretLayer (some baseLayer) secretUser =
        .ok layered ∧
      layered.result.compiled.find? "K" = some (some "a") :=
  ⟨by decide +kernel, by decide +kernel, by decide +kernel,
    _, compileLayered_eq_ok _ (by decide +kernel) (by decide +kernel) (by decide +kernel),
    by decide +kernel⟩

end Compiler

end LayeredConfig
