import LayeredConfig.Proofs.Compilation.View

/-!
# What a compilation depends on

Every read leaves its node in the trace: the trace names each key, section and secret on
which the result depends, and a change anywhere else changes nothing. The contents of a
secret are read by nobody. They end up inside of texts and decide neither what is looked up
nor what is written or noted.

## Main results

* `Compiler.compile_eq_of_unread` — what no node of the trace reads has no influence
* `Compiler.mapTexts_compile_of_secrets` — the contents of secrets show in texts only
-/

namespace LayeredConfig

namespace Compiler

/-- What no look-up of the trace reads has no influence: the environment, the variables and
the secrets can be exchanged for others that hold the same wherever the trace of the first
compilation reads, and the result is the same with its whole trace. -/
theorem compile_eq_of_unread (compiler : Compiler) (secrets : String → Option String)
    (environment environment' : Environment) (template : Structure) (vars : ConfigMap)
    (unreadKeys : ∀ key, environment.keys.find? key ≠ environment'.keys.find? key →
      ∀ node ∈ (compiler.compile environment template).nodes,
        node.reads .environment key = false)
    (unreadVars : ∀ key, template.vars.find? key ≠ vars.find? key →
      ∀ node ∈ (compiler.compile environment template).nodes, node.reads .vars key = false)
    (unreadSecrets : ∀ path, compiler.secrets path ≠ secrets path →
      ∀ node ∈ (compiler.compile environment template).nodes, node.readsSecret path = false) :
    ({ compiler with secrets } : Compiler).compile environment' { template with vars } =
      compiler.compile environment template := by
  have agrees : ∀ node ∈ (compiler.compile environment template).nodes,
      (compiler.context environment.keys template.vars).AgreesOn id
        (({ compiler with secrets } : Compiler).context environment'.keys vars) node := by
    intro node member
    constructor
    · intro space key read
      by_contra differ
      -- a key that is read is the same, or the node would not read it
      have unread : node.reads space key = false := by
        cases space with
        | environment => exact unreadKeys key (Ne.symm differ) node member
        | vars => exact unreadVars key (Ne.symm differ) node member
      rw [read] at unread
      cases unread
    · intro path read
      by_contra differ
      have different : compiler.secrets path ≠ secrets path := fun same =>
        differ (congrArg (Option.map id) same.symm)
      rw [unreadSecrets path different node member] at read
      cases read
  have same := mapTexts_compile compiler { compiler with secrets } environment environment'
    template { template with vars } respectsJoin_id rfl ⟨rfl, rfl⟩ agrees
  rw [CompilationResult.mapTexts_id, CompilationResult.mapTexts_id] at same
  exact same.symm

/-- An environment with a section that needs a secret, and a key beside it. -/
def guardedLayer : Environment where
  name := "dev"
  keys := .ofPairs [("cache/host", "{{db/port}}"), ("db/port", "5432"),
    ("db/url", "{{$secret/pw}}@{{$struct/host}}")]

/-- A structure with a key that stands for the section. -/
def guardedUser : Structure where
  name := "app"
  keys := .ofPairs [("K", "{{db/*}}")]
  vars := .ofPairs [("host", "h")]

/-- A secret store with a single secret. -/
def secretAt (path text : String) (asked : String) : Option String :=
  if asked = path then some text else none

/-- Without the key beside the section, with one more variable and with a text at every other
path of the secret store the section compiles to the same. -/
theorem compile_eq_of_unread_guarded :
    ({ secrets := fun path => (secretAt "pw" "s" path).or (some "t") } : Compiler).compile
        { name := "other", keys := guardedLayer.keys.erase "cache/host" }
        { guardedUser with vars := guardedUser.vars.insert "port" (some "1") } =
        ({ secrets := secretAt "pw" "s" } : Compiler).compile guardedLayer guardedUser ∧
      (({ secrets := secretAt "pw" "s" } : Compiler).compile guardedLayer guardedUser).compiled =
        .ofPairs [("K/port", "5432"), ("K/url", "s@h")] := by
  have keyUnread : ∀ node ∈
      (({ secrets := secretAt "pw" "s" } : Compiler).compile guardedLayer guardedUser).nodes,
        node.reads .environment "cache/host" = false := by decide +kernel
  have varUnread : ∀ node ∈
      (({ secrets := secretAt "pw" "s" } : Compiler).compile guardedLayer guardedUser).nodes,
        node.reads .vars "port" = false := by decide +kernel
  have onlySecret : ∀ node ∈
      (({ secrets := secretAt "pw" "s" } : Compiler).compile guardedLayer guardedUser).nodes,
        node.looksIn .secret = true → node.key = "pw" := by decide +kernel
  refine ⟨compile_eq_of_unread { secrets := secretAt "pw" "s" } _ guardedLayer _ guardedUser _
    ?_ ?_ ?_, by decide +kernel⟩
  · intro key differ
    rw [KeyMap.find?_erase] at differ
    by_cases removed : key = "cache/host"
    · exact removed ▸ keyUnread
    · exact absurd (if_neg removed).symm differ
  · intro key differ
    rw [KeyMap.find?_insert] at differ
    by_cases added : key = "port"
    · exact added ▸ varUnread
    · exact absurd (if_neg added).symm differ
  · intro path differ node member
    by_contra read
    simp only [Trace.readsSecret, Bool.not_eq_false, Bool.and_eq_true, decide_eq_true_eq] at read
    have same : path = "pw" := read.2.symm.trans (onlySecret node member read.1)
    subst same
    exact differ rfl

/-- Two secret stores with the same paths give compilations that differ in the texts of
values only: the same keys are written, with null in the same places, and the traces are the
same node by node once the texts of their values are blotted out. -/
theorem mapTexts_compile_of_secrets (compiler : Compiler) (secrets : String → Option String)
    (environment : Environment) (template : Structure)
    (samePaths : ∀ path, (secrets path).isSome = (compiler.secrets path).isSome) :
    (({ compiler with secrets } : Compiler).compile environment template).mapTexts (fun _ => "") =
      (compiler.compile environment template).mapTexts fun _ => "" := by
  -- blotted out, a secret only tells that it is there
  have blotted : ∀ a b : Option String, a.isSome = b.isSome →
      a.map (fun _ => "") = b.map fun _ => "" := by
    intro a b same
    cases a <;> cases b <;> simp_all
  have agrees : ∀ node ∈ (compiler.compile environment template).nodes,
      (compiler.context environment.keys template.vars).AgreesOn (fun _ => "")
        (({ compiler with secrets } : Compiler).context environment.keys template.vars) node := by
    intro node _
    exact ⟨fun _ _ _ => rfl, fun path _ => blotted _ _ (samePaths path)⟩
  exact (mapTexts_compile compiler { compiler with secrets } environment environment template
    template (respectsJoin_const "") rfl ⟨rfl, rfl⟩ agrees).symm

/-- A secret that is spelled like a reference shows in the compiled text and nowhere else. -/
theorem mapTexts_compile_of_secrets_guarded :
    (({ secrets := secretAt "pw" "{{db/port}}" } : Compiler).compile guardedLayer
        guardedUser).find? "K/url" = some "{{db/port}}@h" ∧
      (({ secrets := secretAt "pw" "s" } : Compiler).compile guardedLayer guardedUser).find?
        "K/url" = some "s@h" ∧
      (({ secrets := secretAt "pw" "{{db/port}}" } : Compiler).compile guardedLayer
          guardedUser).mapTexts (fun _ => "") =
        (({ secrets := secretAt "pw" "s" } : Compiler).compile guardedLayer
          guardedUser).mapTexts fun _ => "" := by
  refine ⟨by decide +kernel, by decide +kernel, ?_⟩
  refine mapTexts_compile_of_secrets { secrets := secretAt "pw" "s" } _ guardedLayer guardedUser ?_
  intro path
  by_cases asked : path = "pw" <;> simp [secretAt, asked]

end Compiler

end LayeredConfig
