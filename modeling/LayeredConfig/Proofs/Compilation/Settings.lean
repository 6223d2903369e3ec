import LayeredConfig.Proofs.Compilation.View

/-!
# What settings decide

Settings are consulted in two places: where a path ends in a star without a slash before it,
and where a frame would be opened with no room left. Both places leave their mark on the
trace, the first one even if the path is allowed. Without such a mark another compilation
with as much room takes the same steps, so the settings did not matter.

## Main definitions

* `Issue.isOfSettings` — the issues that are noted where settings are consulted
* `Context.withSettings` — a context with other settings

## Main results

* `Context.lockstep_withSettings` — contexts keep step where no such issue is noted
* `Compiler.compile_eq_of_settings` — settings that were not consulted have no influence
-/

namespace LayeredConfig

/-- The issue is noted where the settings decide how to go on. -/
def Issue.isOfSettings : Issue → Bool
  | malformedWildcard _ | rejectedWildcard _ | depthExceeded .. => true
  | missingKey .. | missingSecret _ | missingPath _ | unknownNamespace .. | cyclicReference _
  | emptySection _ | sectionNotWholeValue _ | secretSection _ | keyCollision _ => false

/-- No issue that the settings bring about is noted on the node. -/
def Trace.NeedsNoSettings (node : Trace Issue) : Prop :=
  ∀ issue ∈ node.diagnostics.all, issue.isOfSettings = false

/-- If the request leads to a section, a slash stands before the star. -/
def Request.AsksWithSlash (current : String) : Request → Prop
  | .reference _ r => ∀ space path wildcard, Target.ofReference current r = .keys space path →
    Query.ofPath path = .all wildcard → wildcard.bare = false
  | .entry .. => True

namespace Context

variable {context : Context} {settings : Settings} {inside? : Option (Stack → Answerer)}
  {stack : Stack} {placement : Placement} {space : Space} {path : String} {request : Request}

/-- The context with other settings. -/
def withSettings (context : Context) (settings : Settings) : Context :=
  { context with settings }

theorem mem_all_diagnostics_answer {issue : Issue} :
    issue ∈ (context.answer inside? stack request).2.diagnostics.all ↔
      issue ∈ (context.findingOf inside? stack request).issues := by
  rw [diagnostics_answer, Diagnostics.mem_all_ofIssues]

/-- A path that ends in a star without a slash is noted, whether it is allowed or not. -/
theorem exists_issue_of_bare {wildcard : Wildcard} (query : Query.ofPath path = .all wildcard)
    (bare : wildcard.bare = true) :
    ∃ issue ∈ (context.resolvePath inside? stack placement space path).issues,
      issue.isOfSettings = true := by
  simp only [resolvePath, query, bare, Bool.not_true, Bool.false_eq_true, if_false]
  split
  · exact ⟨.malformedWildcard path, List.mem_cons_self, rfl⟩
  · exact ⟨.rejectedWildcard path, List.mem_cons_self, rfl⟩

/-- Every other path comes to the same under all settings. -/
theorem resolvePath_withSettings
    (slashed : ∀ wildcard, Query.ofPath path = .all wildcard → wildcard.bare = false) :
    (context.withSettings settings).resolvePath inside? stack placement space path =
      context.resolvePath inside? stack placement space path := by
  unfold resolvePath
  cases query : Query.ofPath path with
  | key key => rfl
  | all wildcard =>
    simp only [slashed wildcard query, Bool.not_false, if_true]
    rfl

theorem findingOf_withSettings (slashed : request.AsksWithSlash stack.current) :
    (context.withSettings settings).findingOf inside? stack request =
      context.findingOf inside? stack request := by
  cases request with
  | entry space key suffix text => rfl
  | reference placement r =>
    cases target : Target.ofReference stack.current r with
    | nowhere source | unknown name path source => simp only [findingOf, target, resolveTarget]
    | secret path =>
      simp only [findingOf, target, resolveTarget]
      rfl
    | keys space path =>
      simp only [findingOf, target, resolveTarget]
      exact resolvePath_withSettings fun wildcard => slashed space path wildcard target

theorem Opens.withSettings {frame : Frame} {inner : List Request}
    (opens : context.Opens stack.current request frame inner)
    (slashed : request.AsksWithSlash stack.current) :
    (context.withSettings settings).Opens stack.current request frame inner := by
  cases opens with
  | ofKey target query found references => exact .ofKey target query found references
  | ofSection target query allowed =>
    refine .ofSection target query fun bare => ?_
    rw [slashed _ _ _ target query] at bare
    cases bare
  | ofEntry => exact .ofEntry

theorem asksWithSlash_of_quiet
    (quiet : ∀ issue ∈ (context.findingOf inside? stack request).issues,
      issue.isOfSettings = false) : request.AsksWithSlash stack.current := by
  cases request with
  | entry space key suffix text => trivial
  | reference placement r =>
    intro space path wildcard target query
    simp only [findingOf, target, resolveTarget] at quiet
    by_contra bare
    obtain ⟨issue, noted, ofSettings⟩ := exists_issue_of_bare query (by simpa using bare)
    rw [quiet issue noted] at ofSettings
    cases ofSettings

/-- Where a frame would be opened with no room left, the settings are noted. -/
theorem hasRoom_of_quiet {parts : List Part} {frame : Frame} {inner : List Request}
    (opens : context.Opens stack.current request frame inner) (fresh : frame ∉ stack.opened)
    (quiet : ∀ issue ∈ (context.findingOf (context.inside? (context.room parts - stack.depth))
      stack request).issues, issue.isOfSettings = false) : context.hasRoom stack = true := by
  cases roomy : context.hasRoom stack with
  | true => rfl
  | false =>
    have full : context.room parts - stack.depth = 0 := by
      have empty : context.hasRoom (Scene.mk stack []).stack = false := roomy
      exact room_eq_zero empty
    have refused : openFrame (context.inside? 0) stack frame =
        .error (.depthExceeded frame.path stack.depth) :=
      openFrame_eq_error_iff.2 (.inr ⟨fresh, rfl, rfl⟩)
    obtain ⟨noted, finish, -, -, finding⟩ := opens.findingOf
    rw [finding _ stack rfl, full, refused] at quiet
    have unnoted := quiet (.depthExceeded frame.path stack.depth) (by simp)
    cases unnoted

/-- Under settings with as much room the same steps are taken wherever the settings left no
issue on the trace. -/
theorem lockstep_withSettings
    (deeper : ∀ limit, settings.depthLimit = some limit →
      ∃ limit', context.settings.depthLimit = some limit' ∧ limit' ≤ limit) :
    context.Lockstep id (context.withSettings settings) Trace.NeedsNoSettings where
  parse := rfl
  keepsStep parts stack request needsNone := by
    have quiet : ∀ issue ∈
        (context.findingOf (context.inside? (context.room parts - stack.depth)) stack
          request).issues, issue.isOfSettings = false := by
      intro issue noted
      rw [resolve_eq] at needsNone
      exact needsNone issue (mem_all_diagnostics_answer.2 noted)
    have slashed := asksWithSlash_of_quiet quiet
    constructor
    · intro frame inner opens
      exact opens.withSettings slashed
    · intro frame inner opens fresh
      have roomy := hasRoom_of_quiet opens fresh quiet
      have more : (context.withSettings settings).hasRoom stack = true := by
        rw [hasRoom_iff] at roomy ⊢
        intro limit limited
        obtain ⟨limit', limited', le⟩ := deeper limit limited
        exact Nat.lt_of_lt_of_le (roomy limit' limited') le
      exact more.trans roomy.symm
    · intro in₁ in₂ opened
      rw [findingOf_withSettings slashed]
      exact mapTexts_findingOf_congr respectsJoin_id opened

end Context

namespace Compiler

/-- Settings have no influence on a compilation that notes no issue of theirs: any others
under which references may nest as deep give the same result with its whole trace. -/
theorem compile_eq_of_settings (compiler : Compiler) (settings : Settings)
    (environment : Environment) (template : Structure)
    (deeper : ∀ limit, settings.depthLimit = some limit →
      ∃ limit', compiler.settings.depthLimit = some limit' ∧ limit' ≤ limit)
    (quiet : ∀ node ∈ (compiler.compile environment template).nodes,
      ∀ issue ∈ node.diagnostics.all, issue.isOfSettings = false) :
    ({ compiler with settings } : Compiler).compile environment template =
      compiler.compile environment template := by
  have same : (compiler.compile environment template).mapTexts id =
      (({ compiler with settings } : Compiler).compile environment template).mapTexts id :=
    mapTexts_compile_of_lockstep respectsJoin_id rfl (Context.lockstep_withSettings deeper) quiet
  rw [CompilationResult.mapTexts_id, CompilationResult.mapTexts_id] at same
  exact same.symm

/-- An environment with a section of which one key refers to another key. -/
def nestedLayer : Environment where
  name := "dev"
  keys := .ofPairs [("app/port", "{{port}}"), ("port", "80")]

/-- A structure with a key that asks for the section, and one that refers to nothing. -/
def nestedUser : Structure where
  name := "app"
  keys := .ofPairs [("K", "{{app/*}}"), ("L", "{{none}}")]

/-- Two frames are enough for the section, so it is the same with three of them and where a
star without a slash is refused; the missing key is no matter of settings. -/
theorem compile_eq_of_settings_nested :
    ({ settings := ⟨false, some 3⟩ } : Compiler).compile nestedLayer nestedUser =
        ({ settings := ⟨true, some 2⟩ } : Compiler).compile nestedLayer nestedUser ∧
      (({ settings := ⟨true, some 2⟩ } : Compiler).compile nestedLayer nestedUser).compiled =
        .ofPairs [("K/port", "80"), ("L", "")] := by
  have deeper : ∀ limit, some 3 = some limit →
      ∃ limit', some 2 = some limit' ∧ limit' ≤ limit := by
    rintro limit ⟨⟩
    exact ⟨2, rfl, by decide⟩
  have quiet : ∀ node ∈ (({ settings := ⟨true, some 2⟩ } : Compiler).compile nestedLayer
      nestedUser).nodes, ∀ issue ∈ node.diagnostics.all, issue.isOfSettings = false := by
    decide +kernel
  exact ⟨compile_eq_of_settings { settings := ⟨true, some 2⟩ } ⟨false, some 3⟩ nestedLayer
    nestedUser deeper quiet, by decide +kernel⟩

end Compiler

end LayeredConfig
