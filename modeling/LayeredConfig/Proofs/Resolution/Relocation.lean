import LayeredConfig.Proofs.Resolution.Lockstep
import LayeredConfig.Proofs.Resolution.Termination

/-!
# Subtrees that can be moved

Where the texts below a stem refer only to keys beside their own, a run that starts below the
stem never leaves it. So it goes on as it would in an environment that holds nothing but the
subtree, with the stem taken off every key: each key is found or missing, open or fresh, and
too deep or not, in the one run as in the other. The traces differ in the keys they tell of
and in nothing else.

## Main definitions

* `KeyMap.subtree` — the part of a map below a stem
* `Reference.IsSibling` — a reference to a key beside the one that holds it
* `Outline` — a trace without its keys and messages
* `Context.Relocates` — one context holds below a stem what another one holds

## Main results

* `Context.Relocates.sameOutline_resolve` — runs in the two contexts keep step
* `Context.resolveText_within` — moving a subtree changes no outcome and no outline
-/

namespace LayeredConfig

variable {stem key : String}

/-! ## Subtrees -/

namespace KeyMap

variable {α : Type} {m : KeyMap α}

/-- An entry with the stem taken off its key, if it stands below the stem. -/
def underStem? (stem : String) (entry : String × α) : Option (String × α) :=
  (Text.stripPrefix? (stem ++ "/").toList entry.1.toList).map fun rest =>
    (String.ofList rest, entry.2)

theorem underStem?_eq_some_iff {entry entry' : String × α} :
    underStem? stem entry = some entry' ↔ entry = (pathUnder stem entry'.1, entry'.2) := by
  obtain ⟨key, value⟩ := entry
  obtain ⟨key', value'⟩ := entry'
  simp only [underStem?, Option.map_eq_some_iff, Text.stripPrefix?_eq_some_iff, Prod.mk.injEq]
  constructor
  · rintro ⟨rest, spelled, rfl, rfl⟩
    exact ⟨String.toList_injective (by simp [spelled, toList_pathUnder]), rfl⟩
  · rintro ⟨rfl, rfl⟩
    exact ⟨key'.toList, by simp [toList_pathUnder], String.ofList_toList, rfl⟩

theorem lt_of_append_lt {before text text' : List Char}
    (less : before ++ text < before ++ text') : text < text' := by
  induction before with
  | nil => exact less
  | cons c before ih => exact ih (List.cons_lt_cons_self.1 less)

/-- Below the same stem keys keep their order. -/
theorem lt_of_pathUnder_lt {path path' : String}
    (less : pathUnder stem path < pathUnder stem path') : path < path' := by
  rw [String.lt_iff, toList_pathUnder, toList_pathUnder] at less
  exact String.lt_iff.2 (List.cons_lt_cons_self.1 (lt_of_append_lt less))

/-- The part of a map below a stem, with the stem taken off its keys. -/
def subtree (m : KeyMap α) (stem : String) : KeyMap α where
  entries := m.entries.filterMap (underStem? stem)
  sorted := by
    refine List.Pairwise.filterMap _ (fun entry entry' less below isBelow below' isBelow' => ?_)
      m.sorted
    rw [underStem?_eq_some_iff.1 isBelow, underStem?_eq_some_iff.1 isBelow'] at less
    exact lt_of_pathUnder_lt less

@[simp] theorem find?_subtree : (m.subtree stem).find? key = m.find? (pathUnder stem key) := by
  ext value
  rw [← mem_entries_iff, ← mem_entries_iff, subtree, List.mem_filterMap]
  constructor
  · rintro ⟨entry, member, below⟩
    rwa [underStem?_eq_some_iff.1 below] at member
  · intro member
    exact ⟨_, member, underStem?_eq_some_iff.2 rfl⟩

end KeyMap

/-! ## References to siblings -/

/-- The reference asks for a key beside the one that holds it, and not for a section. -/
def Reference.IsSibling (r : Reference) : Prop :=
  ∃ target ∈ r.target?, target.1 = .sibling ∧ target.2.toList.getLast? ≠ some '*'

instance (r : Reference) : Decidable r.IsSibling :=
  inferInstanceAs (Decidable (∃ target ∈ r.target?, _ ∧ _))

theorem Reference.IsSibling.exists_path {r : Reference} (sibling : r.IsSibling) :
    ∃ path, r.target? = some (.sibling, path) ∧ path.toList.getLast? ≠ some '*' := by
  obtain ⟨⟨space, path⟩, target, rfl, starless⟩ := sibling
  exact ⟨path, target, starless⟩

/-- All references in the texts below a stem ask for keys beside their own. -/
def ConfigMap.SiblingsBelow (parse : String → List Part) (map : ConfigMap) (stem : String) :
    Prop :=
  ∀ key text, map.find? (pathUnder stem key) = some (some text) →
    ∀ r ∈ Value.references (parse text), r.IsSibling

instance (parse : String → List Part) (map : ConfigMap) (stem : String) :
    Decidable (ConfigMap.SiblingsBelow parse map stem) :=
  decidable_of_iff
    (∀ entry ∈ (KeyMap.subtree map stem).entries,
      ∀ r ∈ Value.references (entry.2.elim [] parse), r.IsSibling) <| by
    constructor
    · intro siblings key text found
      rw [← KeyMap.find?_subtree, ← KeyMap.mem_entries_iff] at found
      exact siblings _ found
    · rintro siblings ⟨key, _ | text⟩ member r held
      · cases held
      · rw [KeyMap.mem_entries_iff, KeyMap.find?_subtree] at member
        exact siblings key text member r held

/-! ## Outlines -/

/-- A node of a trace without its key and its messages: the value that it came to, the
numbers of its warnings and errors, and the nodes below it. -/
structure Outline where
  value : Option String
  warnings : Nat
  errors : Nat
  children : List Outline

namespace Trace

variable {δ : Type}

mutual

/-- A trace without its keys and messages. -/
def outline : Trace δ → Outline
  | ⟨key, diagnostics, children, detail⟩ =>
    ⟨value ⟨key, diagnostics, children, detail⟩, diagnostics.warnings.length,
      diagnostics.errors.length, outlineAll children⟩

/-- Several traces without their keys and messages. -/
def outlineAll : List (Trace δ) → List Outline
  | [] => []
  | trace :: traces => trace.outline :: outlineAll traces

end

theorem outlineAll_eq_map (traces : List (Trace δ)) :
    outlineAll traces = traces.map outline := by
  induction traces with
  | nil => rw [outlineAll, List.map_nil]
  | cons trace traces ih => rw [outlineAll, List.map_cons, ih]

theorem outline_eq (trace : Trace δ) : trace.outline =
    ⟨trace.value, trace.diagnostics.warnings.length, trace.diagnostics.errors.length,
      trace.children.map outline⟩ := by
  cases trace
  rw [outline, outlineAll_eq_map]

end Trace

/-- Two answers that differ at most in the keys and messages of their traces. -/
structure SameOutline (answer answer' : Outcome × Trace Issue) : Prop where
  outcome : answer.1 = answer'.1
  trace : answer.2.outline = answer'.2.outline

/-- Two findings that differ at most in keys and messages. -/
structure Finding.SameOutline (finding finding' : Finding) : Prop where
  outcome : finding.outcome = finding'.outcome
  severities : finding.issues.map Issue.severity = finding'.issues.map Issue.severity
  children : finding.children.map Trace.outline = finding'.children.map Trace.outline

namespace Finding.SameOutline

variable {finding finding' : Finding}

theorem refl (finding : Finding) : finding.SameOutline finding := ⟨rfl, rfl, rfl⟩

theorem fault {issue issue' : Issue} (same : issue.severity = issue'.severity) :
    (Finding.fault issue).SameOutline (Finding.fault issue') where
  outcome := rfl
  severities := by simp [Finding.fault, same]
  children := rfl

theorem length_filter (same : finding.SameOutline finding') (severity : Severity) :
    (finding.issues.filter (·.severity = severity)).length =
      (finding'.issues.filter (·.severity = severity)).length := by
  have counted (issues : List Issue) : (issues.filter (·.severity = severity)).length =
      (issues.map Issue.severity).countP (· = severity) := by
    rw [List.countP_map, List.countP_eq_length_filter]
    rfl
  rw [counted, counted, same.severities]

/-- The nodes of two such findings have the same outline, whatever references they tell of. -/
theorem trace (same : finding.SameOutline finding') (key key' : String)
    {detail detail' : Trace.Detail}
    (value : (finding.trace key detail).value = (finding'.trace key' detail').value) :
    (finding.trace key detail).outline = (finding'.trace key' detail').outline := by
  have warnings : (finding.trace key detail).diagnostics.warnings.length =
      (finding'.trace key' detail').diagnostics.warnings.length := same.length_filter .warning
  have errors : (finding.trace key detail).diagnostics.errors.length =
      (finding'.trace key' detail').diagnostics.errors.length := same.length_filter .error
  rw [Trace.outline_eq, Trace.outline_eq, value, warnings, errors]
  exact congrArg _ same.children

theorem answerWith (same : finding.SameOutline finding') (current current' : String)
    (placement placement' : Placement) (r r' : Reference) :
    LayeredConfig.SameOutline ((Request.reference placement r).answerWith current finding)
      ((Request.reference placement' r').answerWith current' finding') where
  outcome := same.outcome
  trace := same.trace _ _ (congrArg Outcome.text? same.outcome)

theorem passOn (same : finding.SameOutline finding') (placement : Placement)
    (key key' : String) :
    (finding.passOn placement key).SameOutline (finding'.passOn placement key') := by
  obtain ⟨outcome, issues, children⟩ := finding
  obtain ⟨outcome', issues', children'⟩ := finding'
  obtain ⟨outcomes, severities, below⟩ := same
  cases outcomes
  cases placement with
  | whole => exact ⟨rfl, severities, below⟩
  | embedded =>
    cases outcome with
    | text t => exact ⟨rfl, severities, below⟩
    | entries es =>
      -- the note on the section that is dropped is a warning under either key
      refine ⟨rfl, ?_, below⟩
      simp only [Finding.passOn, List.map_append, severities]
      rfl

end Finding.SameOutline

theorem sameOutline_resolveParts {f g : Answerer} {parts : List Part}
    (same : ∀ request ∈ Request.ofParts parts, SameOutline (f request) (g request)) :
    (resolveParts f parts).SameOutline (resolveParts g parts) where
  outcome := (restsOn_resolveParts parts).outcome f g fun request made =>
    (same request made).outcome
  severities := by rw [issues_resolveParts, issues_resolveParts]
  children := by
    rw [children_resolveParts, children_resolveParts, List.map_map, List.map_map]
    exact List.map_congr_left fun request made => (same request made).trace

/-- Two frames are refused for issues of one severity, or both are opened and give the same
outlines inside. -/
def OpenedInOutline (inner : List Request) :
    Except Issue Answerer → Except Issue Answerer → Prop
  | .error issue, .error issue' => issue.severity = issue'.severity
  | .ok f, .ok g => ∀ request ∈ inner, SameOutline (f request) (g request)
  | _, _ => False

/-! ## One step in two places -/

/-- A frame below a stem. -/
def Frame.under (stem : String) (frame : Frame) : Frame :=
  { frame with path := pathUnder stem frame.path }

theorem Frame.under_injective (stem : String) : Function.Injective (Frame.under stem) := by
  rintro ⟨space, path⟩ ⟨space', path'⟩ same
  obtain ⟨rfl, paths⟩ := Frame.mk.inj same
  exact congrArg _ (pathUnder_inj.1 paths)

theorem Frame.mem_map_under_iff {frames : List Frame} {space : Space} :
    ⟨space, pathUnder stem key⟩ ∈ frames.map (Frame.under stem) ↔ ⟨space, key⟩ ∈ frames :=
  List.mem_map_of_injective (Frame.under_injective stem) (a := ⟨space, key⟩)

/-- Two requests ask for a key and for the same key below a stem. -/
inductive AsksUnder (stem current current' : String) : Request → Request → Prop
  | ofKey {placement : Placement} {r r' : Reference} {key : String} :
    Target.ofReference current r = .keys .environment key →
    Target.ofReference current' r' = .keys .environment (pathUnder stem key) →
    key.toList.getLast? ≠ some '*' →
    AsksUnder stem current current' (.reference placement r) (.reference placement r')

/-- A reference to a sibling asks below the stem for the same key below the stem. -/
theorem asksUnder_of_mem_ofParts {parts : List Part} {request : Request}
    (siblings : ∀ r ∈ Value.references parts, r.IsSibling)
    (member : request ∈ Request.ofParts parts) :
    AsksUnder stem key (pathUnder stem key) request request := by
  obtain ⟨placement, r, held, rfl⟩ := exists_of_mem_ofParts member
  obtain ⟨path, looked, starless⟩ := (siblings r held).exists_path
  have target (current : String) :
      Target.ofReference current r = .keys .environment (siblingPath current path) := by
    rw [Target.ofReference, looked]
  refine .ofKey (target key) ?_ (siblingPath_getLast? starless)
  rw [target, siblingPath_pathUnder]

namespace Context

variable {inner outer : Context}

/-- One context holds below a stem what another one holds, and the texts there refer to
siblings only. The rest of the maps does not matter, nor do the secrets. -/
structure Relocates (stem : String) (inner outer : Context) : Prop where
  rules : inner.SameRules outer
  found : ∀ key, inner.environment.find? key = outer.environment.find? (pathUnder stem key)
  siblings : outer.environment.SiblingsBelow outer.parse stem

theorem Relocates.hasRoom_eq (relocates : inner.Relocates stem outer) {stack stack' : Stack}
    (frames : stack'.opened = stack.opened.map (Frame.under stem)) :
    outer.hasRoom stack' = inner.hasRoom stack := by
  rw [hasRoom, hasRoom, relocates.rules.settings, Stack.depth, Stack.depth, frames,
    List.length_map]

/-- A key and the same key below the stem come to the same if their frames are opened
alike. -/
theorem Relocates.sameOutline_resolveKey (relocates : inner.Relocates stem outer)
    {in₁ in₂ : Option (Stack → Answerer)} {stack₁ stack₂ : Stack} (placement : Placement)
    (opened : ∀ text, inner.environment.find? key = some (some text) →
      Value.references (inner.parse text) ≠ [] →
      OpenedInOutline (Request.ofParts (inner.parse text))
        (openFrame in₁ stack₁ ⟨.environment, key⟩)
        (openFrame in₂ stack₂ ⟨.environment, pathUnder stem key⟩)) :
    (inner.resolveKey in₁ stack₁ placement .environment key).SameOutline
      (outer.resolveKey in₂ stack₂ placement .environment (pathUnder stem key)) := by
  have found : (inner.keys .environment).find? key =
      (outer.keys .environment).find? (pathUnder stem key) := relocates.found key
  rcases atKey : (inner.keys .environment).find? key with _ | _ | text
  · simp only [resolveKey, ← found, atKey]
    exact .fault rfl
  · simp only [resolveKey, ← found, atKey]
    exact .refl _
  · by_cases plain : Value.references (inner.parse text) = []
    · simp only [resolveKey, ← found, atKey, relocates.rules.parse, plain, if_true]
      exact .refl _
    · have opened := opened text atKey plain
      rw [resolveKey_of_references atKey plain,
        resolveKey_of_references (found ▸ atKey) (relocates.rules.parse ▸ plain),
        relocates.rules.parse]
      revert opened
      cases openFrame in₁ stack₁ ⟨.environment, key⟩ with
      | error issue =>
        cases openFrame in₂ stack₂ ⟨.environment, pathUnder stem key⟩ with
        | error issue' => exact fun same => .fault same
        | ok g => exact False.elim
      | ok f =>
        cases openFrame in₂ stack₂ ⟨.environment, pathUnder stem key⟩ with
        | error issue' => exact False.elim
        | ok g => exact fun same => (sameOutline_resolveParts same).passOn placement _ _

/-! ## Whole runs -/

variable {root root' : String} {parts parts' : List Part}

/-- Runs in the two contexts keep step as long as their open frames and their requests
differ in the stem only. -/
theorem Relocates.sameOutline_resolve (relocates : inner.Relocates stem outer)
    {scene scene' : Scene} (reaches : inner.Reaches (.start root parts) scene)
    (reaches' : outer.Reaches (.start root' parts') scene')
    (frames : scene'.stack.opened = scene.stack.opened.map (Frame.under stem))
    {request request' : Request} (member : request ∈ scene.requests)
    (member' : request' ∈ scene'.requests)
    (asks : AsksUnder stem scene.stack.current scene'.stack.current request request') :
    SameOutline
      (inner.resolve (inner.room parts - scene.depth) scene.stack request)
      (outer.resolve (outer.room parts' - scene'.depth) scene'.stack request') := by
  have acc := reaches.acc
  induction acc generalizing scene' request request' with
  | intro scene _ ih =>
    obtain @⟨placement, r, r', key, target, target', starless⟩ := asks
    rw [resolve_eq, resolve_eq, answer_eq, answer_eq, findingOf_of_key target starless,
      findingOf_of_key target' (getLast?_pathUnder_ne starless)]
    refine (relocates.sameOutline_resolveKey placement fun text found references => ?_).answerWith
      _ _ _ _ _ _
    -- what is found below the stem is what is found in the other context
    have parse := relocates.rules.parse
    have found' := (relocates.found key).symm.trans found
    have opens : inner.Opens scene.stack.current (.reference placement r) _ _ :=
      .ofKey target (Query.ofPath_eq_key_iff.2 starless) found references
    have opens' : outer.Opens scene'.stack.current (.reference placement r') _ _ :=
      .ofKey target' (Query.ofPath_eq_key_iff.2 (getLast?_pathUnder_ne starless)) found'
        (parse ▸ references)
    have isOpen : (⟨.environment, pathUnder stem key⟩ : Frame) ∈ scene'.stack.opened ↔
        ⟨.environment, key⟩ ∈ scene.stack.opened := by
      rw [frames, Frame.mem_map_under_iff]
    have room := relocates.hasRoom_eq frames
    rw [reaches.openFrame_eq member opens, reaches'.openFrame_eq member' opens']
    by_cases opened : (⟨.environment, key⟩ : Frame) ∈ scene.stack.opened
    · simp [opened, isOpen, OpenedInOutline, Issue.severity]
    · cases roomy : inner.hasRoom scene.stack with
      | false => simp [opened, isOpen, room.trans roomy, OpenedInOutline, Issue.severity]
      | true =>
        simp only [opened, isOpen, room.trans roomy, if_false, if_true, OpenedInOutline]
        intro request made
        have enters : inner.Enters scene _ := .opens member opens opened roomy
        have enters' : outer.Enters scene' _ :=
          .opens member' opens' (mt isOpen.1 opened) (room.trans roomy)
        refine ih _ enters (reaches.enter enters) (reaches'.enter enters') ?_ made ?_ ?_
        · simp [Stack.push, frames, Frame.under]
        · exact parse ▸ made
        · exact asksUnder_of_mem_ofParts (parse ▸ relocates.siblings key text found') made

/-! ## A reference into the subtree -/

/-- The context that holds nothing but the subtree below a stem, with variables of its own. -/
def within (context : Context) (stem : String) (vars : ConfigMap) : Context :=
  { context with environment := KeyMap.subtree context.environment stem, vars }

theorem relocates_within (context : Context) (vars : ConfigMap)
    (siblings : context.environment.SiblingsBelow context.parse stem) :
    (context.within stem vars).Relocates stem context where
  rules := ⟨rfl, rfl⟩
  found _ := KeyMap.find?_subtree
  siblings := siblings

/-- Where the texts below a stem refer to siblings only, a reference into the subtree comes
to the same as in an environment that holds nothing else, with the stem taken off all keys.
The traces have the same shape, with the same values and as many warnings and errors on each
node. What the environment holds outside the subtree does not matter. -/
theorem resolveText_within (context : Context) (vars : ConfigMap)
    (stem root root' text text' path : String) (r r' : Reference)
    (siblings : context.environment.SiblingsBelow context.parse stem)
    (whole : context.parse text = [.reference r])
    (whole' : context.parse text' = [.reference r'])
    (target : r.target? = some (.environment, path))
    (target' : r'.target? = some (.environment, pathUnder stem path))
    (starless : path.toList.getLast? ≠ some '*') :
    (context.resolveText root' text').outcome =
        ((context.within stem vars).resolveText root text).outcome ∧
      (context.resolveText root' text').children.map Trace.outline =
        ((context.within stem vars).resolveText root text).children.map Trace.outline := by
  have whole : (context.within stem vars).parse text = [.reference r] := whole
  have asks : AsksUnder stem root root' (.reference .whole r) (.reference .whole r') := by
    refine .ofKey ?_ ?_ starless
    · rw [Target.ofReference, target]
    · rw [Target.ofReference, target']
  -- neither run has opened anything yet
  have start : (context.within stem vars).Reaches (.start root [.reference r]) _ := .refl
  have start' : context.Reaches (.start root' [.reference r']) _ := .refl
  have same := (context.relocates_within vars siblings).sameOutline_resolve start start' rfl
    (List.mem_singleton_self _) (List.mem_singleton_self _) asks
  rw [resolveText, resolveText, whole, whole']
  exact ⟨same.outcome.symm, congrArg (fun outline => [outline]) same.trace.symm⟩

/-- A subtree with a key that is missing and two that refer to each other. Outside of it are
keys of the same names. -/
def movable : Context where
  environment := .ofList [("app/db/base", some "<{{$this/port}}>"),
    ("app/db/port", some "{{$this/base}}"), ("app/host", some "local"),
    ("app/url", some "{{$this/host}}:{{$this/db/port}}{{$this/none}}"),
    ("base", some "{{list/*}}"), ("host", some "outside"), ("none", some "outside")]

/-- In the subtree by itself the key has no parent. -/
theorem resolveText_within_movable :
    movable.environment.SiblingsBelow movable.parse "app" ∧
      (movable.resolveText "K" "{{app/url}}").outcome = .text "local:<>" ∧
      (movable.resolveText "K" "{{app/url}}").children.map Trace.outline =
        ((movable.within "app" ∅).resolveText "K" "{{url}}").children.map Trace.outline := by
  have siblings : movable.environment.SiblingsBelow movable.parse "app" := by decide +kernel
  obtain ⟨outcome, outlines⟩ := resolveText_within movable ∅ "app" "K" "K" "{{url}}" "{{app/url}}"
    "url" (.ofPath "url") (.ofPath "app/url") siblings (by decide +kernel) (by decide +kernel)
    (by decide +kernel) (by decide +kernel) (by decide +kernel)
  exact ⟨siblings, outcome.trans (by decide +kernel), outlines⟩

end Context

end LayeredConfig
