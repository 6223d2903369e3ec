import LayeredConfig.Proofs.Resolution.Scene
import LayeredConfig.Proofs.Value.Target

/-!
# References count by their targets

A reference is looked up by its namespace and its path. How it is written, which alias it has
and which commands stand in it besides is copied to the trace and into messages, and nothing
reads it from there. So texts that are read differently, but with the same targets in the same
places, come to the same by the same steps.

## Main definitions

* `Trace.unworded` — a trace without the wording of its references
* `Context.reading` — a context that reads texts in another way

## Main results

* `Context.Rereads.resolve` — runs that read the same targets keep step
* `Context.Rereads.unworded_resolvePartsOf` — the same for the text of a structure key
-/

namespace LayeredConfig

/-! ## Traces without wording -/

/-- An issue without the wording of the reference that it names. -/
def Issue.unworded : Issue → Issue
  | missingPath _ => missingPath ""
  | unknownNamespace name _ => unknownNamespace name ""
  | issue => issue

theorem Issue.severity_unworded (issue : Issue) : issue.unworded.severity = issue.severity := by
  cases issue <;> rfl

namespace Trace

/-- A step without the reference that was looked up. The namespace and the value stay, and so
do the paths that a text wrote. -/
def Detail.unworded : Detail → Detail
  | .key _ space v => .key { source := "" } space v
  | detail => detail

/-- The key of a step. A reference without a path is traced under its own wording, which is no
key. -/
def Detail.unwordedKey (key : String) : Detail → String
  | .key r _ _ => if r.path.isSome then key else ""
  | _ => key

mutual

/-- A trace without the wording of its references. All else stays: the keys, the namespaces,
the values, the paths that were written and what was noted. -/
def unworded : Trace Issue → Trace Issue
  | ⟨key, diagnostics, children, detail⟩ =>
    ⟨detail.unwordedKey key, diagnostics.map Issue.unworded, unwordedAll children,
      detail.unworded⟩

/-- Several traces without the wording of their references. -/
def unwordedAll : List (Trace Issue) → List (Trace Issue)
  | [] => []
  | trace :: traces => trace.unworded :: unwordedAll traces

end

theorem unwordedAll_eq_map (traces : List (Trace Issue)) :
    unwordedAll traces = traces.map unworded := by
  induction traces with
  | nil => rw [unwordedAll, List.map_nil]
  | cons trace traces ih => rw [unwordedAll, List.map_cons, ih]

theorem unworded_eq (trace : Trace Issue) : trace.unworded =
    { key := trace.detail.unwordedKey trace.key
      diagnostics := trace.diagnostics.map Issue.unworded
      children := trace.children.map unworded
      detail := trace.detail.unworded } := by
  cases trace
  rw [unworded, unwordedAll_eq_map]

end Trace

theorem Diagnostics.map_unworded_ofIssues (issues : List Issue) :
    (ofIssues issues).map Issue.unworded = ofIssues (issues.map Issue.unworded) := by
  have kept (severity : Severity) :
      (issues.filter (·.severity = severity)).map Issue.unworded =
        (issues.map Issue.unworded).filter (·.severity = severity) := by
    rw [List.filter_map]
    simp only [Function.comp_def, Issue.severity_unworded]
  simp only [ofIssues, Diagnostics.map, kept]

namespace Finding

/-- A finding without the wording of the references that it tells of. -/
def unworded (finding : Finding) : Finding where
  outcome := finding.outcome
  issues := finding.issues.map Issue.unworded
  children := finding.children.map Trace.unworded

variable {finding finding' : Finding}

theorem outcome_eq_of_unworded (same : finding.unworded = finding'.unworded) :
    finding.outcome = finding'.outcome := by
  have outcome := congrArg Finding.outcome same
  exact outcome

theorem unworded_after (finding : Finding) (issue : Issue) :
    (finding.after issue).unworded = finding.unworded.after issue.unworded := rfl

theorem unworded_passOn (finding : Finding) (placement : Placement) (key : String) :
    (finding.passOn placement key).unworded = finding.unworded.passOn placement key := by
  obtain ⟨outcome, issues, children⟩ := finding
  cases placement with
  | whole => rfl
  | embedded =>
    cases outcome with
    | text text => rfl
    | entries entries =>
      simp only [passOn, unworded, List.map_append, List.map_cons, List.map_nil]
      rfl

theorem unworded_trace (finding : Finding) (key : String) (detail : Trace.Detail) :
    (finding.trace key detail).unworded =
      finding.unworded.trace (detail.unwordedKey key) detail.unworded := by
  rw [Trace.unworded_eq]
  simp only [trace, Diagnostics.map_unworded_ofIssues]
  rfl

end Finding

/-- Two answers that differ at most in the wording of references. -/
structure SameButWording (answer answer' : Outcome × Trace Issue) : Prop where
  outcome : answer.1 = answer'.1
  trace : answer.2.unworded = answer'.2.unworded

/-- Two requests for one target, or for the same entry of a section. -/
inductive Request.SameTarget : Request → Request → Prop
  | reference (placement : Placement) {r r' : Reference} :
    r.target? = r'.target? → SameTarget (.reference placement r) (.reference placement r')
  | entry (space : Space) (key suffix text : String) :
    SameTarget (.entry space key suffix text) (.entry space key suffix text)

/-- Requests for one target are answered alike. -/
def AnswersAlike (f g : Answerer) : Prop :=
  ∀ request request', request.SameTarget request' → SameButWording (f request) (g request')

/-! ## The parts of a text -/

section Parts

variable {f g : Answerer} {parts parts' : List Part}

theorem AnswersAlike.joinParts (alike : AnswersAlike f g)
    (same : Value.SameTargets parts parts') :
    (joinParts f parts).1 = (joinParts g parts').1 ∧
      (joinParts f parts).2.map Trace.unworded = (joinParts g parts').2.map Trace.unworded := by
  induction same with
  | nil => exact ⟨rfl, rfl⟩
  | cons first _ ih =>
    obtain ⟨texts, traces⟩ := ih
    cases first with
    | literal text =>
      simp only [LayeredConfig.joinParts, texts, traces, and_self]
    | reference target =>
      have answers := alike _ _ (.reference .embedded target)
      simp only [LayeredConfig.joinParts, List.map_cons, answers.outcome, answers.trace, texts,
        traces, and_self]

theorem AnswersAlike.resolveParts (alike : AnswersAlike f g)
    (same : Value.SameTargets parts parts') :
    (resolveParts f parts).unworded = (resolveParts g parts').unworded := by
  rcases single_or_joined parts with ⟨r, rfl⟩ | ⟨requests, joined⟩
  · obtain ⟨_, _, _ | ⟨target⟩, ⟨⟩, rfl⟩ := List.forall₂_cons_left_iff.1 same
    have answers := alike _ _ (.reference .whole target)
    simp only [LayeredConfig.resolveParts, Finding.unworded, List.map_cons, List.map_nil,
      answers.outcome, answers.trace]
  · rcases single_or_joined parts' with ⟨r', rfl⟩ | ⟨-, joined'⟩
    · -- then the first text is a single reference as well
      obtain ⟨_, _, _ | ⟨target⟩, ⟨⟩, rfl⟩ := List.forall₂_cons_right_iff.1 same
      cases requests
    · obtain ⟨texts, traces⟩ := alike.joinParts same
      simp only [joined, joined', Finding.unworded, texts, traces]

end Parts

/-! ## One step -/

/-- The answers inside a frame are alike, or there is no room for one in either run. -/
inductive InsideAlike : Option (Stack → Answerer) → Option (Stack → Answerer) → Prop
  | full : InsideAlike none none
  | room {f g : Stack → Answerer} :
    (∀ stack, AnswersAlike (f stack) (g stack)) → InsideAlike (some f) (some g)

variable {in₁ in₂ : Option (Stack → Answerer)} {stack : Stack}

/-- Frames are named by their paths, so a frame is refused in both runs or in neither. -/
theorem InsideAlike.openFrame (inside : InsideAlike in₁ in₂) (stack : Stack) (frame : Frame) :
    (∃ issue, openFrame in₁ stack frame = .error issue ∧
      openFrame in₂ stack frame = .error issue) ∨
    ∃ f g, openFrame in₁ stack frame = .ok f ∧ openFrame in₂ stack frame = .ok g ∧
      AnswersAlike f g := by
  unfold LayeredConfig.openFrame
  by_cases opened : frame ∈ stack.opened
  · exact .inl ⟨_, if_pos opened, if_pos opened⟩
  · simp only [opened, if_false]
    cases inside with
    | full => exact .inl ⟨_, rfl, rfl⟩
    | room alike => exact .inr ⟨_, _, rfl, rfl, alike (stack.push frame)⟩

/-- A target without the wording of its reference. -/
def Target.unworded : Target → Target
  | unknown name path _ => unknown name path ""
  | nowhere _ => nowhere ""
  | target => target

namespace Target

theorem toNamespace_unworded (target : Target) :
    target.unworded.toNamespace = target.toNamespace := by
  cases target <;> rfl

theorem unworded_ofReference {r r' : Reference} (target : r.target? = r'.target?)
    (current : String) : (ofReference current r).unworded = (ofReference current r').unworded := by
  unfold ofReference
  rw [target]
  split <;> rfl

/-- Only a reference without a path is traced under its wording. -/
theorem key_unworded_ofReference (r : Reference) (current : String) (space : Namespace)
    (v : Option String) :
    (ofReference current r).unworded.key =
      (Trace.Detail.key r space v).unwordedKey (ofReference current r).key := by
  have path : r.path.isSome = r.target?.isSome := (Option.isSome_map ..).symm
  rw [Trace.Detail.unwordedKey, path]
  unfold ofReference
  split <;> simp only [*] <;> rfl

end Target

namespace Context

/-- The context with its texts read in another way. -/
def reading (context : Context) (parse : String → List Part) : Context :=
  { context with parse }

variable {context : Context} {parse : String → List Part} {space : Space} {wildcard : Wildcard}
  {placement : Placement}

theorem keys_reading (context : Context) (parse : String → List Part) (space : Space) :
    (context.reading parse).keys space = context.keys space := by
  cases space <;> rfl

/-- In every text another way of reading finds the same targets. -/
def Rereads (context : Context) (parse : String → List Part) : Prop :=
  ∀ text, Value.SameTargets (context.parse text) (parse text)

namespace Rereads

theorem resolveKey (rereads : context.Rereads parse) (inside : InsideAlike in₁ in₂)
    (placement : Placement) (space : Space) (key : String) :
    (context.resolveKey in₁ stack placement space key).unworded =
      ((context.reading parse).resolveKey in₂ stack placement space key).unworded := by
  have keys := keys_reading context parse space
  rcases found : (context.keys space).find? key with _ | _ | text
  · simp only [Context.resolveKey, keys, found]
  · simp only [Context.resolveKey, keys, found]
  · have plain := (rereads text).references_eq_nil_iff
    by_cases references : Value.references (context.parse text) = []
    · have references' := plain.1 references
      simp only [Context.resolveKey, keys, found, references, if_true]
      simp only [reading, references', if_true]
    · have references' := mt plain.2 references
      rw [resolveKey_of_references found references,
        resolveKey_of_references (keys ▸ found) references']
      rcases inside.openFrame stack ⟨space, key⟩ with
        ⟨issue, refused, refused'⟩ | ⟨f, g, opened, opened', alike⟩
      · rw [refused, refused']
      · rw [opened, opened']
        simp only [Finding.unworded_passOn, alike.resolveParts (rereads text)]
        rfl

theorem expandEntry (rereads : context.Rereads parse) {f g : Answerer} (alike : AnswersAlike f g)
    (space : Space) (suffix : String) (entry : String × Option String) :
    (context.expandEntry f space suffix entry).1 =
        ((context.reading parse).expandEntry g space suffix entry).1 ∧
      (context.expandEntry f space suffix entry).2.unworded =
        ((context.reading parse).expandEntry g space suffix entry).2.unworded := by
  obtain ⟨key, _ | text⟩ := entry
  · exact ⟨rfl, rfl⟩
  · have plain := (rereads text).references_eq_nil_iff
    have answers := alike _ _ (.entry space key suffix text)
    by_cases references : Value.references (context.parse text) = []
    · have references' : Value.references ((context.reading parse).parse text) = [] :=
        plain.1 references
      simp only [Context.expandEntry, references, references', if_true, and_self]
    · have references' : Value.references ((context.reading parse).parse text) ≠ [] :=
        mt plain.2 references
      simp only [Context.expandEntry, references, references', if_false, answers.outcome,
        answers.trace, and_self]

theorem expandSection (rereads : context.Rereads parse) (inside : InsideAlike in₁ in₂)
    (space : Space) (wildcard : Wildcard) :
    (context.expandSection in₁ stack space wildcard).unworded =
      ((context.reading parse).expandSection in₂ stack space wildcard).unworded := by
  rw [expandSection_eq, expandSection_eq]
  rcases inside.openFrame stack ⟨space, wildcard.path⟩ with
    ⟨issue, refused, refused'⟩ | ⟨f, g, opened, opened', alike⟩
  · rw [refused, refused']
  · rw [opened, opened']
    have entries := List.map_congr_left (l := wildcard.entries (context.keys space))
      fun entry _ => (rereads.expandEntry alike space (wildcard.suffix entry.1) entry).1
    have traces := List.map_congr_left (l := wildcard.entries (context.keys space))
      fun entry _ => (rereads.expandEntry alike space (wildcard.suffix entry.1) entry).2
    simp only [expandEntries, Finding.unworded, keys_reading, List.flatMap_def, List.map_map,
      Function.comp_def, entries, traces]

theorem resolvePath (rereads : context.Rereads parse) (inside : InsideAlike in₁ in₂)
    (placement : Placement) (space : Space) (path : String) :
    (context.resolvePath in₁ stack placement space path).unworded =
      ((context.reading parse).resolvePath in₂ stack placement space path).unworded := by
  unfold Context.resolvePath
  cases Query.ofPath path with
  | key key => exact rereads.resolveKey inside placement space key
  | all wildcard =>
    have sections : (context.resolveSection in₁ stack placement space wildcard).unworded =
        ((context.reading parse).resolveSection in₂ stack placement space wildcard).unworded := by
      cases placement with
      | embedded => rfl
      | whole => exact rereads.expandSection inside space wildcard
    have settings : (context.reading parse).settings = context.settings := rfl
    simp only [settings]
    split
    · exact sections
    · split
      · rw [Finding.unworded_after, Finding.unworded_after, sections]
      · rfl

theorem resolveTarget (rereads : context.Rereads parse) (inside : InsideAlike in₁ in₂)
    (placement : Placement) {target target' : Target}
    (same : target.unworded = target'.unworded) :
    (context.resolveTarget in₁ stack placement target).unworded =
      ((context.reading parse).resolveTarget in₂ stack placement target').unworded := by
  cases target with
  | keys space path =>
    cases target' <;> cases same
    exact rereads.resolvePath inside placement space path
  | secret path =>
    cases target' <;> cases same
    rfl
  | unknown name path source =>
    cases target' <;> cases same
    rfl
  | nowhere source =>
    cases target' <;> cases same
    rfl

/-- Requests for one target are answered alike if the answers inside a frame are alike. -/
theorem answer (rereads : context.Rereads parse) (inside : InsideAlike in₁ in₂) (stack : Stack) :
    AnswersAlike (context.answer in₁ stack) ((context.reading parse).answer in₂ stack) := by
  intro request request' same
  rw [answer_eq, answer_eq]
  cases same with
  | @reference placement r r' target =>
    have targets := Target.unworded_ofReference target stack.current
    have namespaces := congrArg Target.toNamespace targets
    rw [Target.toNamespace_unworded, Target.toNamespace_unworded] at namespaces
    have found : (context.findingOf in₁ stack (.reference placement r)).unworded =
        ((context.reading parse).findingOf in₂ stack (.reference placement r')).unworded :=
      rereads.resolveTarget inside placement targets
    have outcome := Finding.outcome_eq_of_unworded found
    refine ⟨outcome, ?_⟩
    simp only [Request.answerWith, Finding.unworded_trace, ← Target.key_unworded_ofReference,
      targets, found, outcome, namespaces, Trace.Detail.unworded]
  | entry space key suffix text =>
    have found : (context.findingOf in₁ stack (.entry space key suffix text)).unworded =
        ((context.reading parse).findingOf in₂ stack (.entry space key suffix text)).unworded := by
      rcases inside.openFrame stack ⟨space, key⟩ with
        ⟨issue, refused, refused'⟩ | ⟨f, g, opened, opened', alike⟩
      · simp only [findingOf, refused, refused']
      · simp only [findingOf, opened, opened']
        exact alike.resolveParts (rereads text)
    have outcome := Finding.outcome_eq_of_unworded found
    refine ⟨outcome, ?_⟩
    simp only [Request.answerWith, Finding.unworded_trace, found, outcome, Trace.Detail.unworded,
      Trace.Detail.unwordedKey]

/-! ## Whole runs -/

/-- Runs that read the same targets keep step. -/
theorem resolve (rereads : context.Rereads parse) (room : Nat) (stack : Stack) :
    AnswersAlike (context.resolve room stack) ((context.reading parse).resolve room stack) := by
  -- one step keeps alike what is alike inside; the room is the same in both runs
  induction room generalizing stack with
  | zero =>
    rw [resolve_eq, resolve_eq]
    exact rereads.answer .full stack
  | succ room ih =>
    rw [resolve_eq, resolve_eq]
    exact rereads.answer (.room ih) stack

theorem length_referencesIn (rereads : context.Rereads parse) (map : ConfigMap) :
    (context.referencesIn map).length = ((context.reading parse).referencesIn map).length := by
  unfold referencesIn
  rw [List.length_flatMap, List.length_flatMap]
  congr 1
  apply List.map_congr_left
  rintro ⟨key, _ | text⟩ _
  · rfl
  · exact (rereads text).length_references

/-- The room for frames is counted in references, not in what they say. -/
theorem room_eq (rereads : context.Rereads parse) {parts parts' : List Part}
    (same : Value.SameTargets parts parts') :
    context.room parts = (context.reading parse).room parts' := by
  have environment := rereads.length_referencesIn context.environment
  have vars := rereads.length_referencesIn context.vars
  unfold room frameBound
  rw [environment, vars, same.length_references]
  rfl

/-- Parts with the same targets come to the same outcome with the same trace, apart from the
wording of references. -/
theorem unworded_resolvePartsOf (rereads : context.Rereads parse) (key : String)
    {parts parts' : List Part} (same : Value.SameTargets parts parts') :
    (context.resolvePartsOf key parts).unworded =
      ((context.reading parse).resolvePartsOf key parts').unworded := by
  unfold resolvePartsOf
  rw [← rereads.room_eq same]
  exact (rereads.resolve _ _).resolveParts same

end Rereads

end Context

end LayeredConfig
