import LayeredConfig.Proofs.Resolution.Dependency
import LayeredConfig.Proofs.Resolution.Evaluation

/-!
# Traces that can be replayed

A trace tells how each value came about, and tells it in full: the value of a text can be
put together again from the parts of the text and the nodes of its look-ups, one for each
reference and in the same order. The same goes for the text of a key, unless the key was
not taken at all, and for the entries of sections.

## Main definitions

* `Trace.replay` — the value of a text, told from the nodes of its look-ups alone
* `Context.ReplaysKey` — what the node of a look-up tells about the text of its key
* `Context.Recounts` — a node of a run tells how its value came about

## Main results

* `Faithful.replay_resolveParts` — the nodes of the look-ups replay a text
* `Context.recounts_of_mem_preorder` — the nodes of a run tell how their values came about
-/

namespace LayeredConfig

/-! ## Replaying a text -/

namespace Trace

variable {δ : Type}

/-- The reference that the step looked up. -/
def reference? (trace : Trace δ) : Option Reference :=
  match trace.detail with
  | .key reference _ _ => some reference
  | _ => none

/-- The text that parts are joined to, told from the nodes of their look-ups. There has to be
one node for each reference, in the same order, and each of them came to a text. -/
def refill : List Part → List (Trace δ) → Option String
  | [], [] => some ""
  | .literal text :: parts, nodes => (refill parts nodes).map (text ++ ·)
  | .reference reference :: parts, node :: nodes =>
    if node.reference? = some reference then do
      let text ← node.value
      let rest ← refill parts nodes
      return text ++ rest
    else
      none
  | _, _ => none

/-- The value that parts come to, told from the nodes of their look-ups; `none` if the nodes
are not those of the parts. A single reference has the value of its look-up, be it a text or
not; everything else is joined. -/
def replay : List Part → List (Trace δ) → Option (Option String)
  | [.reference reference], [node] =>
    if node.reference? = some reference then some node.value else none
  | parts, nodes => (refill parts nodes).map some

end Trace

theorem Outcome.text?_eq_none_iff {outcome : Outcome} :
    outcome.text? = none ↔ ∃ entries, outcome = .entries entries := by
  cases outcome <;> simp [text?]

/-- The node of each look-up holds the reference, and tells as its value what the look-up came
to. In the middle of a text that is a text. -/
structure Faithful (answer : Answerer) : Prop where
  reference : ∀ placement r, (answer (.reference placement r)).2.reference? = some r
  value : ∀ request, (answer request).2.value = (answer request).1.text?
  text : ∀ r, ∃ text, (answer (.reference .embedded r)).1 = .text text

section Faithful

variable {answer : Answerer}

theorem Faithful.refill_joinParts (faithful : Faithful answer) (parts : List Part) :
    Trace.refill parts (joinParts answer parts).2 = some (joinParts answer parts).1 := by
  induction parts with
  | nil => rfl
  | cons part parts ih =>
    cases part with
    | literal text => simp only [joinParts, Trace.refill, ih, Option.map_some]
    | reference r =>
      -- a section would leave no value on the node and an empty text in the join
      obtain ⟨text, comesTo⟩ := faithful.text r
      have value := faithful.value (.reference .embedded r)
      rw [comesTo] at value
      simp only [joinParts, Trace.refill, faithful.reference, if_true, value, comesTo, ih]
      rfl

/-- A text is replayed from the nodes of its look-ups. -/
theorem Faithful.replay_resolveParts (faithful : Faithful answer) (parts : List Part) :
    Trace.replay parts (resolveParts answer parts).children =
      some (resolveParts answer parts).outcome.text? := by
  -- `Trace.replay` singles out the same list as `resolveParts`
  match parts with
  | [.reference r] =>
    simp only [resolveParts, Trace.replay, faithful.reference, if_true, faithful.value]
  | [] | [.literal _] | .literal _ :: _ :: _ | .reference _ :: _ :: _ =>
    simp only [resolveParts, Trace.replay, faithful.refill_joinParts, Option.map_some,
      Outcome.text?]

end Faithful

namespace Context

variable {context : Context} {room : Nat} {stack : Stack}

theorem faithful_answer (context : Context) (inside? : Option (Stack → Answerer))
    (stack : Stack) : Faithful (context.answer inside? stack) where
  reference _ _ := rfl
  value request := by cases request <;> rfl
  text _ := exists_text_resolveTarget _

theorem faithful_resolve (context : Context) (room : Nat) (stack : Stack) :
    Faithful (context.resolve room stack) := by
  rw [resolve_eq]
  exact context.faithful_answer _ stack

theorem faithful_of_openFrame {frame : Frame} {answer : Answerer}
    (opened : openFrame (context.inside? room) stack frame = .ok answer) : Faithful answer := by
  obtain ⟨-, left, rfl, rfl⟩ := exists_of_openFrame opened
  exact context.faithful_resolve left _

/-! ## One step -/

/-- An entry on which no error was noted is replayed from its text. -/
theorem replay_resolve_entry {space : Space} {key suffix text : String}
    (noErrors : (context.resolve room stack (.entry space key suffix text)).2.diagnostics.errors
      = []) :
    Trace.replay (context.parse text)
        (context.resolve room stack (.entry space key suffix text)).2.children =
      some (context.resolve room stack (.entry space key suffix text)).2.value := by
  rw [resolve_eq] at noErrors ⊢
  rw [(context.faithful_answer _ stack).value, outcome_answer, children_answer]
  rw [diagnostics_answer] at noErrors
  simp only [findingOf] at noErrors ⊢
  cases opened : openFrame (context.inside? room) stack ⟨space, key⟩ with
  | ok answer => exact (faithful_of_openFrame opened).replay_resolveParts _
  | error issue =>
    -- whatever the frame is refused with is an error
    rw [opened] at noErrors
    rcases openFrame_eq_error_iff.1 opened with ⟨-, rfl⟩ | ⟨-, -, rfl⟩ <;> cases noErrors

end Context

/-- A key on which the issue is noted was not taken. -/
def Issue.refusesKey : Issue → Bool
  | missingPath _ | missingKey .. | cyclicReference _ | depthExceeded .. => true
  | missingSecret _ | unknownNamespace .. | malformedWildcard _ | rejectedWildcard _
  | emptySection _ | sectionNotWholeValue _ | secretSection _ | keyCollision _ => false

namespace Context

variable {context : Context} {room : Nat} {stack : Stack} {space : Space}

/-- What the node of a look-up tells about the text that is stored at its key. -/
inductive ReplaysKey (context : Context) (space : Space) (node : Trace Issue) : Prop
  /-- A null reads as an empty text. -/
  | null :
    (context.keys space).find? node.key = some none →
    node.children = [] → node.value = some "" → ReplaysKey context space node
  /-- A text without references is taken as it is. -/
  | plain {text : String} :
    (context.keys space).find? node.key = some (some text) →
    Value.references (context.parse text) = [] →
    node.children = [] → node.value = some text → ReplaysKey context space node
  /-- Any other text is replayed from its look-ups. -/
  | resolved {text : String} :
    (context.keys space).find? node.key = some (some text) →
    Value.references (context.parse text) ≠ [] →
    .sectionNotWholeValue node.key ∉ node.diagnostics.all →
    Trace.replay (context.parse text) node.children = some node.value →
    ReplaysKey context space node
  /-- Its look-up came to a section, for which there is no room in the middle of a text. -/
  | dropped {text : String} :
    (context.keys space).find? node.key = some (some text) →
    Value.references (context.parse text) ≠ [] →
    .sectionNotWholeValue node.key ∈ node.diagnostics.all →
    Trace.replay (context.parse text) node.children = some none →
    node.value = some "" → ReplaysKey context space node

/-- A key whose frame is opened is replayed from its look-ups, unless it drops a section. -/
theorem replaysKey_passOn {answer : Answerer} {key text : String} (faithful : Faithful answer)
    (found : (context.keys space).find? key = some (some text))
    (references : Value.references (context.parse text) ≠ []) (placement : Placement)
    (reference : Reference) (name : Namespace) :
    let finding := (resolveParts answer (context.parse text)).passOn placement key
    context.ReplaysKey space
      (finding.trace key (.key reference name finding.outcome.text?)) := by
  have replayed := faithful.replay_resolveParts (context.parse text)
  have noIssues : (resolveParts answer (context.parse text)).issues = [] := issues_resolveParts
  generalize resolveParts answer (context.parse text) = finding at replayed noIssues
  obtain ⟨outcome, issues, children⟩ := finding
  obtain rfl : issues = [] := noIssues
  cases placement with
  | whole => exact .resolved found references List.not_mem_nil replayed
  | embedded =>
    -- a text is passed on, a section is dropped, which is all that is noted here
    cases outcome with
    | text resolved => exact .resolved found references List.not_mem_nil replayed
    | entries entries =>
      refine .dropped found references ?_ replayed rfl
      exact Diagnostics.mem_all_ofIssues.2 (List.mem_singleton_self _)

/-- A key that is taken is replayed from the text that is stored there. -/
theorem replaysKey_resolveKey {placement : Placement} {key : String}
    (taken : ∀ issue ∈ (context.resolveKey (context.inside? room) stack placement space
      key).issues, issue.refusesKey = false) (reference : Reference) (name : Namespace) :
    let finding := context.resolveKey (context.inside? room) stack placement space key
    context.ReplaysKey space
      (finding.trace key (.key reference name finding.outcome.text?)) := by
  cases found : (context.keys space).find? key with
  | none =>
    simp only [resolveKey, found] at taken
    cases taken _ (List.mem_singleton_self _)
  | some value =>
    cases value with
    | none =>
      simp only [resolveKey, found]
      exact .null found rfl rfl
    | some text =>
      by_cases references : Value.references (context.parse text) = []
      · simp only [resolveKey, found, references, if_true]
        exact .plain found references rfl rfl
      · rw [resolveKey_of_references found references] at taken ⊢
        cases opened : openFrame (context.inside? room) stack ⟨space, key⟩ with
        | ok answer =>
          exact replaysKey_passOn (faithful_of_openFrame opened) found references placement
            reference name
        | error issue =>
          -- a key whose frame is refused was not taken
          rw [opened] at taken
          have kept := taken issue (List.mem_singleton_self _)
          rcases openFrame_eq_error_iff.1 opened with ⟨-, rfl⟩ | ⟨-, -, rfl⟩ <;> cases kept

/-- The node of a reference, with the place where it is looked up. -/
theorem answer_reference {inside? : Option (Stack → Answerer)} {placement : Placement}
    {reference : Reference} {target : Target}
    (leads : Target.ofReference stack.current reference = target) :
    let finding := context.resolveTarget inside? stack placement target
    (context.answer inside? stack (.reference placement reference)).2 =
      finding.trace target.key
        (.key reference target.toNamespace finding.outcome.text?) := by
  subst leads
  rfl

/-- The look-up of a key in a map is replayed from the text that is stored there, unless it
is noted that the key was not taken. -/
theorem replaysKey_resolve {placement : Placement} {reference : Reference}
    (looks : (context.resolve room stack (.reference placement reference)).2.looksIn
      space.toNamespace = true)
    (single : (context.resolve room stack (.reference placement reference)).2.key.toList.getLast?
      ≠ some '*')
    (taken : ∀ issue ∈ (context.resolve room stack (.reference placement
      reference)).2.diagnostics.all, issue.refusesKey = false) :
    context.ReplaysKey space (context.resolve room stack (.reference placement reference)).2 := by
  rw [resolve_eq] at looks single taken ⊢
  cases leads : Target.ofReference stack.current reference with
  | keys space' path =>
    rw [answer_reference leads] at looks single taken ⊢
    obtain rfl : space' = space := by
      have same : space'.toNamespace = space.toNamespace := of_decide_eq_true looks
      cases space' <;> cases space <;> first | rfl | cases same
    have query : Query.ofPath path = .key path := Query.ofPath_eq_key_iff.2 single
    simp only [resolveTarget, resolvePath, query] at taken ⊢
    exact replaysKey_resolveKey (fun issue noted =>
      taken issue (Diagnostics.mem_all_ofIssues.2 noted)) reference _
  | nowhere source =>
    rw [answer_reference leads] at taken
    cases taken (.missingPath source) (Diagnostics.mem_all_ofIssues.2 (List.mem_singleton_self _))
  | secret path | unknown name path source =>
    -- these are not looked up in a map
    rw [answer_reference leads] at looks
    have same := of_decide_eq_true looks
    cases space <;> cases same

/-! ## Whole runs -/

/-- The node was left by a request of the run for the text of a structure key, and the request
came to a section. -/
def CameToSection (context : Context) (key text : String) (node : Trace Issue) : Prop :=
  ∃ scene room, context.Reaches (.start key (context.parse text)) scene ∧
    room + scene.depth = context.room (context.parse text) ∧
    ∃ request ∈ scene.requests, ∃ entries,
      context.resolve room scene.stack request = (.entries entries, node)

/-- A node below the text of a structure key tells how its value came about: that of an entry
whose text was resolved, and that of a look-up whose key was taken. Only what came to a section
has no value. -/
structure Recounts (context : Context) (key text : String) (node : Trace Issue) : Prop where
  entry : ∀ raw value expanded, node.detail = .multi raw value expanded →
    node.diagnostics.errors = [] →
    ∃ space inner, raw = some inner ∧
      (context.keys space).find? node.key = some (some inner) ∧
      Trace.replay (context.parse inner) node.children = some value
  lookup : ∀ space : Space, node.looksIn space.toNamespace = true →
    node.key.toList.getLast? ≠ some '*' →
    (∀ issue ∈ node.diagnostics.all, issue.refusesKey = false) → context.ReplaysKey space node
  toSection : (∀ value, node.detail ≠ .value value) →
    (node.value = none ↔ context.CameToSection key text node)

variable {key text : String} {scene : Scene} {request : Request} {node : Trace Issue}

theorem recounts_of_isTaken (taken : node.IsTaken) : context.Recounts key text node := by
  obtain ⟨name, value, rfl⟩ := taken
  exact ⟨nofun, nofun, fun other => absurd rfl (other value)⟩

theorem value_eq_none_iff (reaches : context.Reaches (.start key (context.parse text)) scene)
    (rooms : room + scene.depth = context.room (context.parse text))
    (member : request ∈ scene.requests) :
    (context.resolve room scene.stack request).2.value = none ↔
      context.CameToSection key text (context.resolve room scene.stack request).2 := by
  constructor
  · intro noValue
    rw [(context.faithful_resolve room scene.stack).value] at noValue
    obtain ⟨entries, comesTo⟩ := Outcome.text?_eq_none_iff.1 noValue
    exact ⟨scene, room, reaches, rooms, request, member, entries, Prod.ext comesTo rfl⟩
  · rintro ⟨scene', room', -, -, request', -, entries, same⟩
    -- whichever request left the node, the node tells what that request came to
    have value := (context.faithful_resolve room' scene'.stack).value request'
    rwa [same] at value

/-- The node of a request of the run tells how its value came about. -/
theorem recounts_resolve (reaches : context.Reaches (.start key (context.parse text)) scene)
    (rooms : room + scene.depth = context.room (context.parse text))
    (member : request ∈ scene.requests) :
    context.Recounts key text (context.resolve room scene.stack request).2 where
  entry raw value expanded detail noErrors := by
    cases request with
    | reference placement r =>
      rw [resolve_eq] at detail
      cases detail
    | entry space name suffix inner =>
      obtain ⟨wildcard, -, matched, -⟩ := reaches.exists_of_entry member
      have stored := Wildcard.find?_of_mem_entries matched
      have replayed := replay_resolve_entry noErrors
      rw [Trace.value, detail] at replayed
      rw [resolve_eq] at detail
      cases detail
      refine ⟨space, inner, rfl, ?_, replayed⟩
      rw [resolve_eq]
      exact stored
  lookup space looks single taken := by
    cases request with
    | reference placement r => exact replaysKey_resolve looks single taken
    | entry space' name suffix inner =>
      rw [resolve_eq] at looks
      cases looks
  toSection _ := value_eq_none_iff reaches rooms member

/-- Every node below the text of a structure key tells how its value came about. -/
theorem recounts_of_mem_preorder {child : Trace Issue}
    (isChild : child ∈ (context.resolveText key text).children)
    (below : node ∈ child.preorder) : context.Recounts key text node := by
  obtain ⟨n, onLevel⟩ := Trace.mem_preorder_iff.1 below
  obtain ⟨scene, reaches, -, taken | ⟨room, rooms, request, member, rfl⟩⟩ :=
    exists_scene_of_mem_level isChild onLevel
  · exact recounts_of_isTaken taken
  · exact recounts_resolve reaches rooms member

end Context

end LayeredConfig
