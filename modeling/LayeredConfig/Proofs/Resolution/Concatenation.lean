import LayeredConfig.Proofs.Value.Canonical
import LayeredConfig.Proofs.Resolution.Termination

/-!
# References side by side

A text of several parts is put together from what each part comes to by itself. No
reference sees the others: what it adds is what a text of this one reference comes to, even
where both go through the same keys or into the same cycle, and however deep the limit lets
them go. Only a section, for which a text of one reference may stand, adds nothing.

## Main definitions

* `Context.textOfPart` — what a part comes to by itself

## Main results

* `Context.Reaches.resolve_eq_of_reaches` — runs that meet in a scene go on alike
* `Context.outcome_findingOf_embedded` — among other parts a reference loses its sections
* `Context.outcome_resolveText_of_parts` — a text is the concatenation of its parts
-/

namespace LayeredConfig.Context

variable {context : Context} {key key' : String} {parts parts' : List Part} {scene : Scene}

/-! ## Runs that meet -/

/-- In a scene that two runs reach, both answer its requests alike: the texts that they began
with count for nothing any more, not even for the number of frames that may be open. -/
theorem Reaches.resolve_eq_of_reaches {request : Request}
    (reaches : context.Reaches (.start key parts) scene)
    (reaches' : context.Reaches (.start key' parts') scene) (member : request ∈ scene.requests) :
    context.resolve (context.room parts - scene.depth) scene.stack request =
      context.resolve (context.room parts' - scene.depth) scene.stack request := by
  have acc := reaches.acc
  induction acc generalizing request with
  | intro scene _ ih =>
    have onward : ∀ scene', context.Enters scene scene' → ∀ request ∈ scene'.requests,
        context.resolve (context.room parts' - scene'.depth) scene'.stack request =
          context.resolve (context.room parts - scene'.depth) scene'.stack request :=
      fun scene' enters request' member' =>
        (ih scene' enters (reaches.enter enters) (reaches'.enter enters) member').symm
    -- so the first run can be answered from the scenes of the second one
    have answered := reaches.resolve_eq member
      (fun stack => context.resolve (context.room parts' - stack.depth) stack) onward
    have answered' := reaches'.resolve_eq member
      (fun stack => context.resolve (context.room parts' - stack.depth) stack) fun _ _ _ _ => rfl
    exact answered.trans answered'.symm

/-- A frame that two runs ask for over the same stack is refused or opened in both of them,
and opened it gives the same answers. -/
theorem Reaches.openedAlike {stack : Stack} {requests requests' : List Request}
    {request request' : Request} {frame : Frame} {inner : List Request}
    (reaches : context.Reaches (.start key parts) ⟨stack, requests⟩)
    (reaches' : context.Reaches (.start key' parts') ⟨stack, requests'⟩)
    (member : request ∈ requests) (member' : request' ∈ requests')
    (opens : context.Opens stack.current request frame inner)
    (opens' : context.Opens stack.current request' frame inner) :
    OpenedAlike (· = ·) inner
      (openFrame (context.inside? (context.room parts - stack.depth)) stack frame)
      (openFrame (context.inside? (context.room parts' - stack.depth)) stack frame) := by
  have first : openFrame (context.inside? (context.room parts - stack.depth)) stack frame = _ :=
    reaches.openFrame_eq member opens
  have second : openFrame (context.inside? (context.room parts' - stack.depth)) stack frame = _ :=
    reaches'.openFrame_eq member' opens'
  rw [first, second]
  by_cases opened : frame ∈ stack.opened
  · simp [opened, OpenedAlike]
  · cases roomy : context.hasRoom stack with
    | false => simp [opened, OpenedAlike]
    | true =>
      simp only [opened, if_false, if_true, OpenedAlike]
      intro request isInner
      have enters : context.Enters ⟨stack, requests⟩ ⟨stack.push frame, inner⟩ :=
        .opens member opens opened roomy
      have enters' : context.Enters ⟨stack, requests'⟩ ⟨stack.push frame, inner⟩ :=
        .opens member' opens' opened roomy
      exact (reaches.enter enters).resolve_eq_of_reaches (reaches'.enter enters') isInner

/-! ## One reference in its text -/

variable {inside? : Option (Stack → Answerer)} {stack : Stack} {reference : Reference}

theorem outcome_resolveKey_embedded (space : Space) (key : String) :
    (context.resolveKey inside? stack .embedded space key).outcome =
      .text ((context.resolveKey inside? stack .whole space key).outcome.text?.getD "") := by
  rcases found : (context.keys space).find? key with _ | _ | text
  · simp only [resolveKey, found]
    rfl
  · simp only [resolveKey, found]
    rfl
  · by_cases plain : Value.references (context.parse text) = []
    · simp only [resolveKey, found, plain, if_true]
      rfl
    · rw [resolveKey_of_references found plain, resolveKey_of_references found plain]
      cases openFrame inside? stack ⟨space, key⟩ with
      | error issue => rfl
      | ok answer =>
        -- a section is dropped in the one place and passed on in the other
        simp only [Finding.outcome_passOn]
        cases (resolveParts answer (context.parse text)).outcome <;> rfl

theorem outcome_resolveSection_embedded (space : Space) (wildcard : Wildcard) :
    (context.resolveSection inside? stack .embedded space wildcard).outcome =
      .text ((context.resolveSection inside? stack .whole space wildcard).outcome.text?.getD "") := by
  simp only [resolveSection, expandSection_eq]
  cases openFrame inside? stack ⟨space, wildcard.path⟩ <;> rfl

/-- Among other parts a reference comes to the same text as by itself, and to an empty one
instead of a section. -/
theorem outcome_findingOf_embedded :
    (context.findingOf inside? stack (.reference .embedded reference)).outcome =
      .text ((context.findingOf inside? stack (.reference .whole reference)).outcome.text?.getD
        "") := by
  simp only [findingOf]
  cases Target.ofReference stack.current reference with
  | nowhere source => rfl
  | unknown name path source => rfl
  | secret path =>
    simp only [resolveTarget, resolveSecret]
    cases Query.ofPath path with
    | all wildcard => rfl
    | key key => cases context.secrets path <;> rfl
  | keys space path =>
    simp only [resolveTarget, resolvePath]
    cases Query.ofPath path with
    | key key => exact outcome_resolveKey_embedded space key
    | all wildcard =>
      cases bare : wildcard.bare with
      | false => simpa [bare] using outcome_resolveSection_embedded space wildcard
      | true =>
        cases context.settings.legacyWildcard with
        | false => simp [bare, Finding.fault, Outcome.text?]
        | true =>
          simpa [bare, Finding.after] using outcome_resolveSection_embedded space wildcard

/-- Whatever a reference opens among other parts it opens by itself as well. -/
theorem Opens.whole {current : String} {frame : Frame} {inner : List Request}
    (opens : context.Opens current (.reference .embedded reference) frame inner) :
    context.Opens current (.reference .whole reference) frame inner := by
  cases opens with
  | ofKey target query found references => exact .ofKey target query found references

/-! ## The parts of a text -/

/-- What a reference among the parts of a text adds to it is what a text of this reference
alone comes to. -/
theorem outcome_resolve_embedded (key : String)
    (member : .reference .embedded reference ∈ Request.ofParts parts) :
    (context.resolve (context.room parts) { root := key } (.reference .embedded reference)).1 =
      .text ((context.resolvePartsOf key [.reference reference]).outcome.text?.getD "") := by
  have single : (context.resolvePartsOf key [.reference reference]).outcome =
      (context.resolve (context.room [.reference reference]) { root := key }
        (.reference .whole reference)).1 := rfl
  have alone : .reference .whole reference ∈ Request.ofParts [.reference reference] :=
    List.mem_singleton_self _
  -- both texts are entered from an empty stack, and the reference opens the same frame
  have start (parts : List Part) : context.Reaches (.start key parts)
      ⟨{ root := key }, Request.ofParts parts⟩ := .refl
  have alike : context.findingOf (context.inside? (context.room parts)) { root := key }
        (.reference .embedded reference) =
      context.findingOf (context.inside? (context.room [.reference reference])) { root := key }
        (.reference .embedded reference) :=
    findingOf_congr rfl fun frame inner opens =>
      (start parts).openedAlike (start _) member alone opens opens.whole
  rw [single, Context.resolve_eq, Context.resolve_eq, outcome_answer, outcome_answer]
  exact (congrArg Finding.outcome alike).trans outcome_findingOf_embedded

/-- What a part adds to its text when its reference is answered among other parts. -/
def textOfAnswer (answer : Answerer) : Part → String
  | .literal text => text
  | .reference r => (answer (.reference .embedded r)).1.text?.getD ""

theorem joinParts_eq_join (answer : Answerer) (parts : List Part) :
    (joinParts answer parts).1 = String.join (parts.map (textOfAnswer answer)) := by
  induction parts with
  | nil => rfl
  | cons part parts ih =>
    rw [List.map_cons, String.join_cons, ← ih]
    cases part <;> rfl

/-- What a part of the text of a structure key comes to by itself. A reference does so as a
text of its own, and where that stands for a section it comes to nothing. -/
def textOfPart (context : Context) (key : String) : Part → String
  | .literal text => text
  | .reference r =>
    match (context.resolveText key r.source).outcome with
    | .text text => text
    | .entries _ => ""

theorem textOfPart_reference (context : Context) (key : String)
    (read : context.parse reference.source = [.reference reference]) :
    context.textOfPart key (.reference reference) =
      (context.resolvePartsOf key [.reference reference]).outcome.text?.getD "" := by
  rw [textOfPart, resolveText, read]
  cases (context.resolvePartsOf key [.reference reference]).outcome <;> rfl

/-- A text that is more than one reference comes to the concatenation of what its parts come
to by themselves. -/
theorem outcome_resolveText_of_parts (context : Context) (parser : context.parse = Value.parse)
    (key text : String) (several : ∀ r, Value.parse text ≠ [.reference r]) :
    (context.resolveText key text).outcome =
      .text (String.join ((Value.parse text).map (context.textOfPart key))) := by
  rcases single_or_joined (Value.parse text) with ⟨r, single⟩ | ⟨requests, joined⟩
  · exact absurd single (several r)
  · have added : ∀ part ∈ Value.parse text,
        textOfAnswer (context.resolve (context.room (Value.parse text)) { root := key }) part =
          context.textOfPart key part := by
      intro part member
      cases part with
      | literal text => rfl
      | reference r =>
        -- what is read as a reference somewhere is read as the same one by itself
        have read : context.parse r.source = [.reference r] := by
          rw [parser]
          exact (Value.canonical_parseChars text.toList).stable (.reference r) member
        have made : .reference .embedded r ∈ Request.ofParts (Value.parse text) := by
          rw [requests]
          exact List.mem_map_of_mem (List.mem_filterMap.2 ⟨_, member, rfl⟩)
        rw [textOfAnswer, outcome_resolve_embedded key made, textOfPart_reference context key read]
        rfl
    rw [resolveText, parser, resolvePartsOf, joined, joinParts_eq_join,
      List.map_congr_left added]

/-- Two keys that refer to each other. -/
def mirrors : Context where
  environment := .ofList [("a", some "<{{b}}>"), ("b", some "[{{a}}]"), ("list/x", some "1")]

/-- The two references go through the same cycle from either side, and the section adds
nothing. -/
theorem outcome_resolveText_mirrors :
    (∀ r, Value.parse "{{a}} {{b}}{{list/*}}" ≠ [.reference r]) ∧
      (mirrors.resolveText "K" "{{a}} {{b}}{{list/*}}").outcome = .text "<[]> [<>]" := by
  have several : ∀ r, Value.parse "{{a}} {{b}}{{list/*}}" ≠ [.reference r] := by
    have more : (Value.parse "{{a}} {{b}}{{list/*}}").tail.isEmpty = false := by decide +kernel
    intro r single
    rw [single] at more
    cases more
  have joined : (mirrors.resolveText "K" "{{a}} {{b}}{{list/*}}").outcome =
      .text "<[]> [<>]" := by
    rw [outcome_resolveText_of_parts mirrors rfl "K" "{{a}} {{b}}{{list/*}}" several]
    decide +kernel
  exact ⟨several, joined⟩

end LayeredConfig.Context
