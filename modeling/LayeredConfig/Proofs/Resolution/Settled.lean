import LayeredConfig.Proofs.Resolution.Cycle

/-!
# Settled keys

A key is settled by putting in place of its text what the text comes to. If no reference
asks for a section and no run comes back to an open frame, this changes nothing: what was a
nested run is now a text that is taken as it is.

## Main definitions

* `Reference.Starless`, `Context.Sectionless` — no reference asks for a section
* `Context.Settles` — some keys hold what their texts come to

## Main results

* `Context.Sectionless.exists_text` — without sections everything comes to a text
* `Context.Sectionless.not_comesBack` — without cycles no frame is asked for twice
* `Context.Settles.outcome_resolveText` — settling keys changes no outcome
-/

namespace LayeredConfig

/-! ## References to keys -/

/-- The path of a reference does not end in a star. -/
def Reference.Starless (r : Reference) : Prop :=
  ∀ path ∈ r.path, path.toList.getLast? ≠ some '*'

instance (r : Reference) : Decidable r.Starless :=
  inferInstanceAs (Decidable (∀ path ∈ r.path, path.toList.getLast? ≠ some '*'))

theorem Reference.Starless.of_target? {r : Reference} {space : Namespace} {path : String}
    (starless : r.Starless) (target : r.target? = some (space, path)) :
    path.toList.getLast? ≠ some '*' := by
  obtain ⟨written, isPath, looked⟩ := Option.map_eq_some_iff.1 target
  have ending := starless written isPath
  cases selector : r.selector with
  | some name =>
    simp only [selector, Prod.mk.injEq] at looked
    rwa [← looked.2]
  | none =>
    simp only [selector] at looked
    cases reserved : Namespace.ofPath? written with
    | none =>
      simp only [reserved, Option.getD_none, Prod.mk.injEq] at looked
      rwa [← looked.2]
    | some found =>
      -- a reserved first segment is cut off at a slash
      simp only [reserved, Option.getD_some] at looked
      subst looked
      unfold Namespace.ofPath? at reserved
      split at reserved
      · next head rest cut =>
        obtain ⟨_, -, same⟩ := Option.map_eq_some_iff.1 reserved
        rw [← (Prod.mk.inj same).2, String.toList_ofList]
        rw [(Text.eq_of_cutFirst? cut).1, List.getLast?_append_cons, List.getLast?_cons] at ending
        intro last
        rw [last] at ending
        exact ending rfl
      · cases reserved

/-- A reference whose path does not end in a star asks for a key. -/
theorem Reference.Starless.ofPath_eq {r : Reference} {current path : String} {space : Space}
    (starless : r.Starless) (target : Target.ofReference current r = .keys space path) :
    Query.ofPath path = .key path := by
  rw [Query.ofPath_eq_key_iff]
  unfold Target.ofReference at target
  split at target <;> cases target
  · next looked => exact starless.of_target? looked
  · next looked => exact siblingPath_getLast? (starless.of_target? looked)
  · next looked => exact starless.of_target? looked

/-- No reference in the texts of a map asks for a section. -/
def ConfigMap.Sectionless (parse : String → List Part) (map : ConfigMap) : Prop :=
  ∀ key text, map.find? key = some (some text) →
    ∀ r ∈ Value.references (parse text), r.Starless

instance (parse : String → List Part) (map : ConfigMap) :
    Decidable (ConfigMap.Sectionless parse map) :=
  decidable_of_iff
    (∀ entry ∈ map.entries, ∀ r ∈ Value.references (entry.2.elim [] parse), r.Starless) <| by
    constructor
    · intro starless key text found
      exact starless (key, some text) (KeyMap.mem_entries_iff.2 found)
    · rintro sectionless ⟨key, _ | text⟩ member r held
      · cases held
      · exact sectionless key text (KeyMap.mem_entries_iff.1 member) r held

/-- A request for a reference to a key. -/
def Request.Starless : Request → Prop
  | .reference _ r => r.Starless
  | .entry .. => False

theorem Request.starless_of_mem_ofParts {parts : List Part} {request : Request}
    (starless : ∀ r ∈ Value.references parts, r.Starless)
    (member : request ∈ Request.ofParts parts) : request.Starless := by
  obtain ⟨placement, r, held, rfl⟩ := exists_of_mem_ofParts member
  exact starless r held

namespace Context

/-- No reference in a text of either map asks for a section. -/
def Sectionless (context : Context) : Prop :=
  ∀ space, (context.keys space).Sectionless context.parse

variable {context : Context}

/-! ## Without sections -/

/-- A text comes to a text if each of its requests does. -/
theorem exists_text_resolveParts {answer : Answerer} {parts : List Part}
    (texts : ∀ request ∈ Request.ofParts parts, ∃ t, (answer request).1 = .text t) :
    ∃ t, (resolveParts answer parts).outcome = .text t := by
  rcases single_or_joined parts with ⟨r, rfl⟩ | ⟨-, joined⟩
  · exact texts _ List.mem_cons_self
  · exact ⟨_, by rw [joined answer]⟩

theorem exists_text_resolveSecret (path : String) :
    ∃ t, (context.resolveSecret path).outcome = .text t := by
  unfold resolveSecret
  split
  · exact ⟨"", rfl⟩
  · split
    · exact ⟨_, rfl⟩
    · exact ⟨"", rfl⟩

/-- A reference to a key comes to a text if all references inside its frame do. -/
theorem Sectionless.exists_text_findingOf (sectionless : context.Sectionless)
    {inside? : Option (Stack → Answerer)} {stack : Stack} {request : Request}
    (starless : request.Starless)
    (texts : ∀ frame answer, openFrame inside? stack frame = .ok answer →
      ∀ request : Request, request.Starless → ∃ t, (answer request).1 = .text t) :
    ∃ t, (context.findingOf inside? stack request).outcome = .text t := by
  cases request with
  | entry space key suffix text => exact starless.elim
  | reference placement r =>
    cases target : Target.ofReference stack.current r with
    | nowhere source => exact ⟨"", by simp only [findingOf, target, resolveTarget, Finding.fault]⟩
    | unknown name path source =>
      exact ⟨"", by simp only [findingOf, target, resolveTarget, Finding.fault]⟩
    | secret path =>
      simp only [findingOf, target, resolveTarget]
      exact exists_text_resolveSecret path
    | keys space path =>
      -- the path asks for a key, so the expansion of a section is out of the question
      simp only [findingOf, target, resolveTarget, resolvePath,
        Reference.Starless.ofPath_eq starless target]
      rcases found : (context.keys space).find? path with _ | _ | text
      · exact ⟨"", by simp only [resolveKey, found, Finding.fault]⟩
      · exact ⟨"", by simp only [resolveKey, found]⟩
      · by_cases references : Value.references (context.parse text) = []
        · exact ⟨text, by simp only [resolveKey, found, references, if_true]⟩
        · rw [resolveKey_of_references found references]
          cases opened : openFrame inside? stack ⟨space, path⟩ with
          | error issue => exact ⟨"", rfl⟩
          | ok answer =>
            obtain ⟨t, comesTo⟩ := exists_text_resolveParts fun request made =>
              texts _ answer opened request (Request.starless_of_mem_ofParts
                (sectionless space path text found) made)
            refine ⟨t, ?_⟩
            simp only [Finding.outcome_passOn, comesTo]

/-- Where no reference asks for a section, every reference comes to a text. -/
theorem Sectionless.exists_text (sectionless : context.Sectionless) {room : Nat} {stack : Stack}
    {request : Request} (starless : request.Starless) :
    ∃ t, (context.resolve room stack request).1 = .text t := by
  induction room generalizing stack request with
  | zero =>
    rw [resolve_eq, outcome_answer]
    refine sectionless.exists_text_findingOf starless fun frame answer opened => ?_
    obtain ⟨-, inside, impossible, -⟩ := openFrame_eq_ok_iff.1 opened
    cases impossible
  | succ room ih =>
    rw [resolve_eq, outcome_answer]
    refine sectionless.exists_text_findingOf starless fun frame answer opened => ?_
    obtain ⟨-, inside, isInside, rfl⟩ := openFrame_eq_ok_iff.1 opened
    cases isInside
    exact fun request starless => ih starless

theorem Sectionless.exists_text_resolveText (sectionless : context.Sectionless)
    {key text : String} (starless : ∀ r ∈ Value.references (context.parse text), r.Starless) :
    ∃ t, (context.resolveText key text).outcome = .text t :=
  exists_text_resolveParts fun _ made =>
    sectionless.exists_text (Request.starless_of_mem_ofParts starless made)

/-- The run of a text is led to no section. -/
theorem Sectionless.not_reached (sectionless : context.Sectionless) {key text : String}
    (starless : ∀ r ∈ Value.references (context.parse text), r.Starless) (space : Space)
    (wildcard : Wildcard) :
    ¬ Relation.ReflTransGen context.Leads (.root key text) (.all space wildcard) := by
  intro reached
  rcases reached.cases_tail with impossible | ⟨before, toBefore, leads⟩
  · cases impossible
  · cases leads with
    | @toSection _ inner path r space wildcard atPlace whole target query allowed =>
      have held : r ∈ Value.references (context.parse inner) := by
        rw [whole]
        exact List.mem_cons_self
      have starless : r.Starless := by
        cases before with
        | root name text' =>
          -- nothing leads to the text of a structure key, so this is the one to start with
          rcases toBefore.cases_tail with same | ⟨_, -, impossible⟩
          · cases same
            cases atPlace
            exact starless r held
          · cases impossible
        | key space' name =>
          exact sectionless space' name inner (Option.join_eq_some_iff.1 atPlace) r held
        | all space' wildcard' => cases atPlace
      rw [starless.ofPath_eq target] at query
      cases query

/-- Where neither sections nor cycles are, no frame is asked for twice. -/
theorem Sectionless.not_comesBack (sectionless : context.Sectionless)
    (unlimited : context.settings.depthLimit = none)
    (acyclic : ∀ place, ¬ Relation.TransGen context.Depends place place) {key text : String}
    (starless : ∀ r ∈ Value.references (context.parse text), r.Starless) :
    ¬ context.ComesBack key (context.parse text) := by
  intro comesBack
  have noCycle : context.AcyclicFrom (.root key text) := fun place _ => acyclic place
  obtain ⟨space, wildcard, -, reached, -⟩ :=
    (comesBack_iff_of_acyclicFrom unlimited noCycle).1 comesBack
  exact sectionless.not_reached starless space wildcard reached

/-! ## Settling keys -/

/-- A key with references in its text holds in another context what the text comes to, and
no references stand in that. -/
structure SettledAt (context settled : Context) (space : Space) (key text value : String) :
    Prop where
  found : (context.keys space).find? key = some (some text)
  references : Value.references (context.parse text) ≠ []
  comesTo : (context.resolveText key text).outcome = .text value
  holds : (settled.keys space).find? key = some (some value)
  plain : Value.references (context.parse value) = []

/-- A context in which some keys hold what their texts come to in another one, while all
else is alike. -/
structure Settles (context settled : Context) : Prop where
  compiler : settled.toCompiler = context.toCompiler
  found : ∀ space key, (settled.keys space).find? key = (context.keys space).find? key ∨
    ∃ text value, context.SettledAt settled space key text value

namespace Settles

variable {settled : Context} {scene : Scene} {placement : Placement} {r : Reference}
  {space : Space} {key : String}

theorem parse (settles : context.Settles settled) : settled.parse = context.parse :=
  congrArg Compiler.parse settles.compiler

theorem unlimited (settles : context.Settles settled)
    (unlimited : context.settings.depthLimit = none) : settled.settings.depthLimit = none := by
  rw [settles.compiler]
  exact unlimited

theorem resolveSecret (settles : context.Settles settled) (path : String) :
    settled.resolveSecret path = context.resolveSecret path := by
  unfold Context.resolveSecret
  rw [settles.compiler]

/-- A key with the same value in both contexts is taken alike if no references stand there. -/
theorem resolveKey_of_plain (settles : context.Settles settled)
    {inside? inside'? : Option (Stack → Answerer)} {stack : Stack}
    (same : (settled.keys space).find? key = (context.keys space).find? key)
    (plain : ∀ text, (context.keys space).find? key = some (some text) →
      Value.references (context.parse text) = []) :
    settled.resolveKey inside'? stack placement space key =
      context.resolveKey inside? stack placement space key := by
  unfold resolveKey
  rw [same, settles.parse]
  rcases found : (context.keys space).find? key with _ | _ | text
  · rfl
  · rfl
  · simp only [plain text found, if_true]

/-- A settled key is taken for what its text comes to by itself, which is what it comes to
in the other context. -/
theorem outcome_of_settledAt (settles : context.Settles settled)
    (unlimited : context.settings.depthLimit = none) {root text value : String}
    {parts : List Part} (follows : context.Follows scene placement r space key text)
    (settledAt : context.SettledAt settled space key text value)
    (reaches : context.Reaches (.start root parts) scene)
    (fresh : ¬ context.ComesBack root parts)
    (freshKey : ¬ context.ComesBack key (context.parse text)) (room : Nat) :
    (settled.resolve room scene.stack (.reference placement r)).1 =
      (context.resolve (context.room parts - scene.depth) scene.stack (.reference placement r)).1 := by
  rw [follows.outcome_eq unlimited reaches fresh freshKey, Finding.outcome_passOn,
    settledAt.comesTo, resolve_eq, outcome_answer]
  simp only [findingOf, follows.target, resolveTarget, resolvePath, follows.query, resolveKey,
    settledAt.holds, settles.parse, settledAt.plain, if_true]

/-- Both runs open the frame of a key with the same text, so it comes to the same if all that
its text asks for does. -/
theorem outcome_of_same (settles : context.Settles settled)
    (unlimited : context.settings.depthLimit = none) {root text : String} {parts : List Part}
    (follows : context.Follows scene placement r space key text)
    (same : (settled.keys space).find? key = (context.keys space).find? key)
    (reaches : context.Reaches (.start root parts) scene)
    (reaches' : settled.Reaches (.start root parts) scene)
    (fresh : ¬ context.ComesBack root parts)
    (inside : ∀ inner : Scene, context.Enters scene inner → settled.Enters scene inner →
      inner.requests = Request.ofParts (context.parse text) → ∀ request ∈ inner.requests,
        (settled.resolve (settled.room parts - inner.depth) inner.stack request).1 =
          (context.resolve (context.room parts - inner.depth) inner.stack request).1) :
    (settled.resolve (settled.room parts - scene.depth) scene.stack (.reference placement r)).1 =
      (context.resolve (context.room parts - scene.depth) scene.stack (.reference placement r)).1 := by
  have unlimited' := settles.unlimited unlimited
  have references' : Value.references (settled.parse text) ≠ [] := by
    rw [settles.parse]
    exact follows.references
  have follows' : settled.Follows scene placement r space key text :=
    ⟨follows.member, follows.target, follows.query, same.trans follows.found, references'⟩
  have notOpened := follows.not_opened reaches fresh
  have enters := follows.enters unlimited notOpened
  have enters' := follows'.enters unlimited' notOpened
  rw [settles.parse] at enters'
  rw [follows.outcome_enter unlimited reaches notOpened,
    follows'.outcome_enter unlimited' reaches' notOpened, settles.parse]
  refine ((restsOn_resolveParts (context.parse text)).passOn placement key).outcome _ _ ?_
  exact inside _ enters enters' rfl

/-- Both contexts come to the same wherever their runs stand at the same scene. -/
theorem outcome_eq (settles : context.Settles settled) (sectionless : context.Sectionless)
    (unlimited : context.settings.depthLimit = none)
    (acyclic : ∀ place, ¬ Relation.TransGen context.Depends place place)
    {root : String} {parts : List Part} {request : Request}
    (fresh : ¬ context.ComesBack root parts)
    (reaches : context.Reaches (.start root parts) scene)
    (reaches' : settled.Reaches (.start root parts) scene)
    (starless : ∀ request ∈ scene.requests, request.Starless)
    (member : request ∈ scene.requests) :
    (settled.resolve (settled.room parts - scene.depth) scene.stack request).1 =
      (context.resolve (context.room parts - scene.depth) scene.stack request).1 := by
  -- the induction follows the run that enters every key; the other one stops at settled keys
  have acc := reaches.acc
  induction acc generalizing request with
  | intro scene _ ih =>
    cases request with
    | entry space name suffix text => exact (starless _ member).elim
    | reference placement r =>
      cases target : Target.ofReference scene.stack.current r with
      | nowhere source | unknown name path source =>
        simp only [resolve_eq, outcome_answer, findingOf, target, resolveTarget]
      | secret path =>
        simp only [resolve_eq, outcome_answer, findingOf, target, resolveTarget,
          settles.resolveSecret]
      | keys space path =>
        have query := Reference.Starless.ofPath_eq (starless _ member) target
        rcases settles.found space path with same | ⟨text, value, settledAt⟩
        · by_cases entered : ∃ text, (context.keys space).find? path = some (some text) ∧
            Value.references (context.parse text) ≠ []
          · obtain ⟨text, found, references⟩ := entered
            have follows : context.Follows scene placement r space path text :=
              ⟨member, target, query, found, references⟩
            refine settles.outcome_of_same unlimited follows same reaches reaches' fresh ?_
            intro inner enters enters' made request member'
            refine ih inner enters (reaches.enter enters) (reaches'.enter enters') ?_ member'
            rw [made]
            exact fun request =>
              Request.starless_of_mem_ofParts (sectionless space path text found)
          · -- nothing is opened in either context, so what is open does not matter
            have plain : ∀ text, (context.keys space).find? path = some (some text) →
                Value.references (context.parse text) = [] := fun text found =>
              Decidable.byContradiction fun references => entered ⟨text, found, references⟩
            simp only [resolve_eq, outcome_answer, findingOf, target, resolveTarget, resolvePath,
              query]
            rw [settles.resolveKey_of_plain same plain]
        · -- one run enters the key, the other takes what the key comes to by itself
          have follows : context.Follows scene placement r space path text :=
            ⟨member, target, query, settledAt.found, settledAt.references⟩
          exact settles.outcome_of_settledAt unlimited follows settledAt reaches fresh
            (sectionless.not_comesBack unlimited acyclic
              (sectionless space path text settledAt.found)) _

/-- Settling keys changes nothing of what a text comes to. -/
theorem outcome_resolveText (settles : context.Settles settled)
    (sectionless : context.Sectionless) (unlimited : context.settings.depthLimit = none)
    (acyclic : ∀ place, ¬ Relation.TransGen context.Depends place place) {text : String}
    (starless : ∀ r ∈ Value.references (context.parse text), r.Starless) :
    (settled.resolveText key text).outcome = (context.resolveText key text).outcome := by
  have fresh : ¬ context.ComesBack key (context.parse text) :=
    sectionless.not_comesBack unlimited acyclic starless
  rw [resolveText, resolveText, settles.parse]
  refine (restsOn_resolveParts (context.parse text)).outcome _ _ fun request made => ?_
  exact settles.outcome_eq sectionless unlimited acyclic fresh .refl .refl
    (fun request => Request.starless_of_mem_ofParts starless) made

end Settles

end Context

end LayeredConfig
