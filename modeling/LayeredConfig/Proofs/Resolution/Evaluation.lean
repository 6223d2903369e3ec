import LayeredConfig.Proofs.Resolution.Termination

/-!
# Strict evaluation

Resolution goes on with an empty text wherever something is wrong. Strict evaluation
takes the same steps over the same stack of frames and fails there instead. The two run
in lockstep: strict evaluation gives the outcome of a request if nothing at all was noted
on its trace, and fails otherwise.

## Main definitions

* `Context.strictAnswer` — one request, given the strict outcomes inside an opened frame
* `Context.evaluate` — the strict outcome of a request with room for so many more frames
* `Context.evaluateText` — the strict outcome of the text of a structure key

## Main results

* `Context.tracks_resolve` — strict evaluation succeeds iff the trace is clean
* `Context.Reaches.evaluate_eq` — strict evaluation never runs out of room
* `Context.evaluateText_eq` — the same for the text of a structure key
-/

namespace LayeredConfig

/-- Evaluates requests, or fails. -/
abbrev Evaluator := Request → Option Outcome

/-! ## The evaluator -/

/-- Evaluates the parts of a text and joins them. -/
def strictJoin (evaluate : Evaluator) : List Part → Option String
  | [] => some ""
  | .literal text :: parts => do
    let rest ← strictJoin evaluate parts
    return text ++ rest
  | .reference reference :: parts => do
    let text ← (← evaluate (.reference .embedded reference)).text?
    let rest ← strictJoin evaluate parts
    return text ++ rest

/-- Evaluates the parts of a text. Only a single reference can come to a section. -/
def strictParts (evaluate : Evaluator) : List Part → Option Outcome
  | [.reference reference] => evaluate (.reference .whole reference)
  | parts => (strictJoin evaluate parts).map .text

/-- Opens a frame; fails if it is open already or there is no room. -/
def strictFrame (inside? : Option (Stack → Evaluator)) (stack : Stack) (frame : Frame) :
    Option Evaluator :=
  if frame ∈ stack.opened then none else inside?.map fun inside => inside (stack.push frame)

/-- An outcome as a reference gets it: a section fails in the middle of a text. -/
def Outcome.passTo (placement : Placement) (outcome : Outcome) : Option Outcome :=
  match placement, outcome with
  | .embedded, .entries _ => none
  | _, _ => some outcome

namespace Context

/-- Takes the text of a key. A null reads as an empty text; an absent key fails. -/
def strictKey (context : Context) (inside? : Option (Stack → Evaluator)) (stack : Stack)
    (placement : Placement) (space : Space) (key : String) : Option Outcome :=
  match (context.keys space).find? key with
  | none => none
  | some none => some (.text "")
  | some (some text) =>
    let parts := context.parse text
    if Value.references parts = [] then
      some (.text text)
    else do
      let evaluate ← strictFrame inside? stack ⟨space, key⟩
      let outcome ← strictParts evaluate parts
      outcome.passTo placement

/-- The entries that one matched key adds to a section. -/
def strictEntry (context : Context) (evaluate : Evaluator) (space : Space) (suffix : String) :
    String × Option String → Option SectionEntries
  | (_, none) => some [(suffix, none)]
  | (key, some text) =>
    if Value.references (context.parse text) = [] then
      some [(suffix, some text)]
    else
      (evaluate (.entry space key suffix text)).map (Outcome.entriesUnder suffix)

/-- Expands a section; fails if it comes to no entries. -/
def strictSection (context : Context) (inside? : Option (Stack → Evaluator)) (stack : Stack)
    (space : Space) (wildcard : Wildcard) : Option Outcome := do
  let evaluate ← strictFrame inside? stack ⟨space, wildcard.path⟩
  let expanded ← (wildcard.entries (context.keys space)).mapM fun entry =>
    context.strictEntry evaluate space (wildcard.suffix entry.1) entry
  if expanded.flatten = [] then none else some (.entries expanded.flatten)

/-- Takes what a path of a map asks for. A bare star fails whatever the settings, and a
section fails in the middle of a text. -/
def strictPath (context : Context) (inside? : Option (Stack → Evaluator)) (stack : Stack)
    (placement : Placement) (space : Space) (path : String) : Option Outcome :=
  match Query.ofPath path with
  | .key key => context.strictKey inside? stack placement space key
  | .all wildcard =>
    if wildcard.bare = false ∧ placement = .whole then
      context.strictSection inside? stack space wildcard
    else
      none

/-- Takes a secret; fails for a star and for a secret that is not found. -/
def strictSecret (context : Context) (path : String) : Option Outcome :=
  match Query.ofPath path with
  | .all _ => none
  | .key _ => (context.secrets path).map .text

/-- Looks up the target of a reference. -/
def strictTarget (context : Context) (inside? : Option (Stack → Evaluator)) (stack : Stack)
    (placement : Placement) : Target → Option Outcome
  | .keys space path => context.strictPath inside? stack placement space path
  | .secret path => context.strictSecret path
  | .unknown .. | .nowhere _ => none

/-- Evaluates one request, given the outcomes inside a frame opened above the stack, or
`none` if no more frame may be opened. -/
def strictAnswer (context : Context) (inside? : Option (Stack → Evaluator)) (stack : Stack) :
    Evaluator
  | .reference placement reference =>
    context.strictTarget inside? stack placement (Target.ofReference stack.current reference)
  | .entry space key _ text => do
    let evaluate ← strictFrame inside? stack ⟨space, key⟩
    strictParts evaluate (context.parse text)

/-- Evaluates a request with room for so many more frames. -/
def evaluate (context : Context) : (room : Nat) → Stack → Evaluator
  | 0, stack, request => context.strictAnswer none stack request
  | room + 1, stack, request =>
    context.strictAnswer (some fun stack request => context.evaluate room stack request) stack
      request

/-- Evaluates the text of a key of the structure. -/
def evaluateText (context : Context) (key text : String) : Option Outcome :=
  let parts := context.parse text
  strictParts (context.evaluate (context.room parts) { root := key }) parts

end Context

/-! ## Lockstep -/

/-- The outcome of an answer on whose trace nothing was noted. -/
def ifClean (answer : Outcome × Trace Issue) : Option Outcome :=
  if answer.2.isClean = true then some answer.1 else none

/-- The outcome of a finding on which and below which nothing was noted. -/
def Finding.ifClean (finding : Finding) : Option Outcome :=
  if finding.issues = [] ∧ finding.children.all Trace.isClean = true then
    some finding.outcome
  else
    none

/-- The evaluator gives the outcomes of the clean answers and fails on all others; a
reference in the middle of a text is answered by a text. -/
structure Tracks (answer : Answerer) (evaluate : Evaluator) : Prop where
  eq : ∀ request, evaluate request = ifClean (answer request)
  text : ∀ reference, ∃ text, (answer (.reference .embedded reference)).1 = .text text

/-- The evaluators inside a frame track the answers there. -/
inductive TracksInside : Option (Stack → Answerer) → Option (Stack → Evaluator) → Prop
  | full : TracksInside none none
  | room {answer : Stack → Answerer} {evaluate : Stack → Evaluator} :
    (∀ stack, Tracks (answer stack) (evaluate stack)) → TracksInside (some answer) (some evaluate)

theorem Diagnostics.mem_all_ofIssues {issues : List Issue} {issue : Issue} :
    issue ∈ (ofIssues issues).all ↔ issue ∈ issues := by
  cases severity : issue.severity <;> simp [all, ofIssues, severity]

theorem Diagnostics.isClean_ofIssues {issues : List Issue} :
    (Diagnostics.ofIssues issues).isClean = true ↔ issues = [] := by
  rw [isClean_iff]
  constructor
  · rintro ⟨noWarnings, noErrors⟩
    refine List.eq_nil_iff_forall_not_mem.2 fun issue member => ?_
    have notWarning := List.filter_eq_nil_iff.1 noWarnings issue member
    have notError := List.filter_eq_nil_iff.1 noErrors issue member
    cases severity : issue.severity <;> simp [severity] at notWarning notError
  · rintro rfl
    exact ⟨rfl, rfl⟩

theorem Finding.ifClean_eq (finding : Finding) (key : String) (detail : Trace.Detail) :
    LayeredConfig.ifClean (finding.outcome, finding.trace key detail) = finding.ifClean := by
  have clean : (finding.trace key detail).isClean = true ↔
      finding.issues = [] ∧ finding.children.all Trace.isClean = true := by
    rw [Trace.isClean_iff_children, List.all_eq_true]
    exact and_congr_left' Diagnostics.isClean_ofIssues
  simp only [LayeredConfig.ifClean, Finding.ifClean, clean]

@[simp] theorem Finding.ifClean_fault (issue : Issue) : (fault issue).ifClean = none := by
  simp [Finding.ifClean, fault]

@[simp] theorem Finding.ifClean_after (finding : Finding) (issue : Issue) :
    (finding.after issue).ifClean = none := by
  simp [Finding.ifClean, after]

@[simp] theorem Finding.ifClean_text (text : String) :
    Finding.ifClean { outcome := .text text } = some (.text text) := by
  simp [Finding.ifClean]

theorem Finding.ifClean_passOn (finding : Finding) (placement : Placement) (key : String) :
    (finding.passOn placement key).ifClean =
      finding.ifClean.bind (Outcome.passTo placement) := by
  by_cases clean : finding.issues = [] ∧ finding.children.all Trace.isClean = true
  · -- only a section in the middle of a text adds an issue of its own
    cases placement with
    | whole => simp [Finding.passOn, Finding.ifClean, clean, Outcome.passTo]
    | embedded =>
      cases comesTo : finding.outcome <;>
        simp [Finding.passOn, Finding.ifClean, clean, Outcome.passTo, comesTo]
  · have fails : finding.ifClean = none := if_neg clean
    rw [fails, Option.bind_none]
    refine if_neg fun clean' => clean ?_
    unfold Finding.passOn at clean'
    split at clean'
    · exact absurd clean'.1 (by simp)
    · exact clean'

theorem Trace.isClean_leaf (key : String) (detail : Trace.Detail) :
    ({ key, detail } : Trace Issue).isClean = true :=
  Trace.isClean_iff_children.2 ⟨rfl, fun _ member => nomatch member⟩

section Tracks

variable {answer : Answerer} {evaluate : Evaluator} {parts : List Part}

theorem Tracks.strictJoin_eq (tracks : Tracks answer evaluate) (parts : List Part) :
    strictJoin evaluate parts =
      if (joinParts answer parts).2.all Trace.isClean = true then some (joinParts answer parts).1
      else none := by
  induction parts with
  | nil => rfl
  | cons part parts ih =>
    cases part with
    | literal text =>
      simp only [strictJoin, joinParts, ih]
      by_cases clean : (joinParts answer parts).2.all Trace.isClean = true <;> simp [clean]
    | reference reference =>
      -- a section never gets here, so no text is dropped without an issue
      obtain ⟨text, comesTo⟩ := tracks.text reference
      simp only [strictJoin, joinParts, ih, tracks.eq, ifClean, comesTo, List.all_cons]
      cases (answer (.reference .embedded reference)).2.isClean with
      | false => rfl
      | true =>
        by_cases clean : (joinParts answer parts).2.all Trace.isClean = true <;>
          simp [clean, Outcome.text?]

theorem Tracks.strictParts_eq (tracks : Tracks answer evaluate) (parts : List Part) :
    strictParts evaluate parts = (resolveParts answer parts).ifClean := by
  match parts with
  | [.reference reference] =>
    simp [strictParts, resolveParts, tracks.eq, ifClean, Finding.ifClean]
  | [] | [.literal _] | .literal _ :: _ :: _ | .reference _ :: _ :: _ =>
    simp only [strictParts, resolveParts, tracks.strictJoin_eq, Finding.ifClean, true_and]
    split <;> rfl

theorem TracksInside.frame {inside? : Option (Stack → Answerer)}
    {strictInside? : Option (Stack → Evaluator)} (inside : TracksInside inside? strictInside?)
    (stack : Stack) (frame : Frame) :
    (∃ issue, openFrame inside? stack frame = .error issue ∧
      strictFrame strictInside? stack frame = none) ∨
    ∃ answer evaluate, openFrame inside? stack frame = .ok answer ∧
      strictFrame strictInside? stack frame = some evaluate ∧ Tracks answer evaluate := by
  by_cases opened : frame ∈ stack.opened
  · refine .inl ⟨.cyclicReference frame.path, ?_, ?_⟩
    · simp only [openFrame, opened, if_true]
    · simp [strictFrame, opened]
  · cases inside with
    | full =>
      refine .inl ⟨.depthExceeded frame.path stack.depth, ?_, ?_⟩
      · simp only [openFrame, opened, if_false]
      · simp [strictFrame]
    | room tracks =>
      refine .inr ⟨_, _, ?_, ?_, tracks (stack.push frame)⟩
      · simp only [openFrame, opened, if_false]
      · simp [strictFrame, opened]

end Tracks

theorem mapM_ite {α β : Type} (keep : α → Bool) (f : α → β) (l : List α) :
    (l.mapM fun a => if keep a = true then some (f a) else none) =
      if l.all keep = true then some (l.map f) else none := by
  induction l with
  | nil => rfl
  | cons a l ih =>
    rw [List.mapM_cons, ih, List.all_cons, List.map_cons]
    cases keep a with
    | false => rfl
    | true => cases l.all keep <;> rfl

namespace Context

variable {context : Context} {inside? : Option (Stack → Answerer)}
  {strictInside? : Option (Stack → Evaluator)} {stack : Stack} {space : Space}

theorem strictKey_eq (inside : TracksInside inside? strictInside?) (placement : Placement)
    (key : String) :
    context.strictKey strictInside? stack placement space key =
      (context.resolveKey inside? stack placement space key).ifClean := by
  cases found : (context.keys space).find? key with
  | none => simp [strictKey, resolveKey, found]
  | some value =>
    cases value with
    | none => simp [strictKey, resolveKey, found]
    | some text =>
      by_cases references : Value.references (context.parse text) = []
      · simp [strictKey, resolveKey, found, references]
      · rw [resolveKey_of_references found references]
        simp only [strictKey, found, references, if_false]
        rcases inside.frame stack ⟨space, key⟩ with ⟨issue, refused, fails⟩ |
          ⟨answer, evaluate, opened, opens, tracks⟩
        · simp [refused, fails]
        · simp only [opened, opens, Option.bind_eq_bind, Option.bind_some, tracks.strictParts_eq,
            Finding.ifClean_passOn]

theorem strictEntry_eq {answer : Answerer} {evaluate : Evaluator}
    (tracks : Tracks answer evaluate) (suffix : String) (entry : String × Option String) :
    context.strictEntry evaluate space suffix entry =
      if (context.expandEntry answer space suffix entry).2.isClean = true then
        some (context.expandEntry answer space suffix entry).1
      else
        none := by
  obtain ⟨key, _ | text⟩ := entry
  · simp only [strictEntry, expandEntry, Trace.isClean_leaf, if_true]
  · by_cases references : Value.references (context.parse text) = []
    · simp only [strictEntry, expandEntry, references, if_true, Trace.isClean_leaf]
    · simp only [strictEntry, expandEntry, references, if_false, tracks.eq, ifClean]
      split <;> rfl

theorem strictSection_eq (inside : TracksInside inside? strictInside?) (wildcard : Wildcard) :
    context.strictSection strictInside? stack space wildcard =
      (context.expandSection inside? stack space wildcard).ifClean := by
  rw [expandSection_eq]
  unfold strictSection
  rcases inside.frame stack ⟨space, wildcard.path⟩ with ⟨issue, refused, fails⟩ |
    ⟨answer, evaluate, opened, opens, tracks⟩
  · simp [refused, fails]
  · simp only [opened, opens, Option.bind_eq_bind, Option.bind_some, strictEntry_eq tracks,
      mapM_ite, expandEntries, Finding.ifClean, List.all_map, List.flatMap_def, List.map_map,
      Function.comp_def]
    split
    · next clean =>
      -- with clean entries an issue is noted only if there are none
      simp only [Option.bind_some, clean, and_true]
      split
      · next nothing => simp
      · next something => simp
    · next dirty => simp [dirty]

theorem strictPath_eq (inside : TracksInside inside? strictInside?) (placement : Placement)
    (path : String) :
    context.strictPath strictInside? stack placement space path =
      (context.resolvePath inside? stack placement space path).ifClean := by
  unfold strictPath resolvePath
  cases Query.ofPath path with
  | key key => exact strictKey_eq inside placement key
  | all wildcard =>
    by_cases bare : wildcard.bare = true
    · -- a bare star is noted even where the settings allow it
      by_cases legacy : context.settings.legacyWildcard = true <;> simp [bare, legacy]
    · cases placement with
      | embedded => simp [bare, resolveSection]
      | whole => simp [bare, resolveSection, strictSection_eq inside]

theorem strictSecret_eq (path : String) :
    context.strictSecret path = (context.resolveSecret path).ifClean := by
  unfold strictSecret resolveSecret
  cases Query.ofPath path with
  | all wildcard => simp
  | key key => cases context.secrets path <;> simp

theorem strictTarget_eq (inside : TracksInside inside? strictInside?) (placement : Placement)
    (target : Target) :
    context.strictTarget strictInside? stack placement target =
      (context.resolveTarget inside? stack placement target).ifClean := by
  cases target with
  | keys space path => exact strictPath_eq inside placement path
  | secret path => exact strictSecret_eq path
  | unknown name path source => simp [strictTarget, resolveTarget]
  | nowhere source => simp [strictTarget, resolveTarget]

/-! ## References in the middle of a text -/

theorem exists_text_resolveKey (key : String) :
    ∃ text, (context.resolveKey inside? stack .embedded space key).outcome = .text text := by
  cases found : (context.keys space).find? key with
  | none => exact ⟨"", by simp [resolveKey, found, Finding.fault]⟩
  | some value =>
    cases value with
    | none => exact ⟨"", by simp [resolveKey, found]⟩
    | some text =>
      by_cases references : Value.references (context.parse text) = []
      · exact ⟨text, by simp [resolveKey, found, references]⟩
      · rw [resolveKey_of_references found references]
        cases openFrame inside? stack ⟨space, key⟩ with
        | error issue => exact ⟨"", rfl⟩
        | ok answer =>
          cases comesTo : (resolveParts answer (context.parse text)).outcome with
          | text inner => exact ⟨inner, by simp [Finding.outcome_passOn, comesTo]⟩
          | entries entries => exact ⟨"", by simp [Finding.outcome_passOn, comesTo]⟩

theorem exists_text_resolveTarget (target : Target) :
    ∃ text, (context.resolveTarget inside? stack .embedded target).outcome = .text text := by
  cases target with
  | keys space path =>
    simp only [resolveTarget, resolvePath]
    cases Query.ofPath path with
    | key key => exact exists_text_resolveKey key
    | all wildcard =>
      refine ⟨"", ?_⟩
      simp only [resolveSection]
      split
      · rfl
      · split <;> rfl
  | secret path =>
    simp only [resolveTarget, resolveSecret]
    cases Query.ofPath path with
    | all wildcard => exact ⟨"", rfl⟩
    | key key =>
      cases context.secrets path with
      | none => exact ⟨"", rfl⟩
      | some text => exact ⟨text, rfl⟩
  | unknown name path source => exact ⟨"", rfl⟩
  | nowhere source => exact ⟨"", rfl⟩

/-! ## Whole runs -/

theorem tracks_answer (inside : TracksInside inside? strictInside?) (stack : Stack) :
    Tracks (context.answer inside? stack) (context.strictAnswer strictInside? stack) where
  eq request := by
    cases request with
    | reference placement reference =>
      simp only [strictAnswer, strictTarget_eq inside, answer, Finding.ifClean_eq]
    | entry space key suffix text =>
      simp only [strictAnswer, answer, Finding.ifClean_eq]
      rcases inside.frame stack ⟨space, key⟩ with ⟨issue, refused, fails⟩ |
        ⟨answer, evaluate, opened, opens, tracks⟩
      · simp [refused, fails]
      · simp [opened, opens, tracks.strictParts_eq]
  text reference := exists_text_resolveTarget _

/-- Strict evaluation and resolution run in lockstep. -/
theorem tracks_resolve (context : Context) (room : Nat) (stack : Stack) :
    Tracks (context.resolve room stack) (context.evaluate room stack) := by
  -- one step tracks whatever tracks inside; the room is the same on both sides
  induction room generalizing stack with
  | zero => exact tracks_answer .full stack
  | succ room ih => exact tracks_answer (.room ih) stack

/-- In a run of the resolution only the limit keeps strict evaluation from opening one more
frame. -/
theorem Reaches.evaluate_eq {key : String} {parts : List Part} {scene : Scene} {request : Request}
    (reaches : context.Reaches (.start key parts) scene) (member : request ∈ scene.requests) :
    context.evaluate (context.room parts - scene.depth) scene.stack request =
      context.strictAnswer
        (if context.hasRoom scene.stack then
          some fun stack => context.evaluate (context.room parts - stack.depth) stack
        else
          none) scene.stack request := by
  have resolved := reaches.resolve_eq member
    (fun stack => context.resolve (context.room parts - stack.depth) stack) fun _ _ _ _ => rfl
  have inside : ∀ roomy : Bool, TracksInside
      (if roomy then
        some fun stack => context.resolve (context.room parts - stack.depth) stack
      else none)
      (if roomy then
        some fun stack => context.evaluate (context.room parts - stack.depth) stack
      else none) := by
    intro roomy
    cases roomy with
    | false => exact .full
    | true => exact .room fun stack => context.tracks_resolve _ stack
  rw [(context.tracks_resolve _ scene.stack).eq, resolved, (tracks_answer (inside _) _).eq]

/-- Strict evaluation of the text of a structure key succeeds iff nothing was noted while
the text was resolved, and then gives the same outcome. -/
theorem evaluateText_eq (context : Context) (key text : String) :
    context.evaluateText key text =
      if (context.resolveText key text).children.all Trace.isClean = true then
        some (context.resolveText key text).outcome
      else
        none := by
  have noIssues : (context.resolveText key text).issues = [] := issues_resolveParts
  rw [evaluateText, (context.tracks_resolve _ _).strictParts_eq]
  exact if_congr (and_iff_right noIssues) rfl rfl

end Context

end LayeredConfig
