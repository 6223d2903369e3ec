import Mathlib.Logic.Relation
import LayeredConfig.Proofs.Resolution.Request
import LayeredConfig.Proofs.Trace.Level

/-!
# Runs of the resolution

A run is a tree of scenes: a scene is a stack of open frames with the requests that are
made above them, and it is left by opening one more frame for one of its requests. The
invariants of a run are invariants of the scenes it reaches, and every node of a trace
belongs to a scene that is reached at its level.

## Main definitions

* `Scene` — a stack with the requests made above it
* `Context.Enters` — the frames that are opened from a scene
* `Context.Reaches` — the scenes of a run

## Main results

* `Context.Reaches.exists_of_mem_level` — where the nodes of a trace come from
* `Context.findingOf_congr`, `Context.outcome_congr` — what a finding depends on
* `Context.exists_refusal_of_error` — errors are noted where a frame is refused
-/

namespace LayeredConfig

/-- A stack with the requests that are made above it. -/
structure Scene where
  stack : Stack
  requests : List Request

namespace Scene

/-- The scene in which the parts of the text of a structure key are resolved. -/
def start (key : String) (parts : List Part) : Scene where
  stack := { root := key }
  requests := Request.ofParts parts

/-- The number of frames open in a scene. -/
def depth (scene : Scene) : Nat := scene.stack.depth

@[simp] theorem depth_start (key : String) (parts : List Part) : (start key parts).depth = 0 := rfl

end Scene

namespace Context

variable {context : Context}

/-- The limit, if there is one, allows one more frame. -/
def hasRoom (context : Context) (stack : Stack) : Bool :=
  context.settings.depthLimit.all (stack.depth < ·)

theorem hasRoom_iff {stack : Stack} : context.hasRoom stack = true ↔
    ∀ limit, context.settings.depthLimit = some limit → stack.depth < limit := by
  simp [hasRoom, Option.all_eq_true]

/-- A scene is entered from another one by opening a frame that a request asks for. -/
inductive Enters (context : Context) (outer : Scene) : Scene → Prop
  | opens {request : Request} {frame : Frame} {inner : List Request} :
    request ∈ outer.requests →
    context.Opens outer.stack.current request frame inner →
    frame ∉ outer.stack.opened →
    context.hasRoom outer.stack = true →
    Enters context outer ⟨outer.stack.push frame, inner⟩

/-- The scenes that a run comes to from a given one. -/
abbrev Reaches (context : Context) : Scene → Scene → Prop :=
  Relation.ReflTransGen context.Enters

theorem Reaches.enter {start outer inner : Scene} (reaches : context.Reaches start outer)
    (enters : context.Enters outer inner) : context.Reaches start inner :=
  Relation.ReflTransGen.tail reaches enters

theorem Enters.depth_eq {outer inner : Scene} (enters : context.Enters outer inner) :
    inner.depth = outer.depth + 1 := by
  cases enters
  rfl

/-! ## One step with its room -/

/-- How requests are answered inside a frame when there is room for so many more. -/
def inside? (context : Context) : (room : Nat) → Option (Stack → Answerer)
  | 0 => none
  | room + 1 => some (context.resolve room)

theorem resolve_eq (room : Nat) (stack : Stack) :
    context.resolve room stack = context.answer (context.inside? room) stack := by
  cases room <;> rfl

section OpenFrame

variable {inside? : Option (Stack → Answerer)} {stack : Stack} {frame : Frame}

theorem openFrame_eq_ok_iff {answer : Answerer} :
    openFrame inside? stack frame = .ok answer ↔
      frame ∉ stack.opened ∧ ∃ inside, inside? = some inside ∧ inside (stack.push frame) = answer := by
  unfold openFrame
  by_cases opened : frame ∈ stack.opened
  · simp [opened]
  · cases inside? <;> simp [opened]

theorem openFrame_eq_error_iff {issue : Issue} :
    openFrame inside? stack frame = .error issue ↔
      (frame ∈ stack.opened ∧ issue = .cyclicReference frame.path) ∨
        (frame ∉ stack.opened ∧ inside? = none ∧ issue = .depthExceeded frame.path stack.depth) := by
  unfold openFrame
  by_cases opened : frame ∈ stack.opened
  · simp [opened, eq_comm]
  · cases inside? <;> simp [opened, eq_comm]

/-- Inside a frame there is room for one frame less. -/
theorem exists_of_openFrame {room : Nat} {answer : Answerer}
    (opened : openFrame (context.inside? room) stack frame = .ok answer) :
    frame ∉ stack.opened ∧
      ∃ left, room = left + 1 ∧ answer = context.resolve left (stack.push frame) := by
  obtain ⟨fresh, inside, roomy, rfl⟩ := openFrame_eq_ok_iff.1 opened
  refine ⟨fresh, ?_⟩
  cases room with
  | zero => cases roomy
  | succ left =>
    cases roomy
    exact ⟨left, rfl, rfl⟩

end OpenFrame

/-! ## What a finding depends on -/

/-- Two attempts to open a frame end alike: both are refused for the same reason, or both
give answers that are alike on the requests inside. -/
def OpenedAlike (alike : Outcome × Trace Issue → Outcome × Trace Issue → Prop)
    (inner : List Request) : Except Issue Answerer → Except Issue Answerer → Prop
  | .error issue, .error issue' => issue = issue'
  | .ok f, .ok g => ∀ request ∈ inner, alike (f request) (g request)
  | _, _ => False

section Congr

variable {alike : Outcome × Trace Issue → Outcome × Trace Issue → Prop} {inner : List Request}
  {first second : Except Issue Answerer} {in₁ in₂ : Option (Stack → Answerer)}
  {stack₁ stack₂ : Stack} {request : Request}

theorem OpenedAlike.cases (opened : OpenedAlike alike inner first second) :
    (∃ issue, first = .error issue ∧ second = .error issue) ∨
      ∃ f g, first = .ok f ∧ second = .ok g ∧
        ∀ request ∈ inner, alike (f request) (g request) := by
  cases first with
  | error issue =>
    cases second with
    | error issue' =>
      have same : issue = issue' := opened
      exact .inl ⟨issue, rfl, by rw [same]⟩
    | ok g => exact opened.elim
  | ok f =>
    cases second with
    | error issue' => exact opened.elim
    | ok g => exact .inr ⟨f, g, rfl, rfl, opened⟩

theorem findingOf_congr (current : stack₁.current = stack₂.current)
    (opened : ∀ frame inner, context.Opens stack₂.current request frame inner →
      OpenedAlike (· = ·) inner (openFrame in₁ stack₁ frame) (openFrame in₂ stack₂ frame)) :
    context.findingOf in₁ stack₁ request = context.findingOf in₂ stack₂ request := by
  rcases context.findingOf_cases stack₂.current request with
    ⟨frame, inner, opens, noted, finish, -, rests, finding⟩ | ⟨finding, -, same⟩
  · rw [finding in₁ stack₁ current, finding in₂ stack₂ rfl]
    rcases (opened frame inner opens).cases with
      ⟨issue, refused₁, refused₂⟩ | ⟨f, g, opened₁, opened₂, alike⟩
    · rw [refused₁, refused₂]
    · rw [opened₁, opened₂]
      exact rests.congr f g alike
  · rw [same in₁ stack₁ current, same in₂ stack₂ rfl]

theorem outcome_congr (current : stack₁.current = stack₂.current)
    (opened : ∀ frame inner, context.Opens stack₂.current request frame inner →
      OpenedAlike (·.1 = ·.1) inner (openFrame in₁ stack₁ frame) (openFrame in₂ stack₂ frame)) :
    (context.findingOf in₁ stack₁ request).outcome =
      (context.findingOf in₂ stack₂ request).outcome := by
  rcases context.findingOf_cases stack₂.current request with
    ⟨frame, inner, opens, noted, finish, -, rests, finding⟩ | ⟨finding, -, same⟩
  · rw [finding in₁ stack₁ current, finding in₂ stack₂ rfl]
    rcases (opened frame inner opens).cases with
      ⟨issue, refused₁, refused₂⟩ | ⟨f, g, opened₁, opened₂, alike⟩
    · rw [refused₁, refused₂]
    · rw [opened₁, opened₂]
      exact rests.outcome f g alike
  · rw [same in₁ stack₁ current, same in₂ stack₂ rfl]

end Congr

/-! ## Where the nodes of a trace come from -/

/-- The room fits below the limit, if there is one. -/
def Fits (context : Context) (room : Nat) (stack : Stack) : Prop :=
  ∀ limit, context.settings.depthLimit = some limit → stack.depth + room ≤ limit

theorem Fits.hasRoom {room : Nat} {stack : Stack} (fits : context.Fits (room + 1) stack) :
    context.hasRoom stack = true := by
  rw [hasRoom_iff]
  intro limit limited
  have := fits limit limited
  omega

theorem Fits.push {room : Nat} {stack : Stack} (fits : context.Fits (room + 1) stack)
    (frame : Frame) : context.Fits room (stack.push frame) := by
  intro limit limited
  have := fits limit limited
  rw [Stack.depth_push]
  omega

theorem fits_room (context : Context) (key : String) (parts : List Part) :
    context.Fits (context.room parts) (Scene.start key parts).stack := by
  intro limit limited
  have depth : (Scene.start key parts).stack.depth = 0 := rfl
  simp only [depth, room, limited, Option.getD_some, Nat.zero_add, Nat.le_refl]

/-- A child of a node was made inside the frame that the request opened. -/
theorem exists_enters_of_child {room : Nat} {scene : Scene} {request : Request}
    {child : Trace Issue} (member : request ∈ scene.requests)
    (fits : context.Fits room scene.stack)
    (isChild : child ∈ (context.resolve room scene.stack request).2.children) :
    ∃ scene' room', context.Enters scene scene' ∧ room' + 1 = room ∧
      context.Fits room' scene'.stack ∧
      (child.IsTaken ∨
        ∃ request' ∈ scene'.requests, child = (context.resolve room' scene'.stack request').2) := by
  rw [resolve_eq, children_answer] at isChild
  rcases context.findingOf_cases scene.stack.current request with
    ⟨frame, inner, opens, noted, finish, -, rests, finding⟩ | ⟨finding, leaf, same⟩
  · rw [finding _ _ rfl] at isChild
    cases opened : openFrame (context.inside? room) scene.stack frame with
    | error issue =>
      -- a refused frame leaves no children
      simp [opened] at isChild
    | ok answer =>
      rw [opened] at isChild
      obtain ⟨fresh, room, rfl, rfl⟩ := exists_of_openFrame opened
      -- the room that is left fits below the limit, so the limit let the frame open
      refine ⟨⟨scene.stack.push frame, inner⟩, room,
        .opens member opens fresh fits.hasRoom, rfl, fits.push frame, ?_⟩
      exact rests.child _ child isChild
  · rw [same _ _ rfl, leaf.children] at isChild
    cases isChild

/-- A node some levels below a request belongs to a scene that is reached by opening as
many frames. There it answers a request, unless it is an entry taken as it is. -/
theorem Reaches.exists_of_mem_level {start scene : Scene} {room n : Nat} {request : Request}
    {node : Trace Issue} (reaches : context.Reaches start scene)
    (member : request ∈ scene.requests) (fits : context.Fits room scene.stack)
    (onLevel : node ∈ (context.resolve room scene.stack request).2.level n) :
    ∃ scene', context.Reaches start scene' ∧ scene'.depth = scene.depth + n ∧
      (node.IsTaken ∨
        ∃ room', room' + n = room ∧ ∃ request' ∈ scene'.requests,
          node = (context.resolve room' scene'.stack request').2) := by
  -- one level down is one frame up: the scene is carried along with the room that is left
  induction n generalizing scene room request with
  | zero =>
    rw [Trace.mem_level_zero] at onLevel
    exact ⟨scene, reaches, rfl, .inr ⟨room, rfl, request, member, onLevel⟩⟩
  | succ n ih =>
    obtain ⟨child, isChild, below⟩ := Trace.mem_level_succ.1 onLevel
    obtain ⟨scene', room', enters, rfl, fits', source⟩ :=
      exists_enters_of_child member fits isChild
    have reaches' := reaches.enter enters
    have deeper := enters.depth_eq
    rcases source with taken | ⟨request', member', rfl⟩
    · -- an entry taken as it is has no levels below it
      cases n with
      | zero =>
        rw [Trace.mem_level_zero] at below
        subst below
        exact ⟨scene', reaches', deeper, .inl taken⟩
      | succ n =>
        rw [Trace.mem_level_succ, taken.children] at below
        obtain ⟨_, none, -⟩ := below
        cases none
    · obtain ⟨scene'', reaches'', depth, source⟩ := ih reaches' member' fits' below
      refine ⟨scene'', reaches'', by omega, source.imp_right ?_⟩
      rintro ⟨room'', rfl, made⟩
      exact ⟨room'', by omega, made⟩

/-- Apart from missing paths, errors are noted where a frame is refused. -/
theorem exists_opens_of_error {room : Nat} {stack : Stack} {request : Request} {issue : Issue}
    (noted : issue ∈ (context.resolve room stack request).2.diagnostics.errors) :
    (∃ source, issue = .missingPath source) ∨
      ∃ frame inner, context.Opens stack.current request frame inner ∧
        openFrame (context.inside? room) stack frame = .error issue := by
  rw [resolve_eq, diagnostics_answer] at noted
  obtain ⟨noted, grave⟩ := List.mem_filter.1 noted
  replace grave : issue.severity = .error := of_decide_eq_true grave
  rcases context.findingOf_cases stack.current request with
    ⟨frame, inner, opens, before, finish, warns, rests, finding⟩ | ⟨finding, leaf, same⟩
  · rw [finding _ _ rfl] at noted
    cases opened : openFrame (context.inside? room) stack frame with
    | error refusal =>
      -- all that was noted before the refusal are warnings
      rw [opened] at noted
      rcases List.mem_append.1 noted with noted | noted
      · rw [warns issue noted] at grave
        cases grave
      · rw [List.mem_singleton.1 noted]
        exact .inr ⟨frame, inner, opens, opened⟩
    | ok answer =>
      rw [opened] at noted
      rw [rests.warns answer issue noted] at grave
      cases grave
  · rw [same _ _ rfl] at noted
    rcases leaf.issues issue noted with warning | missing
    · rw [warning] at grave
      cases grave
    · exact .inl missing

/-! ## The traces of a structure key -/

section Traces

variable {key : String} {parts : List Part} {trace node : Trace Issue}

/-- The nodes on a level of the trace of a text belong to scenes of that depth. -/
theorem exists_scene_of_mem_level {n : Nat}
    (isChild : trace ∈ (context.resolvePartsOf key parts).children)
    (onLevel : node ∈ trace.level n) :
    ∃ scene, context.Reaches (.start key parts) scene ∧ scene.depth = n ∧
      (node.IsTaken ∨
        ∃ room, room + scene.depth = context.room parts ∧
          ∃ request ∈ scene.requests, node = (context.resolve room scene.stack request).2) := by
  rw [resolvePartsOf, children_resolveParts, List.mem_map] at isChild
  obtain ⟨request, member, rfl⟩ := isChild
  obtain ⟨scene, reaches, depth, source⟩ :=
    Reaches.exists_of_mem_level .refl member (context.fits_room key parts) onLevel
  rw [Scene.depth_start, Nat.zero_add] at depth
  subst depth
  exact ⟨scene, reaches, rfl, source⟩

/-- Wherever an error other than a missing path stands in the trace of a text, a scene is
reached in which a frame was refused with that error. -/
theorem exists_refusal_of_error {issue : Issue}
    (isChild : trace ∈ (context.resolvePartsOf key parts).children)
    (below : node ∈ trace.preorder) (noted : issue ∈ node.diagnostics.errors)
    (hasPath : ∀ source, issue ≠ .missingPath source) :
    ∃ scene room, context.Reaches (.start key parts) scene ∧
      room + scene.depth = context.room parts ∧
      ∃ request ∈ scene.requests, ∃ frame inner,
        context.Opens scene.stack.current request frame inner ∧
        openFrame (context.inside? room) scene.stack frame = .error issue := by
  obtain ⟨n, onLevel⟩ := Trace.mem_preorder_iff.1 below
  obtain ⟨scene, reaches, -, taken | ⟨room, rooms, request, member, rfl⟩⟩ :=
    exists_scene_of_mem_level isChild onLevel
  · rw [taken.diagnostics] at noted
    cases noted
  · rcases exists_opens_of_error noted with ⟨source, missing⟩ | ⟨frame, inner, opens, refused⟩
    · exact absurd missing (hasPath source)
    · exact ⟨scene, room, reaches, rooms, request, member, frame, inner, opens, refused⟩

end Traces

end Context

end LayeredConfig
