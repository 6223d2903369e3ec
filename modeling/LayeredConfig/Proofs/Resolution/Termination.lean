import Mathlib.Algebra.Order.BigOperators.Group.List
import Mathlib.Algebra.Order.Ring.Nat
import LayeredConfig.Proofs.Resolution.Scene

/-!
# Resolution comes to an end

A run never opens a frame twice, and every frame that it asks for is a key of a map or
the target of a reference, seen from the key whose text holds the reference. There are
finitely many of both, so the frames that are open at a time are bounded by their number
and every run comes to an end.

## Main definitions

* `Context.askable` — the frames that a run can ask for
* `Context.Bounded` — the invariant of a run

## Main results

* `Context.Reaches.bounded` — the invariant holds in every scene of a run
* `Context.Reaches.openFrame_eq` — when a run opens a frame
* `Context.resolvePartsOf_terminates` — termination, with bounds on stacks and traces
-/

namespace LayeredConfig

/-- The frame of a target in a map. -/
def Target.frame? : Target → Option Frame
  | keys space path => some ⟨space, path⟩
  | secret _ | unknown .. | nowhere _ => none

/-- The frames of the references in the text of a key. -/
def targetFrames (key : String) (parts : List Part) : List Frame :=
  (Value.references parts).filterMap fun r => (Target.ofReference key r).frame?

theorem mem_targetFrames {key path : String} {parts : List Part} {r : Reference} {space : Space}
    (member : r ∈ Value.references parts)
    (target : Target.ofReference key r = .keys space path) :
    ⟨space, path⟩ ∈ targetFrames key parts :=
  List.mem_filterMap.2 ⟨r, member, by rw [target]; rfl⟩

namespace Context

variable {context : Context} {key : String} {parts : List Part} {scene scene' : Scene}

/-! ## The frames that can be asked for -/

/-- The frames of the keys of a map. -/
def keyFrames (context : Context) (space : Space) : List Frame :=
  (context.keys space).keys.map fun key => ⟨space, key⟩

/-- The frames of the references in the texts of a map, each seen from its key. -/
def textFrames (context : Context) (space : Space) : List Frame :=
  (context.keys space).entries.flatMap fun entry =>
    match entry.2 with
    | some text => targetFrames entry.1 (context.parse text)
    | none => []

/-- The frames that can be asked for while the parts of the text of a key are resolved. -/
def askable (context : Context) (key : String) (parts : List Part) : List Frame :=
  context.keyFrames .environment ++ context.keyFrames .vars ++ targetFrames key parts ++
    context.textFrames .environment ++ context.textFrames .vars

theorem length_textFrames_le (space : Space) :
    (context.textFrames space).length ≤ (context.referencesIn (context.keys space)).length := by
  simp only [textFrames, referencesIn, List.length_flatMap]
  refine List.sum_le_sum fun entry _ => ?_
  cases entry.2 with
  | none => exact Nat.le_refl _
  | some text => exact List.length_filterMap_le _ _

theorem length_askable_le : (context.askable key parts).length ≤ context.frameBound parts := by
  have keys : ∀ space, (context.keyFrames space).length = (context.keys space).size := by
    intro space
    simp only [keyFrames, KeyMap.keys, KeyMap.size, List.length_map]
  have targets : (targetFrames key parts).length ≤ (Value.references parts).length :=
    List.length_filterMap_le _ _
  have environment := context.length_textFrames_le .environment
  have vars := context.length_textFrames_le .vars
  simp only [askable, List.length_append, keys, frameBound]
  simp only [Context.keys] at *
  omega

theorem mem_askable_of_keyFrames {frame : Frame}
    (member : frame ∈ context.keyFrames frame.space) : frame ∈ context.askable key parts := by
  obtain ⟨space, path⟩ := frame
  simp only [askable, List.mem_append]
  cases space <;> simp_all

theorem mem_askable_of_textFrames {frame : Frame} (space : Space)
    (member : frame ∈ context.textFrames space) : frame ∈ context.askable key parts := by
  simp only [askable, List.mem_append]
  cases space <;> simp_all

/-! ## The invariant of a run -/

/-- What a run may ask for: references whose targets are known, and entries that are in
their map. -/
def Asks (context : Context) (frames : List Frame) (current : String) : Request → Prop
  | .reference _ r => ∀ space path, Target.ofReference current r = .keys space path →
      ⟨space, path⟩ ∈ frames
  | .entry space key _ text => (key, some text) ∈ (context.keys space).entries

/-- The references in the text of a key of a map may be asked for from that key. -/
theorem asks_of_mem_ofParts {space : Space} {name text : String} {request : Request}
    (entry : (name, some text) ∈ (context.keys space).entries)
    (member : request ∈ Request.ofParts (context.parse text)) :
    context.Asks (context.askable key parts) name request := by
  obtain ⟨placement, reference, held, rfl⟩ := exists_of_mem_ofParts member
  intro space' path target
  refine mem_askable_of_textFrames space ?_
  exact List.mem_flatMap.2 ⟨(name, some text), entry, mem_targetFrames held target⟩

/-- A frame that is asked for can be asked for, and so can those of the requests inside. -/
theorem Opens.askable {current : String} {request : Request} {frame : Frame}
    {inner : List Request} (opens : context.Opens current request frame inner)
    (asks : context.Asks (context.askable key parts) current request) :
    frame ∈ context.askable key parts ∧
      ∀ request' ∈ inner, context.Asks (context.askable key parts) frame.path request' := by
  cases opens with
  | @ofKey placement reference space path text target query found references =>
    have entry := KeyMap.mem_entries_iff.2 found
    exact ⟨asks space path target, fun request' member => asks_of_mem_ofParts entry member⟩
  | @ofSection reference space path wildcard target query allowed =>
    -- a section holds no reference of its own, so its path never becomes a base for one
    refine ⟨asks space path target, fun request' member => ?_⟩
    obtain ⟨name, text, matched, -, rfl⟩ := mem_entryRequests.1 member
    exact (Wildcard.mem_entries_iff.1 matched).1
  | @ofEntry space name suffix text =>
    refine ⟨mem_askable_of_keyFrames ?_, fun request' member => asks_of_mem_ofParts asks member⟩
    exact List.mem_map_of_mem (List.mem_map_of_mem asks)

/-- No frame is open twice, all that are open or asked for are among the given ones, and
the limit is kept. -/
structure Bounded (context : Context) (frames : List Frame) (scene : Scene) : Prop where
  nodup : scene.stack.opened.Nodup
  known : ∀ frame ∈ scene.stack.opened, frame ∈ frames
  asks : ∀ request ∈ scene.requests, context.Asks frames scene.stack.current request
  limit : ∀ limit, context.settings.depthLimit = some limit → scene.depth ≤ limit

theorem bounded_start : context.Bounded (context.askable key parts) (.start key parts) where
  nodup := List.nodup_nil
  known frame member := nomatch member
  asks request member := by
    obtain ⟨placement, reference, held, rfl⟩ := exists_of_mem_ofParts member
    intro space path target
    have frame := mem_targetFrames held target
    simp only [askable, List.mem_append]
    exact .inl (.inl (.inr frame))
  limit limit _ := Nat.zero_le limit

theorem Enters.bounded (enters : context.Enters scene scene')
    (bounded : context.Bounded (context.askable key parts) scene) :
    context.Bounded (context.askable key parts) scene' := by
  cases enters with
  | @opens request frame inner member opens fresh roomy =>
    obtain ⟨frameKnown, innerAsks⟩ := opens.askable (bounded.asks request member)
    refine ⟨List.nodup_cons.2 ⟨fresh, bounded.nodup⟩, ?_, innerAsks, ?_⟩
    · intro frame' member'
      rcases List.mem_cons.1 member' with rfl | member'
      · exact frameKnown
      · exact bounded.known frame' member'
    · intro limit limited
      exact hasRoom_iff.1 roomy limit limited

theorem Reaches.bounded (reaches : context.Reaches (.start key parts) scene) :
    context.Bounded (context.askable key parts) scene := by
  induction reaches with
  | refl => exact bounded_start
  | tail _ enters ih => exact enters.bounded ih

theorem Bounded.depth_le (bounded : context.Bounded (context.askable key parts) scene) :
    scene.depth ≤ context.frameBound parts :=
  (bounded.nodup.length_le_of_subset bounded.known).trans length_askable_le

/-- As long as a frame is not open that is asked for, the bound is not reached. -/
theorem Bounded.depth_lt {request : Request} {frame : Frame} {inner : List Request}
    (bounded : context.Bounded (context.askable key parts) scene)
    (member : request ∈ scene.requests)
    (opens : context.Opens scene.stack.current request frame inner)
    (fresh : frame ∉ scene.stack.opened) : scene.depth < context.frameBound parts := by
  have frameKnown := (opens.askable (bounded.asks request member)).1
  have nodup : (frame :: scene.stack.opened).Nodup := List.nodup_cons.2 ⟨fresh, bounded.nodup⟩
  have known : frame :: scene.stack.opened ⊆ context.askable key parts :=
    List.cons_subset.2 ⟨frameKnown, bounded.known⟩
  have counted := nodup.length_le_of_subset known
  exact Nat.lt_of_lt_of_le counted length_askable_le

/-! ## Termination -/

/-- Each scene leaves fewer frames to open, so no run goes on forever. -/
theorem Reaches.acc (reaches : context.Reaches (.start key parts) scene) :
    Acc (fun inner outer => context.Enters outer inner) scene := by
  -- the measure is the number of frames that can still be opened
  induction left : context.frameBound parts - scene.depth using Nat.strong_induction_on
    generalizing scene with
  | _ left ih =>
    refine .intro scene fun inner enters => ?_
    have reaches' := reaches.enter enters
    have deeper := enters.depth_eq
    have bound := reaches'.bounded.depth_le
    exact ih _ (by omega) reaches' rfl

/-- There is room for a frame exactly when the limit allows it. -/
theorem Enters.room_eq (reaches : context.Reaches (.start key parts) scene)
    (enters : context.Enters scene scene') :
    context.room parts - scene.depth = context.room parts - scene'.depth + 1 := by
  have reaches' := reaches.enter enters
  have deeper := enters.depth_eq
  -- without a limit the room is the bound, which the scene that was entered keeps
  suffices scene'.depth ≤ context.room parts by omega
  unfold room
  cases limited : context.settings.depthLimit with
  | none => exact reaches'.bounded.depth_le
  | some limit => exact reaches'.bounded.limit limit limited

theorem room_eq_zero (full : context.hasRoom scene.stack = false) :
    context.room parts - scene.depth = 0 := by
  cases limited : context.settings.depthLimit with
  | none => simp [hasRoom, limited] at full
  | some limit =>
    rw [hasRoom, limited, Option.all_some, decide_eq_false_iff_not, Nat.not_lt] at full
    rw [room, limited, Option.getD_some]
    exact Nat.sub_eq_zero_of_le full

/-- In a run a fresh frame is opened as long as the limit allows it. -/
theorem Reaches.openFrame_eq {request : Request} {frame : Frame} {inner : List Request}
    (reaches : context.Reaches (.start key parts) scene) (member : request ∈ scene.requests)
    (opens : context.Opens scene.stack.current request frame inner) :
    openFrame (context.inside? (context.room parts - scene.depth)) scene.stack frame =
      if frame ∈ scene.stack.opened then .error (.cyclicReference frame.path)
      else if context.hasRoom scene.stack then
        .ok (context.resolve (context.room parts - (scene.depth + 1)) (scene.stack.push frame))
      else .error (.depthExceeded frame.path scene.stack.depth) := by
  by_cases opened : frame ∈ scene.stack.opened
  · -- a cycle is refused whatever room there is
    simp [openFrame, opened]
  · cases roomy : context.hasRoom scene.stack with
    | false => simp [openFrame, opened, room_eq_zero roomy, Context.inside?]
    | true =>
      have enters : context.Enters scene ⟨scene.stack.push frame, inner⟩ :=
        .opens member opens opened roomy
      have room := enters.room_eq reaches
      rw [enters.depth_eq] at room
      simp [openFrame, opened, room, Context.inside?]

/-- Every request of a run is answered as if only the limit restrained it, from the
answers in the scenes that are entered for it. -/
theorem Reaches.resolve_eq {request : Request}
    (reaches : context.Reaches (.start key parts) scene) (member : request ∈ scene.requests)
    (inside : Stack → Answerer)
    (answers : ∀ scene', context.Enters scene scene' → ∀ request ∈ scene'.requests,
      inside scene'.stack request =
        context.resolve (context.room parts - scene'.depth) scene'.stack request) :
    context.resolve (context.room parts - scene.depth) scene.stack request =
      context.answer (if context.hasRoom scene.stack then some inside else none)
        scene.stack request := by
  rw [Context.resolve_eq, answer_eq, answer_eq]
  refine congrArg (request.answerWith _) (findingOf_congr rfl fun frame inner opens => ?_)
  rw [reaches.openFrame_eq member opens]
  by_cases opened : frame ∈ scene.stack.opened
  · simp [openFrame, opened, OpenedAlike]
  · cases roomy : context.hasRoom scene.stack with
    | false => simp [openFrame, opened, OpenedAlike]
    | true =>
      simp only [openFrame, opened, if_false, if_true, OpenedAlike]
      intro request' member'
      exact (answers _ (.opens member opens opened roomy) request' member').symm

/-- Only a limit below the number of frames that can be asked for cuts a run short. -/
theorem not_depthExceeded {trace node : Trace Issue} {path : String} {limit : Nat}
    (enough : context.frameBound parts ≤ context.room parts)
    (isChild : trace ∈ (context.resolvePartsOf key parts).children)
    (below : node ∈ trace.preorder) : .depthExceeded path limit ∉ node.diagnostics.errors := by
  intro noted
  obtain ⟨scene, room, reaches, rooms, request, member, frame, inner, opens, refused⟩ :=
    exists_refusal_of_error isChild below noted nofun
  rcases openFrame_eq_error_iff.1 refused with ⟨-, impossible⟩ | ⟨fresh, noRoom, -⟩
  · cases impossible
  · -- the frame is not open yet, so fewer are open than there is room for
    have notFull := reaches.bounded.depth_lt member opens fresh
    cases room with
    | zero => omega
    | succ room => cases noRoom

/-- The resolution of a text comes to an end. No run opens a frame twice, and each request
of a run is answered from the scenes entered for it, with the limit as the only thing that
keeps a fresh frame shut. Neither the bound on frames nor the limit is passed by the frames
open at a time or, but for the top itself, by the levels of the trace. A limit that is no
smaller than the bound is never exceeded. -/
theorem resolvePartsOf_terminates (context : Context) (key : String) (parts : List Part) :
    Acc (fun inner outer => context.Enters outer inner) (.start key parts) ∧
    (∀ scene, context.Reaches (.start key parts) scene →
      scene.stack.opened.Nodup ∧ scene.depth ≤ context.frameBound parts ∧
      (∀ limit, context.settings.depthLimit = some limit → scene.depth ≤ limit) ∧
      ∀ inside : Stack → Answerer,
        (∀ scene', context.Enters scene scene' → ∀ request ∈ scene'.requests,
          inside scene'.stack request =
            context.resolve (context.room parts - scene'.depth) scene'.stack request) →
        ∀ request ∈ scene.requests,
          context.resolve (context.room parts - scene.depth) scene.stack request =
            context.answer (if context.hasRoom scene.stack then some inside else none)
              scene.stack request) ∧
    (∀ top : Trace Issue, top.children = (context.resolvePartsOf key parts).children →
      ∀ n, ∀ node ∈ top.level n, n ≤ context.frameBound parts + 1 ∧
        ∀ limit, context.settings.depthLimit = some limit → n ≤ limit + 1) ∧
    ((∀ limit, context.settings.depthLimit = some limit → context.frameBound parts ≤ limit) →
      ∀ trace ∈ (context.resolvePartsOf key parts).children, ∀ node ∈ trace.preorder,
        ∀ path limit, .depthExceeded path limit ∉ node.diagnostics.errors) := by
  refine ⟨Reaches.acc .refl, ?_, ?_, ?_⟩
  · intro scene reaches
    have bounded := reaches.bounded
    refine ⟨bounded.nodup, bounded.depth_le, bounded.limit, ?_⟩
    intro inside answers request member
    exact reaches.resolve_eq member inside answers
  · intro top children n node onLevel
    cases n with
    | zero => exact ⟨Nat.zero_le _, fun _ _ => Nat.zero_le _⟩
    | succ n =>
      obtain ⟨child, isChild, onLevel⟩ := Trace.mem_level_succ.1 onLevel
      rw [children] at isChild
      obtain ⟨scene, reaches, rfl, -⟩ := exists_scene_of_mem_level isChild onLevel
      have bounded := reaches.bounded
      exact ⟨Nat.succ_le_succ bounded.depth_le,
        fun limit limited => Nat.succ_le_succ (bounded.limit limit limited)⟩
  · intro enough trace isChild node below path limit
    refine not_depthExceeded ?_ isChild below
    unfold room
    cases limited : context.settings.depthLimit with
    | none => exact Nat.le_refl _
    | some limit => exact enough limit limited

end Context

end LayeredConfig
