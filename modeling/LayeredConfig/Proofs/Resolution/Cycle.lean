import LayeredConfig.Proofs.Resolution.Dependency

/-!
# Cycles

A frame is refused as cyclic when a run comes back to it while it is open. Without a limit
nothing else keeps a run from going where the dependencies lead, and since no run goes on
forever, it comes back to an open frame wherever they lead into a cycle. Without a cycle it
comes back only where a section matches a key that is spelled like the section itself.

## Main definitions

* `Context.ComesBack` — a run asks for a frame that is open
* `Context.ReportsCycle` — a cyclic reference is noted in the traces of a text
* `Context.NameClash` — a section is led to that matches a key spelled like it
* `Context.Follows` — a reference that leads to a key with references

## Main results

* `Context.reportsCycle_iff` — cyclic references are noted iff the run comes back
* `Context.comesBack_of_cycle` — a run comes back wherever it is led into a cycle
* `Context.comesBack_iff_of_acyclicFrom` — when a run comes back without a cycle
* `Context.Reaches.outcome_eq_of_fresh` — runs that never come back agree
* `Context.Follows.outcome_eq` — what a reference comes to if no run comes back
-/

namespace LayeredConfig

namespace Trace

variable {δ : Type} {node child trace : Trace δ}

theorem mem_preorder_of_mem_children (below : node ∈ trace.preorder)
    (isChild : child ∈ node.children) : child ∈ trace.preorder := by
  obtain ⟨n, onLevel⟩ := mem_preorder_iff.1 below
  refine mem_preorder_iff.2 ⟨n + 1, ?_⟩
  clear below
  induction n generalizing trace with
  | zero =>
    rw [mem_level_zero] at onLevel
    subst onLevel
    exact mem_level_succ.2 ⟨child, isChild, mem_level_zero.2 rfl⟩
  | succ n ih =>
    obtain ⟨next, isNext, onLevel⟩ := mem_level_succ.1 onLevel
    exact mem_level_succ.2 ⟨next, isNext, ih onLevel⟩

end Trace

/-- A section matches the key that is spelled like it. -/
theorem Wildcard.mem_entries_path {α : Type} {wildcard : Wildcard} {m : KeyMap α} {value : α}
    (found : m.find? wildcard.path = some value) :
    (wildcard.path, value) ∈ wildcard.entries m := by
  refine Wildcard.mem_entries_iff.2 ⟨KeyMap.mem_entries_iff.2 found, ?_⟩
  unfold Wildcard.pattern Wildcard.path
  split <;> simp

namespace Context

variable {context : Context} {key text : String} {parts : List Part} {scene : Scene}

/-- A run asks for a frame that is open. -/
def ComesBack (context : Context) (key : String) (parts : List Part) : Prop :=
  ∃ scene, context.Reaches (.start key parts) scene ∧ ∃ request ∈ scene.requests,
    ∃ frame inner, context.Opens scene.stack.current request frame inner ∧
      frame ∈ scene.stack.opened

/-- A cyclic reference is noted on some node of the traces of a text. -/
def ReportsCycle (context : Context) (key : String) (parts : List Part) : Prop :=
  ∃ trace ∈ (context.resolvePartsOf key parts).children, ∃ node ∈ trace.preorder,
    ∃ path, .cyclicReference path ∈ node.diagnostics.errors

/-! ## Where cyclic references are noted -/

/-- The traces of the requests inside a frame are children of the request that opened it. -/
theorem Opens.mem_children {inside? : Option (Stack → Answerer)} {stack : Stack}
    {request request' : Request} {frame : Frame} {inner : List Request} {answer : Answerer}
    (opens : context.Opens stack.current request frame inner)
    (opened : openFrame inside? stack frame = .ok answer) (member : request' ∈ inner) :
    (answer request').2 ∈ (context.findingOf inside? stack request).children := by
  have ofText : ∀ parts, request' ∈ Request.ofParts parts →
      (answer request').2 ∈ (resolveParts answer parts).children := by
    intro parts made
    rw [children_resolveParts]
    exact List.mem_map_of_mem made
  cases opens with
  | @ofKey placement r space path inner target query found references =>
    simp only [Context.findingOf, target, resolveTarget, resolvePath, query,
      resolveKey_of_references found references, opened, Finding.passOn]
    split <;> exact ofText _ member
  | @ofSection r space path wildcard target query allowed =>
    have written := Query.path_of_ofPath_eq_all query
    have isChild :
        (answer request').2 ∈ (context.expandEntries space wildcard answer).children := by
      obtain ⟨name, text, matched, references, rfl⟩ := mem_entryRequests.1 member
      simp only [expandEntries, List.map_map]
      refine List.mem_map.2 ⟨(name, some text), matched, ?_⟩
      simp only [Function.comp_apply, expandEntry, references, if_false]
    simp only [Context.findingOf, target, resolveTarget, resolvePath, query, resolveSection]
    cases bare : wildcard.bare with
    | false => simpa [expandSection_eq, written, opened] using isChild
    | true => simpa [expandSection_eq, written, opened, allowed bare, Finding.after] using isChild
  | ofEntry =>
    simp only [Context.findingOf, opened]
    exact ofText _ member

/-- In a run the traces of the requests inside a frame are those that the request which
opened it has as children. -/
theorem Reaches.mem_children_resolve {request request' : Request} {frame : Frame}
    {inner : List Request} (reaches : context.Reaches (.start key parts) scene)
    (made : request ∈ scene.requests)
    (opens : context.Opens scene.stack.current request frame inner)
    (fresh : frame ∉ scene.stack.opened) (roomy : context.hasRoom scene.stack = true)
    (member : request' ∈ inner) :
    (context.resolve (context.room parts - (Scene.mk (scene.stack.push frame) inner).depth)
        (scene.stack.push frame) request').2 ∈
      (context.resolve (context.room parts - scene.depth) scene.stack request).2.children := by
  have enters : context.Enters scene ⟨scene.stack.push frame, inner⟩ :=
    .opens made opens fresh roomy
  rw [enters.room_eq reaches, Context.resolve_eq (_ + 1), children_answer]
  refine opens.mem_children ?_ member
  exact openFrame_eq_ok_iff.2 ⟨fresh, _, rfl, rfl⟩

/-- Every request of a run has its node in the traces of the text. -/
theorem Reaches.exists_node {request : Request} (reaches : context.Reaches (.start key parts) scene)
    (member : request ∈ scene.requests) :
    ∃ trace ∈ (context.resolvePartsOf key parts).children,
      (context.resolve (context.room parts - scene.depth) scene.stack request).2 ∈
        trace.preorder := by
  induction reaches generalizing request with
  | refl =>
    rw [resolvePartsOf, children_resolveParts]
    refine ⟨_, List.mem_map_of_mem member, ?_⟩
    rw [Trace.preorder_eq]
    exact List.mem_cons_self
  | tail reaches enters ih =>
    cases enters with
    | @opens outer frame inner made opens fresh roomy =>
      -- the request that opened the frame has a node, and this one is among its children
      obtain ⟨trace, isChild, below⟩ := ih made
      refine ⟨trace, isChild, Trace.mem_preorder_of_mem_children below ?_⟩
      exact Reaches.mem_children_resolve reaches made opens fresh roomy member

/-- A cyclic reference is noted in the traces of a text iff its run asks for a frame that is
open. -/
theorem reportsCycle_iff : context.ReportsCycle key parts ↔ context.ComesBack key parts := by
  constructor
  · rintro ⟨trace, isChild, node, below, path, noted⟩
    obtain ⟨scene, room, reaches, -, request, member, frame, inner, opens, refused⟩ :=
      exists_refusal_of_error isChild below noted nofun
    rcases openFrame_eq_error_iff.1 refused with ⟨opened, -⟩ | ⟨-, -, impossible⟩
    · exact ⟨scene, reaches, request, member, frame, inner, opens, opened⟩
    · cases impossible
  · rintro ⟨scene, reaches, request, member, frame, inner, opens, opened⟩
    obtain ⟨trace, isChild, below⟩ := reaches.exists_node member
    refine ⟨trace, isChild, _, below, frame.path, ?_⟩
    obtain ⟨noted, finish, -, -, finding⟩ := opens.findingOf
    rw [Context.resolve_eq, diagnostics_answer, finding _ _ rfl]
    simp [openFrame, opened, Diagnostics.ofIssues, Issue.severity]

/-! ## Cycles bring a run back -/

theorem hasRoom_of_unlimited (unlimited : context.settings.depthLimit = none) (stack : Stack) :
    context.hasRoom stack = true := by
  rw [hasRoom, unlimited, Option.all_none]

/-- A run goes on to wherever a place leads unless it comes back. -/
theorem Visits.enter_or_comesBack (unlimited : context.settings.depthLimit = none)
    {root place place' : Place} (visits : context.Visits root scene place)
    (reaches : context.Reaches (.start key parts) scene) (leads : context.Leads place place') :
    (∃ scene', context.Enters scene scene' ∧ context.Visits root scene' place') ∨
      context.ComesBack key parts := by
  obtain ⟨request, member, frame, inner, opens, -, visits'⟩ := visits.exists_opens leads
  by_cases opened : frame ∈ scene.stack.opened
  · exact .inr ⟨scene, reaches, request, member, frame, inner, opens, opened⟩
  · exact .inl ⟨_, .opens member opens opened (hasRoom_of_unlimited unlimited _), visits'⟩

/-- Where a place leads into a cycle, it leads on to a place that does. -/
theorem exists_leads_of_cycle {place turn : Place}
    (toTurn : Relation.ReflTransGen context.Leads place turn)
    (cycle : Relation.TransGen context.Leads turn turn) :
    ∃ next, context.Leads place next ∧ Relation.ReflTransGen context.Leads next turn := by
  rcases toTurn.cases_head with rfl | ⟨next, leads, onward⟩
  · exact Relation.TransGen.head'_iff.1 cycle
  · exact ⟨next, leads, onward⟩

/-- Without a limit, a run that is led into a cycle comes back to an open frame. -/
theorem comesBack_of_cycle (unlimited : context.settings.depthLimit = none) {turn : Place}
    (toTurn : Relation.ReflTransGen context.Leads (.root key text) turn)
    (cycle : Relation.TransGen context.Leads turn turn) :
    context.ComesBack key (context.parse text) := by
  -- the walk into the cycle never ends, but the run along it does
  suffices goesOn : ∀ scene, Acc (fun inner outer => context.Enters outer inner) scene →
      ∀ place, context.Reaches (.start key (context.parse text)) scene →
        context.Visits (.root key text) scene place →
        Relation.ReflTransGen context.Leads place turn →
        context.ComesBack key (context.parse text) from
    goesOn _ (Reaches.acc .refl) _ .refl (context.visits_start key text) toTurn
  intro scene acc
  induction acc with
  | intro scene _ ih =>
    intro place reaches visits toTurn
    obtain ⟨next, leads, onward⟩ := exists_leads_of_cycle toTurn cycle
    rcases visits.enter_or_comesBack unlimited reaches leads with
      ⟨scene', enters, visits'⟩ | comesBack
    · exact ih scene' enters next (reaches.enter enters) visits' onward
    · exact comesBack

/-- A run goes wherever the dependencies lead unless it comes back. -/
theorem exists_visits_or_comesBack (unlimited : context.settings.depthLimit = none)
    {place : Place} (reached : Relation.ReflTransGen context.Leads (.root key text) place) :
    (∃ scene, context.Reaches (.start key (context.parse text)) scene ∧
      context.Visits (.root key text) scene place) ∨
      context.ComesBack key (context.parse text) := by
  induction reached with
  | refl => exact .inl ⟨_, .refl, context.visits_start key text⟩
  | tail _ leads ih =>
    rcases ih with ⟨scene, reaches, visits⟩ | comesBack
    · rcases visits.enter_or_comesBack unlimited reaches leads with
        ⟨scene', enters, visits'⟩ | comesBack
      · exact .inl ⟨scene', reaches.enter enters, visits'⟩
      · exact .inr comesBack
    · exact .inr comesBack

/-! ## Without a cycle -/

/-- A section that a place leads to matches a key that is spelled like the section itself,
and references stand in the text of that key. -/
def NameClash (context : Context) (start : Place) : Prop :=
  ∃ space wildcard text, Relation.ReflTransGen context.Leads start (.all space wildcard) ∧
    (context.keys space).find? wildcard.path = some (some text) ∧
    Value.references (context.parse text) ≠ []

theorem exists_leads_of_reached {place : Place} {frame : Frame}
    (reached : Relation.ReflTransGen context.Leads (.root key text) place)
    (opens : place.frame? = some frame) : ∃ before, context.Leads before place := by
  rcases reached.cases_tail with rfl | ⟨before, -, leads⟩
  · cases opens
  · exact ⟨before, leads⟩

/-- Places on the way with one frame between them are one place, unless a section leads to
the key that is spelled like it. -/
theorem AcyclicFrom.nameClash_of_frame? {above below : Place} {frame : Frame}
    (acyclic : context.AcyclicFrom (.root key text))
    (reached : Relation.ReflTransGen context.Leads (.root key text) above)
    (onward : Relation.TransGen context.Leads above below)
    (opensAbove : above.frame? = some frame) (opensBelow : below.frame? = some frame) :
    context.NameClash (.root key text) := by
  have toAbove : Relation.ReflTransGen context.Depends (.root key text) above :=
    Relation.ReflTransGen.mono leads_le_depends _ _ reached
  have depends : Relation.TransGen context.Depends above below :=
    Relation.TransGen.mono leads_le_depends _ _ onward
  obtain ⟨before, leadsAbove⟩ := exists_leads_of_reached reached opensAbove
  obtain ⟨before', leadsBelow⟩ := exists_leads_of_reached
    (reached.trans onward.to_reflTransGen) opensBelow
  cases above with
  | root name text' => cases opensAbove
  | key space name =>
    cases opensAbove
    obtain ⟨inner, found, -⟩ := leadsAbove.exists_text
    cases below with
    | root name' text' => cases opensBelow
    | key space' name' =>
      cases opensBelow
      exact absurd depends (acyclic _ toAbove)
    | all space' wildcard =>
      -- the section matches the key above it, which closes a cycle
      cases opensBelow
      have matched : context.Depends (.all space wildcard) (.key space wildcard.path) :=
        .matched (Wildcard.mem_entries_path found)
      exact absurd (depends.tail matched) (acyclic _ toAbove)
  | all space wildcard =>
    cases opensAbove
    cases below with
    | root name text' => cases opensBelow
    | key space' name =>
      cases opensBelow
      obtain ⟨inner, found, references⟩ := leadsBelow.exists_text
      exact ⟨space, wildcard, inner, reached, found, references⟩
    | all space' wildcard' =>
      simp only [Place.frame?, Option.some.injEq, Frame.mk.injEq] at opensBelow
      obtain ⟨rfl, spelled⟩ := opensBelow
      have same := leadsAbove.ofPath_eq
      rw [← spelled, leadsBelow.ofPath_eq] at same
      cases same
      exact absurd depends (acyclic _ toAbove)

/-- Without a limit and without a cycle, a run comes back only because of a key that is
spelled like a section. -/
theorem comesBack_iff_of_acyclicFrom (unlimited : context.settings.depthLimit = none)
    (acyclic : context.AcyclicFrom (.root key text)) :
    context.ComesBack key (context.parse text) ↔ context.NameClash (.root key text) := by
  constructor
  · rintro ⟨scene, reaches, request, member, frame, inner, opens, opened⟩
    obtain ⟨place, visits⟩ := reaches.exists_visits
    obtain ⟨below, leads, opensBelow, -⟩ := visits.exists_leads member opens
    obtain ⟨above, opensAbove, reached, toPlace⟩ := visits.passed frame opened
    exact acyclic.nameClash_of_frame? reached (.tail' toPlace leads) opensAbove opensBelow
  · rintro ⟨space, wildcard, inner, reached, found, references⟩
    rcases exists_visits_or_comesBack unlimited reached with ⟨scene, reaches, visits⟩ | comesBack
    · -- the frame of the section is the last one that was opened, and its key asks for it again
      have leads : context.Leads (.all space wildcard) (.key space wildcard.path) :=
        .toEntry (Wildcard.mem_entries_path found) references
      obtain ⟨request, member, frame, inner, opens, asked, -⟩ := visits.exists_opens leads
      cases asked
      exact ⟨scene, reaches, request, member, _, inner, opens, List.mem_of_head? visits.last⟩
    · exact comesBack

/-! ## Runs that never come back -/

/-- Without a limit, two runs that never come back come to the same wherever they make the
same request from the same path. -/
theorem Reaches.outcome_eq_of_fresh (unlimited : context.settings.depthLimit = none)
    {key₁ key₂ : String} {parts₁ parts₂ : List Part} {scene₁ scene₂ : Scene} {request : Request}
    (fresh₁ : ¬ context.ComesBack key₁ parts₁) (fresh₂ : ¬ context.ComesBack key₂ parts₂)
    (reaches₁ : context.Reaches (.start key₁ parts₁) scene₁)
    (reaches₂ : context.Reaches (.start key₂ parts₂) scene₂)
    (current : scene₁.stack.current = scene₂.stack.current)
    (member₁ : request ∈ scene₁.requests) (member₂ : request ∈ scene₂.requests) :
    (context.resolve (context.room parts₁ - scene₁.depth) scene₁.stack request).1 =
      (context.resolve (context.room parts₂ - scene₂.depth) scene₂.stack request).1 := by
  -- both runs open the same frames, so either one can carry the induction
  have acc := reaches₁.acc
  induction acc generalizing scene₂ request with
  | intro scene₁ _ ih =>
    have roomy := hasRoom_of_unlimited unlimited
    rw [reaches₁.resolve_eq member₁
        (fun stack => context.resolve (context.room parts₁ - stack.depth) stack)
        fun _ _ _ _ => rfl,
      reaches₂.resolve_eq member₂
        (fun stack => context.resolve (context.room parts₂ - stack.depth) stack)
        fun _ _ _ _ => rfl,
      outcome_answer, outcome_answer, roomy, roomy, if_pos rfl, if_pos rfl]
    refine outcome_congr current fun frame inner opens₂ => ?_
    have opens₁ : context.Opens scene₁.stack.current request frame inner := current ▸ opens₂
    have notOpen₁ : frame ∉ scene₁.stack.opened := fun opened =>
      fresh₁ ⟨scene₁, reaches₁, request, member₁, frame, inner, opens₁, opened⟩
    have notOpen₂ : frame ∉ scene₂.stack.opened := fun opened =>
      fresh₂ ⟨scene₂, reaches₂, request, member₂, frame, inner, opens₂, opened⟩
    simp only [openFrame, notOpen₁, notOpen₂, if_false, OpenedAlike]
    intro request' member'
    have enters₁ : context.Enters scene₁ ⟨scene₁.stack.push frame, inner⟩ :=
      .opens member₁ opens₁ notOpen₁ (roomy _)
    have enters₂ : context.Enters scene₂ ⟨scene₂.stack.push frame, inner⟩ :=
      .opens member₂ opens₂ notOpen₂ (roomy _)
    exact ih _ enters₁ (reaches₁.enter enters₁) (reaches₂.enter enters₂) rfl member' member'

/-! ## References to keys with references -/

/-- A reference is asked for in a scene that leads to a key with references in its text. -/
structure Follows (context : Context) (scene : Scene) (placement : Placement) (r : Reference)
    (space : Space) (key text : String) : Prop where
  member : .reference placement r ∈ scene.requests
  target : Target.ofReference scene.stack.current r = .keys space key
  query : Query.ofPath key = .key key
  found : (context.keys space).find? key = some (some text)
  references : Value.references (context.parse text) ≠ []

namespace Follows

variable {root key text : String} {placement : Placement} {r : Reference} {space : Space}

theorem opens (follows : context.Follows scene placement r space key text) :
    context.Opens scene.stack.current (.reference placement r) ⟨space, key⟩
      (Request.ofParts (context.parse text)) :=
  .ofKey follows.target follows.query follows.found follows.references

theorem not_opened (follows : context.Follows scene placement r space key text)
    (reaches : context.Reaches (.start root parts) scene)
    (fresh : ¬ context.ComesBack root parts) : ⟨space, key⟩ ∉ scene.stack.opened := fun opened =>
  fresh ⟨scene, reaches, _, follows.member, _, _, follows.opens, opened⟩

theorem enters (follows : context.Follows scene placement r space key text)
    (unlimited : context.settings.depthLimit = none)
    (notOpened : ⟨space, key⟩ ∉ scene.stack.opened) :
    context.Enters scene
      ⟨scene.stack.push ⟨space, key⟩, Request.ofParts (context.parse text)⟩ :=
  .opens follows.member follows.opens notOpened (hasRoom_of_unlimited unlimited _)

/-- Without a limit, the reference comes to what the text comes to inside the frame of its
key, unless that is open. -/
theorem outcome_enter (follows : context.Follows scene placement r space key text)
    (unlimited : context.settings.depthLimit = none)
    (reaches : context.Reaches (.start root parts) scene)
    (notOpened : ⟨space, key⟩ ∉ scene.stack.opened) :
    (context.resolve (context.room parts - scene.depth) scene.stack (.reference placement r)).1 =
      ((resolveParts (context.resolve (context.room parts - (scene.stack.push ⟨space, key⟩).depth)
        (scene.stack.push ⟨space, key⟩)) (context.parse text)).passOn placement key).outcome := by
  rw [reaches.resolve_eq follows.member
      (fun stack => context.resolve (context.room parts - stack.depth) stack) fun _ _ _ _ => rfl,
    outcome_answer, hasRoom_of_unlimited unlimited, if_pos rfl]
  simp only [findingOf, follows.target, resolveTarget, resolvePath, follows.query]
  rw [resolveKey_of_references follows.found follows.references]
  simp only [openFrame, notOpened, if_false]

/-- Without a limit, the reference comes to what the text of its key comes to by itself, as
long as neither run comes back. -/
theorem outcome_eq (follows : context.Follows scene placement r space key text)
    (unlimited : context.settings.depthLimit = none)
    (reaches : context.Reaches (.start root parts) scene)
    (fresh : ¬ context.ComesBack root parts)
    (freshKey : ¬ context.ComesBack key (context.parse text)) :
    (context.resolve (context.room parts - scene.depth) scene.stack (.reference placement r)).1 =
      ((context.resolveText key text).passOn placement key).outcome := by
  have notOpened := follows.not_opened reaches fresh
  rw [follows.outcome_enter unlimited reaches notOpened]
  -- inside the frame the requests are those that the text makes by itself
  refine ((restsOn_resolveParts (context.parse text)).passOn placement key).outcome _ _ ?_
  intro request made
  exact Reaches.outcome_eq_of_fresh unlimited fresh freshKey
    (reaches.enter (follows.enters unlimited notOpened)) .refl rfl made made

end Follows

end Context

end LayeredConfig
