import LayeredConfig.Proofs.Trace.Level

/-!
# Walks step by step

A walk keeps a stack of the traces that it has still to visit. Each step takes the trace on
top, visits it and puts its children on the stack, the last one first, so that the first one
is on top for the next step. What is left to visit is thus the preorder of the stack read from
its top, and each step takes the first node off it, so the walk ends.

Two nodes of a trace can be equal, so a node is told from the others by its place, the numbers
of the children on the way down to it. A walk comes to all places in the order of a dictionary:
to a node before those below it, and to all below a child before its next sibling.

## Main definitions

* `Trace.next?` — one step of a walk
* `Trace.Yields` — what a walk visits until its stack is empty
* `Trace.nodeAt?` — the node at a place
* `Trace.places` — all places of a trace
* `Trace.WalkedOnce` — a walk ends and comes to each place once, in order

## Main results

* `Trace.yields_iff` — a walk visits the preorder of its stack and ends
* `Trace.mem_places_iff`, `Trace.pairwise_places` — all places, each once and in order
* `Trace.map_nodeAt?_places` — the nodes at these places are those of the preorder
* `Trace.walkedOnce` — every trace is walked over in this way
-/

namespace LayeredConfig.Trace

variable {δ : Type} {trace node : Trace δ} {visited : List (Trace δ)}
  {stack rest : Array (Trace δ)}

/-! ## Steps -/

/-- One step of a walk takes the trace on top of the stack and puts its children there, the last
one first. -/
def next? (stack : Array (Trace δ)) : Option (Trace δ × Array (Trace δ)) :=
  stack.back?.map fun trace => (trace, stack.pop ++ trace.children.reverse)

/-- Step by step, a walk visits these nodes until its stack is empty. -/
inductive Yields : Array (Trace δ) → List (Trace δ) → Prop
  | done {stack : Array (Trace δ)} (empty : next? stack = none) : Yields stack []
  | step {stack rest : Array (Trace δ)} {trace : Trace δ} {visited : List (Trace δ)}
      (visits : next? stack = some (trace, rest)) (after : Yields rest visited) :
      Yields stack (trace :: visited)

/-- The traces on a stack from its top. -/
def pending (stack : Array (Trace δ)) : List (Trace δ) := stack.toList.reverse

theorem pending_singleton (trace : Trace δ) : pending #[trace] = [trace] := rfl

theorem next?_eq_none_iff : next? stack = none ↔ pending stack = [] := by
  simp [next?, pending]

theorem pending_of_next? (visits : next? stack = some (trace, rest)) :
    ∃ others, pending stack = trace :: others ∧ pending rest = trace.children ++ others := by
  obtain ⟨top, isTop, same⟩ := Option.map_eq_some_iff.1 visits
  cases same
  obtain ⟨others, rfl⟩ := Array.back?_eq_some_iff.1 isTop
  exact ⟨pending others, by simp [pending], by simp [pending]⟩

/-- A step takes the first node off the preorder of what is left to visit. -/
theorem preorderAll_pending_of_next? (visits : next? stack = some (trace, rest)) :
    preorderAll (pending stack) = trace :: preorderAll (pending rest) := by
  obtain ⟨others, before, after⟩ := pending_of_next? visits
  rw [before, after, preorderAll, preorder_eq, List.cons_append, preorderAll_append]

theorem preorderAll_eq_nil_iff {traces : List (Trace δ)} :
    preorderAll traces = [] ↔ traces = [] := by
  cases traces with
  | nil => simp [preorderAll]
  | cons trace traces => simp [preorderAll]

/-- From any stack a walk ends, after it visited the preorder of the stack. -/
theorem yields_iff : Yields stack visited ↔ visited = preorderAll (pending stack) := by
  constructor
  · intro yields
    induction yields with
    | done empty => rw [next?_eq_none_iff.1 empty, preorderAll]
    | step visits _ ih => rw [preorderAll_pending_of_next? visits, ih]
  · intro left
    -- the preorder of what is left gets shorter by one node with each step
    induction visited generalizing stack with
    | nil => exact .done (next?_eq_none_iff.2 (preorderAll_eq_nil_iff.1 left.symm))
    | cons node visited ih =>
      cases visits : next? stack with
      | none =>
        rw [next?_eq_none_iff.1 visits, preorderAll] at left
        cases left
      | some step =>
        obtain ⟨trace, rest⟩ := step
        rw [preorderAll_pending_of_next? visits] at left
        cases left
        exact .step visits (ih rfl)

/-! ## Places -/

/-- The node at a place, which the numbers of the children on the way down lead to. -/
def nodeAt? : Trace δ → List Nat → Option (Trace δ)
  | trace, [] => some trace
  | trace, i :: place => trace.children[i]?.bind fun child => child.nodeAt? place

mutual

/-- All places of a trace, each before those below it. -/
def places : Trace δ → List (List Nat)
  | ⟨_, _, children, _⟩ => [] :: placesFrom 0 children

/-- All places of children that are numbered from `first` on. -/
def placesFrom : Nat → List (Trace δ) → List (List Nat)
  | _, [] => []
  | first, child :: children =>
    child.places.map (first :: ·) ++ placesFrom (first + 1) children

end

theorem places_eq (trace : Trace δ) : trace.places = [] :: placesFrom 0 trace.children := by
  cases trace
  rw [places]

theorem mem_placesFrom_iff {first : Nat} {children : List (Trace δ)} {place : List Nat} :
    place ∈ placesFrom first children ↔
      ∃ i below, place = (first + i) :: below ∧
        ∃ child, children[i]? = some child ∧ below ∈ child.places := by
  induction children generalizing first with
  | nil => simp [placesFrom]
  | cons head children ih =>
    rw [placesFrom, List.mem_append, List.mem_map, ih]
    constructor
    · rintro (⟨below, inside, rfl⟩ | ⟨i, below, rfl, inside⟩)
      · exact ⟨0, below, rfl, head, rfl, inside⟩
      · exact ⟨i + 1, below, by rw [Nat.add_right_comm, Nat.add_assoc], inside⟩
    · rintro ⟨_ | i, below, rfl, child, isChild, inside⟩
      · cases isChild
        exact .inl ⟨below, inside, rfl⟩
      · exact .inr ⟨i, below, by rw [Nat.add_right_comm, Nat.add_assoc], child, isChild, inside⟩

theorem cons_mem_places_iff {i : Nat} {place : List Nat} :
    i :: place ∈ trace.places ↔
      ∃ child, trace.children[i]? = some child ∧ place ∈ child.places := by
  rw [places_eq, List.mem_cons, mem_placesFrom_iff]
  constructor
  · rintro (same | ⟨j, below, same, inside⟩)
    · cases same
    · rw [Nat.zero_add] at same
      cases same
      exact inside
  · intro inside
    exact .inr ⟨i, place, by rw [Nat.zero_add], inside⟩

/-- The places of a trace are those at which it has a node. -/
theorem mem_places_iff {place : List Nat} :
    place ∈ trace.places ↔ (trace.nodeAt? place).isSome = true := by
  induction place generalizing trace with
  | nil => simp [places_eq, nodeAt?]
  | cons i place ih =>
    rw [cons_mem_places_iff, nodeAt?]
    cases trace.children[i]? with
    | none => simp
    | some child => simp [ih]

-- The induction goes through traces and lists of them at once, as the places do.
mutual

/-- The places of a trace stand in the order of a dictionary, so none of them stands twice. -/
theorem pairwise_places : (trace : Trace δ) → trace.places.Pairwise (List.Lex (· < ·))
  | ⟨key, diagnostics, children, detail⟩ => by
    rw [places_eq, List.pairwise_cons]
    refine ⟨fun place member => ?_, pairwise_placesFrom 0 children⟩
    obtain ⟨i, below, rfl, -⟩ := mem_placesFrom_iff.1 member
    exact .nil

theorem pairwise_placesFrom : (first : Nat) → (children : List (Trace δ)) →
    (placesFrom first children).Pairwise (List.Lex (· < ·))
  | _, [] => by
    rw [placesFrom]
    exact .nil
  | first, child :: children => by
    rw [placesFrom, List.pairwise_append, List.pairwise_map]
    refine ⟨(pairwise_places child).imp .cons, pairwise_placesFrom (first + 1) children, ?_⟩
    intro place member place' member'
    obtain ⟨below, -, rfl⟩ := List.mem_map.1 member
    obtain ⟨i, below', rfl, -⟩ := mem_placesFrom_iff.1 member'
    exact .rel (by omega)

end

mutual

/-- At the places of a trace stand its nodes, in preorder. -/
theorem map_nodeAt?_places : (trace : Trace δ) →
    trace.places.map trace.nodeAt? = trace.preorder.map some
  | ⟨key, diagnostics, children, detail⟩ => by
    rw [places_eq, preorder_eq, List.map_cons, List.map_cons, nodeAt?]
    exact congrArg _ (map_nodeAt?_placesFrom ⟨key, diagnostics, children, detail⟩ [] children rfl)

theorem map_nodeAt?_placesFrom : (trace : Trace δ) → (before children : List (Trace δ)) →
    trace.children = before ++ children →
      (placesFrom before.length children).map trace.nodeAt? = (preorderAll children).map some
  | _, _, [], _ => by rw [placesFrom, preorderAll, List.map_nil, List.map_nil]
  | trace, before, child :: children, split => by
    have isChild : trace.children[before.length]? = some child := by simp [split]
    have here : (child.places.map (before.length :: ·)).map trace.nodeAt? =
        child.preorder.map some := by
      rw [← map_nodeAt?_places child, List.map_map]
      refine List.map_congr_left fun place _ => ?_
      rw [Function.comp_apply, nodeAt?, isChild, Option.bind_some]
    have after := map_nodeAt?_placesFrom trace (before ++ [child]) children (by simp [split])
    rw [List.length_append, List.length_singleton] at after
    rw [placesFrom, preorderAll, List.map_append, List.map_append, here, after]

end

/-- The nodes of a trace are those at its places. -/
theorem mem_preorder_iff_nodeAt? :
    node ∈ trace.preorder ↔ ∃ place, trace.nodeAt? place = some node := by
  constructor
  · intro member
    have listed := List.mem_map_of_mem (f := some) member
    rw [← map_nodeAt?_places, List.mem_map] at listed
    obtain ⟨place, -, here⟩ := listed
    exact ⟨place, here⟩
  · rintro ⟨place, here⟩
    have isPlace : place ∈ trace.places := by rw [mem_places_iff, here, Option.isSome_some]
    have listed := List.mem_map_of_mem (f := trace.nodeAt?) isPlace
    rw [map_nodeAt?_places, here, List.mem_map] at listed
    obtain ⟨other, member, same⟩ := listed
    cases same
    exact member

/-- A trace is clean iff nothing was noted at any of its places. -/
theorem isClean_iff_places : trace.isClean = true ↔
    ∀ place node, trace.nodeAt? place = some node → node.diagnostics.isClean = true := by
  simp only [isClean_iff, mem_preorder_iff_nodeAt?]
  constructor
  · intro clean place node here
    exact clean node ⟨place, here⟩
  · rintro clean node ⟨place, here⟩
    exact clean place node here

/-! ## Walks -/

/-- A walk over a trace ends and comes to each of its places once, in order. -/
structure WalkedOnce (trace : Trace δ) : Prop where
  /-- Step by step, the walk visits the nodes of the trace and then ends. -/
  ends : ∀ visited, Yields #[trace] visited ↔ visited = trace.nodes
  /-- It visits the trace itself, and then what is below each child from left to right. -/
  preorder : trace.nodes = trace :: trace.children.flatMap nodes
  /-- What it visits are the nodes at the places of the trace, one for each place. -/
  located : trace.nodes.map some = trace.places.map trace.nodeAt?
  /-- The places are all at which the trace has a node. -/
  complete : ∀ place, place ∈ trace.places ↔ (trace.nodeAt? place).isSome = true
  /-- No place stands twice, as each one is before the later ones in the order of a
  dictionary. -/
  ordered : trace.places.Pairwise (List.Lex (· < ·))

theorem walkedOnce (trace : Trace δ) : trace.WalkedOnce where
  ends visited := by rw [yields_iff, pending_singleton, nodes, walk_eq_preorderAll]
  preorder := by
    rw [nodes_eq_preorder, preorder_eq, preorderAll_eq_flatMap, funext nodes_eq_preorder]
  located := by rw [nodes_eq_preorder, map_nodeAt?_places]
  complete _ := mem_places_iff
  ordered := pairwise_places trace

/-- A walk visits equal nodes once for each place at which they stand. -/
example :
    let node (key : String) (children : List (Trace Issue)) : Trace Issue :=
      { key, children, detail := .value none }
    let trace := node "K" [node "A" [node "B" []], node "C" [], node "C" []]
    trace.nodes.map Trace.key = ["K", "A", "B", "C", "C"] ∧
      trace.places = [[], [0], [0, 0], [1], [2]] := by
  decide +kernel

end LayeredConfig.Trace
