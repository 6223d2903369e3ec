import LayeredConfig.Reference.Basic
import LayeredConfig.Trace.Diagnostics

/-!
# Traces

A trace tells how a value came about. Each node stands for one step: a value
taken as it is, the look-up of a reference, or a text put together from its
references, whose look-ups are its children. The nodes of a trace are walked
from the top down, children from left to right.

## Main definitions

* `Trace` — a tree of steps with their diagnostics
* `Trace.preorder` — all nodes, each before its children
* `Trace.walk`, `Trace.nodes` — the same by visiting what is still pending
* `Trace.map` — the trace with other diagnostics

## Main results

* `Trace.nodes_eq_preorder` — a walk visits each node once, in preorder
-/

namespace LayeredConfig

/-- What a step of a trace did. -/
inductive Trace.Detail where
  /-- A value was taken as it is. -/
  | value (value : Option String)
  /-- A reference was looked up in a namespace; without a value it was expanded
  into a section. -/
  | key (reference : Reference) (space : Namespace) (value : Option String)
  /-- A text was put together from its references; without a value it was
  expanded into a section that wrote the keys of `expanded`. -/
  | multi (raw value : Option String) (expanded : List String)
  deriving DecidableEq, Repr

/-- A tree of steps with their diagnostics. -/
structure Trace (δ : Type) where
  /-- The key that the step is about. -/
  key : String
  diagnostics : Diagnostics δ := {}
  /-- The steps below, in order. -/
  children : List (Trace δ) := []
  detail : Trace.Detail

namespace Trace

variable {δ ε : Type}

mutual

/-- Decides whether two traces agree in every node. -/
def decEq [DecidableEq δ] : (a b : Trace δ) → Decidable (a = b)
  | ⟨key, diagnostics, children, detail⟩, ⟨key', diagnostics', children', detail'⟩ =>
    match decEqAll children children' with
    | isFalse h => isFalse fun equal => h (Trace.mk.inj equal).2.2.1
    | isTrue below =>
      if h : key = key' ∧ diagnostics = diagnostics' ∧ detail = detail' then
        isTrue (by rw [h.1, h.2.1, below, h.2.2])
      else
        isFalse fun equal =>
          have fields := Trace.mk.inj equal
          h ⟨fields.1, fields.2.1, fields.2.2.2⟩

/-- Decides whether two lists of traces agree in every node. -/
def decEqAll [DecidableEq δ] : (a b : List (Trace δ)) → Decidable (a = b)
  | [], [] => isTrue rfl
  | [], _ :: _ => isFalse nofun
  | _ :: _, [] => isFalse nofun
  | a :: as, b :: bs =>
    match decEq a b, decEqAll as bs with
    | isTrue head, isTrue tail => isTrue (by rw [head, tail])
    | isFalse h, _ => isFalse fun equal => h (List.cons.inj equal).1
    | _, isFalse h => isFalse fun equal => h (List.cons.inj equal).2

end

instance [DecidableEq δ] : DecidableEq (Trace δ) := decEq

mutual

/-- All nodes of a trace, each before its children and children from left to
right. -/
def preorder : Trace δ → List (Trace δ)
  | ⟨key, diagnostics, children, detail⟩ =>
    ⟨key, diagnostics, children, detail⟩ :: preorderAll children

/-- All nodes of several traces in order. -/
def preorderAll : List (Trace δ) → List (Trace δ)
  | [] => []
  | trace :: traces => trace.preorder ++ preorderAll traces

end

mutual

/-- The number of nodes of a trace. -/
def size : Trace δ → Nat
  | ⟨_, _, children, _⟩ => sizeAll children + 1

/-- The number of nodes of several traces. -/
def sizeAll : List (Trace δ) → Nat
  | [] => 0
  | trace :: traces => trace.size + sizeAll traces

end

theorem sizeAll_append (traces traces' : List (Trace δ)) :
    sizeAll (traces ++ traces') = sizeAll traces + sizeAll traces' := by
  induction traces with
  | nil => simp [sizeAll]
  | cons trace traces ih => simp [sizeAll, ih, Nat.add_assoc]

/-- Walks over traces that are still to be visited: takes the first one and
visits its children before the others. -/
def walk : List (Trace δ) → List (Trace δ)
  | [] => []
  | trace :: pending => trace :: walk (trace.children ++ pending)
termination_by pending => sizeAll pending
decreasing_by
  cases trace
  simp only [sizeAll_append, sizeAll, size]
  omega

/-- The nodes of a trace in the order of a walk. -/
def nodes (trace : Trace δ) : List (Trace δ) := walk [trace]

mutual

/-- The trace with other diagnostics. -/
def map (f : δ → ε) : Trace δ → Trace ε
  | ⟨key, diagnostics, children, detail⟩ => ⟨key, diagnostics.map f, mapAll f children, detail⟩

/-- The traces with other diagnostics. -/
def mapAll (f : δ → ε) : List (Trace δ) → List (Trace ε)
  | [] => []
  | trace :: traces => trace.map f :: mapAll f traces

end

/-- Nothing was noted on any node. -/
def isClean (trace : Trace δ) : Bool :=
  trace.nodes.all fun node => node.diagnostics.isClean

/-- The value that a step came to. -/
def value (trace : Trace δ) : Option String :=
  match trace.detail with
  | .value v | .key _ _ v | .multi _ v _ => v

/-- The step looked up a reference. -/
def isLookup (trace : Trace δ) : Bool :=
  match trace.detail with
  | .key .. => true
  | _ => false

/-- The step is a look-up in a namespace. -/
def looksIn (trace : Trace δ) (space : Namespace) : Bool :=
  match trace.detail with
  | .key _ s _ => s = space
  | _ => false

@[simp] theorem preorder_eq (trace : Trace δ) :
    trace.preorder = trace :: preorderAll trace.children := by
  cases trace; rw [preorder]

theorem preorderAll_eq_flatMap (traces : List (Trace δ)) :
    preorderAll traces = traces.flatMap preorder := by
  induction traces with
  | nil => rw [preorderAll, List.flatMap_nil]
  | cons trace traces ih => rw [preorderAll, ih, List.flatMap_cons]

theorem preorderAll_append (traces traces' : List (Trace δ)) :
    preorderAll (traces ++ traces') = preorderAll traces ++ preorderAll traces' := by
  simp only [preorderAll_eq_flatMap, List.flatMap_append]

/-- A walk visits all nodes below the first trace before it turns to the next. -/
theorem walk_eq_preorderAll (pending : List (Trace δ)) : walk pending = preorderAll pending := by
  induction pending using walk.induct with
  | case1 => rw [walk, preorderAll]
  | case2 trace pending ih =>
    rw [walk, ih, preorderAll_append, preorderAll, preorder_eq, List.cons_append]

theorem nodes_eq_preorder (trace : Trace δ) : trace.nodes = trace.preorder := by
  rw [nodes, walk_eq_preorderAll, preorderAll, preorderAll, List.append_nil]

theorem mapAll_eq_map (f : δ → ε) (traces : List (Trace δ)) :
    mapAll f traces = traces.map (map f) := by
  induction traces with
  | nil => rw [mapAll, List.map_nil]
  | cons trace traces ih => rw [mapAll, List.map_cons, ih]

end Trace

end LayeredConfig
