import LayeredConfig.Reference.Namespace

/-!
# The stack of open frames

While a path is being resolved it is open: everything looked up on its behalf
sees it on a stack. A path that is met again while it is open would never come
to an end, so it is not entered a second time. Keys and sections of the same map
share one stack of names.

## Main definitions

* `Space` — the maps that hold keys
* `Frame` — a path of a map
* `Stack` — the open frames above a key of the structure
-/

namespace LayeredConfig

/-- The maps in which references look up keys. -/
inductive Space where
  | environment
  | vars
  deriving DecidableEq, Repr

namespace Space

/-- The namespace under which look-ups in a map are traced. -/
def toNamespace : Space → Namespace
  | environment => .environment
  | vars => .vars

/-- The name of a map in messages. -/
def label (space : Space) : String := space.toNamespace.label

end Space

/-- A path of a map: a key, or a section with its star. -/
structure Frame where
  space : Space
  path : String
  deriving DecidableEq, Repr

/-- The frames that are open while a key of the structure is resolved, the last
one first. -/
structure Stack where
  /-- The key of the structure. -/
  root : String
  opened : List Frame := []
  deriving DecidableEq, Repr

namespace Stack

/-- How many frames are open. -/
def depth (stack : Stack) : Nat := stack.opened.length

/-- The path that is being resolved right now. -/
def current (stack : Stack) : String :=
  match stack.opened with
  | [] => stack.root
  | frame :: _ => frame.path

/-- Opens one more frame. -/
def push (stack : Stack) (frame : Frame) : Stack :=
  { stack with opened := frame :: stack.opened }

@[simp] theorem depth_push (stack : Stack) (frame : Frame) :
    (stack.push frame).depth = stack.depth + 1 := rfl

@[simp] theorem current_push (stack : Stack) (frame : Frame) :
    (stack.push frame).current = frame.path := rfl

end Stack

end LayeredConfig
