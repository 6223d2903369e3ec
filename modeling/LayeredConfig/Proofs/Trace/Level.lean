import LayeredConfig.Trace.Basic

/-!
# Levels of a trace

How far a node lies below the top of its trace is how deeply the look-ups were nested
that led to it. The nodes of a trace are those of all of its levels.

## Main definitions

* `Trace.level` — the nodes that lie so many steps below the top

## Main results

* `Trace.mem_preorder_iff` — a node belongs to a trace iff it lies on one of its levels
-/

namespace LayeredConfig.Trace

variable {δ : Type} {node child trace : Trace δ} {traces : List (Trace δ)} {n : Nat}

/-- The nodes that lie so many steps below the top of a trace. -/
def level : Nat → Trace δ → List (Trace δ)
  | 0, trace => [trace]
  | n + 1, trace => trace.children.flatMap (level n)

@[simp] theorem mem_level_zero : node ∈ trace.level 0 ↔ node = trace :=
  List.mem_singleton

@[simp] theorem mem_level_succ :
    node ∈ trace.level (n + 1) ↔ ∃ child ∈ trace.children, node ∈ child.level n :=
  List.mem_flatMap

theorem mem_preorderAll_iff :
    node ∈ preorderAll traces ↔ ∃ trace ∈ traces, node ∈ trace.preorder := by
  rw [preorderAll_eq_flatMap, List.mem_flatMap]

/-- The nodes below a child are nodes of the trace. -/
theorem mem_preorder_of_child (isChild : child ∈ trace.children)
    (below : node ∈ child.preorder) : node ∈ trace.preorder := by
  rw [preorder_eq]
  exact List.mem_cons_of_mem _ (mem_preorderAll_iff.2 ⟨child, isChild, below⟩)

-- A trace is a nested tree, so the induction goes through traces and lists of them at once.
mutual

theorem exists_level_of_mem_preorder :
    (trace : Trace δ) → node ∈ trace.preorder → ∃ n, node ∈ trace.level n
  | ⟨key, diagnostics, children, detail⟩, member => by
    rw [preorder_eq, List.mem_cons] at member
    rcases member with rfl | member
    · exact ⟨0, mem_level_zero.2 rfl⟩
    · obtain ⟨n, child, isChild, onLevel⟩ := exists_level_of_mem_preorderAll children member
      exact ⟨n + 1, mem_level_succ.2 ⟨child, isChild, onLevel⟩⟩

theorem exists_level_of_mem_preorderAll :
    (traces : List (Trace δ)) → node ∈ preorderAll traces →
      ∃ n, ∃ trace ∈ traces, node ∈ trace.level n
  | [], member => by simp [preorderAll] at member
  | trace :: traces, member => by
    rw [preorderAll, List.mem_append] at member
    rcases member with member | member
    · obtain ⟨n, onLevel⟩ := exists_level_of_mem_preorder trace member
      exact ⟨n, trace, List.mem_cons_self, onLevel⟩
    · obtain ⟨n, trace', member', onLevel⟩ := exists_level_of_mem_preorderAll traces member
      exact ⟨n, trace', List.mem_cons_of_mem _ member', onLevel⟩

end

theorem mem_preorder_of_mem_level (onLevel : node ∈ trace.level n) : node ∈ trace.preorder := by
  induction n generalizing trace with
  | zero =>
    rw [mem_level_zero] at onLevel
    rw [onLevel, preorder_eq]
    exact List.mem_cons_self
  | succ n ih =>
    obtain ⟨child, isChild, onLevel⟩ := mem_level_succ.1 onLevel
    exact mem_preorder_of_child isChild (ih onLevel)

theorem mem_preorder_iff : node ∈ trace.preorder ↔ ∃ n, node ∈ trace.level n := by
  constructor
  · exact exists_level_of_mem_preorder trace
  · rintro ⟨n, onLevel⟩
    exact mem_preorder_of_mem_level onLevel

theorem isClean_iff :
    trace.isClean = true ↔ ∀ node ∈ trace.preorder, node.diagnostics.isClean = true := by
  rw [isClean, nodes_eq_preorder, List.all_eq_true]

/-- A trace is clean iff nothing was noted on its top and the traces below are clean. -/
theorem isClean_iff_children : trace.isClean = true ↔
    trace.diagnostics.isClean = true ∧ ∀ child ∈ trace.children, child.isClean = true := by
  rw [isClean_iff, preorder_eq, List.forall_mem_cons]
  refine and_congr_right fun _ => ⟨fun clean child isChild => ?_, fun clean node member => ?_⟩
  · rw [isClean_iff]
    intro node member
    exact clean node (mem_preorderAll_iff.2 ⟨child, isChild, member⟩)
  · obtain ⟨child, isChild, member⟩ := mem_preorderAll_iff.1 member
    exact isClean_iff.1 (clean child isChild) node member

end LayeredConfig.Trace
