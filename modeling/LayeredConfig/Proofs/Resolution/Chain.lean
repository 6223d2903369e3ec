import Mathlib.Data.List.Nodup
import Mathlib.Data.List.Perm.Subperm
import LayeredConfig.KeyMap.Lemmas
import LayeredConfig.Proofs.Resolution.Scene

/-!
# Chains of references

A key whose text is a single reference hands on whatever the next key comes to. Along a chain
of such keys each look-up has the next one as its only child, so the trace is a straight line.
Where the line ends, and what is noted there, is decided by the first key that cannot be
entered: one beyond the limit, one that is open already, or none, if the last key has a text
without references, which needs no frame.

## Main definitions

* `Context.Passes` — a key hands on to another one
* `Context.HandsOn` — an answer is another one, reached through so many look-ups
* `Stack.above` — the stack above the first keys of a chain

## Main results

* `Context.IsChain.exists_handsOn_resolve` — what the start of a chain comes to
* `Context.resolvePartsOf_chain` — chains that end in a text, in the limit or in a circle
-/

namespace LayeredConfig

/-- Something was noted on the step. -/
def Trace.isNoted (trace : Trace Issue) : Bool := !trace.diagnostics.isClean

/-- All nodes of the traces below a finding. -/
def Finding.nodes (finding : Finding) : List (Trace Issue) :=
  Trace.preorderAll finding.children

/-- The stack above a root in which the first keys of a chain are open. -/
def Stack.above (root : String) (chain : ℕ → String) : ℕ → Stack
  | 0 => { root }
  | n + 1 => (above root chain n).push ⟨.environment, chain n⟩

namespace Stack

variable {root : String} {chain : ℕ → String} {n : ℕ}

theorem depth_above : (above root chain n).depth = n := by
  induction n with
  | zero => rfl
  | succ n ih => rw [above, depth_push, ih]

theorem mem_opened_above {frame : Frame} :
    frame ∈ (above root chain n).opened ↔ ∃ i < n, frame = ⟨.environment, chain i⟩ := by
  induction n with
  | zero => simp [above]
  | succ n ih =>
    rw [above, push, List.mem_cons, ih]
    constructor
    · rintro (rfl | ⟨i, earlier, rfl⟩)
      · exact ⟨n, n.lt_succ_self, rfl⟩
      · exact ⟨i, by omega, rfl⟩
    · rintro ⟨i, earlier, rfl⟩
      rcases Nat.lt_succ_iff_lt_or_eq.1 earlier with earlier | rfl
      · exact .inr ⟨i, earlier, rfl⟩
      · exact .inl rfl

end Stack

namespace Context

variable {context : Context} {key next : String} {r : Reference} {stack : Stack} {room : ℕ}

/-- The text of a key of the environment is a single reference to another one. -/
def Passes (context : Context) (key next : String) : Prop :=
  ∃ text r, context.environment.find? key = some (some text) ∧
    context.parse text = [.reference r] ∧ r.target? = some (.environment, next)

/-- An answer has the outcome of an inner one, whose trace ends a straight line of so many
look-ups on which nothing was noted. -/
structure HandsOn (n : ℕ) (outer inner : Outcome × Trace Issue) : Prop where
  outcome : outer.1 = inner.1
  lookups : outer.2.preorder.countP Trace.isLookup =
    n + inner.2.preorder.countP Trace.isLookup
  noted : outer.2.preorder.filter Trace.isNoted = inner.2.preorder.filter Trace.isNoted
  level : ∀ m, outer.2.level (n + m) = inner.2.level m

namespace HandsOn

variable {m n : ℕ} {outer middle inner : Outcome × Trace Issue}

theorem refl (answer : Outcome × Trace Issue) : HandsOn 0 answer answer where
  outcome := rfl
  lookups := (Nat.zero_add _).symm
  noted := rfl
  level m := by rw [Nat.zero_add]

theorem trans (first : HandsOn m outer middle) (second : HandsOn n middle inner) :
    HandsOn (m + n) outer inner where
  outcome := first.outcome.trans second.outcome
  lookups := by rw [first.lookups, second.lookups, Nat.add_assoc]
  noted := first.noted.trans second.noted
  level l := by rw [Nat.add_assoc, first.level, second.level]

/-- A look-up without diagnostics hands on its only child. -/
theorem single {outcome : Outcome} {inner : Outcome × Trace Issue} (same : outcome = inner.1)
    (key : String) (r : Reference) (space : Namespace) (v : Option String) :
    HandsOn 1 (outcome, { key, children := [inner.2], detail := .key r space v }) inner where
  outcome := same
  lookups := by
    rw [Trace.preorder_eq, Trace.preorderAll, Trace.preorderAll, List.append_nil,
      List.countP_cons_of_pos rfl, Nat.add_comm]
  noted := by
    rw [Trace.preorder_eq, Trace.preorderAll, Trace.preorderAll, List.append_nil,
      List.filter_cons_of_neg Bool.false_ne_true]
  level m := by
    rw [Nat.add_comm, Trace.level, List.flatMap_cons, List.flatMap_nil, List.append_nil]

end HandsOn

/-! ## One key -/

/-- A reference to a key of the environment is answered with what is found there, whatever
the stack is. -/
theorem resolve_of_target (target : r.target? = some (.environment, key))
    (starless : key.toList.getLast? ≠ some '*') :
    context.resolve room stack (.reference .whole r) =
      let finding := context.resolveKey (context.inside? room) stack .whole .environment key
      (finding.outcome, finding.trace key (.key r .environment finding.outcome.text?)) := by
  have atKey : Target.ofReference stack.current r = .keys .environment key := by
    rw [Target.ofReference, target]
  rw [resolve_eq, answer_eq, findingOf_of_key atKey starless, Request.answerWith, atKey]
  rfl

theorem resolve_of_text {text : String} (target : r.target? = some (.environment, key))
    (starless : key.toList.getLast? ≠ some '*')
    (found : context.environment.find? key = some (some text))
    (plain : Value.references (context.parse text) = []) :
    context.resolve room stack (.reference .whole r) =
      (.text text, { key, detail := .key r .environment (some text) }) := by
  have found : (context.keys .environment).find? key = some (some text) := found
  rw [resolve_of_target target starless]
  simp only [resolveKey, found, plain, if_true]
  rfl

theorem Passes.exists_text (passes : context.Passes key next) :
    ∃ text r, (context.keys .environment).find? key = some (some text) ∧
      Value.references (context.parse text) ≠ [] ∧ context.parse text = [.reference r] ∧
      r.target? = some (.environment, next) := by
  obtain ⟨text, r, found, parsed, target⟩ := passes
  refine ⟨text, r, found, ?_, parsed, target⟩
  rw [parsed]
  exact List.cons_ne_nil _ _

theorem Passes.resolve_of_refused {issue : Issue} (passes : context.Passes key next)
    (target : r.target? = some (.environment, key)) (starless : key.toList.getLast? ≠ some '*')
    (refused : openFrame (context.inside? room) stack ⟨.environment, key⟩ = .error issue) :
    context.resolve room stack (.reference .whole r) =
      (.text "",
        { key, diagnostics := .ofIssues [issue], detail := .key r .environment (some "") }) := by
  obtain ⟨text, r', found, references, -⟩ := passes.exists_text
  rw [resolve_of_target target starless, resolveKey_of_references found references, refused]
  rfl

/-- A key that can be entered hands on what the next one comes to. -/
theorem Passes.exists_handsOn (passes : context.Passes key next) (room : ℕ)
    (target : r.target? = some (.environment, key)) (starless : key.toList.getLast? ≠ some '*')
    (fresh : ⟨.environment, key⟩ ∉ stack.opened) :
    ∃ r', r'.target? = some (.environment, next) ∧
      HandsOn 1 (context.resolve (room + 1) stack (.reference .whole r))
        (context.resolve room (stack.push ⟨.environment, key⟩) (.reference .whole r')) := by
  obtain ⟨text, r', found, references, parsed, target'⟩ := passes.exists_text
  refine ⟨r', target', ?_⟩
  have opened : openFrame (context.inside? (room + 1)) stack ⟨.environment, key⟩ =
      .ok (context.resolve room (stack.push ⟨.environment, key⟩)) :=
    openFrame_eq_ok_iff.2 ⟨fresh, _, rfl, rfl⟩
  rw [resolve_of_target target starless, resolveKey_of_references found references, opened]
  dsimp only
  rw [parsed]
  exact .single rfl key r .environment _

/-! ## Chains -/

section Chains

variable {chain : ℕ → String} {n : ℕ} {root : String}

/-- The keys of a chain up to one of them are different, and none asks for a section. -/
structure IsChain (context : Context) (chain : ℕ → String) (n : ℕ) : Prop where
  distinct : ∀ i ≤ n, ∀ j ≤ n, chain i = chain j → i = j
  starless : ∀ i ≤ n, (chain i).toList.getLast? ≠ some '*'
  passes : ∀ i < n, context.Passes (chain i) (chain (i + 1))

namespace IsChain

theorem fresh (isChain : context.IsChain chain n) (root : String) {m : ℕ} (within : m ≤ n) :
    ⟨.environment, chain m⟩ ∉ (Stack.above root chain m).opened := by
  rw [Stack.mem_opened_above]
  rintro ⟨i, earlier, same⟩
  have := isChain.distinct m within i (by omega) (Frame.mk.inj same).2
  omega

/-- With room for them the first keys of a chain hand on what the next one comes to above
their frames. -/
theorem exists_handsOn_resolve (isChain : context.IsChain chain n) (root : String)
    (target : r.target? = some (.environment, chain 0)) {m : ℕ} (within : m ≤ n) (left : ℕ) :
    ∃ r', r'.target? = some (.environment, chain m) ∧
      HandsOn m (context.resolve (left + m) { root } (.reference .whole r))
        (context.resolve left (.above root chain m) (.reference .whole r')) := by
  -- the chain is followed from its start, so the room that is left shrinks from step to step
  induction m generalizing left with
  | zero => exact ⟨r, target, .refl _⟩
  | succ m ih =>
    obtain ⟨r₁, target₁, outer⟩ := ih (by omega) (left + 1)
    obtain ⟨r₂, target₂, inner⟩ := (isChain.passes m (by omega)).exists_handsOn left target₁
      (isChain.starless m (by omega)) (isChain.fresh root (by omega))
    refine ⟨r₂, target₂, ?_⟩
    rw [Nat.add_assoc, Nat.add_comm 1] at outer
    exact outer.trans inner

/-- The keys of a chain are keys of the environment, so there are fewer steps than keys. -/
theorem lt_size (isChain : context.IsChain chain n)
    (last : context.environment.contains (chain n) = true) : n < context.environment.size := by
  have distinct : ((List.range (n + 1)).map chain).Nodup := by
    refine List.Nodup.map_on ?_ List.nodup_range
    intro i isBelow j isBelow' same
    rw [List.mem_range] at isBelow isBelow'
    exact isChain.distinct i (by omega) j (by omega) same
  have keys : (List.range (n + 1)).map chain ⊆ context.environment.keys := by
    intro key member
    obtain ⟨i, isBelow, rfl⟩ := List.mem_map.1 member
    rw [KeyMap.mem_keys_iff]
    rcases Nat.lt_succ_iff_lt_or_eq.1 (List.mem_range.1 isBelow) with before | rfl
    · obtain ⟨text, r, found, -⟩ := isChain.passes i before
      rw [KeyMap.contains, found]
      rfl
    · exact last
  have fits := (distinct.subperm keys).length_le
  rw [List.length_map, List.length_range, KeyMap.keys, List.length_map] at fits
  exact fits

end IsChain

theorem size_le_room (unlimited : context.settings.depthLimit = none) (parts : List Part) :
    context.environment.size ≤ context.room parts := by
  rw [room, unlimited, Option.getD_none, frameBound]
  omega

/-- A reference whose answer hands on a last look-up has the outcome of that one, and the nodes
of its trace are the look-ups on the way and the last one. -/
theorem HandsOn.resolvePartsOf {outcome : Outcome} {last : Trace Issue}
    (handsOn : HandsOn n
      (context.resolve (context.room [.reference r]) { root } (.reference .whole r))
      (outcome, last)) (isLookup : last.isLookup = true) (leaf : last.children = []) :
    (context.resolvePartsOf root [.reference r]).outcome = outcome ∧
      (context.resolvePartsOf root [.reference r]).nodes.countP Trace.isLookup = n + 1 ∧
      (context.resolvePartsOf root [.reference r]).nodes.filter Trace.isNoted =
        [last].filter Trace.isNoted ∧
      ∃ trace, (context.resolvePartsOf root [.reference r]).children = [trace] ∧
        trace.level n = [last] := by
  have preorder : last.preorder = [last] := by
    rw [Trace.preorder_eq, leaf, Trace.preorderAll]
  have nodes : (context.resolvePartsOf root [.reference r]).nodes =
      (context.resolve (context.room [.reference r]) { root }
        (.reference .whole r)).2.preorder := List.append_nil _
  refine ⟨handsOn.outcome, ?_, ?_, _, rfl, handsOn.level 0⟩
  · rw [nodes, handsOn.lookups, preorder, List.countP_cons_of_pos isLookup, List.countP_nil]
  · rw [nodes, handsOn.noted, preorder]

/-- A reference to a chain of keys that hand on to one another.

If the last key has a text without references, the chain comes to that text unless the limit is
shorter than the chain: each key is looked up once, and nothing is noted. Otherwise the key that
lies as deep as the limit is refused, which is all that is noted. If the last key hands on to
one of the keys again, that one is looked up once more and refused as being open. -/
theorem resolvePartsOf_chain (isChain : context.IsChain chain n) (root : String)
    (target : r.target? = some (.environment, chain 0)) :
    (∀ text, context.environment.find? (chain n) = some (some text) →
      Value.references (context.parse text) = [] →
      ((∀ limit, context.settings.depthLimit = some limit → n ≤ limit) →
        (context.resolvePartsOf root [.reference r]).outcome = .text text ∧
        (context.resolvePartsOf root [.reference r]).nodes.countP Trace.isLookup = n + 1 ∧
        (context.resolvePartsOf root [.reference r]).nodes.filter Trace.isNoted = []) ∧
      ∀ limit, context.settings.depthLimit = some limit → limit < n →
        (context.resolvePartsOf root [.reference r]).outcome = .text "" ∧
        ∃ node,
          (context.resolvePartsOf root [.reference r]).nodes.filter Trace.isNoted = [node] ∧
          node.diagnostics = { errors := [.depthExceeded (chain limit) limit] }) ∧
    ∀ j ≤ n, context.Passes (chain n) (chain j) → context.settings.depthLimit = none →
      (context.resolvePartsOf root [.reference r]).outcome = .text "" ∧
      (context.resolvePartsOf root [.reference r]).nodes.countP Trace.isLookup = n + 2 ∧
      ∃ trace node,
        (context.resolvePartsOf root [.reference r]).children = [trace] ∧
        trace.level (n + 1) = [node] ∧ node.children = [] ∧
        (context.resolvePartsOf root [.reference r]).nodes.filter Trace.isNoted = [node] ∧
        node.diagnostics = { errors := [.cyclicReference (chain j)] } := by
  refine ⟨fun text found plain => ⟨fun enough => ?_, fun limit limited short => ?_⟩,
    fun j within back unlimited => ?_⟩
  · have shorter := isChain.lt_size (by rw [KeyMap.contains, found]; rfl)
    have roomy : n ≤ context.room [.reference r] := by
      cases limited : context.settings.depthLimit with
      | none => exact Nat.le_trans (Nat.le_of_lt shorter) (size_le_room limited _)
      | some limit =>
        rw [room, limited]
        exact enough limit limited
    obtain ⟨left, rooms⟩ := Nat.exists_eq_add_of_le' roomy
    obtain ⟨r', target', handsOn⟩ := isChain.exists_handsOn_resolve root target n.le_refl left
    rw [← rooms, resolve_of_text target' (isChain.starless n n.le_refl) found plain] at handsOn
    obtain ⟨outcome, lookups, noted, -⟩ := handsOn.resolvePartsOf rfl rfl
    exact ⟨outcome, lookups, noted⟩
  · obtain ⟨r', target', handsOn⟩ :=
      isChain.exists_handsOn_resolve root target (Nat.le_of_lt short) 0
    have refused : openFrame (context.inside? 0) (.above root chain limit)
        ⟨.environment, chain limit⟩ = .error (.depthExceeded (chain limit) limit) :=
      openFrame_eq_error_iff.2
        (.inr ⟨isChain.fresh root (Nat.le_of_lt short), rfl, by rw [Stack.depth_above]⟩)
    have rooms : context.room [.reference r] = 0 + limit := by
      rw [room, limited, Option.getD_some, Nat.zero_add]
    rw [← rooms, (isChain.passes limit short).resolve_of_refused target'
      (isChain.starless limit (Nat.le_of_lt short)) refused] at handsOn
    obtain ⟨outcome, -, noted, -⟩ := handsOn.resolvePartsOf rfl rfl
    exact ⟨outcome, _, noted, rfl⟩
  · have shorter : n < context.environment.size := by
      obtain ⟨text, r', found, -⟩ := back
      exact isChain.lt_size (by rw [KeyMap.contains, found]; rfl)
    have roomy : n + 1 ≤ context.room [.reference r] :=
      Nat.le_trans shorter (size_le_room unlimited _)
    obtain ⟨left, rooms⟩ := Nat.exists_eq_add_of_le' roomy
    obtain ⟨r₁, target₁, outer⟩ :=
      isChain.exists_handsOn_resolve root target n.le_refl (left + 1)
    -- the last key is entered like the others, and the key it hands on to is open by then
    obtain ⟨r₂, target₂, inner⟩ :=
      back.exists_handsOn left target₁ (isChain.starless n n.le_refl)
        (isChain.fresh root n.le_refl)
    have opened : openFrame (context.inside? left) (.above root chain (n + 1))
        ⟨.environment, chain j⟩ = .error (.cyclicReference (chain j)) := by
      refine openFrame_eq_error_iff.2 (.inl ⟨?_, rfl⟩)
      exact Stack.mem_opened_above.2 ⟨j, Nat.lt_succ_of_le within, rfl⟩
    obtain ⟨next, passes⟩ : ∃ next, context.Passes (chain j) next := by
      rcases Nat.lt_or_eq_of_le within with before | rfl
      · exact ⟨_, isChain.passes j before⟩
      · exact ⟨_, back⟩
    have handsOn := outer.trans inner
    rw [Nat.add_assoc, Nat.add_comm 1, ← rooms] at handsOn
    have last := passes.resolve_of_refused target₂ (isChain.starless j within) opened
    rw [Stack.above] at last
    rw [last] at handsOn
    obtain ⟨outcome, lookups, noted, trace, children, level⟩ := handsOn.resolvePartsOf rfl rfl
    exact ⟨outcome, lookups, trace, _, children, level, rfl, noted, rfl⟩

/-- The names of three keys. -/
def letters (i : ℕ) : String := ["a", "b", "c"].getD i ""

/-- An environment in which two keys hand on to a third one. -/
def lettersContext (last : String) (depthLimit : Option ℕ) : Context where
  settings := { depthLimit }
  environment := .ofList [("a", some "{{b}}"), ("b", some "{{c}}"), ("c", some last)]

theorem find?_letters (last : String) (depthLimit : Option ℕ) :
    (lettersContext last depthLimit).environment.find? "a" = some (some "{{b}}") ∧
      (lettersContext last depthLimit).environment.find? "b" = some (some "{{c}}") ∧
      (lettersContext last depthLimit).environment.find? "c" = some (some last) := by
  simp [lettersContext, KeyMap.ofList, KeyMap.find?_insertAll, KeyMap.lookup_cons]

theorem isChain_letters (last : String) (depthLimit : Option ℕ) :
    (lettersContext last depthLimit).IsChain letters 2 where
  distinct := by decide
  starless := by decide
  passes i before := by
    obtain ⟨a, b, -⟩ := find?_letters last depthLimit
    have parsed : Value.parse "{{b}}" = [.reference (.ofPath "b")] ∧
        Value.parse "{{c}}" = [.reference (.ofPath "c")] := by decide +kernel
    match i, before with
    | 0, _ => exact ⟨_, .ofPath "b", a, parsed.1, by decide⟩
    | 1, _ => exact ⟨_, .ofPath "c", b, parsed.2, by decide⟩

/-- Two steps to a text take two frames. With a limit of one the second key is refused, and a
way back to it is refused once all three keys are open. -/
theorem resolvePartsOf_chain_letters :
    ((lettersContext "t" (some 2)).resolvePartsOf "k" [.reference (.ofPath "a")]).outcome =
        .text "t" ∧
      ((lettersContext "t" (some 1)).resolvePartsOf "k" [.reference (.ofPath "a")]).outcome =
        .text "" ∧
      ((lettersContext "{{b}}" none).resolvePartsOf "k"
        [.reference (.ofPath "a")]).nodes.countP Trace.isLookup = 4 := by
  have target : (Reference.ofPath "a").target? = some (.environment, letters 0) := by decide
  have plain : Value.references (Value.parse "t") = [] := by decide +kernel
  have parsed : Value.parse "{{b}}" = [.reference (.ofPath "b")] := by decide +kernel
  have back : (lettersContext "{{b}}" none).Passes (letters 2) (letters 1) :=
    ⟨_, .ofPath "b", (find?_letters "{{b}}" none).2.2, parsed, by decide⟩
  have enough := (resolvePartsOf_chain (isChain_letters "t" (some 2)) "k" target).1 "t"
    (find?_letters "t" (some 2)).2.2 plain
  have short := (resolvePartsOf_chain (isChain_letters "t" (some 1)) "k" target).1 "t"
    (find?_letters "t" (some 1)).2.2 plain
  have circle := (resolvePartsOf_chain (isChain_letters "{{b}}" none) "k" target).2 1 (by decide)
    back rfl
  exact ⟨(enough.1 fun limit limited => by cases limited; decide).1,
    (short.2 1 rfl (by decide)).1, circle.2.1⟩

end Chains

end Context

end LayeredConfig
