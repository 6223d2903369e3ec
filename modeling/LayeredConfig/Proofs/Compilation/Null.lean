import LayeredConfig.Proofs.Compilation.Expansion
import LayeredConfig.Proofs.Compilation.Replay

/-!
# Where nulls come from

A reference to a key that holds null comes to an empty text, wherever it stands. Only a section
takes the null of a key that it matches as it is, and hands it on with the section. So a null
of a compiled configuration is either written by a structure key that holds null itself or
comes from a key that holds null and was matched by a section, which the trace tells about.

## Main definitions

* `Trace.section?` — the section that a node looked up and expanded
* `Context.YieldsNull` — the names under which a trace tells of nulls
* `Context.GivesSection` — the two ways in which a finding comes to a section

## Main results

* `Context.givesSection_findingOf` — every section comes about in one of the two ways
* `Context.exists_yieldsNull_resolveText` — the nulls of a section are those its look-up tells of
* `Compiler.compile_nulls` — where the nulls of a compiled configuration come from
-/

namespace LayeredConfig

theorem Space.toNamespace_inj {space space' : Space} :
    space.toNamespace = space'.toNamespace ↔ space = space' := by
  constructor
  · intro same
    cases space <;> cases space' <;> first | rfl | cases same
  · exact congrArg _

/-- The section that a node looked up and expanded, with the namespace in which it lies. -/
def Trace.section? {δ : Type} (node : Trace δ) : Option (Namespace × Wildcard) :=
  match node.detail with
  | .key _ space none =>
    match Query.ofPath node.key with
    | .all wildcard => some (space, wildcard)
    | .key _ => none
  | _ => none

/-- The nulls of a section are those of its entries, under their joined names. -/
theorem Outcome.null_mem_entriesUnder_iff {name outer : String} {outcome : Outcome} :
    (name, none) ∈ outcome.entriesUnder outer ↔
      ∃ entries, outcome = .entries entries ∧
        ∃ inner, (inner, none) ∈ entries ∧ joinSuffix outer inner = name := by
  cases outcome with
  | text text =>
    constructor
    · intro member
      cases List.mem_singleton.1 member
    · rintro ⟨_, ⟨⟩, _⟩
  | entries entries =>
    simp only [entriesUnder, List.mem_map, Prod.mk.injEq, Prod.exists, Outcome.entries.injEq]
    constructor
    · rintro ⟨inner, _, member, joined, rfl⟩
      exact ⟨entries, rfl, inner, member, joined⟩
    · rintro ⟨_, rfl, inner, member, joined⟩
      exact ⟨inner, none, member, joined, rfl⟩

namespace Context

variable {context : Context} {room : Nat} {stack : Stack} {request : Request} {space : Space}
  {wildcard : Wildcard} {entries : SectionEntries} {name : String} {node below : Trace Issue}

/-! ## Nulls on a trace -/

/-- A trace tells of a null under a name inside the section that it is about. -/
inductive YieldsNull (context : Context) : Trace Issue → String → Prop
  /-- A text that is one reference passes on the section that the reference leads to. -/
  | passed {node below : Trace Issue} {name : String} : node.section? = none →
    node.value = none → node.children = [below] → YieldsNull context below name →
    YieldsNull context node name
  /-- The section matches a key that holds null. -/
  | matched {node : Trace Issue} {space : Space} {wildcard : Wildcard} {key : String} :
    node.section? = some (space.toNamespace, wildcard) →
    (key, none) ∈ wildcard.entries (context.keys space) →
    YieldsNull context node (wildcard.suffix key)
  /-- The section matches a key whose text leads to a section with a null. -/
  | nested {node entry : Trace Issue} {space : Space} {wildcard : Wildcard} {inner : String} :
    node.section? = some (space.toNamespace, wildcard) →
    entry ∈ node.children → entry.isExpansion = true → YieldsNull context entry inner →
    YieldsNull context node (joinSuffix (wildcard.suffix entry.key) inner)

theorem yieldsNull_iff_of_passed (passes : node.section? = none) (noValue : node.value = none)
    (single : node.children = [below]) :
    context.YieldsNull node name ↔ context.YieldsNull below name := by
  constructor
  · intro yields
    cases yields with
    | passed _ _ children yields =>
      rw [single] at children
      cases children
      exact yields
    | matched looksUp | nested looksUp =>
      rw [passes] at looksUp
      cases looksUp
  · exact .passed passes noValue single

theorem yieldsNull_iff_of_section (looksUp : node.section? = some (space.toNamespace, wildcard)) :
    context.YieldsNull node name ↔
      (∃ key, (key, none) ∈ wildcard.entries (context.keys space) ∧ wildcard.suffix key = name) ∨
      ∃ entry ∈ node.children, entry.isExpansion = true ∧
        ∃ inner, context.YieldsNull entry inner ∧
          joinSuffix (wildcard.suffix entry.key) inner = name := by
  constructor
  · intro yields
    cases yields with
    | passed passes =>
      rw [looksUp] at passes
      cases passes
    | matched same member =>
      obtain ⟨spaces, rfl⟩ := Prod.mk.inj (Option.some.inj (looksUp.symm.trans same))
      obtain rfl := Space.toNamespace_inj.1 spaces
      exact .inl ⟨_, member, rfl⟩
    | nested same member expanded yields =>
      obtain ⟨spaces, rfl⟩ := Prod.mk.inj (Option.some.inj (looksUp.symm.trans same))
      exact .inr ⟨_, member, expanded, _, yields, rfl⟩
  · rintro (⟨key, member, rfl⟩ | ⟨entry, member, expanded, inner, yields, rfl⟩)
    · exact .matched looksUp member
    · exact .nested looksUp member expanded yields

/-- A section that was expanded in a trace matches a key that holds null. -/
def MatchesNull (context : Context) (trace : Trace Issue) : Prop :=
  ∃ node ∈ trace.preorder, ∃ space : Space, ∃ wildcard key,
    node.section? = some (space.toNamespace, wildcard) ∧
    (context.keys space).find? key = some none ∧ wildcard.pattern.toList <+: key.toList

theorem MatchesNull.of_child {trace : Trace Issue} (isChild : below ∈ trace.children)
    (null : context.MatchesNull below) : context.MatchesNull trace := by
  obtain ⟨node, member, null⟩ := null
  exact ⟨node, Trace.mem_preorder_of_child isChild member, null⟩

theorem YieldsNull.matchesNull {trace : Trace Issue} (yields : context.YieldsNull trace name) :
    context.MatchesNull trace := by
  induction yields with
  | passed _ _ single _ ih => exact ih.of_child (single ▸ List.mem_singleton_self _)
  | @matched node space wildcard key looksUp member =>
    refine ⟨node, ?_, space, wildcard, key, looksUp, Wildcard.find?_of_mem_entries member,
      (Wildcard.mem_entries_iff.1 member).2⟩
    rw [Trace.preorder_eq]
    exact List.mem_cons_self
  | nested _ member _ _ ih => exact ih.of_child member

/-! ## Sections -/

/-- How a finding comes to a section. Either it passes on what the one reference of a text comes
to, or it expands the section that its node looks up. -/
inductive GivesSection (context : Context) :
    (room : Nat) → Finding → (section? : Option (Namespace × Wildcard)) → SectionEntries → Prop
  | passed {left : Nat} {inside : Stack} {reference : Reference} {finding : Finding}
      {entries : SectionEntries} :
    (context.resolve left inside (.reference .whole reference)).1 = .entries entries →
    finding.children = [(context.resolve left inside (.reference .whole reference)).2] →
    GivesSection context (left + 1) finding none entries
  | expanded {left : Nat} {inside : Stack} {space : Space} {wildcard : Wildcard}
      {finding : Finding} {entries : SectionEntries} :
    (context.expandEntries space wildcard (context.resolve left inside)).outcome =
      .entries entries →
    finding.children =
      (context.expandEntries space wildcard (context.resolve left inside)).children →
    GivesSection context (left + 1) finding (some (space.toNamespace, wildcard)) entries

theorem ComesToSection.givesSection {finding : Finding}
    (comes : context.ComesToSection room finding none entries) :
    context.GivesSection room finding none entries := by
  cases comes with
  | passed passes single => exact .passed passes single

/-- What is noted on a section does not change how it came about. -/
theorem GivesSection.after {finding : Finding} {section? : Option (Namespace × Wildcard)}
    (gives : context.GivesSection room finding section? entries) (issue : Issue) :
    context.GivesSection room (finding.after issue) section? entries := by
  cases gives with
  | passed passes single => exact .passed passes single
  | expanded expands children => exact .expanded expands children

theorem givesSection_expandSection
    (comesTo : (context.expandSection (context.inside? room) stack space wildcard).outcome =
      .entries entries) :
    context.GivesSection room (context.expandSection (context.inside? room) stack space wildcard)
      (some (space.toNamespace, wildcard)) entries := by
  rw [expandSection_eq] at comesTo ⊢
  cases opened : openFrame (context.inside? room) stack ⟨space, wildcard.path⟩ with
  | error issue =>
    rw [opened] at comesTo
    cases comesTo
  | ok answer =>
    rw [opened] at comesTo
    obtain ⟨-, left, rfl, rfl⟩ := exists_of_openFrame opened
    exact .expanded comesTo rfl

theorem givesSection_resolvePath {path : String}
    (comesTo : (context.resolvePath (context.inside? room) stack .whole space path).outcome =
      .entries entries) :
    context.GivesSection room (context.resolvePath (context.inside? room) stack .whole space path)
      (match Query.ofPath path with
        | .all wildcard => some (space.toNamespace, wildcard)
        | .key _ => none) entries := by
  rw [resolvePath] at comesTo ⊢
  cases query : Query.ofPath path with
  | key key =>
    simp only [query] at comesTo ⊢
    exact (comesToSection_resolveKey comesTo).givesSection
  | all wildcard =>
    simp only [query, resolveSection] at comesTo ⊢
    -- a bare star is noted or refused, and only the refusal leaves no section
    split at comesTo
    · next slash =>
      rw [if_pos slash]
      exact givesSection_expandSection comesTo
    · next bare =>
      rw [if_neg bare]
      split at comesTo
      · next allowed =>
        rw [if_pos allowed]
        exact (givesSection_expandSection comesTo).after _
      · cases comesTo

/-- A request that comes to a section passes it on or expands it, as its node tells. -/
theorem givesSection_findingOf
    (comesTo : (context.resolve room stack request).1 = .entries entries) :
    context.GivesSection room (context.findingOf (context.inside? room) stack request)
      (context.resolve room stack request).2.section? entries := by
  rw [resolve_eq] at comesTo ⊢
  have found := outcome_answer.symm.trans comesTo
  cases request with
  | entry space key suffix text => exact (comesToSection_entered rfl found).givesSection
  | reference placement reference =>
    cases placement with
    | embedded =>
      -- in the middle of a text a section is dropped
      obtain ⟨text, isText⟩ :=
        context.exists_text_resolveTarget (Target.ofReference stack.current reference)
      cases isText.symm.trans comesTo
    | whole =>
      obtain ⟨space, path, target⟩ := exists_of_entries_resolveTarget found
      have looksUp : (context.answer (context.inside? room) stack
          (.reference .whole reference)).2.section? =
          match Query.ofPath path with
          | .all wildcard => some (space.toNamespace, wildcard)
          | .key _ => none := by
        rw [answer_eq, Request.answerWith, found, target]
        rfl
      rw [looksUp]
      rw [findingOf, target] at found ⊢
      exact givesSection_resolvePath found

/-! ## Traces tell where nulls come from -/

/-- The traces of a resolution tell which nulls its sections have. -/
def TellsNull (context : Context) (room : Nat) (stack : Stack) : Prop :=
  ∀ request entries, (context.resolve room stack request).1 = .entries entries →
    ∀ name, (name, none) ∈ entries ↔ context.YieldsNull (context.resolve room stack request).2 name

/-- A matched key gives a null iff it holds null, or its text leads to a section with one. -/
theorem TellsNull.entry_iff (tells : context.TellsNull room stack)
    (entry : String × Option String) (suffix name : String) :
    let expanded := context.expandEntry (context.resolve room stack) space suffix entry
    (name, none) ∈ expanded.1 ↔ (entry.2 = none ∧ suffix = name) ∨
      (expanded.2.isExpansion = true ∧
        ∃ inner, context.YieldsNull expanded.2 inner ∧ joinSuffix suffix inner = name) := by
  obtain ⟨key, _ | text⟩ := entry
  · simp [expandEntry, Trace.isExpansion, eq_comm]
  · by_cases plain : Value.references (context.parse text) = []
    · simp [expandEntry, plain, Trace.isExpansion]
    · simp only [expandEntry, plain, if_false, Outcome.null_mem_entriesUnder_iff,
        isExpansion_resolve_entry, reduceCtorEq, false_and, false_or]
      constructor
      · rintro ⟨entries, comesTo, inner, member, joined⟩
        exact ⟨⟨entries, comesTo⟩, inner, (tells _ _ comesTo inner).1 member, joined⟩
      · rintro ⟨⟨entries, comesTo⟩, inner, yields, joined⟩
        exact ⟨entries, comesTo, inner, (tells _ _ comesTo inner).2 yields, joined⟩

theorem TellsNull.section_iff (tells : context.TellsNull room stack)
    (comesTo : (context.expandEntries space wildcard (context.resolve room stack)).outcome =
      .entries entries) (name : String) :
    (name, none) ∈ entries ↔
      (∃ key, (key, none) ∈ wildcard.entries (context.keys space) ∧ wildcard.suffix key = name) ∨
      ∃ entry ∈ (context.expandEntries space wildcard (context.resolve room stack)).children,
        entry.isExpansion = true ∧ ∃ inner, context.YieldsNull entry inner ∧
          joinSuffix (wildcard.suffix entry.key) inner = name := by
  cases comesTo
  simp only [expandEntries, List.mem_flatMap, List.mem_map]
  constructor
  · rintro ⟨_, ⟨entry, matched, rfl⟩, member⟩
    rcases (tells.entry_iff entry _ name).1 member with
      ⟨null, suffix⟩ | ⟨expanded, inner, yields, joined⟩
    · refine .inl ⟨entry.1, ?_, suffix⟩
      rw [← null]
      exact matched
    · refine .inr ⟨_, ⟨_, ⟨entry, matched, rfl⟩, rfl⟩, expanded, inner, yields, ?_⟩
      rw [key_expandEntry]
      exact joined
  · rintro (⟨key, matched, suffix⟩ |
      ⟨_, ⟨_, ⟨entry, matched, rfl⟩, rfl⟩, expanded, inner, yields, joined⟩)
    · exact ⟨_, ⟨_, matched, rfl⟩, (tells.entry_iff (key, none) _ name).2 (.inl ⟨rfl, suffix⟩)⟩
    · rw [key_expandEntry] at joined
      exact ⟨_, ⟨entry, matched, rfl⟩,
        (tells.entry_iff entry _ name).2 (.inr ⟨expanded, inner, yields, joined⟩)⟩

/-- One more frame: what is passed on is told below, and a section tells of its own entries. -/
theorem TellsNull.succ (tells : ∀ inside, context.TellsNull room inside) (stack : Stack) :
    context.TellsNull (room + 1) stack := by
  intro request entries comesTo name
  have finding := givesSection_findingOf comesTo
  have noValue : (context.resolve (room + 1) stack request).2.value = none := by
    rw [(context.faithful_resolve (room + 1) stack).value, comesTo]
    rfl
  have children : (context.resolve (room + 1) stack request).2.children =
      (context.findingOf (context.inside? (room + 1)) stack request).children := by
    rw [resolve_eq, children_answer]
  generalize context.findingOf (context.inside? (room + 1)) stack request = found at *
  generalize looksUp : (context.resolve (room + 1) stack request).2.section? = section? at *
  cases finding with
  | passed inner single =>
    rw [yieldsNull_iff_of_passed looksUp noValue (children.trans single)]
    exact tells _ _ _ inner name
  | @expanded _ inside space wildcard _ _ expands below =>
    rw [yieldsNull_iff_of_section looksUp, children, below]
    exact (tells inside).section_iff expands name

theorem tellsNull (context : Context) (room : Nat) (stack : Stack) :
    context.TellsNull room stack := by
  induction room generalizing stack with
  | zero =>
    -- without room no section is expanded
    intro request entries comesTo
    cases givesSection_findingOf comesTo
  | succ room ih => exact TellsNull.succ ih stack

/-- The nulls of a section that a text comes to are those that its one look-up tells of. -/
theorem exists_yieldsNull_resolveText {key text : String}
    (comesTo : (context.resolveText key text).outcome = .entries entries) :
    ∃ below, (context.resolveText key text).children = [below] ∧
      ∀ name, (name, none) ∈ entries ↔ context.YieldsNull below name := by
  obtain ⟨room, stack, request, passed, single⟩ := exists_of_entries_resolveText comesTo
  exact ⟨_, single, context.tellsNull room stack request entries passed⟩

/-- A reference to a key that holds null comes to an empty text, in any place and at any
depth. -/
theorem resolve_of_null {placement : Placement} {r : Reference} {key : String}
    (target : Target.ofReference stack.current r = .keys space key)
    (starless : key.toList.getLast? ≠ some '*')
    (null : (context.keys space).find? key = some none) :
    (context.resolve room stack (.reference placement r)).1 = .text "" := by
  rw [resolve_eq, outcome_answer, findingOf_of_key target starless, resolveKey, null]

/-! ## Compiled configurations -/

/-- A null that a key asks to write is its own or an entry of its section. -/
theorem null_mem_pairs {key path : String} {value : Option String}
    (null : (path, none) ∈ context.pairs key value) :
    (path = key ∧ value = none) ∨ ∃ text entries name, value = some text ∧
      (context.resolveText key text).outcome = .entries entries ∧ (name, none) ∈ entries ∧
      Draft.pathBelow key name = path := by
  cases value with
  | none =>
    cases List.mem_singleton.1 null
    exact .inl ⟨rfl, rfl⟩
  | some text =>
    by_cases plain : Value.references (context.parse text) = []
    · rw [pairs, if_pos plain] at null
      cases List.mem_singleton.1 null
    · rw [pairs, if_neg plain] at null
      cases comesTo : (context.resolveText key text).outcome with
      | text resolved =>
        rw [comesTo] at null
        cases List.mem_singleton.1 null
      | entries entries =>
        rw [comesTo] at null
        obtain ⟨⟨name, value⟩, member, same⟩ := List.mem_map.1 null
        cases same
        exact .inr ⟨text, entries, name, rfl, comesTo, member, rfl⟩

end Context

namespace Compiler

variable {compiler : Compiler} {environment : Environment} {template : Structure}
  {trace : Trace Issue} {path : String}

/-- A null at a path was written by a key that holds null itself, or by one whose text was
expanded, and then the trace tells of the null. -/
theorem exists_owner_of_null
    (null : (compiler.compile environment template).compiled.find? path = some none) :
    ∃ trace ∈ (compiler.compile environment template).trace, path ∈ trace.claims ∧
      ((trace.key = path ∧ template.keys.find? path = some none) ∨
        (trace.isExpansion = true ∧ ∃ below name, trace.children = [below] ∧
          Draft.pathBelow trace.key name = path ∧
          (compiler.context environment.keys template.vars).YieldsNull below name)) := by
  obtain ⟨trace, member, claimed⟩ := contains_compile_iff.1 (by rw [KeyMap.contains, null]; rfl)
  obtain ⟨value, atKey, accounts⟩ := accounts_of_mem_trace member
  refine ⟨trace, member, claimed, ?_⟩
  -- what stands at a path is the first that its owner asked to write there
  have asked := accounts.first path claimed
  rw [null, eq_comm, List.lookup_eq_some_iff] at asked
  obtain ⟨before, after, split, -⟩ := asked
  have asked : (path, none) ∈
      (compiler.context environment.keys template.vars).pairs trace.key value := by
    rw [split]
    exact List.mem_append_right _ List.mem_cons_self
  rcases Context.null_mem_pairs asked with
    ⟨rfl, rfl⟩ | ⟨text, entries, name, rfl, comesTo, inside, below⟩
  · exact .inl ⟨rfl, atKey⟩
  · have expanded := accounts.expansion.2 ⟨text, entries, rfl, comesTo⟩
    obtain ⟨text', -, atKey', -, children⟩ := exists_section_of_isExpansion member expanded
    cases atKey.symm.trans atKey'
    obtain ⟨child, single, yields⟩ := Context.exists_yieldsNull_resolveText comesTo
    exact .inr ⟨expanded, child, name, children.trans single, below, (yields name).1 inside⟩

/-- A key that holds null gets its path unless a collision is noted. -/
theorem claims_null_iff (member : trace ∈ (compiler.compile environment template).trace)
    (null : template.keys.find? trace.key = some none) :
    trace.key ∈ trace.claims ↔ .keyCollision trace.key ∉ trace.diagnostics.warnings := by
  obtain ⟨draft, isDraft, before, rfl, -⟩ := CompilationResult.exists_draft_of_mem_trace member
  obtain ⟨⟨key, value⟩, isEntry, rfl⟩ := List.mem_map.1 isDraft
  have own (written taken : List String) : (((compiler.context environment.keys
      template.vars).draft key value).trace written taken).key = key := Context.key_draft key value
  rw [own] at null ⊢
  cases (KeyMap.mem_entries_iff.1 isEntry).symm.trans null
  rw [Draft.claims_trace, Draft.warnings_trace]
  have single : ((compiler.context environment.keys template.vars).draft key none).writes =
      [(key, none)] := rfl
  by_cases taken : before.contains key = true
  · simp [single, ConfigMap.writeFree, taken]
  · simp [single, ConfigMap.writeFree, taken]

/-- A null at a path is written by the key of that path if no section gives a null. -/
theorem compiled_null_iff
    (noNulls : ∀ (space : Space) (key : String),
      ((compiler.context environment.keys template.vars).keys space).find? key ≠ some none) :
    (compiler.compile environment template).compiled.find? path = some none ↔
      template.keys.find? path = some none ∧
        ∀ trace ∈ (compiler.compile environment template).trace, trace.key = path →
          .keyCollision path ∉ trace.diagnostics.warnings := by
  constructor
  · intro null
    obtain ⟨trace, member, claimed, ⟨rfl, atKey⟩ | ⟨-, below, name, -, -, yields⟩⟩ :=
      exists_owner_of_null null
    · refine ⟨atKey, fun other isOther same => ?_⟩
      rw [eq_of_key_eq isOther member same]
      exact (claims_null_iff member atKey).1 claimed
    · obtain ⟨node, -, space, wildcard, key, -, holdsNull, -⟩ := yields.matchesNull
      exact absurd holdsNull (noNulls space key)
  · rintro ⟨atKey, quiet⟩
    have isKey : path ∈ (compiler.compile environment template).trace.map Trace.key := by
      rw [map_key_trace_compile, KeyMap.mem_keys_iff, KeyMap.contains, atKey]
      rfl
    obtain ⟨trace, member, rfl⟩ := List.mem_map.1 isKey
    obtain ⟨value, atKey', accounts⟩ := accounts_of_mem_trace member
    cases atKey.symm.trans atKey'
    have claimed := (claims_null_iff member atKey).2 (quiet trace member rfl)
    rw [accounts.first _ claimed, Context.pairs, KeyMap.lookup_cons, if_pos rfl]

/-- Only a text that came to a section is traced without a value, on the top and below. -/
theorem value_eq_none_iff_of_mem_trace
    (member : trace ∈ (compiler.compile environment template).trace) :
    let context := compiler.context environment.keys template.vars
    ((∀ value, trace.detail ≠ .value value) → (trace.value = none ↔
      ∃ text entries, template.keys.find? trace.key = some (some text) ∧
        (context.resolveText trace.key text).outcome = .entries entries)) ∧
    ∀ child ∈ trace.children, ∀ node ∈ child.preorder, (∀ value, node.detail ≠ .value value) →
      ∃ text, template.keys.find? trace.key = some (some text) ∧
        (node.value = none ↔ context.CameToSection trace.key text node) := by
  intro context
  obtain ⟨draft, isDraft, before, rfl, -⟩ := CompilationResult.exists_draft_of_mem_trace member
  obtain ⟨⟨key, value⟩, isEntry, rfl⟩ := List.mem_map.1 isDraft
  have recounts := context.recountsTop_draft (KeyMap.mem_entries_iff.1 isEntry)
    (before.writeFree (context.draft key value).writes).written
    (before.writeFree (context.draft key value).writes).taken
  generalize (context.draft key value).trace _ _ = trace at recounts member ⊢
  constructor
  · intro resolved
    cases detail : trace.detail with
    | value v => exact absurd detail (resolved v)
    | key reference space v =>
      have notLookup := recounts.notLookup
      rw [Trace.isLookup, detail] at notLookup
      cases notLookup
    | multi raw v expanded =>
      obtain ⟨text, -, atKey, -, noValue⟩ := recounts.text raw v expanded detail
      rw [Trace.value, detail]
      refine noValue.trans ⟨fun comesTo => ⟨text, comesTo.elim fun entries comesTo =>
        ⟨entries, atKey, comesTo⟩⟩, ?_⟩
      rintro ⟨text', entries, atKey', comesTo⟩
      cases atKey.symm.trans atKey'
      exact ⟨entries, comesTo⟩
  · intro child isChild node below resolved
    obtain ⟨text, atKey, inner⟩ := recounts.below child isChild node below
    exact ⟨text, atKey, inner.toSection resolved⟩

/-- Nulls are handed on by sections only. A reference to a key that holds null comes to an empty
text. A text comes to a text or to a section, whose nulls are those that the trace tells of, each
from a key that holds null and was matched by a section on the way. So a compiled null is written
by a structure key that holds null itself, or by one whose text was expanded. On the trace no value
stands where a text or a reference came to a section, and nowhere else. If no key that can be
referred to holds null, the compiled nulls are those of the structure that lost no collision. -/
theorem compile_nulls (compiler : Compiler) (environment : Environment) (template : Structure) :
    (∀ (context : Context) (key text : String),
      (∃ resolved, (context.resolveText key text).outcome = .text resolved) ∨
      ∃ entries below, (context.resolveText key text).outcome = .entries entries ∧
        (context.resolveText key text).children = [below] ∧
        ∀ name, ((name, none) ∈ entries ↔ context.YieldsNull below name) ∧
          (context.YieldsNull below name → context.MatchesNull below)) ∧
    (∀ (context : Context) (room : Nat) (stack : Stack) (placement : Placement) (r : Reference)
        (space : Space) (key : String), Target.ofReference stack.current r = .keys space key →
      key.toList.getLast? ≠ some '*' → (context.keys space).find? key = some none →
      (context.resolve room stack (.reference placement r)).1 = .text "") ∧
    let context := compiler.context environment.keys template.vars
    let result := compiler.compile environment template
    (∀ path, result.compiled.find? path = some none →
      ∃ trace ∈ result.trace, path ∈ trace.claims ∧
        ((trace.key = path ∧ template.keys.find? path = some none) ∨
          (trace.isExpansion = true ∧ ∃ below name, trace.children = [below] ∧
            Draft.pathBelow trace.key name = path ∧ context.YieldsNull below name))) ∧
    (∀ trace ∈ result.trace,
      ((∀ value, trace.detail ≠ .value value) → (trace.value = none ↔
        ∃ text entries, template.keys.find? trace.key = some (some text) ∧
          (context.resolveText trace.key text).outcome = .entries entries)) ∧
      ∀ child ∈ trace.children, ∀ node ∈ child.preorder, (∀ value, node.detail ≠ .value value) →
        ∃ text, template.keys.find? trace.key = some (some text) ∧
          (node.value = none ↔ context.CameToSection trace.key text node)) ∧
    ((∀ (space : Space) (key : String), (context.keys space).find? key ≠ some none) →
      ∀ path, result.compiled.find? path = some none ↔
        template.keys.find? path = some none ∧
          ∀ trace ∈ result.trace, trace.key = path →
            .keyCollision path ∉ trace.diagnostics.warnings) := by
  refine ⟨fun context key text => ?_, fun context room stack placement r space key => ?_,
    fun path null => exists_owner_of_null null,
    fun trace member => value_eq_none_iff_of_mem_trace member,
    fun noNulls path => compiled_null_iff noNulls⟩
  · cases comesTo : (context.resolveText key text).outcome with
    | text resolved => exact .inl ⟨resolved, rfl⟩
    | entries entries =>
      obtain ⟨below, single, yields⟩ := Context.exists_yieldsNull_resolveText comesTo
      exact .inr ⟨entries, below, rfl, single, fun name =>
        ⟨yields name, fun yields => yields.matchesNull⟩⟩
  · exact Context.resolve_of_null

/-- An environment in which a section holds a null that another section leads to. -/
def nullLayer : Environment where
  name := "dev"
  keys := .ofList [("c", some "{{s/a}}"), ("s/a", none), ("t/b", some "{{s/*}}")]

/-- A structure with a null, a reference to a null and a section with one. -/
def nullUser : Structure where
  name := "app"
  keys := .ofList [("K", some "{{t/*}}"), ("L", some "{{c}}"), ("M", none)]

/-- The null at `K/b/a` went through two sections, while the same null reads as an empty text at
`L`. Without the environment only the null of the structure is left. -/
theorem compile_nulls_nested :
    (({} : Compiler).compile nullLayer nullUser).compiled.find? "L" = some (some "") ∧
      (∃ trace ∈ (({} : Compiler).compile nullLayer nullUser).trace,
        trace.isExpansion = true ∧ ∃ below name, trace.children = [below] ∧
          Draft.pathBelow trace.key name = "K/b/a" ∧
          (({} : Compiler).context nullLayer.keys nullUser.vars).YieldsNull below name) ∧
      (({} : Compiler).compile { name := "none" } nullUser).compiled.find? "M" = some none := by
  obtain ⟨-, -, owners, -, -⟩ := compile_nulls {} nullLayer nullUser
  obtain ⟨-, -, -, -, noNulls⟩ := compile_nulls {} { name := "none" } nullUser
  refine ⟨by decide +kernel, ?_, ?_⟩
  · obtain ⟨trace, member, -, ⟨-, atKey⟩ | expanded⟩ := owners "K/b/a" (by decide +kernel)
    · have missing : nullUser.keys.find? "K/b/a" = none := by decide +kernel
      rw [missing] at atKey
      cases atKey
    · exact ⟨trace, member, expanded⟩
  · refine (noNulls ?_ "M").2 ⟨by decide +kernel, by decide +kernel⟩
    intro space key
    cases space <;> exact nofun

end Compiler

end LayeredConfig
