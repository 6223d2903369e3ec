import Mathlib.Data.List.Lattice
import Mathlib.Data.List.Pairwise
import LayeredConfig.Proofs.Compilation.Layering
import LayeredConfig.Proofs.Compilation.Provenance
import LayeredConfig.Proofs.Resolution.Enumeration
import LayeredConfig.Proofs.Resolution.Replay

/-!
# A section takes the place of its key

A key whose text stands for a section is replaced by the paths below it. Only an entry
without a name would stand at the key itself. A section names its entries by what follows
the slash of its prefix, and joined names are empty only if all of them are, so such an entry
comes from a key that is the prefix with a slash and nothing behind it.

## Main definitions

* `Trace.sectionStem?` — the prefix of the section that was looked up
* `Trace.Unnamed` — an entry of the section that a trace tells about has no name
* `Context.ComesToSection` — the two ways in which a finding comes to a section

## Main results

* `Context.comesToSection_findingOf` — every section comes about in one of the two ways
* `Context.unnamed_resolve_iff` — the trace tells whether an entry has no name
* `Compiler.compile_keepsKey_iff` — when a key is not replaced by its section
-/

namespace LayeredConfig

/-! ## Names inside a section -/

theorem joinSuffix_eq_empty_iff {outer inner : String} :
    joinSuffix outer inner = "" ↔ outer = "" ∧ inner = "" := by
  unfold joinSuffix
  split
  · next empty => simp only [empty, true_and]
  · next named =>
    split
    · next empty => simp only [named, false_and]
    · simp only [String.append_eq_empty_iff, named, false_and]

/-- An outcome gives an entry without a name only under no name itself. -/
theorem Outcome.empty_mem_entriesUnder_iff {name : String} {outcome : Outcome} :
    "" ∈ (outcome.entriesUnder name).map Prod.fst ↔
      name = "" ∧ ∀ entries, outcome = .entries entries → "" ∈ entries.map Prod.fst := by
  cases outcome with
  | text text =>
    constructor
    · intro member
      exact ⟨(List.mem_singleton.1 member).symm, fun _ => nofun⟩
    · rintro ⟨rfl, -⟩
      exact List.mem_singleton_self _
  | entries entries =>
    constructor
    · intro member
      simp only [entriesUnder, List.map_map, List.mem_map] at member
      obtain ⟨entry, member, joined⟩ := member
      obtain ⟨outer, inner⟩ := joinSuffix_eq_empty_iff.1 joined
      refine ⟨outer, fun entries' same => ?_⟩
      cases same
      exact List.mem_map.2 ⟨entry, member, inner⟩
    · rintro ⟨rfl, inside⟩
      obtain ⟨entry, member, inner⟩ := List.mem_map.1 (inside entries rfl)
      simp only [entriesUnder, List.map_map, List.mem_map]
      exact ⟨entry, member, joinSuffix_eq_empty_iff.2 ⟨rfl, inner⟩⟩

/-- Of the keys of a section only the prefix with its slash has no name there. -/
theorem Wildcard.suffix_eq_empty_iff {α : Type} {stem : String} {map : KeyMap α}
    {entry : String × α} (member : entry ∈ (⟨stem, false⟩ : Wildcard).entries map) :
    (⟨stem, false⟩ : Wildcard).suffix entry.1 = "" ↔ entry.1 = stem ++ "/" := by
  have begins := (Wildcard.mem_entries_iff.1 member).2
  -- the empty name is the one that leaves nothing behind the slash
  rw [eq_comm, ← Wildcard.names_iff_eq_suffix begins, Wildcard.Names]
  simp

/-! ## Entries without a name on a trace -/

/-- The prefix of a section whose star has its slash. -/
def Query.stem? : Query → Option String
  | .all ⟨stem, false⟩ => some stem
  | _ => none

namespace Trace

variable {δ : Type} {node below : Trace δ} {stem : String}

/-- The prefix of the section that a node looked up and expanded, unless the slash is missing
in front of its star. -/
def sectionStem? (node : Trace δ) : Option String :=
  match node.detail with
  | .key _ _ none => (Query.ofPath node.key).stem?
  | _ => none

/-- An entry of the section that a trace tells about has no name. -/
inductive Unnamed : Trace δ → Prop
  /-- A text that is one reference passes on the section that the reference leads to. -/
  | passed {node below : Trace δ} : node.sectionStem? = none → node.value = none →
    node.children = [below] → Unnamed below → Unnamed node
  /-- The section matches its prefix with the slash, which stands for one entry or for a
  section in which again an entry has no name. -/
  | matched {node entry : Trace δ} {stem : String} : node.sectionStem? = some stem →
    entry ∈ node.children → entry.key = stem ++ "/" →
    (entry.isExpansion = true → Unnamed entry) → Unnamed node

theorem sectionStem?_of_isExpansion (expanded : node.isExpansion = true) :
    node.sectionStem? = none := by
  unfold isExpansion at expanded
  unfold sectionStem?
  split at expanded
  · next detail => rw [detail]
  · cases expanded

theorem value_of_isExpansion (expanded : node.isExpansion = true) : node.value = none := by
  unfold isExpansion at expanded
  unfold value
  split at expanded
  · next detail => rw [detail]
  · cases expanded

theorem unnamed_iff_of_passed (passes : node.sectionStem? = none) (noValue : node.value = none)
    (single : node.children = [below]) : node.Unnamed ↔ below.Unnamed := by
  constructor
  · intro unnamed
    cases unnamed with
    | passed _ _ children unnamed =>
      rw [single] at children
      cases children
      exact unnamed
    | matched looksUp =>
      rw [passes] at looksUp
      cases looksUp
  · exact .passed passes noValue single

theorem unnamed_iff_of_section (looksUp : node.sectionStem? = some stem) :
    node.Unnamed ↔ ∃ entry ∈ node.children, entry.key = stem ++ "/" ∧
      (entry.isExpansion = true → entry.Unnamed) := by
  constructor
  · intro unnamed
    cases unnamed with
    | passed passes =>
      rw [looksUp] at passes
      cases passes
    | matched same member key deeper =>
      cases looksUp.symm.trans same
      exact ⟨_, member, key, deeper⟩
  · rintro ⟨entry, member, key, deeper⟩
    exact .matched looksUp member key deeper

end Trace

/-! ## Resolution -/

theorem exists_of_entries_resolveParts {answer : Answerer} {parts : List Part}
    {entries : SectionEntries} (comesTo : (resolveParts answer parts).outcome = .entries entries) :
    ∃ reference, (answer (.reference .whole reference)).1 = .entries entries ∧
      (resolveParts answer parts).children = [(answer (.reference .whole reference)).2] := by
  rcases single_or_joined parts with ⟨reference, rfl⟩ | ⟨-, joined⟩
  · exact ⟨reference, comesTo, rfl⟩
  · rw [joined] at comesTo
    cases comesTo

namespace Context

variable {context : Context} {room : Nat} {stack : Stack} {request : Request} {space : Space}
  {entries : SectionEntries}

/-- How a finding comes to a section where every star needs its slash. Either it passes on what
the one reference of a text comes to, or it expands the section of a prefix. -/
inductive ComesToSection (context : Context) :
    (room : Nat) → Finding → (stem? : Option String) → SectionEntries → Prop
  | passed {left : Nat} {inside : Stack} {reference : Reference} {finding : Finding}
      {entries : SectionEntries} :
    (context.resolve left inside (.reference .whole reference)).1 = .entries entries →
    finding.children = [(context.resolve left inside (.reference .whole reference)).2] →
    ComesToSection context (left + 1) finding none entries
  | expanded {left : Nat} {inside : Stack} {space : Space} {stem : String}
      {entries : SectionEntries} :
    (context.expandEntries space ⟨stem, false⟩ (context.resolve left inside)).outcome =
      .entries entries →
    ComesToSection context (left + 1)
      (context.expandEntries space ⟨stem, false⟩ (context.resolve left inside)) (some stem) entries

/-- A text that is entered passes its section on. -/
theorem comesToSection_entered {frame : Frame} {parts : List Part} {finding : Finding}
    (entered : finding = match openFrame (context.inside? room) stack frame with
      | .error issue => Finding.fault issue
      | .ok answer => resolveParts answer parts)
    (comesTo : finding.outcome = .entries entries) :
    context.ComesToSection room finding none entries := by
  cases opened : openFrame (context.inside? room) stack frame with
  | error issue =>
    rw [entered, opened] at comesTo
    cases comesTo
  | ok answer =>
    rw [opened] at entered
    obtain ⟨-, left, rfl, rfl⟩ := exists_of_openFrame opened
    subst entered
    obtain ⟨reference, passed, single⟩ := exists_of_entries_resolveParts comesTo
    exact .passed passed single

theorem comesToSection_resolveKey {key : String}
    (comesTo : (context.resolveKey (context.inside? room) stack .whole space key).outcome =
      .entries entries) :
    context.ComesToSection room
      (context.resolveKey (context.inside? room) stack .whole space key) none entries := by
  cases found : (context.keys space).find? key with
  | none =>
    simp only [resolveKey, found] at comesTo
    cases comesTo
  | some value =>
    cases value with
    | none =>
      simp only [resolveKey, found] at comesTo
      cases comesTo
    | some text =>
      -- a null and a text without references come to a text
      by_cases plain : Value.references (context.parse text) = []
      · simp only [resolveKey, found, plain, if_true] at comesTo
        cases comesTo
      · have entered : context.resolveKey (context.inside? room) stack .whole space key =
            match openFrame (context.inside? room) stack ⟨space, key⟩ with
            | .error issue => .fault issue
            | .ok answer => resolveParts answer (context.parse text) :=
          resolveKey_of_references found plain
        exact comesToSection_entered entered comesTo

theorem comesToSection_resolvePath (strict : context.settings.legacyWildcard = false)
    {path : String}
    (comesTo : (context.resolvePath (context.inside? room) stack .whole space path).outcome =
      .entries entries) :
    context.ComesToSection room
      (context.resolvePath (context.inside? room) stack .whole space path)
      (Query.ofPath path).stem? entries := by
  rw [resolvePath] at comesTo ⊢
  generalize Query.ofPath path = query at comesTo ⊢
  rcases query with key | ⟨stem, _ | _⟩
  · exact comesToSection_resolveKey comesTo
  · -- the star has its slash, so the section is expanded unless its frame is refused
    simp only [Bool.not_false, if_true, resolveSection, expandSection_eq] at comesTo ⊢
    cases opened : openFrame (context.inside? room) stack
        ⟨space, Wildcard.path ⟨stem, false⟩⟩ with
    | error issue =>
      rw [opened] at comesTo
      cases comesTo
    | ok answer =>
      rw [opened] at comesTo
      obtain ⟨-, left, rfl, rfl⟩ := exists_of_openFrame opened
      exact .expanded comesTo
  · -- a bare star is refused by the settings
    simp only [strict, Bool.not_true, Bool.false_eq_true, if_false] at comesTo
    cases comesTo

/-- Only a path of a map leads to a section. -/
theorem exists_of_entries_resolveTarget {inside? : Option (Stack → Answerer)}
    {placement : Placement} {target : Target}
    (comesTo : (context.resolveTarget inside? stack placement target).outcome =
      .entries entries) : ∃ space path, target = .keys space path := by
  cases target with
  | keys space path => exact ⟨space, path, rfl⟩
  | secret path =>
    rw [resolveTarget, resolveSecret] at comesTo
    split at comesTo
    · cases comesTo
    · split at comesTo <;> cases comesTo
  | unknown name path source => cases comesTo
  | nowhere source => cases comesTo

/-- A request that comes to a section passes it on or expands it, as its node tells. -/
theorem comesToSection_findingOf (strict : context.settings.legacyWildcard = false)
    (comesTo : (context.resolve room stack request).1 = .entries entries) :
    context.ComesToSection room (context.findingOf (context.inside? room) stack request)
      (context.resolve room stack request).2.sectionStem? entries := by
  rw [resolve_eq] at comesTo ⊢
  have found := outcome_answer.symm.trans comesTo
  cases request with
  | entry space key suffix text => exact comesToSection_entered rfl found
  | reference placement reference =>
    cases placement with
    | embedded =>
      -- in the middle of a text a section is dropped
      obtain ⟨text, isText⟩ :=
        context.exists_text_resolveTarget (Target.ofReference stack.current reference)
      cases isText.symm.trans comesTo
    | whole =>
      obtain ⟨space, path, target⟩ := exists_of_entries_resolveTarget found
      have stem : (context.answer (context.inside? room) stack
          (.reference .whole reference)).2.sectionStem? = (Query.ofPath path).stem? := by
        rw [answer_eq, Request.answerWith, found, target]
        rfl
      rw [stem]
      rw [findingOf, target] at found ⊢
      exact comesToSection_resolvePath strict found

theorem isExpansion_resolve_entry {key suffix text : String} :
    (context.resolve room stack (.entry space key suffix text)).2.isExpansion = true ↔
      ∃ entries, (context.resolve room stack (.entry space key suffix text)).1 =
        .entries entries := by
  rw [resolve_eq, answer_eq, Request.answerWith]
  cases (context.findingOf (context.inside? room) stack (.entry space key suffix text)).outcome with
  | text text => exact iff_of_false nofun nofun
  | entries entries => exact iff_of_true rfl ⟨entries, rfl⟩

/-- The traces of a resolution tell which of its sections have an entry without a name. -/
def TellsUnnamed (context : Context) (room : Nat) (stack : Stack) : Prop :=
  ∀ request entries, (context.resolve room stack request).1 = .entries entries →
    ("" ∈ entries.map Prod.fst ↔ (context.resolve room stack request).2.Unnamed)

/-- A matched key gives an entry without a name iff it is the prefix with its slash, and in the
section that it leads to, if any, again an entry has no name. -/
theorem TellsUnnamed.entry_iff (tells : context.TellsUnnamed room stack) {stem : String}
    {entry : String × Option String}
    (member : entry ∈ (⟨stem, false⟩ : Wildcard).entries (context.keys space)) :
    let expanded := context.expandEntry (context.resolve room stack) space
      ((⟨stem, false⟩ : Wildcard).suffix entry.1) entry
    "" ∈ expanded.1.map Prod.fst ↔
      expanded.2.key = stem ++ "/" ∧ (expanded.2.isExpansion = true → expanded.2.Unnamed) := by
  have unnamed := Wildcard.suffix_eq_empty_iff member
  have taken (value : Option String) :
      "" ∈ [((⟨stem, false⟩ : Wildcard).suffix entry.1, value)].map Prod.fst ↔
        entry.1 = stem ++ "/" := by
    rw [List.map_cons, List.map_nil, List.mem_singleton, eq_comm, unnamed]
  have notExpanded {below : Prop} : false = true → below :=
    fun expanded => (Bool.false_ne_true expanded).elim
  obtain ⟨key, _ | text⟩ := entry
  · exact (taken none).trans (and_iff_left notExpanded).symm
  · by_cases plain : Value.references (context.parse text) = []
    · simp only [expandEntry, plain, if_true]
      exact (taken (some text)).trans (and_iff_left notExpanded).symm
    · simp only [expandEntry, plain, if_false, Outcome.empty_mem_entriesUnder_iff, unnamed,
        key_resolve_entry, isExpansion_resolve_entry]
      refine and_congr_right fun _ => ⟨?_, ?_⟩
      · rintro inside ⟨entries, comesTo⟩
        exact (tells _ entries comesTo).1 (inside entries comesTo)
      · intro below entries comesTo
        exact (tells _ entries comesTo).2 (below ⟨entries, comesTo⟩)

theorem TellsUnnamed.section_iff (tells : context.TellsUnnamed room stack) {stem : String}
    (comesTo : (context.expandEntries space ⟨stem, false⟩ (context.resolve room stack)).outcome =
      .entries entries) :
    "" ∈ entries.map Prod.fst ↔
      ∃ entry ∈ (context.expandEntries space ⟨stem, false⟩ (context.resolve room stack)).children,
        entry.key = stem ++ "/" ∧ (entry.isExpansion = true → entry.Unnamed) := by
  cases comesTo
  rw [List.map_flatMap, List.mem_flatMap]
  constructor
  · rintro ⟨expanded, member, unnamed⟩
    obtain ⟨entry, matched, rfl⟩ := List.mem_map.1 member
    exact ⟨_, List.mem_map_of_mem member, (tells.entry_iff matched).1 unnamed⟩
  · rintro ⟨child, isChild, unnamed⟩
    obtain ⟨expanded, member, rfl⟩ := List.mem_map.1 isChild
    obtain ⟨entry, matched, rfl⟩ := List.mem_map.1 member
    exact ⟨_, member, (tells.entry_iff matched).2 unnamed⟩

/-- One more frame: what is passed on is told below, and a section tells of its own entries. -/
theorem TellsUnnamed.succ (strict : context.settings.legacyWildcard = false)
    (tells : ∀ inside, context.TellsUnnamed room inside) (stack : Stack) :
    context.TellsUnnamed (room + 1) stack := by
  intro request entries comesTo
  have finding := comesToSection_findingOf strict comesTo
  have noValue : (context.resolve (room + 1) stack request).2.value = none := by
    rw [(context.faithful_resolve (room + 1) stack).value, comesTo]
    rfl
  have children : (context.resolve (room + 1) stack request).2.children =
      (context.findingOf (context.inside? (room + 1)) stack request).children := by
    rw [resolve_eq, children_answer]
  generalize context.findingOf (context.inside? (room + 1)) stack request = found at *
  generalize stem? : (context.resolve (room + 1) stack request).2.sectionStem? = stem at *
  cases finding with
  | passed inner single =>
    rw [Trace.unnamed_iff_of_passed stem? noValue (children.trans single)]
    exact tells _ _ _ inner
  | @expanded _ inside space stem _ expands =>
    rw [Trace.unnamed_iff_of_section stem?, children]
    exact (tells inside).section_iff expands

theorem tellsUnnamed (strict : context.settings.legacyWildcard = false) (room : Nat)
    (stack : Stack) : context.TellsUnnamed room stack := by
  induction room generalizing stack with
  | zero =>
    -- without room no section is expanded
    intro request entries comesTo
    cases comesToSection_findingOf strict comesTo
  | succ room ih => exact TellsUnnamed.succ strict ih stack

/-- Where a star needs its slash, an entry of a section has no name iff the trace tells so. -/
theorem unnamed_resolve_iff (strict : context.settings.legacyWildcard = false)
    (comesTo : (context.resolve room stack request).1 = .entries entries) :
    (context.resolve room stack request).2.Unnamed ↔ "" ∈ entries.map Prod.fst :=
  (tellsUnnamed strict room stack request entries comesTo).symm

/-- An entry has no name only where some key is a prefix with its slash and nothing behind. -/
theorem exists_key_of_unnamed (strict : context.settings.legacyWildcard = false)
    (comesTo : (context.resolve room stack request).1 = .entries entries)
    (unnamed : (context.resolve room stack request).2.Unnamed) :
    ∃ space stem, (context.keys space).contains (stem ++ "/") = true := by
  have member := (unnamed_resolve_iff strict comesTo).1 unnamed
  clear unnamed
  induction room generalizing stack request with
  | zero => cases comesToSection_findingOf strict comesTo
  | succ room ih =>
    have finding := comesToSection_findingOf strict comesTo
    generalize context.findingOf (context.inside? (room + 1)) stack request = found at finding
    generalize (context.resolve (room + 1) stack request).2.sectionStem? = stem at finding
    cases finding with
    | passed inner => exact ih inner
    | @expanded _ inside space stem _ expands =>
      obtain ⟨child, isChild, key, -⟩ :=
        ((tellsUnnamed strict room inside).section_iff expands).1 member
      simp only [expandEntries, List.map_map, List.mem_map] at isChild
      obtain ⟨entry, matched, rfl⟩ := isChild
      rw [Function.comp_apply, key_expandEntry] at key
      refine ⟨space, stem, ?_⟩
      rw [← key, ← KeyMap.mem_keys_iff]
      exact List.mem_map_of_mem (Wildcard.mem_entries_iff.1 matched).1

/-- The text of a structure key passes on the section that its one reference comes to. -/
theorem exists_of_entries_resolveText {key text : String}
    (comesTo : (context.resolveText key text).outcome = .entries entries) :
    ∃ room stack request, (context.resolve room stack request).1 = .entries entries ∧
      (context.resolveText key text).children = [(context.resolve room stack request).2] := by
  obtain ⟨reference, passed, single⟩ := exists_of_entries_resolveParts comesTo
  exact ⟨_, _, _, passed, single⟩

end Context

/-! ## Compiled configurations -/

theorem Outcome.mem_writesAt_iff {key : String} {entries : SectionEntries} :
    key ∈ ((Outcome.entries entries).writesAt key).map Prod.fst ↔
      "" ∈ entries.map Prod.fst := by
  rw [← ConfigMap.isSome_lookup_iff, Outcome.lookup_writesAt, Outcome.own,
    ConfigMap.isSome_lookup_iff]

namespace Compiler

variable {compiler : Compiler} {environment : Environment} {template : Structure}
  {trace : Trace Issue}

/-- A path is compiled iff some key got it. -/
theorem contains_compile_iff {path : String} :
    (compiler.compile environment template).compiled.contains path = true ↔
      ∃ owner ∈ (compiler.compile environment template).trace, path ∈ owner.claims := by
  rw [← List.mem_flatMap, compile, CompilationResult.claims_ofDrafts, ConfigMap.mem_written_iff,
    KeyMap.contains, ← compile, find?_compile, ConfigMap.isSome_lookup_iff]
  exact (and_iff_left rfl).symm

theorem contains_of_mem_pairs {key path : String} {value : Option String}
    (atKey : template.keys.find? key = some value)
    (asked : path ∈ ((compiler.context environment.keys template.vars).pairs key value).map
      Prod.fst) :
    (compiler.compile environment template).compiled.contains path = true := by
  rw [KeyMap.contains, find?_compile, ConfigMap.isSome_lookup_iff, Draft.allWrites,
    List.map_flatMap, List.mem_flatMap]
  refine ⟨_, List.mem_map_of_mem (KeyMap.mem_entries_iff.2 atKey), ?_⟩
  rw [Context.writes_draft]
  exact asked

/-- No path is got by two keys. -/
theorem eq_of_mem_claims {path : String} {owner other : Trace Issue}
    (isOwner : owner ∈ (compiler.compile environment template).trace)
    (isOther : other ∈ (compiler.compile environment template).trace)
    (owns : path ∈ owner.claims) (claims : path ∈ other.claims) : owner = other := by
  have nodup : ((compiler.compile environment template).trace.flatMap Trace.claims).Nodup := by
    rw [compile, CompilationResult.claims_ofDrafts]
    exact ConfigMap.nodup_written _ _
  have symm : Std.Symm (Function.onFun List.Disjoint (@Trace.claims Issue)) :=
    ⟨fun _ _ => List.Disjoint.symm⟩
  by_contra different
  exact (List.nodup_flatMap.1 nodup).2.forall isOwner isOther different owns claims

theorem eq_of_key_eq {other : Trace Issue}
    (member : trace ∈ (compiler.compile environment template).trace)
    (isOther : other ∈ (compiler.compile environment template).trace)
    (same : trace.key = other.key) : trace = other := by
  have nodup : ((compiler.compile environment template).trace.map Trace.key).Nodup := by
    rw [map_key_trace_compile]
    exact template.keys.nodup_keys
  exact List.inj_on_of_nodup_map nodup member isOther same

/-- The text of a key that was expanded comes to a section, whose look-ups are its children. -/
theorem exists_section_of_isExpansion
    (member : trace ∈ (compiler.compile environment template).trace)
    (expanded : trace.isExpansion = true) :
    let context := compiler.context environment.keys template.vars
    ∃ text entries, template.keys.find? trace.key = some (some text) ∧
      (context.resolveText trace.key text).outcome = .entries entries ∧
      trace.children = (context.resolveText trace.key text).children := by
  intro context
  obtain ⟨draft, isDraft, before, rfl, -⟩ := CompilationResult.exists_draft_of_mem_trace member
  obtain ⟨⟨key, value⟩, isEntry, rfl⟩ := List.mem_map.1 isDraft
  obtain ⟨text, entries, rfl, comesTo⟩ := (Context.isExpansion_trace_iff _ _ _ _ _).1 expanded
  have own : ((context.draft key (some text)).trace
      (before.writeFree (context.draft key (some text)).writes).written
      (before.writeFree (context.draft key (some text)).writes).taken).key = key :=
    Context.key_draft key (some text)
  rw [own]
  exact ⟨text, entries, KeyMap.mem_entries_iff.1 isEntry, comesTo,
    context.children_draft key text⟩

/-- Where a star needs its slash, a key that was expanded gets its own path iff an entry of its
section has no name and no other key gets the path, and its path is compiled iff an entry has no
name or another key gets the path. An entry has no name only where some key is a prefix with its
slash and nothing behind. -/
theorem compile_keepsKey_iff (strict : compiler.settings.legacyWildcard = false)
    (member : trace ∈ (compiler.compile environment template).trace)
    (expanded : trace.isExpansion = true) :
    let context := compiler.context environment.keys template.vars
    let result := compiler.compile environment template
    (trace.key ∈ trace.claims ↔
      trace.Unnamed ∧ ∀ other ∈ result.trace, other.key ≠ trace.key → trace.key ∉ other.claims) ∧
    (result.compiled.contains trace.key = true ↔
      trace.Unnamed ∨ ∃ other ∈ result.trace, other.key ≠ trace.key ∧ trace.key ∈ other.claims) ∧
    (trace.Unnamed → ∃ space stem, (context.keys space).contains (stem ++ "/") = true) := by
  intro context result
  obtain ⟨text, entries, atKey, comesTo, children⟩ := exists_section_of_isExpansion member expanded
  obtain ⟨room, stack, request, passed, single⟩ := Context.exists_of_entries_resolveText comesTo
  -- the trace of the key tells what the one look-up of its text tells
  have unnamed : trace.Unnamed ↔ (context.resolve room stack request).2.Unnamed :=
    Trace.unnamed_iff_of_passed (Trace.sectionStem?_of_isExpansion expanded)
      (Trace.value_of_isExpansion expanded) (children.trans single)
  have asked : trace.key ∈ (context.pairs trace.key (some text)).map Prod.fst ↔ trace.Unnamed := by
    have references := Context.references_ne_nil_of_entries comesTo
    rw [Context.pairs, if_neg references, comesTo, Outcome.mem_writesAt_iff, unnamed,
      Context.unnamed_resolve_iff strict passed]
  have own : trace.key ∈ trace.claims → trace.Unnamed := by
    intro claimed
    obtain ⟨value, atKey', accounts⟩ := accounts_of_mem_trace member
    cases atKey.symm.trans atKey'
    have found := contains_compile_iff.2 ⟨trace, member, claimed⟩
    rw [KeyMap.contains, accounts.first _ claimed, ConfigMap.isSome_lookup_iff] at found
    exact asked.1 found
  have compiled : trace.Unnamed → result.compiled.contains trace.key = true :=
    fun noName => contains_of_mem_pairs atKey (asked.2 noName)
  refine ⟨⟨fun claimed => ⟨own claimed, ?_⟩, ?_⟩, ⟨?_, ?_⟩, ?_⟩
  · intro other isOther different claims
    exact different (congrArg Trace.key (eq_of_mem_claims isOther member claims claimed))
  · rintro ⟨noName, alone⟩
    obtain ⟨owner, isOwner, owns⟩ := contains_compile_iff.1 (compiled noName)
    have same : owner.key = trace.key := by
      by_contra different
      exact alone owner isOwner different owns
    exact eq_of_key_eq isOwner member same ▸ owns
  · intro found
    obtain ⟨owner, isOwner, owns⟩ := contains_compile_iff.1 found
    by_cases same : owner.key = trace.key
    · rw [eq_of_key_eq isOwner member same] at owns
      exact .inl (own owns)
    · exact .inr ⟨owner, isOwner, same, owns⟩
  · rintro (noName | ⟨other, isOther, -, claims⟩)
    · exact compiled noName
    · exact contains_compile_iff.2 ⟨other, isOther, claims⟩
  · exact fun noName => Context.exists_key_of_unnamed strict passed (unnamed.1 noName)

/-- A compiler for which a star needs its slash. -/
def slashed : Compiler where
  settings := { legacyWildcard := false }

/-- A structure with a key that stands for a section. -/
def expandedUser : Structure := { name := "app", keys := .ofPairs [("K", "{{a/*}}")] }

/-- A section takes the place of its key where no key ends in a slash. -/
theorem compile_keepsKey_named :
    let result := slashed.compile { name := "dev", keys := .ofPairs [("a/b", "y")] } expandedUser
    slashed.settings.legacyWildcard = false ∧
    ∃ trace ∈ result.trace, trace.isExpansion = true ∧ trace.key = "K" ∧
      trace.key ∉ trace.claims ∧ result.compiled.contains trace.key = false := by
  intro result
  obtain ⟨trace, member⟩ := List.exists_mem_of_ne_nil result.trace (by decide +kernel)
  have expands : ∀ trace ∈ result.trace, trace.isExpansion = true ∧ trace.key = "K" := by
    decide +kernel
  have alone : ∀ trace ∈ result.trace, ¬ ∃ other ∈ result.trace,
      other.key ≠ trace.key ∧ trace.key ∈ other.claims := by decide +kernel
  obtain ⟨expanded, key⟩ := expands trace member
  obtain ⟨claimed, compiled, slash⟩ :=
    compile_keepsKey_iff (show slashed.settings.legacyWildcard = false from rfl) member expanded
  have named : ¬ trace.Unnamed := by
    intro unnamed
    obtain ⟨space, stem, found⟩ := slash unnamed
    have isKey := KeyMap.mem_keys_iff.2 found
    cases space with
    | environment =>
      have keys : (ConfigMap.ofPairs [("a/b", "y")]).keys = ["a/b"] := by decide +kernel
      have spelled : stem ++ "/" = "a/b" := List.mem_singleton.1 (keys ▸ isKey)
      have last := congrArg (fun text => text.toList.getLast?) spelled
      simp at last
    | vars => cases isKey
  refine ⟨rfl, trace, member, expanded, key, fun own => named (claimed.1 own).1, ?_⟩
  rw [Bool.eq_false_iff]
  exact fun found => (compiled.1 found).elim named (alone trace member)

/-- The key `a/` has no name in the section of `a`, so what stands there is written to the key
that the section was to replace. -/
theorem compile_keepsKey_unnamed :
    let environment : Environment := { name := "dev", keys := .ofPairs [("a/", "x"), ("a/b", "y")] }
    let result := slashed.compile environment expandedUser
    slashed.settings.legacyWildcard = false ∧
    ∃ trace ∈ result.trace, trace.isExpansion = true ∧ trace.key = "K" ∧ trace.key ∈ trace.claims ∧
      result.compiled = .ofPairs [("K", "x"), ("K/b", "y")] ∧
      ∀ other ∈ result.trace, other.key ≠ "K" → "K" ∉ other.claims := by
  decide +kernel

end Compiler

end LayeredConfig
