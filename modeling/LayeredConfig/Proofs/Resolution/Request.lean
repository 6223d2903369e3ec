import LayeredConfig.Resolution.Resolve
import LayeredConfig.Proofs.Resolution.Query
import LayeredConfig.Proofs.Resolution.View

/-!
# What a request opens and what it rests on

A request either is answered at once or asks for one frame. If the frame is opened, the
requests inside it are made, and nothing but their answers decides what the request
comes to. All that later arguments need to know about one step of resolution is said
here, once for every kind of request.

## Main definitions

* `Request.ofParts` — the requests that a text makes
* `Context.Opens` — the frame that a request asks for, with the requests inside it
* `RestsOn` — a finding that is decided by the answers to some requests

## Main results

* `Context.Opens.findingOf` — a request that asks for a frame rests on the requests inside it
* `Context.findingOf_of_idle` — every other request is answered at once
* `Context.findingOf_cases` — the two together
-/

namespace LayeredConfig

@[simp] theorem Value.references_nil : Value.references [] = [] := rfl

@[simp] theorem Value.references_literal (text : String) (parts : List Part) :
    Value.references (.literal text :: parts) = Value.references parts := rfl

@[simp] theorem Value.references_reference (reference : Reference) (parts : List Part) :
    Value.references (.reference reference :: parts) =
      reference :: Value.references parts := rfl

/-- The requests that the parts of a text make, in order. -/
def Request.ofParts : List Part → List Request
  | [.reference r] => [.reference .whole r]
  | parts => (Value.references parts).map (.reference .embedded)

/-! ## The parts of a text -/

section Parts

variable {f g : Answerer} {parts : List Part} {view : String → String}

/-- A text is one reference and nothing else, or it is joined part by part. -/
theorem single_or_joined (parts : List Part) :
    (∃ reference, parts = [.reference reference]) ∨
      (Request.ofParts parts = (Value.references parts).map (.reference .embedded) ∧
        ∀ answer : Answerer, resolveParts answer parts =
          { outcome := .text (joinParts answer parts).1
            children := (joinParts answer parts).2 }) := by
  -- `resolveParts` and `Request.ofParts` single out the same list, all others fall through
  match parts with
  | [.reference reference] => exact .inl ⟨reference, rfl⟩
  | [] | [.literal _] | .literal _ :: _ :: _ | .reference _ :: _ :: _ =>
    exact .inr ⟨rfl, fun _ => rfl⟩

theorem exists_of_mem_ofParts {request : Request} (member : request ∈ Request.ofParts parts) :
    ∃ placement, ∃ reference ∈ Value.references parts,
      request = .reference placement reference := by
  rcases single_or_joined parts with ⟨reference, rfl⟩ | ⟨requests, -⟩
  · exact ⟨.whole, reference, List.mem_cons_self, List.mem_singleton.1 member⟩
  · rw [requests, List.mem_map] at member
    obtain ⟨reference, member, rfl⟩ := member
    exact ⟨.embedded, reference, member, rfl⟩

theorem joinParts_text_congr
    (same : ∀ reference ∈ Value.references parts,
      (f (.reference .embedded reference)).1 = (g (.reference .embedded reference)).1) :
    (joinParts f parts).1 = (joinParts g parts).1 := by
  induction parts with
  | nil => rfl
  | cons part parts ih =>
    cases part with
    | literal text => simp only [joinParts, ih same]
    | reference reference =>
      simp only [Value.references_reference, List.mem_cons, forall_eq_or_imp] at same
      simp only [joinParts, same.1, ih same.2]

theorem joinParts_traces : (joinParts f parts).2 =
    (Value.references parts).map fun reference => (f (.reference .embedded reference)).2 := by
  induction parts with
  | nil => rfl
  | cons part parts ih =>
    cases part with
    | literal text => simp only [joinParts, ih, Value.references_literal]
    | reference reference => simp only [joinParts, ih, Value.references_reference, List.map_cons]

theorem view_joinParts (join : RespectsJoin view)
    (same : ∀ reference ∈ Value.references parts,
      AlikeUnder view (f (.reference .embedded reference))
        (g (.reference .embedded reference))) :
    view (joinParts f parts).1 = view (joinParts g parts).1 := by
  induction parts with
  | nil => rfl
  | cons part parts ih =>
    cases part with
    | literal text => exact join _ _ _ _ rfl (ih same)
    | reference reference =>
      simp only [Value.references_reference, List.mem_cons, forall_eq_or_imp] at same
      exact join _ _ _ _ (Outcome.view_text_congr same.1.outcome) (ih same.2)

theorem mapTexts_joinParts
    (same : ∀ reference ∈ Value.references parts,
      AlikeUnder view (f (.reference .embedded reference))
        (g (.reference .embedded reference))) :
    (joinParts f parts).2.map (Trace.mapTexts view) =
      (joinParts g parts).2.map (Trace.mapTexts view) := by
  rw [joinParts_traces, joinParts_traces, List.map_map, List.map_map]
  exact List.map_congr_left fun reference held => (same reference held).trace

theorem children_resolveParts : (resolveParts f parts).children =
    (Request.ofParts parts).map fun request => (f request).2 := by
  rcases single_or_joined parts with ⟨reference, rfl⟩ | ⟨requests, joined⟩
  · rfl
  · rw [joined f, requests, List.map_map]
    exact joinParts_traces

theorem issues_resolveParts : (resolveParts f parts).issues = [] := by
  rcases single_or_joined parts with ⟨reference, rfl⟩ | ⟨-, joined⟩
  · rfl
  · rw [joined f]

end Parts

/-! ## Findings that rest on other answers -/

/-- The node of an entry that was taken as it is. -/
def Trace.IsTaken (node : Trace Issue) : Prop :=
  ∃ key value, node = { key, detail := .value value }

theorem Trace.IsTaken.children {node : Trace Issue} (taken : node.IsTaken) :
    node.children = [] := by
  obtain ⟨key, value, rfl⟩ := taken
  rfl

theorem Trace.IsTaken.diagnostics {node : Trace Issue} (taken : node.IsTaken) :
    node.diagnostics = {} := by
  obtain ⟨key, value, rfl⟩ := taken
  rfl

/-- A finding is decided by the answers to some requests: what is seen of it by what is seen
of them, and its outcome by their outcomes. The nodes below it are entries taken as they are
or the traces of those answers. Only warnings are noted on the way. -/
structure RestsOn (inner : List Request) (finish : Answerer → Finding) : Prop where
  mapTexts : ∀ view : String → String, RespectsJoin view → ∀ f g : Answerer,
    (∀ request ∈ inner, AlikeUnder view (f request) (g request)) →
      (finish f).mapTexts view = (finish g).mapTexts view
  outcome : ∀ f g : Answerer, (∀ request ∈ inner, (f request).1 = (g request).1) →
    (finish f).outcome = (finish g).outcome
  child : ∀ f : Answerer, ∀ trace ∈ (finish f).children,
    trace.IsTaken ∨ ∃ request ∈ inner, trace = (f request).2
  warns : ∀ f : Answerer, ∀ issue ∈ (finish f).issues, issue.severity = .warning

/-- The same answers give the same finding. -/
theorem RestsOn.congr {inner : List Request} {finish : Answerer → Finding}
    (rests : RestsOn inner finish) (f g : Answerer)
    (same : ∀ request ∈ inner, f request = g request) : finish f = finish g := by
  have alike := rests.mapTexts id respectsJoin_id f g fun request member =>
    same request member ▸ .refl (f request)
  rwa [Finding.mapTexts_id, Finding.mapTexts_id] at alike

theorem restsOn_resolveParts (parts : List Part) :
    RestsOn (Request.ofParts parts) fun answer => resolveParts answer parts where
  mapTexts view join f g same := by
    rcases single_or_joined parts with ⟨reference, rfl⟩ | ⟨requests, joined⟩
    · have alike := same _ List.mem_cons_self
      simp only [resolveParts, Finding.mapTexts, List.map_cons, List.map_nil, alike.outcome,
        alike.trace]
    · rw [requests, List.forall_mem_map] at same
      simp only [joined, Finding.mapTexts, Outcome.mapTexts, view_joinParts join same,
        mapTexts_joinParts same]
  outcome f g same := by
    rcases single_or_joined parts with ⟨reference, rfl⟩ | ⟨requests, joined⟩
    · exact same _ List.mem_cons_self
    · rw [requests, List.forall_mem_map] at same
      rw [joined f, joined g, joinParts_text_congr same]
  child f trace member := by
    rw [children_resolveParts, List.mem_map] at member
    obtain ⟨request, member, rfl⟩ := member
    exact .inr ⟨request, member, rfl⟩
  warns f issue member := by
    rw [issues_resolveParts] at member
    cases member

/-- A section is passed on only to a reference that is the whole text. -/
def Finding.passOn (placement : Placement) (key : String) (finding : Finding) : Finding :=
  match placement, finding.outcome with
  | .embedded, .entries _ =>
    { finding with
      outcome := .text "", issues := finding.issues ++ [.sectionNotWholeValue key] }
  | _, _ => finding

theorem Finding.outcome_passOn (finding : Finding) (placement : Placement) (key : String) :
    (finding.passOn placement key).outcome =
      match placement, finding.outcome with
      | .embedded, .entries _ => .text ""
      | _, outcome => outcome := by
  unfold passOn
  split <;> simp_all

theorem Finding.mapTexts_passOn_congr {view : String → String} {finding finding' : Finding}
    (same : finding.mapTexts view = finding'.mapTexts view) (placement : Placement)
    (key : String) :
    (finding.passOn placement key).mapTexts view =
      (finding'.passOn placement key).mapTexts view := by
  obtain ⟨outcome, issues, children⟩ := finding
  obtain ⟨outcome', issues', children'⟩ := finding'
  obtain ⟨outcomes, rfl, below⟩ := Finding.mk.inj same
  cases placement with
  | whole => exact same
  | embedded =>
    -- a view takes sections to sections, so both are passed on or neither is
    cases outcome <;> cases outcome' <;> simp_all [passOn, mapTexts, Outcome.mapTexts]

theorem RestsOn.passOn {inner : List Request} {finish : Answerer → Finding}
    (rests : RestsOn inner finish) (placement : Placement) (key : String) :
    RestsOn inner fun answer => (finish answer).passOn placement key where
  mapTexts view join f g same :=
    Finding.mapTexts_passOn_congr (rests.mapTexts view join f g same) placement key
  outcome f g same := by
    rw [Finding.outcome_passOn, Finding.outcome_passOn, rests.outcome f g same]
  child f trace member := by
    refine rests.child f trace ?_
    unfold Finding.passOn at member
    split at member <;> exact member
  warns f issue member := by
    unfold Finding.passOn at member
    split at member
    · rcases List.mem_append.1 member with member | member
      · exact rests.warns f issue member
      · rw [List.mem_singleton.1 member]
        rfl
    · exact rests.warns f issue member

theorem RestsOn.after {inner : List Request} {finish : Answerer → Finding}
    (rests : RestsOn inner finish) {issue : Issue} (warning : issue.severity = .warning) :
    RestsOn inner fun answer => (finish answer).after issue where
  mapTexts view join f g same := by
    rw [Finding.mapTexts_after, Finding.mapTexts_after, rests.mapTexts view join f g same]
  outcome f g same := rests.outcome f g same
  child f trace member := rests.child f trace member
  warns f issue' member := by
    rcases List.mem_cons.1 member with rfl | member
    · exact warning
    · exact rests.warns f issue' member

/-- Nothing was looked up below the finding, and of the errors at most a missing path was
noted on it. -/
structure Finding.IsLeaf (finding : Finding) : Prop where
  children : finding.children = []
  issues : ∀ issue ∈ finding.issues,
    issue.severity = .warning ∨ ∃ source, issue = .missingPath source

namespace Finding.IsLeaf

theorem text (text : String) : IsLeaf { outcome := .text text } where
  children := rfl
  issues _ member := nomatch member

theorem fault (issue : Issue)
    (harmless : issue.severity = .warning ∨ ∃ source, issue = .missingPath source) :
    (Finding.fault issue).IsLeaf where
  children := rfl
  issues issue' member := by
    rw [List.mem_singleton.1 member]
    exact harmless

theorem after {finding : Finding} (issue : Issue) (leaf : finding.IsLeaf)
    (harmless : issue.severity = .warning ∨ ∃ source, issue = .missingPath source) :
    (finding.after issue).IsLeaf where
  children := leaf.children
  issues issue' member := by
    rcases List.mem_cons.1 member with rfl | member
    · exact harmless
    · exact leaf.issues issue' member

end Finding.IsLeaf

/-! ## Sections -/

namespace Context

/-- The request that an entry of a section makes if references stand in its text. -/
def entryRequest? (context : Context) (space : Space) (wildcard : Wildcard) :
    String × Option String → Option Request
  | (_, none) => none
  | (key, some text) =>
    if Value.references (context.parse text) = [] then none
    else some (.entry space key (wildcard.suffix key) text)

/-- The requests that the entries of a section make, in key order. -/
def entryRequests (context : Context) (space : Space) (wildcard : Wildcard) : List Request :=
  (wildcard.entries (context.keys space)).filterMap (context.entryRequest? space wildcard)

/-- The finding on a section once its frame is open. -/
def expandEntries (context : Context) (space : Space) (wildcard : Wildcard)
    (answer : Answerer) : Finding :=
  let expanded := (wildcard.entries (context.keys space)).map fun entry =>
    context.expandEntry answer space (wildcard.suffix entry.1) entry
  let entries := expanded.flatMap Prod.fst
  { outcome := .entries entries
    issues := if entries = [] then [.emptySection wildcard.path] else []
    children := expanded.map Prod.snd }

variable {context : Context} {space : Space} {wildcard : Wildcard}

theorem mem_entryRequests {request : Request} :
    request ∈ context.entryRequests space wildcard ↔
      ∃ key text, (key, some text) ∈ wildcard.entries (context.keys space) ∧
        Value.references (context.parse text) ≠ [] ∧
        request = .entry space key (wildcard.suffix key) text := by
  simp only [entryRequests, List.mem_filterMap]
  constructor
  · rintro ⟨⟨key, _ | text⟩, member, found⟩
    · cases found
    · simp only [entryRequest?, Option.ite_none_left_eq_some, Option.some.injEq] at found
      exact ⟨key, text, member, found.1, found.2.symm⟩
  · rintro ⟨key, text, member, references, rfl⟩
    exact ⟨(key, some text), member, if_neg references⟩

/-- An entry is taken as it is, or it comes to what its request comes to. -/
theorem expandEntry_cases {entry : String × Option String}
    (member : entry ∈ wildcard.entries (context.keys space)) :
    (∀ answer, context.expandEntry answer space (wildcard.suffix entry.1) entry =
      ([(wildcard.suffix entry.1, entry.2)], { key := entry.1, detail := .value entry.2 })) ∨
    ∃ request ∈ context.entryRequests space wildcard, ∀ answer,
      context.expandEntry answer space (wildcard.suffix entry.1) entry =
        ((answer request).1.entriesUnder (wildcard.suffix entry.1), (answer request).2) := by
  obtain ⟨key, _ | text⟩ := entry
  · exact .inl fun _ => rfl
  · by_cases references : Value.references (context.parse text) = []
    · refine .inl fun answer => ?_
      simp only [expandEntry, references, if_true]
    · refine .inr ⟨.entry space key (wildcard.suffix key) text, ?_, fun answer => ?_⟩
      · exact mem_entryRequests.2 ⟨key, text, member, references, rfl⟩
      · simp only [expandEntry, references, if_false]

theorem restsOn_expandEntries (context : Context) (space : Space) (wildcard : Wildcard) :
    RestsOn (context.entryRequests space wildcard) (context.expandEntries space wildcard) where
  mapTexts view join f g same := by
    have alike : ∀ entry ∈ wildcard.entries (context.keys space),
        SectionEntries.mapTexts view
            (context.expandEntry f space (wildcard.suffix entry.1) entry).1 =
          SectionEntries.mapTexts view
            (context.expandEntry g space (wildcard.suffix entry.1) entry).1 ∧
        (context.expandEntry f space (wildcard.suffix entry.1) entry).2.mapTexts view =
          (context.expandEntry g space (wildcard.suffix entry.1) entry).2.mapTexts view := by
      intro entry member
      rcases expandEntry_cases member with taken | ⟨request, made, comesTo⟩
      · rw [taken f, taken g]
        exact ⟨rfl, rfl⟩
      · have same := same request made
        rw [comesTo f, comesTo g, ← Outcome.entriesUnder_mapTexts, same.outcome,
          Outcome.entriesUnder_mapTexts]
        exact ⟨rfl, same.trace⟩
    have entries : SectionEntries.mapTexts view
        (((wildcard.entries (context.keys space)).map fun entry =>
          context.expandEntry f space (wildcard.suffix entry.1) entry).flatMap Prod.fst) =
        SectionEntries.mapTexts view
        (((wildcard.entries (context.keys space)).map fun entry =>
          context.expandEntry g space (wildcard.suffix entry.1) entry).flatMap Prod.fst) := by
      rw [List.flatMap_map, List.flatMap_map, SectionEntries.mapTexts, SectionEntries.mapTexts,
        List.map_flatMap, List.map_flatMap, List.flatMap_def, List.flatMap_def]
      exact congrArg List.flatten (List.map_congr_left fun entry member => (alike entry member).1)
    have children := List.map_congr_left fun entry member => (alike entry member).2
    -- a view takes no entries away, so the section is empty under it iff it is
    have empty := congrArg (· = []) entries
    simp only [SectionEntries.mapTexts, List.map_eq_nil_iff] at empty
    simp only [expandEntries, Finding.mapTexts, Outcome.mapTexts, entries, empty, List.map_map,
      Function.comp_def, children]
  outcome f g same := by
    have entries : ∀ entry ∈ wildcard.entries (context.keys space),
        (context.expandEntry f space (wildcard.suffix entry.1) entry).1 =
          (context.expandEntry g space (wildcard.suffix entry.1) entry).1 := by
      intro entry member
      rcases expandEntry_cases member with taken | ⟨request, made, comesTo⟩
      · rw [taken f, taken g]
      · rw [comesTo f, comesTo g, same request made]
    -- of an answer only the entries count for the outcome, not the trace
    have lists := List.map_congr_left entries
    simp only [expandEntries, List.flatMap_def, List.map_map]
    exact congrArg (fun lists => Outcome.entries lists.flatten) lists
  child f trace member := by
    simp only [expandEntries, List.map_map, List.mem_map, Function.comp_apply] at member
    obtain ⟨entry, member, rfl⟩ := member
    rcases expandEntry_cases member with taken | ⟨request, made, comesTo⟩
    · rw [taken f]
      exact .inl ⟨entry.1, entry.2, rfl⟩
    · rw [comesTo f]
      exact .inr ⟨request, made, rfl⟩
  warns f issue member := by
    simp only [expandEntries] at member
    split at member
    · rw [List.mem_singleton.1 member]
      rfl
    · cases member

end Context

/-! ## One step of resolution -/

/-- A request, made while the path `current` is being resolved, asks for a frame; once the
frame is open the requests inside it are made. -/
inductive Context.Opens (context : Context) (current : String) :
    Request → Frame → List Request → Prop
  /-- A reference opens the key that it leads to, if references stand in its text. -/
  | ofKey {placement : Placement} {reference : Reference} {space : Space} {path text : String} :
    Target.ofReference current reference = .keys space path →
    Query.ofPath path = .key path →
    (context.keys space).find? path = some (some text) →
    Value.references (context.parse text) ≠ [] →
    Opens context current (.reference placement reference) ⟨space, path⟩
      (Request.ofParts (context.parse text))
  /-- A reference that is the whole text opens the section that it leads to. -/
  | ofSection {reference : Reference} {space : Space} {path : String} {wildcard : Wildcard} :
    Target.ofReference current reference = .keys space path →
    Query.ofPath path = .all wildcard →
    (wildcard.bare = true → context.settings.legacyWildcard = true) →
    Opens context current (.reference .whole reference) ⟨space, path⟩
      (context.entryRequests space wildcard)
  /-- An entry of a section opens its key. -/
  | ofEntry {space : Space} {key suffix text : String} :
    Opens context current (.entry space key suffix text) ⟨space, key⟩
      (Request.ofParts (context.parse text))

/-- The answer to a request on which something was found. -/
def Request.answerWith (current : String) (finding : Finding) : Request → Outcome × Trace Issue
  | .reference _ r =>
    let target := Target.ofReference current r
    (finding.outcome,
      finding.trace target.key (.key r target.toNamespace finding.outcome.text?))
  | .entry _ key suffix text =>
    (finding.outcome,
      finding.trace key
        (.multi (some text) finding.outcome.text? (finding.outcome.namesUnder suffix)))

namespace Context

variable {context : Context}

/-- The finding on a request. -/
def findingOf (context : Context) (inside? : Option (Stack → Answerer)) (stack : Stack) :
    Request → Finding
  | .reference placement reference =>
    context.resolveTarget inside? stack placement (Target.ofReference stack.current reference)
  | .entry space key _ text =>
    match openFrame inside? stack ⟨space, key⟩ with
    | .error issue => Finding.fault issue
    | .ok answer => resolveParts answer (context.parse text)

section Answer

variable {inside? inside'? : Option (Stack → Answerer)} {stack stack' : Stack} {request : Request}

theorem answer_eq : context.answer inside? stack request =
    request.answerWith stack.current (context.findingOf inside? stack request) := by
  cases request <;> rfl

theorem outcome_answer : (context.answer inside? stack request).1 =
    (context.findingOf inside? stack request).outcome := by
  cases request <;> rfl

theorem children_answer : (context.answer inside? stack request).2.children =
    (context.findingOf inside? stack request).children := by
  cases request <;> rfl

theorem diagnostics_answer : (context.answer inside? stack request).2.diagnostics =
    .ofIssues (context.findingOf inside? stack request).issues := by
  cases request <;> rfl

end Answer

/-- A reference to a key is answered with what is found there. -/
theorem findingOf_of_key {inside? : Option (Stack → Answerer)}
    {stack : Stack} {placement : Placement} {r : Reference} {space : Space} {key : String}
    (target : Target.ofReference stack.current r = .keys space key)
    (starless : key.toList.getLast? ≠ some '*') :
    context.findingOf inside? stack (.reference placement r) =
      context.resolveKey inside? stack placement space key := by
  simp only [findingOf, target, resolveTarget, resolvePath, Query.ofPath_eq_key_iff.2 starless]

theorem resolveKey_of_references {inside? : Option (Stack → Answerer)} {stack : Stack}
    {placement : Placement} {space : Space} {key text : String}
    (found : (context.keys space).find? key = some (some text))
    (references : Value.references (context.parse text) ≠ []) :
    context.resolveKey inside? stack placement space key =
      match openFrame inside? stack ⟨space, key⟩ with
      | .error issue => .fault issue
      | .ok answer => (resolveParts answer (context.parse text)).passOn placement key := by
  simp only [resolveKey, found, references, if_false]
  cases openFrame inside? stack ⟨space, key⟩ <;> rfl

theorem expandSection_eq {inside? : Option (Stack → Answerer)} {stack : Stack} {space : Space}
    {wildcard : Wildcard} :
    context.expandSection inside? stack space wildcard =
      match openFrame inside? stack ⟨space, wildcard.path⟩ with
      | .error issue => .fault issue
      | .ok answer => context.expandEntries space wildcard answer := by
  unfold expandSection
  cases openFrame inside? stack ⟨space, wildcard.path⟩ <;> rfl

/-- A request that asks for a frame comes to an empty text if the frame is refused; else
its finding rests on the answers inside the frame. -/
theorem Opens.findingOf {current : String} {request : Request} {frame : Frame}
    {inner : List Request} (opens : context.Opens current request frame inner) :
    ∃ (noted : List Issue) (finish : Answerer → Finding),
      (∀ issue ∈ noted, issue.severity = .warning) ∧ RestsOn inner finish ∧
      ∀ (inside? : Option (Stack → Answerer)) (stack : Stack), stack.current = current →
        context.findingOf inside? stack request =
          match openFrame inside? stack frame with
          | .error issue => { outcome := .text "", issues := noted ++ [issue] }
          | .ok answer => finish answer := by
  cases opens with
  | @ofKey placement reference space path text target query found references =>
    refine ⟨[], _, by simp, (restsOn_resolveParts (context.parse text)).passOn placement path, ?_⟩
    rintro inside? stack rfl
    simp only [Context.findingOf, target, resolveTarget, resolvePath, query]
    rw [resolveKey_of_references found references]
    -- the right-hand side is the same match with the empty list of notes in front
    rfl
  | @ofSection reference space path wildcard target query allowed =>
    -- the frame is written with the star, so it is spelled like the path itself
    have written := Query.path_of_ofPath_eq_all query
    cases bare : wildcard.bare with
    | false =>
      refine ⟨[], _, by simp, context.restsOn_expandEntries space wildcard, ?_⟩
      rintro inside? stack rfl
      simp only [Context.findingOf, target, resolveTarget, resolvePath, query, bare, resolveSection]
      rw [expandSection_eq, written]
      rfl
    | true =>
      -- the path without a slash is noted before the section is expanded
      have noted : (Issue.malformedWildcard path).severity = .warning := rfl
      refine ⟨[.malformedWildcard path], _, by simp [noted],
        (context.restsOn_expandEntries space wildcard).after noted, ?_⟩
      rintro inside? stack rfl
      simp only [Context.findingOf, target, resolveTarget, resolvePath, query, bare, allowed bare,
        resolveSection]
      rw [expandSection_eq, written]
      cases openFrame inside? stack ⟨space, path⟩ <;> rfl
  | @ofEntry space key suffix text =>
    refine ⟨[], _, by simp, restsOn_resolveParts (context.parse text), ?_⟩
    rintro inside? stack rfl
    rfl

theorem resolveSecret_isLeaf (path : String) : (context.resolveSecret path).IsLeaf := by
  unfold resolveSecret
  split
  · exact .fault _ (.inl rfl)
  · split
    · exact .text _
    · exact .fault _ (.inl rfl)

/-- A key that asks for no frame is taken the same whatever is open. -/
theorem resolveKey_of_plain {space : Space} {key : String}
    (plain : ∀ text, (context.keys space).find? key = some (some text) →
      Value.references (context.parse text) = []) :
    ∃ finding : Finding, finding.IsLeaf ∧
      ∀ (inside? : Option (Stack → Answerer)) (stack : Stack) (placement : Placement),
        context.resolveKey inside? stack placement space key = finding := by
  cases found : (context.keys space).find? key with
  | none =>
    refine ⟨_, .fault (.missingKey space.label key) (.inl rfl), ?_⟩
    intro inside? stack placement
    simp only [resolveKey, found]
  | some value =>
    cases value with
    | none =>
      refine ⟨_, .text "", ?_⟩
      intro inside? stack placement
      simp only [resolveKey, found]
    | some text =>
      refine ⟨_, .text text, ?_⟩
      intro inside? stack placement
      simp only [resolveKey, found, plain text found, if_true]

/-- A request that asks for no frame is answered the same whatever is open. -/
theorem findingOf_of_idle {current : String} {request : Request}
    (idle : ∀ frame inner, ¬ context.Opens current request frame inner) :
    ∃ finding : Finding, finding.IsLeaf ∧
      ∀ (inside? : Option (Stack → Answerer)) (stack : Stack), stack.current = current →
        context.findingOf inside? stack request = finding := by
  cases request with
  | entry space key suffix text => exact absurd .ofEntry (idle ⟨space, key⟩ _)
  | reference placement reference =>
    cases target : Target.ofReference current reference with
    | nowhere source =>
      refine ⟨_, .fault (.missingPath source) (.inr ⟨source, rfl⟩), ?_⟩
      rintro inside? stack rfl
      simp only [findingOf, target, resolveTarget]
    | unknown name path source =>
      refine ⟨_, .fault (.unknownNamespace name source) (.inl rfl), ?_⟩
      rintro inside? stack rfl
      simp only [findingOf, target, resolveTarget]
    | secret path =>
      refine ⟨_, context.resolveSecret_isLeaf path, ?_⟩
      rintro inside? stack rfl
      simp only [findingOf, target, resolveTarget]
    | keys space path =>
      cases query : Query.ofPath path with
      | key key =>
        obtain rfl := Query.eq_of_ofPath_eq_key query
        -- references in the text of the key would ask for its frame
        have plain : ∀ text, (context.keys space).find? key = some (some text) →
            Value.references (context.parse text) = [] := fun text found =>
          Decidable.byContradiction fun references =>
            idle ⟨space, key⟩ _ (.ofKey target query found references)
        obtain ⟨finding, leaf, same⟩ := resolveKey_of_plain plain
        refine ⟨finding, leaf, ?_⟩
        rintro inside? stack rfl
        simp only [findingOf, target, resolveTarget, resolvePath, query, same]
      | all wildcard =>
        by_cases refused : wildcard.bare = true ∧ context.settings.legacyWildcard = false
        · refine ⟨_, .fault (.rejectedWildcard path) (.inl rfl), ?_⟩
          rintro inside? stack rfl
          simp [findingOf, target, resolveTarget, resolvePath, query, refused.1, refused.2]
        · have allowed : wildcard.bare = true → context.settings.legacyWildcard = true := by
            intro bare
            simpa [bare] using refused
          cases placement with
          | whole => exact absurd (.ofSection target query allowed) (idle ⟨space, path⟩ _)
          | embedded =>
            -- a section in the middle of a text is refused before it is opened
            cases bare : wildcard.bare with
            | false =>
              refine ⟨_, .fault (.sectionNotWholeValue wildcard.path) (.inl rfl), ?_⟩
              rintro inside? stack rfl
              simp [findingOf, target, resolveTarget, resolvePath, query, resolveSection, bare]
            | true =>
              refine ⟨_, .after (.malformedWildcard path)
                (.fault (.sectionNotWholeValue wildcard.path) (.inl rfl)) (.inl rfl), ?_⟩
              rintro inside? stack rfl
              simp [findingOf, target, resolveTarget, resolvePath, query, resolveSection, bare,
                allowed bare]

/-- A request either asks for a frame and then rests on the requests inside it, or is
answered the same whatever is open. -/
theorem findingOf_cases (context : Context) (current : String) (request : Request) :
    (∃ frame inner, context.Opens current request frame inner ∧
      ∃ (noted : List Issue) (finish : Answerer → Finding),
        (∀ issue ∈ noted, issue.severity = .warning) ∧ RestsOn inner finish ∧
        ∀ (inside? : Option (Stack → Answerer)) (stack : Stack), stack.current = current →
          context.findingOf inside? stack request =
            match openFrame inside? stack frame with
            | .error issue => { outcome := .text "", issues := noted ++ [issue] }
            | .ok answer => finish answer) ∨
    ∃ finding : Finding, finding.IsLeaf ∧
      ∀ (inside? : Option (Stack → Answerer)) (stack : Stack), stack.current = current →
        context.findingOf inside? stack request = finding := by
  by_cases asks : ∃ frame inner, context.Opens current request frame inner
  · obtain ⟨frame, inner, opens⟩ := asks
    exact .inl ⟨frame, inner, opens, opens.findingOf⟩
  · exact .inr (findingOf_of_idle fun frame inner opens => asks ⟨frame, inner, opens⟩)

end Context

end LayeredConfig
