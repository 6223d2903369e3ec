import Mathlib.Order.WithBot
import LayeredConfig.Proofs.Resolution.Cycle
import LayeredConfig.Proofs.Value.Spelling

/-!
# Acyclic dependencies

A key depends on what the references in its text lead to, and a section on the keys that
it matches. If these dependencies can be ranked, every frame that is asked for ranks below
all frames that are open, so no frame is refused. A reference then comes to what its target
comes to, whoever refers to it and whatever is open above it.

## Main definitions

* `Context.Acyclic` — a rank that every dependency lowers
* `Context.Descending` — the frames asked for in a scene rank below the open ones

## Main results

* `Context.Reaches.descending` — the invariant of a run over ranked dependencies
* `Context.not_comesBack` — such a run never asks for a frame that is open
* `Context.Acyclic.not_transGen` — ranked dependencies have no cycle
* `Context.outcome_resolveText_eq_of_target` — a reference comes to what its target comes to
-/

namespace LayeredConfig

/-- The rank of what a frame stands for. -/
def Frame.rank (rank : Space → Query → Nat) (frame : Frame) : Nat :=
  rank frame.space (Query.ofPath frame.path)

/-- The rank of a place. Nothing depends on the text of a structure key, so it ranks above
all. -/
def Place.rank (rank : Space → Query → Nat) : Place → WithTop ℕ
  | .root _ _ => ⊤
  | .key space name => rank space (.key name)
  | .all space wildcard => rank space (.all wildcard)

theorem Place.rank_ofQuery (rank : Space → Query → Nat) (space : Space) (query : Query) :
    (Place.ofQuery space query).rank rank = rank space query := by
  cases query <;> rfl

namespace Context

/-- A rank that is lowered by every reference in the text of a key and by every step from a
section to a key that it matches. -/
structure Acyclic (context : Context) (rank : Space → Query → Nat) : Prop where
  reference : ∀ {space key text r space' path},
    (context.keys space).find? key = some (some text) →
    r ∈ Value.references (context.parse text) →
    Target.ofReference key r = .keys space' path →
    rank space' (Query.ofPath path) < rank space (.key key)
  matched : ∀ {space wildcard entry}, entry ∈ wildcard.entries (context.keys space) →
    rank space (.key entry.1) < rank space (.all wildcard)

/-- No key of either map ends in a star. -/
def Starless (context : Context) : Prop :=
  ∀ space key, (context.keys space).contains key = true → key.toList.getLast? ≠ some '*'

/-- The frames that are asked for rank below all frames that are open. -/
def Descending (context : Context) (rank : Space → Query → Nat) (scene : Scene) : Prop :=
  ∀ request ∈ scene.requests, ∀ frame inner,
    context.Opens scene.stack.current request frame inner →
      ∀ opened ∈ scene.stack.opened, frame.rank rank < opened.rank rank

variable {context : Context} {rank : Space → Query → Nat}

theorem Starless.ofPath_eq (starless : context.Starless) {space : Space} {key : String}
    {value : Option String} (found : (context.keys space).find? key = some value) :
    Query.ofPath key = .key key :=
  Query.ofPath_eq_key_iff.2 (starless space key (by rw [KeyMap.contains, found]; rfl))

theorem Opens.target {current : String} {placement : Placement} {r : Reference} {frame : Frame}
    {inner : List Request} (opens : context.Opens current (.reference placement r) frame inner) :
    Target.ofReference current r = .keys frame.space frame.path := by
  cases opens with
  | ofKey target => exact target
  | ofSection target => exact target

/-! ## The rank descends -/

theorem Acyclic.rank_lt_of_mem_ofParts (acyclic : context.Acyclic rank)
    (starless : context.Starless) {space : Space} {key text : String} {request : Request}
    {frame : Frame} {inner : List Request}
    (found : (context.keys space).find? key = some (some text))
    (member : request ∈ Request.ofParts (context.parse text))
    (opens : context.Opens key request frame inner) :
    frame.rank rank < Frame.rank rank ⟨space, key⟩ := by
  obtain ⟨placement, r, held, rfl⟩ := exists_of_mem_ofParts member
  have lower := acyclic.reference found held opens.target
  rwa [← starless.ofPath_eq found] at lower

/-- Inside a frame only frames of a lower rank are asked for. -/
theorem Opens.rank_lt (acyclic : context.Acyclic rank) (starless : context.Starless)
    {frames : List Frame} {current : String} {request request' : Request} {frame frame' : Frame}
    {inner inner' : List Request} (opens : context.Opens current request frame inner)
    (asks : context.Asks frames current request) (member : request' ∈ inner)
    (opens' : context.Opens frame.path request' frame' inner') :
    frame'.rank rank < frame.rank rank := by
  cases opens with
  | ofKey target query found references =>
    -- a key outranks the targets of its references
    exact acyclic.rank_lt_of_mem_ofParts starless found member opens'
  | @ofSection r space path wildcard target query allowed =>
    -- a section outranks the keys it matches, which are asked for under their own names
    obtain ⟨key, text, matched, -, rfl⟩ := mem_entryRequests.1 member
    cases opens' with
    | ofEntry =>
      have found := Wildcard.find?_of_mem_entries matched
      have lower := acyclic.matched matched
      rwa [← starless.ofPath_eq found, ← query] at lower
  | ofEntry =>
    exact acyclic.rank_lt_of_mem_ofParts starless (KeyMap.mem_entries_iff.1 asks) member opens'

theorem Reaches.descending (acyclic : context.Acyclic rank) (starless : context.Starless)
    {key : String} {parts : List Part} {scene : Scene}
    (reaches : context.Reaches (.start key parts) scene) : context.Descending rank scene := by
  induction reaches with
  | refl =>
    intro request _ frame inner _ opened member
    cases member
  | @tail outer scene reaches enters ih =>
    have bounded := Reaches.bounded reaches
    cases enters with
    | @opens request frame inner member opens fresh roomy =>
      intro request' member' frame' inner' opens' opened isOpen
      have lower : frame'.rank rank < frame.rank rank :=
        opens.rank_lt acyclic starless (bounded.asks request member) member' opens'
      -- below the frame just opened, and with it below all that were open before
      rcases List.mem_cons.1 isOpen with rfl | isOpen
      · exact lower
      · exact lower.trans (ih request member frame inner opens opened isOpen)

theorem Descending.fresh {scene : Scene} (descending : context.Descending rank scene)
    {request : Request} {frame : Frame} {inner : List Request}
    (member : request ∈ scene.requests)
    (opens : context.Opens scene.stack.current request frame inner) :
    frame ∉ scene.stack.opened := by
  intro opened
  exact Nat.lt_irrefl _ (descending request member frame inner opens frame opened)

/-- A run over ranked dependencies never asks for a frame that is open. -/
theorem not_comesBack (acyclic : context.Acyclic rank) (starless : context.Starless)
    {key : String} {parts : List Part} : ¬ context.ComesBack key parts := by
  rintro ⟨scene, reaches, request, member, frame, inner, opens, opened⟩
  exact (reaches.descending acyclic starless).fresh member opens opened

/-- No look-up of a run over ranked dependencies is refused as cyclic. -/
theorem not_cyclicReference (acyclic : context.Acyclic rank) (starless : context.Starless)
    {key : String} {parts : List Part} {trace node : Trace Issue} {path : String}
    (isChild : trace ∈ (context.resolvePartsOf key parts).children)
    (below : node ∈ trace.preorder) : .cyclicReference path ∉ node.diagnostics.errors :=
  fun noted => not_comesBack acyclic starless
    (reportsCycle_iff.1 ⟨trace, isChild, node, below, path, noted⟩)

/-- Ranked dependencies have no cycle. -/
theorem Acyclic.not_transGen (acyclic : context.Acyclic rank) (place : Place) :
    ¬ Relation.TransGen context.Depends place place := by
  have lower : ∀ a b, context.Depends a b → b.rank rank < a.rank rank := by
    intro a b depends
    cases depends with
    | @reference _ text path r space atPlace held target =>
      rw [Place.rank_ofQuery]
      cases a with
      | root name text' => exact WithTop.coe_lt_top _
      | key space' name =>
        have found := Option.join_eq_some_iff.1 atPlace
        exact WithTop.coe_lt_coe.2 (acyclic.reference found held target)
      | all space' wildcard => cases atPlace
    | matched matched => exact WithTop.coe_lt_coe.2 (acyclic.matched matched)
  intro cycle
  have descends : Relation.TransGen (· > ·) (place.rank rank) (place.rank rank) :=
    Relation.TransGen.lift (Place.rank rank) lower _ _ cycle
  rw [Relation.transGen_eq_self] at descends
  exact lt_irrefl _ descends

/-- The rank is lowered by every reference in the texts of both maps. -/
def ranksReferences (context : Context) (rank : Space → Query → Nat) : Bool :=
  [Space.environment, .vars].all fun space =>
    (context.keys space).entries.all fun entry =>
      (Value.references (entry.2.elim [] context.parse)).all fun r =>
        match Target.ofReference entry.1 r with
        | .keys space' path => rank space' (Query.ofPath path) < rank space (.key entry.1)
        | _ => true

theorem acyclic_of_ranksReferences (ranks : context.ranksReferences rank = true)
    (matched : ∀ {space wildcard entry}, entry ∈ wildcard.entries (context.keys space) →
      rank space (.key entry.1) < rank space (.all wildcard)) : context.Acyclic rank where
  reference := by
    intro space key text r space' path found held target
    have inSpace := List.all_eq_true.1 ranks space (by cases space <;> simp)
    have lower := List.all_eq_true.1
      (List.all_eq_true.1 inSpace (key, some text) (KeyMap.mem_entries_iff.2 found)) r held
    simp only [target] at lower
    exact of_decide_eq_true lower
  matched := matched

/-- Only paths that end in a star ask for sections, so without such keys no key is spelled
like a section. -/
theorem Starless.not_nameClash (starless : context.Starless) (start : Place) :
    ¬ context.NameClash start := by
  rintro ⟨space, wildcard, text, -, found, -⟩
  have ending : wildcard.path.toList.getLast? = some '*' := by
    unfold Wildcard.path
    split <;> simp
  exact starless space wildcard.path (by rw [KeyMap.contains, found]; rfl) ending

/-! ## The outcome of a reference is that of its target -/

theorem joinParts_of_plain (answer : Answerer) {parts : List Part}
    (plain : Value.references parts = []) : (joinParts answer parts).1 = Value.source parts := by
  induction parts with
  | nil => rfl
  | cons part parts ih =>
    cases part with
    | literal text =>
      simp only [joinParts, ih plain]
      rfl
    | reference r => cases plain

/-- A text without references comes to itself. -/
theorem outcome_resolveText_of_plain (parser : context.parse = Value.parse) {key text : String}
    (plain : Value.references (context.parse text) = []) :
    (context.resolveText key text).outcome = .text text := by
  rcases single_or_joined (context.parse text) with ⟨r, single⟩ | ⟨-, joined⟩
  · rw [single] at plain
    cases plain
  · rw [resolveText, resolvePartsOf, joined, joinParts_of_plain _ plain, parser,
      Value.source_parse]

/-- A reference that is the whole of its text comes to what the text at its target comes to
by itself, whatever is open when it is looked up. -/
theorem Reaches.outcome_eq_of_target (parser : context.parse = Value.parse)
    (unlimited : context.settings.depthLimit = none) (starless : context.Starless)
    (acyclic : context.Acyclic rank) {root : String} {parts : List Part} {scene : Scene}
    {r : Reference} {space : Space} {key value : String}
    (reaches : context.Reaches (.start root parts) scene)
    (member : .reference .whole r ∈ scene.requests)
    (target : Target.ofReference scene.stack.current r = .keys space key)
    (found : (context.keys space).find? key = some (some value)) :
    (context.resolve (context.room parts - scene.depth) scene.stack (.reference .whole r)).1 =
      (context.resolveText key value).outcome := by
  have query := starless.ofPath_eq found
  have never : ∀ {root parts}, ¬ context.ComesBack root parts := not_comesBack acyclic starless
  by_cases references : Value.references (context.parse value) = []
  · rw [outcome_resolveText_of_plain parser references, Context.resolve_eq, outcome_answer]
    simp only [findingOf, target, resolveTarget, resolvePath, query, resolveKey, found, references,
      if_true]
  · have follows : context.Follows scene .whole r space key value :=
      ⟨member, target, query, found, references⟩
    rw [follows.outcome_eq unlimited reaches never never, Finding.outcome_passOn]

/-- Over dependencies that can be ranked, a text that is one reference comes to what the
text at the target of the reference comes to by itself, and no look-up on the way is
refused as cyclic. -/
theorem outcome_resolveText_eq_of_target (context : Context)
    (parser : context.parse = Value.parse) (unlimited : context.settings.depthLimit = none)
    (starless : context.Starless) (rank : Space → Query → Nat) (acyclic : context.Acyclic rank)
    (root text : String) (r : Reference) (space : Space) (key value : String)
    (whole : context.parse text = [.reference r])
    (target : Target.ofReference root r = .keys space key)
    (found : (context.keys space).find? key = some (some value)) :
    (context.resolveText root text).outcome = (context.resolveText key value).outcome ∧
      ∀ trace ∈ (context.resolveText root text).children ++
          (context.resolveText key value).children,
        ∀ node ∈ trace.preorder, ∀ path, .cyclicReference path ∉ node.diagnostics.errors := by
  refine ⟨?_, ?_⟩
  · have start : context.Reaches (.start root [.reference r]) (.start root [.reference r]) := .refl
    have outcome := start.outcome_eq_of_target parser unlimited starless acyclic
      List.mem_cons_self target found
    rw [resolveText, whole]
    exact outcome
  · intro trace isChild node below path
    rcases List.mem_append.1 isChild with isChild | isChild
    · exact not_cyclicReference acyclic starless isChild below
    · exact not_cyclicReference acyclic starless isChild below

/-- A key that stands for a section, beside the one key of the section. -/
def databaseList : Context where
  environment := KeyMap.ofList [("list", some "{{db/*}}"), ("db/host", some "localhost")]

/-- The list ranks above its section, and the section above its key. -/
def databaseRank (_ : Space) (query : Query) : Nat :=
  if query = .all ⟨"db", false⟩ then 1
  else match query with
    | .key key => if key = "list" then 2 else 0
    | .all _ => 3

theorem starless_databaseList : databaseList.Starless := by
  intro space key contained
  have keys :
      (databaseList.keys space).keys.all (fun key => key.toList.getLast? ≠ some '*') = true := by
    cases space <;> decide +kernel
  exact of_decide_eq_true (List.all_eq_true.1 keys key (KeyMap.mem_keys_iff.2 contained))

theorem acyclic_databaseList : databaseList.Acyclic databaseRank := by
  refine acyclic_of_ranksReferences (by decide +kernel) ?_
  intro space wildcard entry member
  by_cases section' : wildcard = ⟨"db", false⟩
  · subst section'
    cases space with
    | vars => cases member
    | environment =>
      have entries : Wildcard.entries ⟨"db", false⟩ (databaseList.keys .environment) =
          [("db/host", some "localhost")] := by decide +kernel
      rw [entries, List.mem_singleton] at member
      rw [member]
      decide +kernel
  · have high : databaseRank space (.all wildcard) = 3 := by simp [databaseRank, section']
    have low : databaseRank space (.key entry.1) ≤ 2 := by
      simp only [databaseRank, reduceCtorEq, if_false]
      split <;> omega
    omega

/-- The key stands for the section, so a reference to it comes to the one key that lies there,
as the text of the key does by itself. -/
theorem outcome_resolveText_databaseList :
    (databaseList.resolveText "app" "{{list}}").outcome =
        (databaseList.resolveText "list" "{{db/*}}").outcome ∧
      (databaseList.resolveText "list" "{{db/*}}").outcome =
        .entries [("host", some "localhost")] := by
  obtain ⟨same, -⟩ := outcome_resolveText_eq_of_target databaseList rfl rfl starless_databaseList
    databaseRank acyclic_databaseList "app" "{{list}}" (.ofPath "list") .environment "list"
    "{{db/*}}" (by decide +kernel) (by decide +kernel) (by decide +kernel)
  exact ⟨same, by decide +kernel⟩

end Context

end LayeredConfig
