import LayeredConfig.Proofs.Resolution.Cycle

/-!
# Runs in lockstep

Two contexts go through the same scenes as long as every step that one of them takes is also
a step of the other. Whether it is can be read off the node that the step leaves in the
trace of the first one.

A trace names all that was read for it. A look-up of a key is traced under the key, and a
look-up of a section under a path with a star, which tells the keys that belong to it. Two
contexts in which all that the trace of a text reads is the same therefore keep step, and
neither run sees anything in which they differ. Secrets may even differ in what a view does
not show, since the text of a secret is only ever joined to other texts.

## Main definitions

* `Context.KeepsStep`, `Context.Lockstep` — contexts that take the same steps
* `Trace.reads`, `Trace.readsSecret` — what a node of a trace reads
* `Context.SameRules` — contexts that differ in their maps and secrets only
* `Context.AgreesOn` — contexts that hold the same where a node reads

## Main results

* `Context.Lockstep.alikeUnder` — the runs as a whole, from the steps
* `Context.Lockstep.mapTexts_resolveText` — the same for the text of a structure key
* `Context.SameRules.lockstep` — contexts that agree on all that is read keep step
-/

namespace LayeredConfig

/-! ## One run beside another -/

theorem Request.mapTexts_answerWith (view : String → String) (request : Request)
    (current : String) (finding : Finding) :
    ((request.answerWith current finding).1.mapTexts view,
      (request.answerWith current finding).2.mapTexts view) =
        request.answerWith current (finding.mapTexts view) := by
  have text := Outcome.text?_mapTexts view finding.outcome
  cases request with
  | reference placement r =>
    simp only [answerWith, Finding.mapTexts_trace, Trace.Detail.mapTexts, ← text]
    rfl
  | entry space key suffix inner =>
    have names := Outcome.namesUnder_mapTexts view finding.outcome suffix
    simp only [answerWith, Finding.mapTexts_trace, Trace.Detail.mapTexts, ← text, ← names]
    rfl

/-- Findings that a view does not tell apart give answers that it does not tell apart. -/
theorem Request.alikeUnder_answerWith {view : String → String} {finding finding' : Finding}
    (same : finding.mapTexts view = finding'.mapTexts view) (request : Request)
    (current : String) :
    AlikeUnder view (request.answerWith current finding) (request.answerWith current finding') := by
  have equal := request.mapTexts_answerWith view current finding
  rw [same, ← request.mapTexts_answerWith] at equal
  exact ⟨congrArg Prod.fst equal, congrArg Prod.snd equal⟩

namespace Context

variable {view : String → String} {first second : Context} {agree : Trace Issue → Prop}
  {key text : String} {parts : List Part} {scene : Scene}

/-- What is found on a request is seen alike if its frame is opened alike. -/
theorem mapTexts_findingOf_congr (join : RespectsJoin view)
    {in₁ in₂ : Option (Stack → Answerer)} {stack : Stack} {request : Request}
    (opened : ∀ frame inner, first.Opens stack.current request frame inner →
      OpenedAlike (AlikeUnder view) inner (openFrame in₁ stack frame)
        (openFrame in₂ stack frame)) :
    (first.findingOf in₁ stack request).mapTexts view =
      (first.findingOf in₂ stack request).mapTexts view := by
  rcases first.findingOf_cases stack.current request with
    ⟨frame, inner, opens, noted, finish, -, rests, finding⟩ | ⟨finding, -, idle⟩
  · rw [finding in₁ stack rfl, finding in₂ stack rfl]
    rcases (opened frame inner opens).cases with
      ⟨issue, refused₁, refused₂⟩ | ⟨f, g, opened₁, opened₂, answers⟩
    · rw [refused₁, refused₂]
    · rw [opened₁, opened₂]
      exact rests.mapTexts view join f g answers
  · rw [idle in₁ stack rfl, idle in₂ stack rfl]

/-- The second context takes the step of the first one at a request: a frame that is asked for
in the first one is asked for in the second one as well, with the same requests inside and
with room for it in both or in neither, and where it opens alike the same is found. -/
structure KeepsStep (view : String → String) (first second : Context) (stack : Stack)
    (request : Request) : Prop where
  opens : ∀ frame inner, first.Opens stack.current request frame inner →
    second.Opens stack.current request frame inner
  hasRoom : ∀ frame inner, first.Opens stack.current request frame inner →
    frame ∉ stack.opened → second.hasRoom stack = first.hasRoom stack
  finding : ∀ in₁ in₂ : Option (Stack → Answerer),
    (∀ frame inner, first.Opens stack.current request frame inner →
      OpenedAlike (AlikeUnder view) inner (openFrame in₁ stack frame)
        (openFrame in₂ stack frame)) →
    (first.findingOf in₁ stack request).mapTexts view =
      (second.findingOf in₂ stack request).mapTexts view

/-- The second context reads texts as the first one does and takes all of its steps that leave
a node of some kind in the trace. -/
structure Lockstep (view : String → String) (first second : Context)
    (agree : Trace Issue → Prop) : Prop where
  parse : second.parse = first.parse
  keepsStep : ∀ (parts : List Part) (stack : Stack) (request : Request),
    agree (first.resolve (first.room parts - stack.depth) stack request).2 →
      first.KeepsStep view second stack request

/-- Wherever both runs stand at the same scene they answer its requests alike, if all nodes
below are of the kind for which the contexts keep step. -/
theorem Lockstep.alikeUnder (lockstep : first.Lockstep view second agree) {request : Request}
    (reaches : first.Reaches (.start key parts) scene)
    (reaches' : second.Reaches (.start key parts) scene) (member : request ∈ scene.requests)
    (agrees : ∀ node ∈
      (first.resolve (first.room parts - scene.depth) scene.stack request).2.preorder,
        agree node) :
    AlikeUnder view (first.resolve (first.room parts - scene.depth) scene.stack request)
      (second.resolve (second.room parts - scene.depth) scene.stack request) := by
  -- the induction follows the run of the first context, the second one keeps step
  have acc := reaches.acc
  induction acc generalizing request with
  | intro scene _ ih =>
    have top := lockstep.keepsStep parts scene.stack request
      (agrees _ (by rw [Trace.preorder_eq]; exact List.mem_cons_self))
    rw [Context.resolve_eq, Context.resolve_eq, answer_eq, answer_eq]
    refine Request.alikeUnder_answerWith (top.finding _ _ ?_) request _
    intro frame inner opens
    have opens' := top.opens frame inner opens
    rw [reaches.openFrame_eq member opens, reaches'.openFrame_eq member opens']
    by_cases opened : frame ∈ scene.stack.opened
    · simp [opened, OpenedAlike]
    · have room := top.hasRoom frame inner opens opened
      cases roomy : first.hasRoom scene.stack with
      | false => simp [opened, room.trans roomy, OpenedAlike]
      | true =>
        simp only [opened, room.trans roomy, if_false, if_true, OpenedAlike]
        intro request' member'
        have enters : first.Enters scene ⟨scene.stack.push frame, inner⟩ :=
          .opens member opens opened roomy
        have enters' : second.Enters scene ⟨scene.stack.push frame, inner⟩ :=
          .opens member opens' opened (room.trans roomy)
        refine ih _ enters (reaches.enter enters) (reaches'.enter enters') member' ?_
        intro node below
        apply agrees node
        exact Trace.mem_preorder_of_child
          (reaches.mem_children_resolve member opens opened roomy member') below

/-- A text comes to the same in two contexts, as far as a view shows, if they keep step for
all nodes of its trace in one of them. -/
theorem Lockstep.mapTexts_resolveText (lockstep : first.Lockstep view second agree)
    (join : RespectsJoin view)
    (agrees : ∀ trace ∈ (first.resolveText key text).children, ∀ node ∈ trace.preorder,
      agree node) :
    (first.resolveText key text).mapTexts view = (second.resolveText key text).mapTexts view := by
  rw [resolveText, resolvePartsOf, children_resolveParts, List.forall_mem_map] at agrees
  rw [resolveText, resolveText, lockstep.parse]
  apply (restsOn_resolveParts (first.parse text)).mapTexts view join
  intro request made
  exact lockstep.alikeUnder .refl .refl made (agrees request made)

end Context

/-! ## What is read -/

namespace Trace

variable {δ : Type}

/-- The node is a look-up in a map that reads the key, by itself or as one of the keys that a
path with a final star asks for. -/
def reads (node : Trace δ) (space : Space) (key : String) : Bool :=
  node.looksIn space.toNamespace &&
    (node.key = key || (Text.stripSuffix? ['*'] node.key.toList).any (·.isPrefixOf key.toList))

/-- The node is a look-up of the secret at the path. -/
def readsSecret (node : Trace δ) (path : String) : Bool :=
  node.looksIn .secret && node.key = path

theorem reads_key {node : Trace δ} {space : Space}
    (looks : node.looksIn space.toNamespace = true) : node.reads space node.key = true := by
  simp [reads, looks]

end Trace

namespace Wildcard

variable {α : Type} {wildcard : Wildcard}

theorem path_eq_pattern (wildcard : Wildcard) : wildcard.path = wildcard.pattern ++ "*" := by
  apply String.toList_injective
  unfold path pattern
  split <;> simp

/-- A look-up that is traced under the path of a section reads all keys of the section. -/
theorem reads_of_isPrefixOf {δ : Type} {node : Trace δ} {space : Space} {key : String}
    (looks : node.looksIn space.toNamespace = true) (traced : node.key = wildcard.path)
    (begins : wildcard.pattern.toList.isPrefixOf key.toList = true) :
    node.reads space key = true := by
  have cut : Text.stripSuffix? ['*'] node.key.toList = some wildcard.pattern.toList := by
    rw [Text.stripSuffix?_eq_some_iff, traced, path_eq_pattern]
    simp
  simp only [Trace.reads, looks, cut, Option.any_some, begins, Bool.or_true, Bool.and_self]

/-- A section is the same in two maps if all keys with its pattern are. -/
theorem entries_congr {m m' : KeyMap α}
    (same : ∀ key, wildcard.pattern.toList.isPrefixOf key.toList = true →
      m'.find? key = m.find? key) : wildcard.entries m' = wildcard.entries m := by
  have matched : m'.filter (fun key => wildcard.pattern.toList.isPrefixOf key.toList) =
      m.filter fun key => wildcard.pattern.toList.isPrefixOf key.toList :=
    KeyMap.filter_eq_filter_iff.2 same
  rw [entries, entries, KeyMap.below_eq_filter, KeyMap.below_eq_filter]
  exact congrArg KeyMap.entries matched

end Wildcard

/-! ## Contexts that agree -/

namespace Context

/-- Two contexts read texts alike and have the same settings. -/
structure SameRules (first second : Context) : Prop where
  parse : second.parse = first.parse
  settings : second.settings = first.settings

/-- Two contexts hold the same wherever a node reads; of a secret only what a view shows has
to be the same. -/
structure AgreesOn (view : String → String) (first second : Context) (node : Trace Issue) :
    Prop where
  keys : ∀ space key, node.reads space key = true →
    (second.keys space).find? key = (first.keys space).find? key
  secrets : ∀ path, node.readsSecret path = true →
    (second.secrets path).map view = (first.secrets path).map view

/-- Two contexts hold the same where a target is looked up. -/
def TargetAlike (view : String → String) (first second : Context) : Target → Prop
  | .keys space path =>
    (second.keys space).find? path = (first.keys space).find? path ∧
      ∀ wildcard, Query.ofPath path = .all wildcard →
        wildcard.entries (second.keys space) = wildcard.entries (first.keys space)
  | .secret path => (second.secrets path).map view = (first.secrets path).map view
  | .unknown .. | .nowhere _ => True

/-- Two contexts hold the same where a request looks. An entry of a section brings its text
along and looks nowhere. -/
def RequestAlike (view : String → String) (first second : Context) (current : String) :
    Request → Prop
  | .reference _ r => first.TargetAlike view second (Target.ofReference current r)
  | .entry .. => True

variable {view : String → String} {first second : Context}

theorem SameRules.hasRoom_eq (rules : first.SameRules second) (stack : Stack) :
    second.hasRoom stack = first.hasRoom stack := by
  rw [hasRoom, hasRoom, rules.settings]

/-- The node of a request tells where the request looks. -/
theorem AgreesOn.requestAlike {room : Nat} {stack : Stack} {request : Request}
    (agrees : first.AgreesOn view second (first.resolve room stack request).2) :
    first.RequestAlike view second stack.current request := by
  cases request with
  | entry space key suffix text => trivial
  | reference placement r =>
    rw [Context.resolve_eq] at agrees
    cases target : Target.ofReference stack.current r with
    | nowhere source | unknown name path source =>
      rw [RequestAlike, target]
      trivial
    | secret path =>
      rw [RequestAlike, target]
      apply agrees.secrets
      simp [Trace.readsSecret, Trace.looksIn, answer, Finding.trace, target, Target.key,
        Target.toNamespace]
    | keys space path =>
      have looks : Trace.looksIn (first.answer (first.inside? room) stack
          (.reference placement r)).2 space.toNamespace = true := by
        simp [Trace.looksIn, answer, Finding.trace, target, Target.toNamespace]
      have traced : (first.answer (first.inside? room) stack (.reference placement r)).2.key =
          path := by
        simp [answer, Finding.trace, target, Target.key]
      rw [RequestAlike, target]
      refine ⟨agrees.keys space path (traced ▸ Trace.reads_key looks), ?_⟩
      intro wildcard query
      have written := Query.path_of_ofPath_eq_all query
      apply Wildcard.entries_congr
      intro key begins
      exact agrees.keys space key
        (Wildcard.reads_of_isPrefixOf looks (traced.trans written.symm) begins)

/-! ## One step -/

theorem entryRequests_congr (rules : first.SameRules second) {space : Space}
    {wildcard : Wildcard}
    (entries : wildcard.entries (second.keys space) = wildcard.entries (first.keys space)) :
    second.entryRequests space wildcard = first.entryRequests space wildcard := by
  have same : second.entryRequest? space wildcard = first.entryRequest? space wildcard := by
    funext entry
    unfold entryRequest?
    rw [rules.parse]
  rw [entryRequests, entryRequests, entries, same]

theorem expandEntries_congr (rules : first.SameRules second) {space : Space}
    {wildcard : Wildcard}
    (entries : wildcard.entries (second.keys space) = wildcard.entries (first.keys space)) :
    second.expandEntries space wildcard = first.expandEntries space wildcard := by
  have same : second.expandEntry = first.expandEntry := by
    funext answer space suffix entry
    unfold expandEntry
    rw [rules.parse]
  funext answer
  rw [expandEntries, expandEntries, entries, same]

/-- A frame that is asked for in one context is asked for in the other, with the same
requests inside. -/
theorem RequestAlike.opens {current : String} {request : Request} {frame : Frame}
    {inner : List Request} (alike : first.RequestAlike view second current request)
    (rules : first.SameRules second) (opens : first.Opens current request frame inner) :
    second.Opens current request frame inner := by
  cases opens with
  | @ofKey placement r space path text target query found references =>
    rw [RequestAlike, target] at alike
    rw [← rules.parse] at references ⊢
    exact .ofKey target query (alike.1.trans found) references
  | @ofSection r space path wildcard target query allowed =>
    rw [RequestAlike, target] at alike
    rw [← rules.settings] at allowed
    rw [← entryRequests_congr rules (alike.2 wildcard query)]
    exact .ofSection target query allowed
  | ofEntry =>
    rw [← rules.parse]
    exact .ofEntry

/-- A path of a map comes to the same in both contexts if its frame is opened alike. -/
theorem SameRules.resolvePath_eq (rules : first.SameRules second) {space : Space}
    {path : String} (alike : first.TargetAlike view second (.keys space path))
    (inside? : Option (Stack → Answerer)) (stack : Stack) (placement : Placement) :
    second.resolvePath inside? stack placement space path =
      first.resolvePath inside? stack placement space path := by
  unfold resolvePath
  cases query : Query.ofPath path with
  | key key =>
    obtain rfl := Query.eq_of_ofPath_eq_key query
    simp only [resolveKey, alike.1, rules.parse]
  | all wildcard =>
    have sections : second.resolveSection inside? stack placement space wildcard =
        first.resolveSection inside? stack placement space wildcard := by
      unfold resolveSection
      rw [expandSection_eq, expandSection_eq, expandEntries_congr rules (alike.2 wildcard query)]
    simp only [sections, rules.settings]

/-- Of the secrets only what the view shows has to be the same. -/
theorem mapTexts_resolveSecret {path : String}
    (same : (second.secrets path).map view = (first.secrets path).map view) :
    (first.resolveSecret path).mapTexts view = (second.resolveSecret path).mapTexts view := by
  unfold resolveSecret
  cases Query.ofPath path with
  | all wildcard => rfl
  | key key =>
    cases found : first.secrets path with
    | none =>
      rw [found, Option.map_none, Option.map_eq_none_iff] at same
      rw [same]
    | some text =>
      rw [found, Option.map_some] at same
      obtain ⟨text', found', seen⟩ := Option.map_eq_some_iff.1 same
      rw [found']
      simp only [Finding.mapTexts, Outcome.mapTexts, seen, List.map_nil]

/-- Both contexts find the same on a request, as far as a view shows, if they hold the same
where it looks and its frame is opened alike. -/
theorem RequestAlike.mapTexts_findingOf (join : RespectsJoin view)
    (rules : first.SameRules second) {in₁ in₂ : Option (Stack → Answerer)} {stack : Stack}
    {request : Request} (alike : first.RequestAlike view second stack.current request)
    (opened : ∀ frame inner, first.Opens stack.current request frame inner →
      OpenedAlike (AlikeUnder view) inner (openFrame in₁ stack frame)
        (openFrame in₂ stack frame)) :
    (first.findingOf in₁ stack request).mapTexts view =
      (second.findingOf in₂ stack request).mapTexts view := by
  -- apart from secrets the contexts take the same step, so one of them can take both
  have step : (∃ placement r path, request = .reference placement r ∧
      Target.ofReference stack.current r = .secret path) ∨
      second.findingOf in₂ stack request = first.findingOf in₂ stack request := by
    cases request with
    | entry space key suffix text =>
      simp only [findingOf, rules.parse, or_true]
    | reference placement r =>
      cases target : Target.ofReference stack.current r with
      | secret path => exact .inl ⟨placement, r, path, rfl, target⟩
      | nowhere source | unknown name path source =>
        simp only [findingOf, target, resolveTarget, or_true]
      | keys space path =>
        rw [RequestAlike, target] at alike
        simp only [findingOf, target, resolveTarget, rules.resolvePath_eq alike, or_true]
  rcases step with ⟨placement, r, path, rfl, target⟩ | same
  · rw [RequestAlike, target] at alike
    simp only [findingOf, target, resolveTarget]
    exact mapTexts_resolveSecret alike
  · rw [same]
    exact mapTexts_findingOf_congr join opened

/-- Contexts that read texts alike and have the same settings keep step where they hold the
same. -/
theorem SameRules.lockstep (rules : first.SameRules second) (join : RespectsJoin view) :
    first.Lockstep view second (first.AgreesOn view second) where
  parse := rules.parse
  keepsStep _ stack _ agrees :=
    { opens := fun _ _ opens => agrees.requestAlike.opens rules opens
      hasRoom := fun _ _ _ _ => rules.hasRoom_eq stack
      finding := fun _ _ opened => agrees.requestAlike.mapTexts_findingOf join rules opened }

end Context

end LayeredConfig
