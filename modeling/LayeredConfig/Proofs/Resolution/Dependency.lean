import LayeredConfig.Proofs.Resolution.Termination

/-!
# Dependencies

The references in a text depend on keys and sections, and a section on the keys that it
matches. Resolution follows some of these dependencies: those that make it open a frame.
Every scene of a run stands at a place that the run was led to in this way, with the frames
of the places on the way open.

## Main definitions

* `Place` — the text of a structure key, a key of a map or a section of one
* `Context.Depends` — what a place depends on
* `Context.Leads` — the dependencies that open a frame
* `Context.AcyclicFrom` — no cycle of dependencies can be reached from a place
* `Context.Visits` — a scene that stands at a place

## Main results

* `Context.Reaches.exists_visits` — every scene of a run stands at some place
* `Context.Leads.exists_opens`, `Context.Opens.exists_leads` — what opens a frame leads on
-/

namespace LayeredConfig

/-- Where resolution can stand. A key and a section are different places even if they are
spelled alike. -/
inductive Place where
  /-- The text of a key of the structure. -/
  | root (key text : String)
  /-- A key of a map. -/
  | key (space : Space) (key : String)
  /-- A section of a map. -/
  | all (space : Space) (wildcard : Wildcard)
  deriving DecidableEq, Repr

namespace Place

/-- The place of a map that a path asks for. -/
def ofQuery (space : Space) : Query → Place
  | .key name => key space name
  | .all wildcard => all space wildcard

/-- The path that is resolved at a place. -/
def path : Place → String
  | root name _ | key _ name => name
  | all _ wildcard => wildcard.path

/-- The frame that is opened for a place. Keys and sections share their frames. -/
def frame? : Place → Option Frame
  | root _ _ => none
  | key space name => some ⟨space, name⟩
  | all space wildcard => some ⟨space, wildcard.path⟩

theorem path_of_frame? {place : Place} {frame : Frame} (opens : place.frame? = some frame) :
    place.path = frame.path := by
  cases place <;> cases opens <;> rfl

end Place

namespace Context

variable {context : Context}

/-- The text at a place. A section has none of its own. -/
def textAt (context : Context) : Place → Option String
  | .root _ text => some text
  | .key space name => ((context.keys space).find? name).join
  | .all _ _ => none

/-- A place depends on the targets of the references in its text, and a section on the keys
that it matches. -/
inductive Depends (context : Context) : Place → Place → Prop
  | reference {place : Place} {text path : String} {r : Reference} {space : Space} :
    context.textAt place = some text →
    r ∈ Value.references (context.parse text) →
    Target.ofReference place.path r = .keys space path →
    Depends context place (.ofQuery space (Query.ofPath path))
  | matched {space : Space} {wildcard : Wildcard} {entry : String × Option String} :
    entry ∈ wildcard.entries (context.keys space) →
    Depends context (.all space wildcard) (.key space entry.1)

/-- A place leads on to the keys that its references or, for a section, its pattern find
with references in their texts, and from a text that is one reference to the section that
is asked for. -/
inductive Leads (context : Context) : Place → Place → Prop
  | toKey {place : Place} {text path inner : String} {r : Reference} {space : Space} :
    context.textAt place = some text →
    r ∈ Value.references (context.parse text) →
    Target.ofReference place.path r = .keys space path →
    Query.ofPath path = .key path →
    (context.keys space).find? path = some (some inner) →
    Value.references (context.parse inner) ≠ [] →
    Leads context place (.key space path)
  | toSection {place : Place} {text path : String} {r : Reference} {space : Space}
    {wildcard : Wildcard} :
    context.textAt place = some text →
    context.parse text = [.reference r] →
    Target.ofReference place.path r = .keys space path →
    Query.ofPath path = .all wildcard →
    (wildcard.bare = true → context.settings.legacyWildcard = true) →
    Leads context place (.all space wildcard)
  | toEntry {space : Space} {wildcard : Wildcard} {name text : String} :
    (name, some text) ∈ wildcard.entries (context.keys space) →
    Value.references (context.parse text) ≠ [] →
    Leads context (.all space wildcard) (.key space name)

/-- No place that is reached from the given one along dependencies is on a cycle of them. -/
def AcyclicFrom (context : Context) (start : Place) : Prop :=
  ∀ place, Relation.ReflTransGen context.Depends start place →
    ¬ Relation.TransGen context.Depends place place

section Leads

variable {place place' : Place} {space : Space} {name : String} {wildcard : Wildcard}

theorem Leads.depends (leads : context.Leads place place') : context.Depends place place' := by
  cases leads with
  | @toKey _ text path inner r space atPlace held target query found references =>
    have depends : context.Depends place (.ofQuery space (Query.ofPath path)) :=
      .reference atPlace held target
    rwa [query] at depends
  | @toSection _ text path r space wildcard atPlace whole target query allowed =>
    have held : r ∈ Value.references (context.parse text) := by
      rw [whole]
      exact List.mem_cons_self
    have depends : context.Depends place (.ofQuery space (Query.ofPath path)) :=
      .reference atPlace held target
    rwa [query] at depends
  | toEntry matched references => exact .matched matched

theorem leads_le_depends : context.Leads ≤ context.Depends := fun _ _ => Leads.depends

theorem Leads.exists_text (leads : context.Leads place (.key space name)) :
    ∃ text, (context.keys space).find? name = some (some text) ∧
      Value.references (context.parse text) ≠ [] := by
  cases leads with
  | toKey atPlace held target query found references => exact ⟨_, found, references⟩
  | toEntry matched references =>
    exact ⟨_, Wildcard.find?_of_mem_entries matched, references⟩

/-- A section that is led to is the one that its own path asks for. -/
theorem Leads.ofPath_eq (leads : context.Leads place (.all space wildcard)) :
    Query.ofPath wildcard.path = .all wildcard := by
  cases leads with
  | toSection atPlace whole target query allowed =>
    rwa [Query.path_of_ofPath_eq_all query]

end Leads

/-! ## The requests made at a place -/

/-- The requests that are made at a place. -/
def requestsAt (context : Context) : Place → List Request
  | .all space wildcard => context.entryRequests space wildcard
  | place => (context.textAt place).elim [] fun text => Request.ofParts (context.parse text)

section Requests

variable {place place' : Place} {request : Request}

theorem mem_requestsAt_iff : request ∈ context.requestsAt place ↔
    (∃ text, context.textAt place = some text ∧
      request ∈ Request.ofParts (context.parse text)) ∨
    ∃ space wildcard, place = .all space wildcard ∧
      request ∈ context.entryRequests space wildcard := by
  cases place with
  | root name text => simp [requestsAt, textAt]
  | key space name =>
    cases found : context.textAt (.key space name) <;> simp [requestsAt, found]
  | all space wildcard => simp [requestsAt, textAt]

theorem requestsAt_of_textAt {text : String} (atPlace : context.textAt place = some text) :
    context.requestsAt place = Request.ofParts (context.parse text) := by
  cases place with
  | root name text' => simp [requestsAt, atPlace]
  | key space name => simp [requestsAt, atPlace]
  | all space wildcard => cases atPlace

/-- A reference in a text makes a request, and only a text that is one reference asks for it
as a whole. -/
theorem exists_mem_ofParts_iff {parts : List Part} {r : Reference} :
    (∃ placement, .reference placement r ∈ Request.ofParts parts) ↔
      r ∈ Value.references parts := by
  rcases single_or_joined parts with ⟨r', rfl⟩ | ⟨requests, -⟩
  · simp [Request.ofParts]
  · simp [requests]

theorem eq_singleton_of_whole_mem_ofParts {parts : List Part} {r : Reference}
    (member : .reference .whole r ∈ Request.ofParts parts) : parts = [.reference r] := by
  rcases single_or_joined parts with ⟨r', rfl⟩ | ⟨requests, -⟩
  · simpa [Request.ofParts, eq_comm] using member
  · simp [requests] at member

/-- Where a place leads, a request asks for the frame of the new place, and inside it the
requests of that place are made. -/
theorem Leads.exists_opens (leads : context.Leads place place') :
    ∃ request ∈ context.requestsAt place, ∃ frame, place'.frame? = some frame ∧
      context.Opens place.path request frame (context.requestsAt place') := by
  cases leads with
  | @toKey _ text path inner r space atPlace held target query found references =>
    have atTarget : context.textAt (.key space path) = some inner := by
      rw [textAt, found, Option.join_some]
    obtain ⟨placement, made⟩ := exists_mem_ofParts_iff.2 held
    rw [requestsAt_of_textAt atPlace, requestsAt_of_textAt atTarget]
    exact ⟨_, made, _, rfl, .ofKey target query found references⟩
  | @toSection _ text path r space wildcard atPlace whole target query allowed =>
    rw [requestsAt_of_textAt atPlace, whole]
    refine ⟨_, List.mem_cons_self, ⟨space, path⟩, ?_, .ofSection target query allowed⟩
    rw [Place.frame?, Query.path_of_ofPath_eq_all query]
  | @toEntry space wildcard name text matched references =>
    have found := Wildcard.find?_of_mem_entries matched
    have atEntry : context.textAt (.key space name) = some text := by
      rw [textAt, found, Option.join_some]
    rw [requestsAt_of_textAt atEntry]
    exact ⟨_, mem_entryRequests.2 ⟨name, text, matched, references, rfl⟩, _, rfl, .ofEntry⟩

/-- Whatever opens a frame at a place leads on to the place that the frame stands for. -/
theorem Opens.exists_leads {frame : Frame} {inner : List Request}
    (opens : context.Opens place.path request frame inner)
    (member : request ∈ context.requestsAt place) :
    ∃ place', context.Leads place place' ∧ place'.frame? = some frame ∧
      context.requestsAt place' = inner := by
  rcases mem_requestsAt_iff.1 member with ⟨text, atPlace, made⟩ | ⟨space, wildcard, rfl, made⟩
  · -- a text makes requests for its references only
    cases opens with
    | @ofKey placement r space path inner target query found references =>
      have held := exists_mem_ofParts_iff.1 ⟨placement, made⟩
      refine ⟨.key space path, .toKey atPlace held target query found references, rfl, ?_⟩
      rw [requestsAt_of_textAt]
      rw [textAt, found, Option.join_some]
    | @ofSection r space path wildcard target query allowed =>
      have whole := eq_singleton_of_whole_mem_ofParts made
      refine ⟨.all space wildcard, .toSection atPlace whole target query allowed, ?_, rfl⟩
      rw [Place.frame?, Query.path_of_ofPath_eq_all query]
    | ofEntry =>
      obtain ⟨placement, r, held, impossible⟩ := exists_of_mem_ofParts made
      cases impossible
  · obtain ⟨name, text, matched, references, rfl⟩ := mem_entryRequests.1 made
    cases opens with
    | ofEntry =>
      have found := Wildcard.find?_of_mem_entries matched
      refine ⟨.key space name, .toEntry matched references, rfl, ?_⟩
      rw [requestsAt_of_textAt]
      rw [textAt, found, Option.join_some]

end Requests

/-! ## The places of a run -/

/-- A scene of a run stands at a place if the root leads there, the last frame that was
opened is that of the place, and all frames are those of places on the way. -/
structure Visits (context : Context) (root : Place) (scene : Scene) (place : Place) : Prop where
  current : scene.stack.current = place.path
  requests : scene.requests = context.requestsAt place
  last : scene.stack.opened.head? = place.frame?
  reached : Relation.ReflTransGen context.Leads root place
  passed : ∀ frame ∈ scene.stack.opened, ∃ above : Place, above.frame? = some frame ∧
    Relation.ReflTransGen context.Leads root above ∧
    Relation.ReflTransGen context.Leads above place

section Visits

variable {root place place' : Place} {scene scene' : Scene} {key text : String}

theorem visits_start (context : Context) (key text : String) :
    context.Visits (.root key text) (.start key (context.parse text)) (.root key text) where
  current := rfl
  requests := rfl
  last := rfl
  reached := .refl
  passed _ member := nomatch member

theorem Visits.push {frame : Frame} (visits : context.Visits root scene place)
    (leads : context.Leads place place') (opens : place'.frame? = some frame) :
    context.Visits root ⟨scene.stack.push frame, context.requestsAt place'⟩ place' where
  current := (Place.path_of_frame? opens).symm
  requests := rfl
  last := opens.symm
  reached := visits.reached.tail leads
  passed frame' member := by
    rcases List.mem_cons.1 member with rfl | member
    · exact ⟨place', opens, visits.reached.tail leads, .refl⟩
    · obtain ⟨above, open', reached, below⟩ := visits.passed frame' member
      exact ⟨above, open', reached, below.tail leads⟩

theorem Visits.exists_leads {request : Request} {frame : Frame} {inner : List Request}
    (visits : context.Visits root scene place) (member : request ∈ scene.requests)
    (opens : context.Opens scene.stack.current request frame inner) :
    ∃ place', context.Leads place place' ∧ place'.frame? = some frame ∧
      context.requestsAt place' = inner := by
  rw [visits.current] at opens
  rw [visits.requests] at member
  exact opens.exists_leads member

theorem Enters.visits (enters : context.Enters scene scene')
    (visits : context.Visits root scene place) : ∃ place', context.Visits root scene' place' := by
  cases enters with
  | opens member opens fresh roomy =>
    obtain ⟨place', leads, frame, rfl⟩ := visits.exists_leads member opens
    exact ⟨place', visits.push leads frame⟩

/-- Every scene of a run stands at a place. -/
theorem Reaches.exists_visits
    (reaches : context.Reaches (.start key (context.parse text)) scene) :
    ∃ place, context.Visits (.root key text) scene place := by
  induction reaches with
  | refl => exact ⟨_, context.visits_start key text⟩
  | tail _ enters ih =>
    obtain ⟨place, visits⟩ := ih
    exact enters.visits visits

/-- Only the scene of a section asks for entries, namely for the texts of keys that the
section matches. -/
theorem Reaches.exists_of_entry {space : Space} {name suffix inner : String}
    (reaches : context.Reaches (.start key (context.parse text)) scene)
    (member : .entry space name suffix inner ∈ scene.requests) :
    ∃ wildcard, Relation.ReflTransGen context.Leads (.root key text) (.all space wildcard) ∧
      (name, some inner) ∈ wildcard.entries (context.keys space) ∧
      Value.references (context.parse inner) ≠ [] := by
  obtain ⟨place, visits⟩ := reaches.exists_visits
  rw [visits.requests] at member
  rcases mem_requestsAt_iff.1 member with ⟨_, -, made⟩ | ⟨space', wildcard, rfl, made⟩
  · obtain ⟨placement, r, -, impossible⟩ := exists_of_mem_ofParts made
    cases impossible
  · obtain ⟨_, _, matched, references, same⟩ := mem_entryRequests.1 made
    cases same
    exact ⟨wildcard, visits.reached, matched, references⟩

/-- Where a place leads, the scene that stands there asks for a frame, and if the frame is
not open yet the run goes on to the new place. -/
theorem Visits.exists_opens (visits : context.Visits root scene place)
    (leads : context.Leads place place') :
    ∃ request ∈ scene.requests, ∃ frame inner,
      context.Opens scene.stack.current request frame inner ∧
      place'.frame? = some frame ∧
      context.Visits root ⟨scene.stack.push frame, inner⟩ place' := by
  obtain ⟨request, member, frame, opened, opens⟩ := leads.exists_opens
  rw [← visits.requests] at member
  rw [← visits.current] at opens
  exact ⟨request, member, frame, _, opens, opened, visits.push leads opened⟩

end Visits

end Context

end LayeredConfig
