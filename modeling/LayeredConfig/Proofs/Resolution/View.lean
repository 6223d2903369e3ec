import LayeredConfig.Resolution.Outcome

/-!
# Views of texts

Two runs can be compared by what is seen of the texts that they come to. A view maps every
such text and leaves all else as it is: names and paths, the texts that values were read
from, diagnostics, and which values are null. Under the identity everything is seen, under a
constant only where texts stand.

## Main definitions

* `Outcome.mapTexts`, `Trace.mapTexts`, `Finding.mapTexts` — what came about, under a view
* `RespectsJoin` — a view of two texts decides the view of both joined
* `AlikeUnder` — answers that a view does not tell apart

## Main results

* `Outcome.view_text_congr` — what is seen of an outcome decides what is seen of its text
* `Finding.mapTexts_id` — under the identity everything is seen
-/

namespace LayeredConfig

variable {view : String → String}

/-- What is seen of two texts decides what is seen of them when they are joined. -/
def RespectsJoin (view : String → String) : Prop :=
  ∀ a a' b b', view a = view a' → view b = view b' → view (a ++ b) = view (a' ++ b')

theorem respectsJoin_id : RespectsJoin id := by
  intro a a' b b' left right
  simp only [id] at left right
  rw [left, right]

theorem respectsJoin_const (text : String) : RespectsJoin fun _ => text :=
  fun _ _ _ _ _ _ => rfl

/-! ## Entries and outcomes -/

/-- The entries of a section under a view of their texts. -/
def SectionEntries.mapTexts (view : String → String) (entries : SectionEntries) : SectionEntries :=
  entries.map fun entry => (entry.1, entry.2.map view)

namespace Outcome

/-- An outcome under a view of its texts. -/
def mapTexts (view : String → String) : Outcome → Outcome
  | text t => text (view t)
  | entries es => entries (SectionEntries.mapTexts view es)

theorem text?_mapTexts (view : String → String) (outcome : Outcome) :
    (outcome.mapTexts view).text? = outcome.text?.map view := by
  cases outcome <;> rfl

theorem entriesUnder_mapTexts (outcome : Outcome) (name : String) :
    (outcome.mapTexts view).entriesUnder name =
      SectionEntries.mapTexts view (outcome.entriesUnder name) := by
  cases outcome with
  | text t => rfl
  | entries es => simp [mapTexts, entriesUnder, SectionEntries.mapTexts]

theorem namesUnder_mapTexts (view : String → String) (outcome : Outcome) (name : String) :
    (outcome.mapTexts view).namesUnder name = outcome.namesUnder name := by
  cases outcome with
  | text t => rfl
  | entries es => simp [mapTexts, namesUnder, SectionEntries.mapTexts]

/-- What an outcome adds to a text in the middle of which it stands. -/
theorem view_text_congr {outcome outcome' : Outcome}
    (same : outcome.mapTexts view = outcome'.mapTexts view) :
    view (outcome.text?.getD "") = view (outcome'.text?.getD "") := by
  have texts : outcome.text?.map view = outcome'.text?.map view := by
    rw [← text?_mapTexts, ← text?_mapTexts, same]
  rw [← Option.getD_map view, ← Option.getD_map view, texts]

theorem mapTexts_id (outcome : Outcome) : outcome.mapTexts id = outcome := by
  cases outcome with
  | text t => rfl
  | entries es => simp [mapTexts, SectionEntries.mapTexts]

end Outcome

/-! ## Traces -/

namespace Trace

variable {δ : Type}

/-- A step under a view of the value that it came to. -/
def Detail.mapTexts (view : String → String) : Detail → Detail
  | .value v => .value (v.map view)
  | .key reference space v => .key reference space (v.map view)
  | .multi raw v expanded => .multi raw (v.map view) expanded

theorem Detail.mapTexts_id (detail : Detail) : detail.mapTexts id = detail := by
  cases detail <;> simp [mapTexts]

mutual

/-- A trace under a view of the values of its nodes. -/
def mapTexts (view : String → String) : Trace δ → Trace δ
  | ⟨key, diagnostics, children, detail⟩ =>
    ⟨key, diagnostics, mapTextsAll view children, detail.mapTexts view⟩

/-- Several traces under a view of the values of their nodes. -/
def mapTextsAll (view : String → String) : List (Trace δ) → List (Trace δ)
  | [] => []
  | trace :: traces => trace.mapTexts view :: mapTextsAll view traces

end

theorem mapTextsAll_eq_map (traces : List (Trace δ)) :
    mapTextsAll view traces = traces.map (mapTexts view) := by
  induction traces with
  | nil => rw [mapTextsAll, List.map_nil]
  | cons trace traces ih => rw [mapTextsAll, List.map_cons, ih]

theorem mapTexts_eq (trace : Trace δ) :
    trace.mapTexts view =
      { trace with
        children := trace.children.map (mapTexts view), detail := trace.detail.mapTexts view } := by
  cases trace
  rw [mapTexts, mapTextsAll_eq_map]

mutual

theorem mapTexts_id : (trace : Trace δ) → trace.mapTexts id = trace
  | ⟨key, diagnostics, children, detail⟩ => by
    rw [mapTexts, mapTextsAll_id children, Detail.mapTexts_id]

theorem mapTextsAll_id : (traces : List (Trace δ)) → mapTextsAll id traces = traces
  | [] => by rw [mapTextsAll]
  | trace :: traces => by rw [mapTextsAll, mapTexts_id trace, mapTextsAll_id traces]

end

end Trace

/-! ## Findings -/

namespace Finding

/-- A finding under a view of the texts that it tells of. -/
def mapTexts (view : String → String) (finding : Finding) : Finding where
  outcome := finding.outcome.mapTexts view
  issues := finding.issues
  children := finding.children.map (Trace.mapTexts view)

theorem mapTexts_after (finding : Finding) (issue : Issue) :
    (finding.after issue).mapTexts view = (finding.mapTexts view).after issue := rfl

theorem mapTexts_id (finding : Finding) : finding.mapTexts id = finding := by
  have children : finding.children.map (Trace.mapTexts id) = finding.children := by
    rw [← Trace.mapTextsAll_eq_map, Trace.mapTextsAll_id]
  rw [mapTexts, Outcome.mapTexts_id, children]

theorem mapTexts_trace (finding : Finding) (key : String) (detail : Trace.Detail) :
    (finding.trace key detail).mapTexts view =
      (finding.mapTexts view).trace key (detail.mapTexts view) := by
  rw [Trace.mapTexts_eq]
  rfl

end Finding

/-- Two answers that a view does not tell apart. -/
structure AlikeUnder (view : String → String) (answer answer' : Outcome × Trace Issue) : Prop where
  outcome : answer.1.mapTexts view = answer'.1.mapTexts view
  trace : answer.2.mapTexts view = answer'.2.mapTexts view

theorem AlikeUnder.refl (answer : Outcome × Trace Issue) : AlikeUnder view answer answer :=
  ⟨rfl, rfl⟩

end LayeredConfig
