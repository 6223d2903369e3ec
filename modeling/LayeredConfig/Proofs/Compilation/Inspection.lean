import LayeredConfig.Compilation.Inspection
import LayeredConfig.Proofs.Compilation.Traces

/-!
# What an inspection reports

An inspection reports on look-ups of references. An error is noted on a look-up, and then
the look-up is dangling, or on an entry of a section that is not entered. Such an entry is
no look-up: nothing refers to its key by name, and no report speaks of it.

## Main definitions

* `Context.RefusedEntry` — the node of a section entry that is not entered

## Main results

* `Compiler.inspection_reports_errors` — the errors that an inspection reports
* `Compiler.inspection_misses_refused_entry` — an error that it does not report
-/

namespace LayeredConfig

namespace Report

variable {result : CompilationResult Issue} {node : Trace Issue}

/-- Every look-up is reported with all that was noted on it. -/
theorem exists_mem_ofResult (member : node ∈ result.nodes) (lookup : node.isLookup = true) :
    ∃ report ∈ ofResult result,
      report.path = node.key ∧ report.diagnostics = node.diagnostics.all := by
  obtain ⟨top, isTop, below⟩ := List.mem_flatMap.1 member
  unfold Trace.isLookup at lookup
  split at lookup
  · next reference space value detail =>
    refine ⟨⟨top.key, reference, space, node.key, node.diagnostics.all⟩, ?_, rfl, rfl⟩
    refine List.mem_flatMap.2 ⟨top, isTop, List.mem_filterMap.2 ⟨node, below, ?_⟩⟩
    rw [ofNode?, detail]
  · cases lookup

end Report

theorem Compiler.exists_mem_danglingReports {compiler : Compiler} {environment : Environment}
    {template : Structure} {node : Trace Issue} {issue : Issue}
    (member : node ∈ (compiler.compile environment template).nodes)
    (lookup : node.isLookup = true) (noted : issue ∈ node.diagnostics.errors) :
    ∃ report ∈ compiler.danglingReports environment template, issue ∈ report.diagnostics := by
  obtain ⟨report, isReport, -, diagnostics⟩ := Report.exists_mem_ofResult member lookup
  have inReport : issue ∈ report.diagnostics := by
    rw [diagnostics]
    exact List.mem_append_right _ noted
  refine ⟨report, List.mem_filter.2 ⟨isReport, ?_⟩, inReport⟩
  rw [Report.isResolved, Bool.not_eq_true', List.isEmpty_eq_false_iff]
  exact List.ne_nil_of_mem inReport

namespace Context

variable {context : Context}

/-- The node of a section entry that is not entered, although references stand in its text:
its frame is open already or the limit is reached. The entry comes to an empty text. -/
def RefusedEntry (context : Context) (start : Place) (issue : Issue) (node : Trace Issue) : Prop :=
  ∃ space wildcard text, Relation.ReflTransGen context.Leads start (.all space wildcard) ∧
    (node.key, some text) ∈ wildcard.entries (context.keys space) ∧
    Value.references (context.parse text) ≠ [] ∧
    (issue = .cyclicReference node.key ∨
      ∃ limit, context.settings.depthLimit = some limit ∧ issue = .depthExceeded node.key limit) ∧
    node = { key := node.key, diagnostics := .ofIssues [issue]
             detail := .multi (some text) (some "") [] }

theorem RefusedEntry.not_isLookup {start : Place} {issue : Issue} {node : Trace Issue}
    (refused : context.RefusedEntry start issue node) : node.isLookup = false := by
  obtain ⟨space, wildcard, text, -, -, -, -, same⟩ := refused
  rw [same]
  rfl

/-- A fresh frame is refused only at the limit. -/
theorem Reaches.issue_eq_of_refused {key : String} {parts : List Part} {scene : Scene}
    {room : Nat} {request : Request} {frame : Frame} {inner : List Request} {issue : Issue}
    (reaches : context.Reaches (.start key parts) scene)
    (rooms : room + scene.depth = context.room parts) (member : request ∈ scene.requests)
    (opens : context.Opens scene.stack.current request frame inner)
    (refused : openFrame (context.inside? room) scene.stack frame = .error issue) :
    issue = .cyclicReference frame.path ∨
      ∃ limit, context.settings.depthLimit = some limit ∧
        issue = .depthExceeded frame.path limit := by
  rcases openFrame_eq_error_iff.1 refused with ⟨-, cyclic⟩ | ⟨fresh, noRoom, exceeded⟩
  · exact .inl cyclic
  · cases room with
    | succ room => cases noRoom
    | zero =>
      have notFull := reaches.bounded.depth_lt member opens fresh
      have full : scene.depth = context.room parts := by rw [← rooms, Nat.zero_add]
      cases limited : context.settings.depthLimit with
      | none =>
        -- without a limit there is room for every frame that can be asked for
        rw [room, limited, Option.getD_none] at full
        omega
      | some limit =>
        rw [room, limited, Option.getD_some] at full
        exact .inr ⟨limit, rfl, full ▸ exceeded⟩

/-- On an entry nothing is noted unless its frame is refused. -/
theorem resolve_entry_of_error {room : Nat} {stack : Stack} {space : Space}
    {key suffix text : String} {issue : Issue}
    (noted : issue ∈ (context.resolve room stack (.entry space key suffix text)).2.diagnostics.errors) :
    openFrame (context.inside? room) stack ⟨space, key⟩ = .error issue ∧
      (context.resolve room stack (.entry space key suffix text)).2 =
        { key, diagnostics := .ofIssues [issue], detail := .multi (some text) (some "") [] } := by
  rw [resolve_eq] at noted ⊢
  cases opened : openFrame (context.inside? room) stack ⟨space, key⟩ with
  | ok answer =>
    -- the node of an entered entry holds no issue of its own
    rw [diagnostics_answer, findingOf, opened] at noted
    simp only [issues_resolveParts] at noted
    cases noted
  | error refusal =>
    have node : (context.answer (context.inside? room) stack (.entry space key suffix text)).2 =
        { key, diagnostics := .ofIssues [refusal], detail := .multi (some text) (some "") [] } := by
      simp only [answer, opened]
      rfl
    rw [node] at noted ⊢
    have same : issue = refusal := List.mem_singleton.1 (List.mem_filter.1 noted).1
    subst same
    exact ⟨rfl, rfl⟩

/-- Among the look-ups of a text, errors are noted on references and on entries that are not
entered. -/
theorem isLookup_or_refusedEntry {key text : String} {child node : Trace Issue} {issue : Issue}
    (isChild : child ∈ (context.resolveText key text).children) (below : node ∈ child.preorder)
    (noted : issue ∈ node.diagnostics.errors) :
    node.isLookup = true ∨ context.RefusedEntry (.root key text) issue node := by
  obtain ⟨n, onLevel⟩ := Trace.mem_preorder_iff.1 below
  obtain ⟨scene, reaches, -, taken | ⟨room, rooms, request, member, rfl⟩⟩ :=
    exists_scene_of_mem_level isChild onLevel
  · rw [taken.diagnostics] at noted
    cases noted
  · cases request with
    | reference placement r =>
      -- whatever was found, the node of a reference is a look-up
      rw [Context.resolve_eq]
      exact .inl rfl
    | entry space name suffix inner =>
      obtain ⟨refused, node⟩ := resolve_entry_of_error noted
      have issues := reaches.issue_eq_of_refused rooms member .ofEntry refused
      obtain ⟨wildcard, reached, matched, references⟩ := reaches.exists_of_entry member
      refine .inr ⟨space, wildcard, inner, reached, ?_, references, ?_, ?_⟩
      all_goals rw [node]
      · exact matched
      · exact issues

end Context

namespace Compiler

/-- Every error is noted on a look-up that is reported as dangling or on an entry of a
section that is not entered. -/
theorem inspection_reports_errors (compiler : Compiler) (environment : Environment)
    (template : Structure) (node : Trace Issue) (issue : Issue)
    (member : node ∈ (compiler.compile environment template).nodes)
    (noted : issue ∈ node.diagnostics.errors) :
    (∃ report ∈ compiler.danglingReports environment template, issue ∈ report.diagnostics) ∨
      ∃ key text, template.keys.find? key = some (some text) ∧
        (compiler.context environment.keys template.vars).RefusedEntry (.root key text) issue
          node := by
  obtain ⟨key, text, atKey, child, isChild, below⟩ := exists_text_of_error member noted
  rcases Context.isLookup_or_refusedEntry isChild below noted with lookup | refused
  · exact .inl (exists_mem_danglingReports member lookup noted)
  · exact .inr ⟨key, text, atKey, refused⟩

/-- An environment with a key that asks for the section it belongs to. -/
def selfLayer : Environment := { name := "dev", keys := .ofPairs [("k/x", "{{k/*}}")] }

/-- A structure with a key that refers to the key in the section. -/
def selfUser : Structure := { name := "app", keys := .ofPairs [("K", "{{k/x}}")] }

/-- A structure with a key that refers to the section itself. -/
def sectionUser : Structure := { name := "app", keys := .ofPairs [("K", "{{k/*}}")] }

/-- From the section its key is entered and asks for the section again, which is an error on
a look-up. -/
theorem inspection_reports_section :
    ∃ report ∈ ({} : Compiler).danglingReports selfLayer sectionUser,
      .cyclicReference "k/*" ∈ report.diagnostics := by
  have noted : (({} : Compiler).compile selfLayer sectionUser).nodes.any (fun node =>
      node.isLookup && decide (.cyclicReference "k/*" ∈ node.diagnostics.errors)) = true := by
    decide +kernel
  obtain ⟨node, member, noted⟩ := List.any_eq_true.1 noted
  obtain ⟨lookup, noted⟩ := Bool.and_eq_true_iff.1 noted
  rcases inspection_reports_errors {} selfLayer sectionUser node (.cyclicReference "k/*") member
    (of_decide_eq_true noted) with reported | ⟨key, text, -, refused⟩
  · exact reported
  · rw [refused.not_isLookup] at lookup
    cases lookup

/-- From its key the section is entered and asks for the key again, which is an error on the
entry. No look-up has anything noted on it. -/
theorem inspection_misses_refused_entry :
    (({} : Compiler).compile selfLayer selfUser).hasErrors = true ∧
      ({} : Compiler).danglingReports selfLayer selfUser = [] :=
  ⟨by decide +kernel, by decide +kernel⟩

end Compiler

end LayeredConfig
