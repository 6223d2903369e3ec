import LayeredConfig.Proofs.Compilation.Clean
import LayeredConfig.Proofs.Resolution.Wording

/-!
# Compiled configurations and the wording of references

A compiled configuration tells nothing about how its references are written. Which paths are
written, which of them collide and what the texts come to is the same for all ways of reading
texts that find the same targets, and the traces differ in the wording of references only.

## Main definitions

* `CompilationResult.unworded` — a result without the wording of its references

## Main results

* `Context.Rereads.unworded_draft` — a key is drafted alike
* `Compiler.compile_of_sameTargets` — compilations that read the same targets come to the
  same, and the two ways of writing a reserved name have one target
-/

namespace LayeredConfig

open Delimiter

namespace Draft

/-- A draft without the wording of the references that were looked up. -/
def unworded (draft : Draft) : Draft :=
  { draft with children := draft.children.map Trace.unworded }

theorem trace_unworded (draft : Draft) (written taken : List String) :
    draft.unworded.trace written taken = (draft.trace written taken).unworded := by
  rw [Trace.unworded_eq]
  have noted : (taken.map Issue.keyCollision).map Issue.unworded = taken.map .keyCollision :=
    List.map_map
  simp only [trace, Diagnostics.map_unworded_ofIssues, noted]
  obtain ⟨key, value | ⟨raw, text | entries⟩, children⟩ := draft <;> rfl

end Draft

namespace CompilationResult

/-- A result without the wording of the references in its traces. -/
def unworded (result : CompilationResult Issue) : CompilationResult Issue :=
  { result with trace := result.trace.map Trace.unworded }

theorem unworded_ofDrafts (map : ConfigMap) (drafts : List Draft) :
    (ofDrafts map drafts).unworded = ofDrafts map (drafts.map Draft.unworded) := by
  induction drafts generalizing map with
  | nil => rfl
  | cons draft drafts ih =>
    have writes : draft.unworded.writes = draft.writes := rfl
    simp only [List.map_cons, ofDrafts, writes, Draft.trace_unworded, ← ih]
    rfl

end CompilationResult

namespace Context

variable {context : Context} {parse : String → List Part}

theorem Rereads.unworded_draft (rereads : context.Rereads parse) (key : String)
    (value : Option String) :
    (context.draft key value).unworded = ((context.reading parse).draft key value).unworded := by
  cases value with
  | none => rfl
  | some text =>
    have plain := (rereads text).references_eq_nil_iff
    by_cases references : Value.references (context.parse text) = []
    · have references' : Value.references ((context.reading parse).parse text) = [] :=
        plain.1 references
      rw [children_draft_of_plain references, children_draft_of_plain references']
    · have references' : Value.references ((context.reading parse).parse text) ≠ [] :=
        mt plain.2 references
      have found : (context.resolveText key text).unworded =
          ((context.reading parse).resolveText key text).unworded :=
        rereads.unworded_resolvePartsOf key (rereads text)
      have outcome := Finding.outcome_eq_of_unworded found
      have children : (context.resolveText key text).children.map Trace.unworded =
          ((context.reading parse).resolveText key text).children.map Trace.unworded :=
        congrArg Finding.children found
      rw [draft_of_references references, draft_of_references references', Draft.unworded,
        Draft.unworded, outcome, children]

end Context

/-- A part whose reference keeps only the commands that say where to look. -/
def Part.bare : Part → Part
  | literal text => literal text
  | reference r => reference { r with caption := none, unrecognized := [], source := "" }

theorem Part.sameTarget_bare (part : Part) : part.SameTarget part.bare := by
  cases part with
  | literal text => exact .literal text
  | reference r => exact .reference rfl

namespace Compiler

/-- Only the targets of references count. Two ways of reading texts that find the same literal
texts and the same targets in the same places compile a structure to the same configuration,
and the traces differ in nothing but the wording of references. In particular a reserved name
may be written in front of the path or in a command: either way it is one reference, answered
alike above every stack and with any room, and a text in which it stands is resolved alike. -/
theorem compile_of_sameTargets :
    (∀ (compiler : Compiler) (parse : String → List Part),
      (∀ text, Value.SameTargets (compiler.parse text) (parse text)) →
      ∀ environment template,
        (compiler.compile environment template).compiled =
            ({ compiler with parse }.compile environment template).compiled ∧
          (compiler.compile environment template).trace.map Trace.unworded =
            ({ compiler with parse }.compile environment template).trace.map Trace.unworded) ∧
    ∀ (name path : List Char) (space : Namespace), Namespace.ofReserved? name = some space →
      Reference.IsPlainPath path →
      ∃ r r', Value.parseChars (enclose (Reference.prefixedBody name path)) = [.reference r] ∧
        Value.parseChars (enclose (Reference.selectedBody name path)) = [.reference r'] ∧
        ∀ context : Context,
          (∀ room stack placement,
            SameButWording (context.resolve room stack (.reference placement r))
              (context.resolve room stack (.reference placement r'))) ∧
          ∀ (key : String) (before after : List Char),
            (context.resolvePartsOf key (Value.parseChars
                (before ++ enclose (Reference.prefixedBody name path) ++ after))).unworded =
              (context.resolvePartsOf key (Value.parseChars
                (before ++ enclose (Reference.selectedBody name path) ++ after))).unworded := by
  constructor
  · intro compiler parse rereads environment template
    have same : (compiler.compile environment template).unworded =
        ({ compiler with parse }.compile environment template).unworded := by
      rw [compile, compile, CompilationResult.unworded_ofDrafts,
        CompilationResult.unworded_ofDrafts, Context.drafts, Context.drafts, List.map_map,
        List.map_map]
      have rereads : (compiler.context environment.keys template.vars).Rereads parse := rereads
      exact congrArg _ (List.map_congr_left fun entry _ => rereads.unworded_draft entry.1 entry.2)
    have compiled := congrArg CompilationResult.compiled same
    have trace := congrArg CompilationResult.trace same
    exact ⟨compiled, trace⟩
  · intro name path space isReserved plain
    have isBody := Reference.isBody_prefixedBody isReserved plain
    have isBody' := Reference.isBody_selectedBody isReserved plain
    have target : (Value.enclosed (Reference.prefixedBody name path)).target? =
        (Value.enclosed (Reference.selectedBody name path)).target? :=
      (Reference.target?_prefixedBody isReserved plain _).trans
        (Reference.target?_selectedBody isReserved plain _).symm
    have single {body : List Char} (isBody : IsBody body) :
        Value.parseChars (enclose body) = [.reference (Value.enclosed body)] := by
      have read := Value.parseChars_enclose_append isBody []
      rwa [List.append_nil] at read
    refine ⟨_, _, single isBody, single isBody', fun context => ?_⟩
    have rereads : context.Rereads context.parse := fun text => .refl _
    constructor
    · intro room stack placement
      exact rereads.resolve room stack _ _ (.reference placement target)
    · intro key before after
      exact rereads.unworded_resolvePartsOf key
        (Value.sameTargets_parseChars isBody isBody' target before after)

/-- An environment whose references are written at length and lead in a circle. -/
def wordyLayer : Environment where
  name := "dev"
  keys := .ofPairs [("a", "{{Alias:x;Mode:y;Path:b}}!"), ("b", "{{ a }}")]

/-- A structure with a reference under an alias. -/
def wordyUser : Structure where
  name := "app"
  keys := .ofPairs [("k", "<{{Alias:z;Path:a}}>")]

/-- The alias, the unknown command and the verbatim text of a reference make no difference, also
where it leads in a circle. A reserved name may be written in any letter case. -/
theorem compile_of_sameTargets_wordy :
    (∀ text, Value.SameTargets (Value.parse text) ((Value.parse text).map Part.bare)) ∧
      (({} : Compiler).compile wordyLayer wordyUser).compiled =
        (({ parse := fun text => (Value.parse text).map Part.bare } : Compiler).compile
          wordyLayer wordyUser).compiled ∧
      Namespace.ofReserved? "$STRUCT".toList = some .vars ∧
      Reference.IsPlainPath "a b".toList ∧
      String.ofList (enclose (Reference.prefixedBody "$STRUCT".toList "a b".toList)) =
        "\x7b\x7b$STRUCT/a b\x7d\x7d" ∧
      String.ofList (enclose (Reference.selectedBody "$STRUCT".toList "a b".toList)) =
        "\x7b\x7bUsing:$STRUCT;Path:a b\x7d\x7d" ∧
      ∀ (context : Context) (key : String) (before after : List Char),
        (context.resolvePartsOf key (Value.parseChars (before ++
            enclose (Reference.prefixedBody "$STRUCT".toList "a b".toList) ++ after))).unworded =
          (context.resolvePartsOf key (Value.parseChars (before ++
            enclose (Reference.selectedBody "$STRUCT".toList "a b".toList) ++
            after))).unworded := by
  have rereads : ∀ text, Value.SameTargets (Value.parse text) ((Value.parse text).map Part.bare) :=
    fun text => List.forall₂_map_right_iff.2
      (List.forall₂_same.2 fun part _ => part.sameTarget_bare)
  have isReserved : Namespace.ofReserved? "$STRUCT".toList = some .vars := by decide
  have plain : Reference.IsPlainPath "a b".toList := by decide
  obtain ⟨readings, spellings⟩ := compile_of_sameTargets
  obtain ⟨compiled, -⟩ := readings {} _ rereads wordyLayer wordyUser
  obtain ⟨_, _, -, -, alike⟩ := spellings _ _ _ isReserved plain
  exact ⟨rereads, compiled, isReserved, plain, by decide, by decide,
    fun context => (alike context).2⟩

end Compiler

end LayeredConfig
