import Mathlib.Data.List.Chain
import LayeredConfig.Proofs.Value.Grammar

/-!
# Reading and writing values

The parts of a value spell it out, so a value can be written back from its parts. Conversely
parts are read back from what they spell, unless the text of one of them would be read
differently by itself or two stretches of literal text stand side by side. Where one part
ends and the next one begins no reference appears, moves or gets lost.

## Main definitions

* `Value.Canonical` — parts as they come from reading a value

## Main results

* `Value.eq_enclosed_of_parseChars` — what is read as a single reference
* `Value.parse_source_iff_canonical` — reading and writing are inverse to each other
-/

namespace LayeredConfig.Value

open Delimiter

variable {text literal rest body : List Char} {parts : List Part} {reference : Reference}

/-- Parts as they come from reading a value: no literal text is empty or stands beside
another one, and each part is what its own text is read as. -/
structure Canonical (parts : List Part) : Prop where
  nonempty : .literal "" ∉ parts
  apart : parts.IsChain fun a b => a.reference?.isSome ∨ b.reference?.isSome
  stable : ∀ part ∈ parts, parse part.source = [part]

/-! ## Texts without references -/

theorem lead_nil (parts : List Part) : lead [] parts = parts := rfl

theorem lead_ne_nil (nonempty : text ≠ []) (parts : List Part) :
    lead text parts = .literal (String.ofList text) :: parts :=
  if_neg nonempty

/-- A text in which no reference stands is its own literal text. -/
theorem parse_of_reading (nonempty : text ≠ []) (plain : reading text = (text, [])) :
    parse (String.ofList text) = [.literal (String.ofList text)] := by
  rw [parse, String.toList_ofList, parseChars_eq, plain, lead_ne_nil nonempty]

/-- The literal text that a text begins with has no reference in it. -/
theorem reading_reading (text : List Char) :
    reading (reading text).1 = ((reading text).1, []) := by
  induction text using pieceInduction with
  | tail text free => rw [reading_of_hasClosing_eq_false free, reading_of_hasClosing_eq_false free]
  | piece piece rest free ih =>
    rw [reading_append free]
    cases split : splitPiece? piece with
    | none => simp only [reading_append free, split, ih]
    | some pair =>
      obtain ⟨before, body⟩ := pair
      obtain ⟨rfl, -⟩ := (splitPiece?_eq_some_iff free).1 split
      refine reading_of_hasClosing_eq_false (hasDoubled_eq_false_of_isInfix ?_ free)
      simp only [List.append_assoc]
      exact (List.prefix_append _ _).isInfix

/-- A reference behind a text without references is read as it is. -/
theorem reading_append_enclose (plain : reading literal = (literal, [])) (isBody : IsBody body)
    (rest : List Char) :
    reading (literal ++ enclose body ++ rest) =
      (literal, .reference (enclosed body) :: parseChars rest) := by
  induction literal using pieceInduction with
  | tail literal free =>
    have free := isBody.hasClosing_append literal free
    have split : splitPiece? (literal ++ opening ++ body) = some (literal, body) :=
      (splitPiece?_eq_some_iff free).2 ⟨rfl, isBody⟩
    have read := reading_append free rest
    rw [split] at read
    simpa only [enclose, List.append_assoc] using read
  | piece piece literal free ih =>
    rw [reading_append free] at plain
    cases split : splitPiece? piece with
    | some pair =>
      rw [split] at plain
      cases (Prod.mk.inj plain).2
    | none =>
      rw [split] at plain
      obtain ⟨front, parts⟩ := Prod.mk.inj plain
      have read := ih (Prod.ext (List.append_cancel_left front) parts)
      have step := reading_append free (literal ++ enclose body ++ rest)
      rw [split, read] at step
      simpa only [List.append_assoc] using step

/-! ## Single references -/

theorem parseChars_enclose_append (isBody : IsBody body) (rest : List Char) :
    parseChars (enclose body ++ rest) = .reference (enclosed body) :: parseChars rest := by
  have nothing : reading [] = ([], []) := rfl
  have read := reading_append_enclose nothing isBody rest
  rw [List.nil_append] at read
  rw [parseChars_eq, read]
  rfl

/-- A reference ends the literal text before it, whatever that ends with. -/
theorem parseChars_append_enclose (nonempty : literal ≠ [])
    (plain : reading literal = (literal, [])) (isBody : IsBody body) (rest : List Char) :
    parseChars (literal ++ enclose body ++ rest) =
      .literal (String.ofList literal) :: parseChars (enclose body ++ rest) := by
  rw [parseChars_eq, reading_append_enclose plain isBody, parseChars_enclose_append isBody]
  exact lead_ne_nil nonempty _

/-- A reference is read back from its own text. -/
theorem parse_enclosed (isBody : IsBody body) :
    parse (enclosed body).source = [.reference (enclosed body)] := by
  have read := parseChars_enclose_append isBody []
  rw [List.append_nil] at read
  rw [enclosed, Reference.source_ofBody, parse, String.toList_ofList]
  exact read

theorem eq_nil_of_parseChars_eq_nil (nothing : parseChars text = []) : text = [] := by
  have spelled := source_parse (String.ofList text)
  rw [parse, String.toList_ofList, nothing] at spelled
  exact (String.ofList_injective spelled).symm

theorem eq_nil_of_lead_eq {parts' : List Part}
    (led : lead text parts = .reference reference :: parts') : text = [] := by
  by_contra nonempty
  rw [lead_ne_nil nonempty] at led
  cases led

/-- What is read as a single reference is an enclosed body and nothing else. -/
theorem eq_enclosed_of_parseChars (read : parseChars text = [.reference reference]) :
    ∃ body, IsBody body ∧ text = enclose body ∧ reference = enclosed body := by
  rw [parseChars_eq] at read
  -- nothing stands before the reference, so the text begins with the piece that holds it
  have atStart := eq_nil_of_lead_eq read
  rcases exists_piece text with free | ⟨piece, rest, free, rfl⟩
  · rw [reading_of_hasClosing_eq_false free] at atStart read
    rw [atStart] at read
    cases read
  · rw [reading_append free] at atStart read
    cases split : splitPiece? piece with
    | none =>
      rw [split] at atStart
      simp [closing] at atStart
    | some pair =>
      obtain ⟨before, body⟩ := pair
      obtain ⟨rfl, isBody⟩ := (splitPiece?_eq_some_iff free).1 split
      rw [split] at atStart read
      obtain rfl : before = [] := atStart
      rw [lead_nil] at read
      obtain ⟨same, nothing⟩ := List.cons.inj read
      refine ⟨body, isBody, ?_, (Part.reference.inj same).symm⟩
      rw [eq_nil_of_parseChars_eq_nil nothing]
      simp [enclose]

/-! ## Canonical parts -/

theorem canonical_nil : Canonical [] where
  nonempty := List.not_mem_nil
  apart := .nil
  stable _ member := nomatch member

theorem canonical_cons_iff {part : Part} : Canonical (part :: parts) ↔
    parse part.source = [part] ∧
      (∀ next ∈ parts.head?, part.reference?.isSome ∨ next.reference?.isSome) ∧
      Canonical parts := by
  constructor
  · rintro ⟨nonempty, apart, stable⟩
    obtain ⟨beside, apart⟩ := List.isChain_cons.1 apart
    obtain ⟨first, stable⟩ := List.forall_mem_cons.1 stable
    exact ⟨first, beside, fun empty => nonempty (List.mem_cons_of_mem _ empty), apart, stable⟩
  · rintro ⟨first, beside, nonempty, apart, stable⟩
    refine ⟨fun empty => ?_, List.isChain_cons.2 ⟨beside, apart⟩,
      List.forall_mem_cons.2 ⟨first, stable⟩⟩
    rcases List.mem_cons.1 empty with rfl | empty
    · -- no text at all is read as no part
      cases first
    · exact nonempty empty

theorem canonical_lead (canonical : Canonical parts)
    (beside : ∀ next ∈ parts.head?, next.reference?.isSome = true)
    (plain : reading text = (text, [])) : Canonical (lead text parts) := by
  by_cases empty : text = []
  · rw [empty]
    exact canonical
  · rw [lead_ne_nil empty]
    exact canonical_cons_iff.2
      ⟨parse_of_reading empty plain, fun next member => .inr (beside next member), canonical⟩

/-- Behind the literal text that a text begins with stand canonical parts, a reference first. -/
theorem canonical_reading (text : List Char) : Canonical (reading text).2 ∧
    ∀ next ∈ (reading text).2.head?, next.reference?.isSome = true := by
  induction text using pieceInduction with
  | tail text free =>
    rw [reading_of_hasClosing_eq_false free]
    exact ⟨canonical_nil, nofun⟩
  | piece piece rest free ih =>
    rw [reading_append free]
    cases split : splitPiece? piece with
    | none => exact ih
    | some pair =>
      obtain ⟨before, body⟩ := pair
      obtain ⟨-, isBody⟩ := (splitPiece?_eq_some_iff free).1 split
      have canonical : Canonical (parseChars rest) :=
        canonical_lead ih.1 ih.2 (reading_reading rest)
      refine ⟨canonical_cons_iff.2 ⟨parse_enclosed isBody, fun _ _ => .inl rfl, canonical⟩, ?_⟩
      rintro next ⟨⟩
      rfl

theorem canonical_parseChars (text : List Char) : Canonical (parseChars text) :=
  canonical_lead (canonical_reading text).1 (canonical_reading text).2 (reading_reading text)

theorem reading_of_parse {value : String} (read : parse value = [.literal value]) :
    reading value.toList = (value.toList, []) := by
  rw [parse, parseChars_eq] at read
  by_cases empty : (reading value.toList).1 = []
  · -- behind nothing stands a reference, if anything
    rw [empty, lead_nil] at read
    have first := (canonical_reading value.toList).2 (.literal value) (by rw [read]; rfl)
    cases first
  · rw [lead_ne_nil empty] at read
    obtain ⟨same, nothing⟩ := List.cons.inj read
    have start := congrArg String.toList (Part.literal.inj same)
    rw [String.toList_ofList] at start
    exact Prod.ext start nothing

theorem parse_source_of_canonical (canonical : Canonical parts) :
    parse (source parts) = parts := by
  induction parts with
  | nil => rfl
  | cons part parts ih =>
    obtain ⟨stable, beside, later⟩ := canonical_cons_iff.1 canonical
    have read := ih later
    cases part with
    | reference r =>
      -- a reference ends where its delimiter does, whatever stands behind it
      obtain ⟨body, isBody, spelled, rfl⟩ := eq_enclosed_of_parseChars stable
      rw [source_cons, parse, String.toList_append, spelled, parseChars_enclose_append isBody]
      exact congrArg _ read
    | literal text =>
      cases parts with
      | nil => exact (congrArg parse String.append_empty).trans stable
      | cons next parts =>
        cases next with
        | literal text' => simpa [Part.reference?] using beside _ rfl
        | reference r =>
          -- the literal text ends where the body of the next reference is opened
          obtain ⟨body, isBody, spelled, rfl⟩ :=
            eq_enclosed_of_parseChars (canonical_cons_iff.1 later).1
          have nonempty : text.toList ≠ [] := by
            intro empty
            rw [parse, Part.source, empty] at stable
            cases stable
          have spelled : (source (.reference (enclosed body) :: parts)).toList =
              enclose body ++ (source parts).toList := by
            rw [source_cons, String.toList_append, spelled]
          rw [parse, spelled] at read
          have ends := parseChars_append_enclose nonempty (reading_of_parse stable) isBody
            (source parts).toList
          rw [String.ofList_toList, read, List.append_assoc, ← spelled, ← String.toList_append]
            at ends
          exact ends

/-- Reading a value and writing its parts are inverse to each other: each value is written
back as it was from its parts, which are canonical, and exactly the canonical parts are read
back as they were from what they spell. -/
theorem parse_source_iff_canonical :
    (∀ value, Canonical (parse value) ∧ source (parse value) = value) ∧
      ∀ parts, parse (source parts) = parts ↔ Canonical parts := by
  refine ⟨fun value => ⟨canonical_parseChars _, source_parse value⟩, fun parts =>
    ⟨fun read => ?_, parse_source_of_canonical⟩⟩
  rw [← read]
  exact canonical_parseChars _

end LayeredConfig.Value
