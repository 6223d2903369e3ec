import LayeredConfig.Proofs.Value.Pieces

/-!
# The grammar of values

Which references stand in a value can be told without reading it from the left: they are
the places where a body is enclosed in delimiters. Reading takes all of them, in order, and
takes nothing else, whatever stray or blank delimiters stand around them.

## Main definitions

* `Value.Occurs` — a body is enclosed in delimiters at some place of a text
* `Value.ListsOccurrences` — a list of all such places from left to right
* `Value.reading` — the literal text that a text begins with, and the parts behind it

## Main results

* `Value.occurs_append_iff` — where bodies are enclosed in a text that begins with a piece
* `Value.extractReferences_eq_map_occurrences` — reading finds what the grammar describes
-/

namespace LayeredConfig.Value

open Delimiter

variable {text piece rest before body : List Char} {start : Nat}

/-! ## Reading a text piece by piece -/

/-- The reference that is written by enclosing a body. -/
def enclosed (body : List Char) : Reference :=
  .ofBody body (String.ofList (enclose body))

/-- The literal text that a text begins with, and the parts from its first reference on. -/
def reading (text : List Char) : List Char × List Part :=
  assemble (spans text).2 (spans text).1

theorem parseChars_eq (text : List Char) :
    parseChars text = lead (reading text).1 (reading text).2 := rfl

theorem reading_of_hasClosing_eq_false (free : hasClosing text = false) :
    reading text = (text, []) := by
  rw [reading, spans_of_hasClosing_eq_false free]
  rfl

/-- A piece ends in a reference, or it adds to the literal text of what follows. -/
theorem reading_append (free : hasClosing (piece ++ ['}']) = false) (rest : List Char) :
    reading (piece ++ closing ++ rest) =
      match splitPiece? piece with
      | some (before, body) => (before, .reference (enclosed body) :: parseChars rest)
      | none => (piece ++ closing ++ (reading rest).1, (reading rest).2) := by
  rw [reading, spans_append free, assemble]
  cases splitPiece? piece <;> rfl

theorem references_lead (text : List Char) (parts : List Part) :
    references (lead text parts) = references parts := by
  unfold lead
  split <;> rfl

theorem references_parseChars (text : List Char) :
    references (parseChars text) = references (reading text).2 :=
  references_lead _ _

/-! ## Occurrences -/

/-- A body is enclosed in delimiters at a place of the text. -/
def Occurs (text : List Char) (start : Nat) (body : List Char) : Prop :=
  IsBody body ∧ ∃ before after, text = before ++ enclose body ++ after ∧ before.length = start

/-- All places of a text where a body is enclosed in delimiters, from left to right. No two of
them overlap. -/
structure ListsOccurrences (text : List Char) (found : List (Nat × List Char)) : Prop where
  apart : found.Pairwise fun a b => a.1 + (enclose a.2).length ≤ b.1
  mem_iff : ∀ start body, (start, body) ∈ found ↔ Occurs text start body

theorem not_occurs_of_hasClosing_eq_false (free : hasClosing text = false) :
    ¬ Occurs text start body := by
  rintro ⟨-, before, after, rfl, -⟩
  rw [hasClosing, ← Bool.not_eq_true, hasDoubled_iff] at free
  refine free ⟨before ++ opening ++ body, after, ?_⟩
  simp [enclose, closing]

/-- The piece that a text begins with is the text before its first closing delimiter. -/
theorem eq_of_append_closing {piece' rest' : List Char}
    (free : hasClosing (piece ++ ['}']) = false) (free' : hasClosing (piece' ++ ['}']) = false)
    (same : piece ++ closing ++ rest = piece' ++ closing ++ rest') : piece = piece' := by
  have cut := congrArg (fun text => (spans text).1) same
  simp only [spans_append free, spans_append free'] at cut
  exact (List.cons.inj cut).1

/-- A body is enclosed at the end of the first piece or behind it. -/
theorem occurs_append_iff (free : hasClosing (piece ++ ['}']) = false) :
    Occurs (piece ++ closing ++ rest) start body ↔
      (∃ before, splitPiece? piece = some (before, body) ∧ before.length = start) ∨
        ∃ start', Occurs rest start' body ∧ (piece ++ closing).length + start' = start := by
  constructor
  · rintro ⟨isBody, before, after, same, rfl⟩
    rw [List.append_assoc before] at same
    rcases List.append_eq_append_iff.1 same with ⟨front, rfl, behind⟩ | ⟨back, ends, behind⟩
    · refine .inr ⟨front.length, ⟨isBody, front, after, ?_, rfl⟩, List.length_append.symm⟩
      rw [behind, List.append_assoc]
    · rcases List.append_eq_append_iff.1 ends with ⟨front, rfl, split⟩ | ⟨back, rfl, rfl⟩
      · cases back with
        | nil =>
          rw [List.append_nil] at split
          subst split
          exact .inr ⟨0, ⟨isBody, [], after, behind.symm, rfl⟩, Nat.add_zero _⟩
        | cons c back =>
          -- what is left of the delimiter cannot begin an opening one
          have brace : c ∈ closing := by
            rw [split]
            exact List.mem_append_right _ List.mem_cons_self
          have brace : c = '}' := by simpa [closing] using brace
          subst brace
          cases behind
      · refine .inl ⟨before, (splitPiece?_eq_some_iff free).2 ⟨?_, isBody⟩, rfl⟩
        have inside : back ++ ['}'] <:+: before ++ back ++ ['}'] := by
          rw [List.append_assoc]
          exact (List.suffix_append _ _).isInfix
        have same : back ++ closing ++ rest = opening ++ body ++ closing ++ after := behind.symm
        rw [List.append_assoc]
        exact congrArg (before ++ ·) (eq_of_append_closing
          (hasDoubled_eq_false_of_isInfix inside free) (isBody.hasClosing_append [] rfl) same)
  · rintro (⟨before, split, rfl⟩ | ⟨start', ⟨isBody, before, after, rfl, rfl⟩, rfl⟩)
    · obtain ⟨rfl, isBody⟩ := (splitPiece?_eq_some_iff free).1 split
      exact ⟨isBody, before, rest, by simp [enclose], rfl⟩
    · refine ⟨isBody, piece ++ closing ++ before, after, ?_, List.length_append⟩
      simp only [List.append_assoc]

theorem listsOccurrences_of_hasClosing_eq_false (free : hasClosing text = false) :
    ListsOccurrences text [] where
  apart := .nil
  mem_iff start body := by simp [not_occurs_of_hasClosing_eq_false free]

/-- The occurrences of a text that begins with a piece are the one at the end of the piece, if
there is one, and those of what follows. -/
theorem ListsOccurrences.append {found : List (Nat × List Char)}
    (lists : ListsOccurrences rest found) (free : hasClosing (piece ++ ['}']) = false) :
    ListsOccurrences (piece ++ closing ++ rest)
      (((splitPiece? piece).map fun pair => (pair.1.length, pair.2)).toList ++
        found.map fun place => ((piece ++ closing).length + place.1, place.2)) where
  apart := by
    have later : (found.map fun place => ((piece ++ closing).length + place.1, place.2)).Pairwise
        fun a b => a.1 + (enclose a.2).length ≤ b.1 := by
      refine List.pairwise_map.2 (lists.apart.imp fun {a b} apart => ?_)
      dsimp only
      omega
    cases split : splitPiece? piece with
    | none => exact later
    | some pair =>
      obtain ⟨before, body⟩ := pair
      refine List.pairwise_cons.2 ⟨fun place member => ?_, later⟩
      obtain ⟨place, -, rfl⟩ := List.mem_map.1 member
      -- the piece with its delimiter ends where the occurrence does
      obtain ⟨rfl, -⟩ := (splitPiece?_eq_some_iff free).1 split
      simp only [enclose, List.length_append]
      omega
  mem_iff start body := by
    rw [occurs_append_iff free, List.mem_append, Option.mem_toList, Option.map_eq_some_iff,
      List.mem_map]
    refine or_congr ?_ ?_
    · simp
    · simp [← lists.mem_iff]

/-- Reading a text finds its occurrences. -/
theorem exists_listsOccurrences (text : List Char) :
    ∃ found, ListsOccurrences text found ∧
      references (parseChars text) = found.map fun place => enclosed place.2 := by
  induction text using pieceInduction with
  | tail text free =>
    refine ⟨[], listsOccurrences_of_hasClosing_eq_false free, ?_⟩
    rw [references_parseChars, reading_of_hasClosing_eq_false free]
    rfl
  | piece piece rest free ih =>
    obtain ⟨found, lists, read⟩ := ih
    refine ⟨_, lists.append free, ?_⟩
    rw [references_parseChars, reading_append free, List.map_append, List.map_map]
    cases splitPiece? piece with
    | none => exact (references_parseChars rest).symm.trans read
    | some pair => exact congrArg (enclosed pair.2 :: ·) read

/-- The references of a value are those that its text encloses, from left to right. They are
all bodies that are enclosed in delimiters anywhere in the text, and no two of them overlap.
The look at the delimiters alone never misses a reference. -/
theorem extractReferences_eq_map_occurrences (value : String) :
    (∃ found, ListsOccurrences value.toList found ∧
      extractReferences value =
        found.map fun place => .ofBody place.2 (String.ofList (enclose place.2))) ∧
    (hasReferences value = true ↔ ∃ start body, Occurs value.toList start body) := by
  obtain ⟨found, lists, read⟩ := exists_listsOccurrences value.toList
  refine ⟨⟨found, lists, read⟩, ?_⟩
  have someFound : (extractReferences value).isEmpty = false ↔
      ∃ start body, Occurs value.toList start body := by
    rw [extractReferences, parse, read, List.isEmpty_map, List.isEmpty_eq_false_iff_exists_mem]
    simp only [Prod.exists, lists.mem_iff]
  rw [hasReferences, Bool.and_eq_true, Bool.and_eq_true, Bool.not_eq_true', someFound]
  refine ⟨And.right, fun occurs => ⟨?_, occurs⟩⟩
  obtain ⟨start, body, -, before, after, same, -⟩ := occurs
  rw [hasOpening, hasClosing, hasDoubled_iff, hasDoubled_iff, same]
  refine ⟨⟨before, body ++ closing ++ after, ?_⟩, before ++ opening ++ body, after, ?_⟩
  · simp [enclose, opening]
  · simp [enclose, closing]

/-- Stray, blank and unterminated delimiters hide nothing of what stands between them. -/
example : extractReferences "{{{a}}}{{ }}{{b}}\x7b\x7b" = [enclosed ['a'], enclosed ['b']] := by
  decide +kernel

end LayeredConfig.Value
