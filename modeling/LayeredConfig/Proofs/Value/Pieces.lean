import LayeredConfig.Proofs.Value.Spelling

/-!
# Cutting a text at its delimiters

A text is read piece by piece: up to the first closing delimiter, then from there on. Since
the first one counts, a piece holds no closing delimiter, not even one that overlaps the
delimiter after it. In the same way the last opening delimiter of a piece counts, so no
other one stands behind it or overlaps it. These two rules fix how a text is cut.

## Main definitions

* `Delimiter.IsBody` — the texts that make a reference when they are enclosed

## Main results

* `Delimiter.spans_append`, `Delimiter.pieceInduction` — how a text is cut into pieces
* `Delimiter.cutLastOpening?_eq_some_iff` — which opening delimiter is the last one
* `Value.splitPiece?_eq_some_iff` — which pieces hold a reference
-/

namespace LayeredConfig

namespace Delimiter

variable {text piece rest before after body : List Char} {c : Char}

/-! ## Doubled characters -/

theorem hasDoubled_iff : hasDoubled c text = true ↔ [c, c] <:+: text := by
  fun_induction hasDoubled c text with
  | case1 a b rest ih =>
    have atHead : [c, c] <+: a :: b :: rest ↔ a = c ∧ b = c := by
      simp [List.cons_prefix_cons, eq_comm]
    have further : [c, c] <:+: a :: b :: rest ↔
        [c, c] <+: a :: b :: rest ∨ [c, c] <:+: b :: rest := List.infix_cons_iff
    rw [further, atHead, ← ih, Bool.or_eq_true, Bool.and_eq_true, decide_eq_true_eq,
      decide_eq_true_eq]
  | case2 text short =>
    simp only [Bool.false_eq_true, false_iff]
    intro inside
    match text, inside.length_le with
    | a :: b :: rest, _ => exact short a b rest rfl

/-- A text in which a character is not doubled has no part in which it is. -/
theorem hasDoubled_eq_false_of_isInfix {part : List Char} (inside : part <:+: text)
    (single : hasDoubled c text = false) : hasDoubled c part = false := by
  rw [← Bool.not_eq_true, hasDoubled_iff] at single ⊢
  exact fun doubled => single (doubled.trans inside)

theorem hasDoubled_cons_self_eq_false_iff :
    hasDoubled c (c :: text) = false ↔ hasDoubled c text = false ∧ text.head? ≠ some c := by
  cases text with
  | nil => simp [hasDoubled]
  | cons a text => simp [hasDoubled, and_comm]

theorem hasDoubled_append_self_eq_false_iff :
    hasDoubled c (text ++ [c]) = false ↔
      hasDoubled c text = false ∧ text.getLast? ≠ some c := by
  have atEnd : [c, c] <:+ text ++ [c] ↔ text.getLast? = some c := by
    rw [List.getLast?_eq_some_iff]
    constructor
    · rintro ⟨front, same⟩
      have same : front ++ [c] ++ [c] = text ++ [c] := by simpa using same
      exact ⟨front, (List.append_cancel_right same).symm⟩
    · rintro ⟨front, rfl⟩
      exact ⟨front, by simp⟩
  simp only [← Bool.not_eq_true, hasDoubled_iff, List.infix_concat_iff, atEnd, not_or]
  exact and_comm

/-! ## Pieces

That `piece ++ ['}']` has no closing delimiter says that the first one of
`piece ++ closing ++ rest` is the one behind the piece. -/

theorem hasClosing_cons (open? : ¬ ∃ after, c = '}' ∧ text = '}' :: after) :
    hasClosing (c :: text) = hasClosing text := by
  cases text with
  | nil => rfl
  | cons d text =>
    simp only [hasClosing, hasDoubled, Bool.or_eq_right_iff_imp, Bool.and_eq_true,
      decide_eq_true_eq]
    rintro ⟨rfl, rfl⟩
    exact absurd ⟨text, rfl, rfl⟩ open?

theorem spans_cons (open? : ¬ ∃ after, c = '}' ∧ text = '}' :: after) :
    spans (c :: text) =
      match spans text with
      | ([], tail) => ([], c :: tail)
      | (piece :: pieces, tail) => ((c :: piece) :: pieces, tail) :=
  spans.eq_3 c text fun after same closed => open? ⟨after, same, closed⟩

theorem spans_of_hasClosing_eq_false (free : hasClosing text = false) :
    spans text = ([], text) := by
  induction text with
  | nil => rfl
  | cons c text ih =>
    have notClosed : ¬ ∃ after, c = '}' ∧ text = '}' :: after := by
      rintro ⟨after, rfl, rfl⟩
      cases free
    rw [hasClosing_cons notClosed] at free
    rw [spans_cons notClosed, ih free]

/-- The delimiter behind a piece does not begin within the piece. -/
theorem not_closed_of_cons_piece (free : hasClosing (c :: piece ++ ['}']) = false) :
    ¬ ∃ after, c = '}' ∧ piece ++ closing ++ rest = '}' :: after := by
  rintro ⟨after, rfl, same⟩
  cases piece with
  | nil => cases free
  | cons d piece =>
    cases same
    cases free

theorem spans_append (free : hasClosing (piece ++ ['}']) = false) (rest : List Char) :
    spans (piece ++ closing ++ rest) = (piece :: (spans rest).1, (spans rest).2) := by
  induction piece with
  | nil => rfl
  | cons c piece ih =>
    have inside : piece ++ ['}'] <:+: c :: piece ++ ['}'] := (List.suffix_cons c _).isInfix
    rw [List.cons_append, List.cons_append, spans_cons (not_closed_of_cons_piece free),
      ih (hasDoubled_eq_false_of_isInfix inside free)]

/-- A text without a closing delimiter is all tail, any other one begins with a piece. -/
theorem exists_piece (text : List Char) : hasClosing text = false ∨
    ∃ piece rest, hasClosing (piece ++ ['}']) = false ∧ text = piece ++ closing ++ rest := by
  induction text with
  | nil => exact .inl rfl
  | cons c text ih =>
    by_cases closed : ∃ after, c = '}' ∧ text = '}' :: after
    · obtain ⟨after, rfl, rfl⟩ := closed
      exact .inr ⟨[], after, rfl, rfl⟩
    · rcases ih with free | ⟨piece, rest, free, rfl⟩
      · exact .inl ((hasClosing_cons closed).trans free)
      · refine .inr ⟨c :: piece, rest, ?_, rfl⟩
        rw [List.cons_append, hasClosing_cons, free]
        rintro ⟨after, rfl, same⟩
        refine closed ⟨(piece ++ closing ++ rest).tail, rfl, ?_⟩
        cases piece with
        | nil => rfl
        | cons d piece =>
          cases same
          rfl

/-- Induction over the pieces of a text: for the tail after the last piece, and for a piece
in front of a text for which the statement holds. -/
@[elab_as_elim]
theorem pieceInduction {motive : List Char → Prop}
    (tail : ∀ text, hasClosing text = false → motive text)
    (piece : ∀ piece rest, hasClosing (piece ++ ['}']) = false → motive rest →
      motive (piece ++ closing ++ rest))
    (text : List Char) : motive text := by
  rcases exists_piece text with free | ⟨front, rest, free, same⟩
  · exact tail text free
  · rw [same]
    exact piece front rest free (pieceInduction tail piece rest)
termination_by text.length
decreasing_by
  rw [same]
  simp only [List.length_append, closing, List.length_cons, List.length_nil]
  omega

/-! ## The last opening delimiter -/

theorem cutLastOpening?_eq_none_iff : cutLastOpening? text = none ↔ hasOpening text = false := by
  constructor
  · intro notFound
    induction text with
    | nil => rfl
    | cons c text ih =>
      unfold cutLastOpening? at notFound
      split at notFound
      · cases notFound
      · next further =>
        cases text with
        | nil => rfl
        | cons d text =>
          -- neither here nor further on
          have here : ¬ (c = '{' ∧ d = '{') := by
            rintro ⟨rfl, rfl⟩
            cases notFound
          rw [hasOpening, hasDoubled, Bool.or_eq_false_iff]
          exact ⟨by simpa using here, ih further⟩
  · intro free
    cases cut : cutLastOpening? text with
    | none => rfl
    | some pair =>
      have inside : opening <:+: text := by
        rw [eq_of_cutLastOpening? cut]
        exact List.infix_append pair.1 opening pair.2
      rw [hasOpening, ← Bool.not_eq_true, hasDoubled_iff] at free
      exact absurd inside free

/-- An opening delimiter is the last one if no other one stands behind it or overlaps it. -/
theorem cutLastOpening?_eq_some_iff : cutLastOpening? text = some (before, after) ↔
    text = before ++ opening ++ after ∧ hasOpening ('{' :: after) = false := by
  constructor
  · intro cut
    refine ⟨eq_of_cutLastOpening? cut, ?_⟩
    induction text generalizing before with
    | nil => cases cut
    | cons c text ih =>
      unfold cutLastOpening? at cut
      split at cut
      · next further =>
        cases cut
        exact ih further
      · next further =>
        split at cut
        · cases cut
          exact cutLastOpening?_eq_none_iff.1 further
        · cases cut
  · rintro ⟨rfl, free⟩
    have last := cutLastOpening?_eq_none_iff.2 free
    induction before with
    | nil =>
      simp only [opening, List.nil_append, List.cons_append]
      unfold cutLastOpening?
      simp only [last]
    | cons c before ih =>
      rw [List.cons_append, List.cons_append]
      unfold cutLastOpening?
      rw [ih]

/-! ## Bodies -/

/-- A text that makes a reference when it is enclosed in delimiters: it holds none, begins
and ends so that no brace of its own adds to them, and is not blank. -/
structure IsBody (body : List Char) : Prop where
  noOpening : hasOpening body = false
  noClosing : hasClosing body = false
  head : body.head? ≠ some '{'
  last : body.getLast? ≠ some '}'
  notBlank : Text.allBlank body = false

theorem isBody_iff : IsBody body ↔
    hasOpening ('{' :: body) = false ∧ hasClosing (body ++ ['}']) = false ∧
      Text.allBlank body = false := by
  rw [hasOpening, hasClosing, hasDoubled_cons_self_eq_false_iff,
    hasDoubled_append_self_eq_false_iff]
  constructor
  · rintro ⟨noOpening, noClosing, head, last, notBlank⟩
    exact ⟨⟨noOpening, head⟩, ⟨noClosing, last⟩, notBlank⟩
  · rintro ⟨⟨noOpening, head⟩, ⟨noClosing, last⟩, notBlank⟩
    exact ⟨noOpening, noClosing, head, last, notBlank⟩

instance (body : List Char) : Decidable (IsBody body) :=
  decidable_of_iff _ isBody_iff.symm

/-- An opening delimiter hides no closing one. -/
theorem hasClosing_append_opening (before after : List Char) :
    hasClosing (before ++ opening ++ after) = (hasClosing before || hasClosing after) := by
  induction before with
  | nil => cases after <;> simp [opening, hasClosing, hasDoubled]
  | cons c before ih =>
    cases before with
    | nil => cases after <;> simp [opening, hasClosing, hasDoubled]
    | cons d before =>
      simp only [List.cons_append, hasClosing, hasDoubled] at ih ⊢
      rw [ih, Bool.or_assoc]

/-- The first closing delimiter behind an opening one and a body is the one that encloses
the body. -/
theorem IsBody.hasClosing_append (isBody : IsBody body) (before : List Char)
    (free : hasClosing before = false) :
    hasClosing (before ++ opening ++ body ++ ['}']) = false := by
  rw [List.append_assoc, hasClosing_append_opening, free, (isBody_iff.1 isBody).2.1]
  rfl

end Delimiter

namespace Value

open Delimiter

variable {piece before body : List Char}

/-- A piece holds the reference whose body stands behind its last opening delimiter. -/
theorem splitPiece?_eq_some_iff (free : hasClosing (piece ++ ['}']) = false) :
    splitPiece? piece = some (before, body) ↔
      piece = before ++ opening ++ body ∧ IsBody body := by
  have cut : splitPiece? piece = some (before, body) ↔
      cutLastOpening? piece = some (before, body) ∧ Text.allBlank body = false := by
    unfold splitPiece?
    cases cutLastOpening? piece with
    | none => simp
    | some pair =>
      cases blank : Text.allBlank pair.2 <;> grind
  rw [cut, cutLastOpening?_eq_some_iff, isBody_iff, and_assoc]
  refine and_congr_right fun same => and_congr_right fun _ => ?_
  -- the end of a body is the end of its piece, which no closing delimiter overlaps
  have inside : body ++ ['}'] <:+: piece ++ ['}'] := by
    rw [same, List.append_assoc]
    exact (List.suffix_append _ _).isInfix
  exact (and_iff_right (hasDoubled_eq_false_of_isInfix inside free)).symm

end Value

end LayeredConfig
