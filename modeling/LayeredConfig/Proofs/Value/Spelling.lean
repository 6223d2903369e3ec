import LayeredConfig.Value.Parser

/-!
# The parts of a value spell it out

Reading a value drops nothing and adds nothing: the verbatim texts of its parts, one
after the other, are the value. A value in which no reference stands is therefore its own
literal text.

## Main results

* `Value.source_parse` — the parts of a value spell out the value
-/

namespace LayeredConfig

namespace Delimiter

theorem eq_of_cutLastOpening? {text before after : List Char}
    (cut : cutLastOpening? text = some (before, after)) : text = before ++ opening ++ after := by
  induction text generalizing before with
  | nil => cases cut
  | cons c rest ih =>
    unfold cutLastOpening? at cut
    cases further : cutLastOpening? rest with
    | some pair =>
      obtain ⟨b, a⟩ := pair
      simp only [further, Option.some.injEq, Prod.mk.injEq] at cut
      obtain ⟨rfl, rfl⟩ := cut
      rw [ih further, List.cons_append, List.cons_append]
    | none =>
      simp only [further] at cut
      split at cut
      · cases cut
        rfl
      · cases cut

/-- The pieces with their delimiters and the rest make up the text. -/
theorem join_spans (text : List Char) :
    (spans text).1.flatMap (· ++ closing) ++ (spans text).2 = text := by
  fun_induction spans text with
  | case1 => rfl
  | case2 rest pieces tail read ih =>
    rw [read] at ih
    simpa [closing] using ih
  | case3 c rest notClosing tail read ih =>
    rw [read] at ih
    simpa using ih
  | case4 c rest notClosing piece pieces tail read ih =>
    rw [read] at ih
    simpa using ih

end Delimiter

theorem Reference.source_setCommand (reference : Reference) (name value : List Char) :
    (reference.setCommand name value).source = reference.source := by
  unfold setCommand
  split <;> rfl

theorem Reference.source_applyToken (reference : Reference) (token : List Char) :
    (reference.applyToken token).source = reference.source := by
  simp only [applyToken]
  split
  · rfl
  · split
    · exact source_setCommand reference _ _
    · rfl

theorem Reference.source_ofBody (body : List Char) (source : String) :
    (ofBody body source).source = source := by
  have kept : ∀ (tokens : List (List Char)) (reference : Reference),
      (tokens.foldl applyToken reference).source = reference.source := by
    intro tokens
    induction tokens with
    | nil => exact fun _ => rfl
    | cons token tokens ih =>
      exact fun reference => (ih _).trans (source_applyToken reference token)
  exact kept _ _

namespace Value

theorem source_cons (part : Part) (parts : List Part) :
    source (part :: parts) = part.source ++ source parts := rfl

theorem source_lead (text : List Char) (parts : List Part) :
    source (lead text parts) = String.ofList text ++ source parts := by
  unfold lead
  split
  · next empty =>
    rw [empty]
    exact (String.empty_append).symm
  · rfl

theorem eq_of_splitPiece? {piece before body : List Char}
    (split : splitPiece? piece = some (before, body)) :
    piece = before ++ Delimiter.opening ++ body := by
  unfold splitPiece? at split
  split at split
  · next cut =>
    split at split
    · cases split
    · cases split
      exact Delimiter.eq_of_cutLastOpening? cut
  · cases split

theorem source_assemble (tail : List Char) (pieces : List (List Char)) :
    String.ofList (assemble tail pieces).1 ++ source (assemble tail pieces).2 =
      String.ofList (pieces.flatMap (· ++ Delimiter.closing) ++ tail) := by
  induction pieces with
  | nil => exact String.append_empty
  | cons piece pieces ih =>
    unfold assemble
    cases split : splitPiece? piece with
    | none =>
      simp only [List.flatMap_cons, List.append_assoc, String.ofList_append]
      rw [String.append_assoc, String.append_assoc, ih, String.ofList_append]
    | some pair =>
      obtain ⟨before, body⟩ := pair
      simp only [source_cons, source_lead, Part.source, Reference.source_ofBody, ih,
        eq_of_splitPiece? split, Delimiter.enclose, List.flatMap_cons, List.append_assoc,
        String.ofList_append, String.append_assoc]

/-- The parts of a value spell out the value. -/
theorem source_parse (value : String) : source (parse value) = value := by
  rw [parse, parseChars, source_lead, source_assemble, Delimiter.join_spans, String.ofList_toList]

end Value

end LayeredConfig
