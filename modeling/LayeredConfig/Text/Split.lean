/-!
# Cutting text at separators

Everything in a configuration is read by cutting text at fixed characters: a
reference body at `;` and `:`, a path at `/`. The functions here say where the
cut falls and nothing else; no piece is trimmed.

## Main definitions

* `Text.splitOn` — all pieces between the separators
* `Text.cutFirst?`, `Text.cutLast?` — the two sides of one separator
* `Text.stripPrefix?`, `Text.stripSuffix?` — what is left of a fixed beginning or end
* `Text.sameIgnoringCase` — equality up to the case of ASCII letters
-/

namespace LayeredConfig.Text

/-- The pieces between the separators, in order: one more than there are
separators, so the empty text has one empty piece. -/
def splitOn (separator : Char) : List Char → List (List Char)
  | [] => [[]]
  | c :: rest =>
    if c = separator then
      [] :: splitOn separator rest
    else
      match splitOn separator rest with
      | [] => [[c]]
      | piece :: pieces => (c :: piece) :: pieces

/-- The text before and after the first separator. -/
def cutFirst? (separator : Char) : List Char → Option (List Char × List Char)
  | [] => none
  | c :: rest =>
    if c = separator then
      some ([], rest)
    else
      (cutFirst? separator rest).map fun (before, after) => (c :: before, after)

/-- The text before and after the last separator. -/
def cutLast? (separator : Char) : List Char → Option (List Char × List Char)
  | [] => none
  | c :: rest =>
    match cutLast? separator rest with
    | some (before, after) => some (c :: before, after)
    | none => if c = separator then some ([], rest) else none

/-- What follows a fixed beginning, if the text begins so. -/
def stripPrefix? : List Char → List Char → Option (List Char)
  | [], text => some text
  | _ :: _, [] => none
  | p :: beginning, c :: rest => if p = c then stripPrefix? beginning rest else none

/-- What precedes a fixed end, if the text ends so. -/
def stripSuffix? (ending text : List Char) : Option (List Char) :=
  (stripPrefix? ending.reverse text.reverse).map List.reverse

/-- Equality up to the case of ASCII letters; all other characters must agree
exactly. -/
def sameIgnoringCase (a b : List Char) : Bool :=
  a.map Char.toLower == b.map Char.toLower

theorem splitOn_ne_nil (separator : Char) (text : List Char) : splitOn separator text ≠ [] := by
  cases text with
  | nil => simp [splitOn]
  | cons c rest =>
    unfold splitOn
    split
    · simp
    · split <;> simp

theorem eq_of_cutFirst? {separator : Char} {text before after : List Char}
    (h : cutFirst? separator text = some (before, after)) :
    text = before ++ separator :: after ∧ separator ∉ before := by
  induction text generalizing before with
  | nil => simp [cutFirst?] at h
  | cons c rest ih =>
    unfold cutFirst? at h
    split at h
    · next hc => simp_all
    · next hc =>
      obtain ⟨⟨b, a⟩, hcut, hpair⟩ := Option.map_eq_some_iff.1 h
      simp only [Prod.mk.injEq] at hpair
      obtain ⟨rfl, rfl⟩ := hpair
      obtain ⟨rfl, hmem⟩ := ih hcut
      exact ⟨rfl, by simp [hmem, Ne.symm hc]⟩

theorem cutLast?_eq_none_iff {separator : Char} {text : List Char} :
    cutLast? separator text = none ↔ separator ∉ text := by
  induction text with
  | nil => simp [cutLast?]
  | cons c rest ih =>
    unfold cutLast?
    split
    · next b a hcut => simp [← ih, hcut]
    · next hcut =>
      split
      · next hc => simp [hc]
      · next hc => simp [Ne.symm hc, ih.1 hcut]

theorem eq_of_cutLast? {separator : Char} {text before after : List Char}
    (h : cutLast? separator text = some (before, after)) :
    text = before ++ separator :: after ∧ separator ∉ after := by
  induction text generalizing before with
  | nil => simp [cutLast?] at h
  | cons c rest ih =>
    unfold cutLast? at h
    split at h
    · next b a hcut =>
      simp only [Option.some.injEq, Prod.mk.injEq] at h
      obtain ⟨rfl, rfl⟩ := h
      obtain ⟨rfl, hmem⟩ := ih hcut
      exact ⟨rfl, hmem⟩
    · next hcut =>
      split at h
      · next hc =>
        simp only [Option.some.injEq, Prod.mk.injEq] at h
        obtain ⟨rfl, rfl⟩ := h
        exact ⟨by simp [hc], cutLast?_eq_none_iff.1 hcut⟩
      · simp at h

/-- The last separator is looked for behind any other one first. -/
theorem cutLast?_append_cons {separator : Char} (before text : List Char) :
    cutLast? separator (before ++ separator :: text) =
      match cutLast? separator text with
      | some (parent, rest) => some (before ++ separator :: parent, rest)
      | none => some (before, text) := by
  induction before with
  | nil => cases found : cutLast? separator text <;> simp [cutLast?, found]
  | cons c before ih =>
    rw [List.cons_append, cutLast?, ih]
    cases cutLast? separator text <;> rfl

theorem stripPrefix?_eq_some_iff {beginning text rest : List Char} :
    stripPrefix? beginning text = some rest ↔ text = beginning ++ rest := by
  induction beginning generalizing text with
  | nil => simp [stripPrefix?]
  | cons p beginning ih =>
    cases text with
    | nil => simp [stripPrefix?]
    | cons c text =>
      by_cases hc : p = c
      · simp [stripPrefix?, hc, ih]
      · simp [stripPrefix?, hc, Ne.symm hc]

theorem stripSuffix?_eq_some_iff {ending text rest : List Char} :
    stripSuffix? ending text = some rest ↔ text = rest ++ ending := by
  simp only [stripSuffix?, Option.map_eq_some_iff, stripPrefix?_eq_some_iff]
  constructor
  · rintro ⟨a, ha, rfl⟩
    have := congrArg List.reverse ha
    simpa using this
  · rintro rfl
    exact ⟨rest.reverse, by simp, by simp⟩

end LayeredConfig.Text
