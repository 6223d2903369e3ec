import LayeredConfig.Reference.Strict
import LayeredConfig.Proofs.Reference.Body
import LayeredConfig.Proofs.Value.Canonical

/-!
# Strict reading against reading in a value

A text that is read strictly is one reference by itself; delimiters are put around it if it
has none. Written into a value it ought to be read as that reference again. Strict reading
rules out delimiters inside the body, but not a brace at its very start or end, which makes a
delimiter together with the braces around the body. Nothing else keeps a reference that was
read strictly from being read back. Conversely each reference of a value is read strictly as
itself, unless it gives no path.

## Main definitions

* `Reference.strictBody` — the body that strict reading finds in a text
* `Reference.Accepted` — the bodies that strict reading accepts

## Main results

* `Reference.read_eq_ok_iff` — which texts are read strictly, and as which reference
* `Value.parse_source_iff_of_read` — which of these references are read back from a value
* `Value.read_of_mem_extractReferences` — which references of a value are read strictly
-/

namespace LayeredConfig

open Delimiter

variable {body : List Char} {reference : Reference}

theorem Delimiter.enclose_injective : Function.Injective enclose := by
  intro body body' same
  exact List.append_cancel_left (List.append_cancel_right same)

namespace Reference

theorem body?_eq_some_iff {text : List Char} : body? text = some body ↔ text = enclose body := by
  simp only [body?, Option.bind_eq_some_iff, Text.stripPrefix?_eq_some_iff,
    Text.stripSuffix?_eq_some_iff, enclose, List.append_assoc]
  constructor
  · rintro ⟨rest, rfl, rfl⟩
    rfl
  · rintro rfl
    exact ⟨_, rfl, rfl⟩

/-- The body that strict reading finds in a text: what stands between its delimiters, or all
of it if it has none. Blanks around it do not count. -/
def strictBody (text : String) : List Char :=
  let trimmed := Text.trim text.toList
  (body? trimmed).getD trimmed

theorem trim_enclose (body : List Char) : Text.trim (enclose body) = enclose body := by
  refine Text.trim_eq_self_of_ends ?_ ?_
  · rintro _ ⟨⟩
    decide
  · intro c member
    rw [enclose, List.getLast?_append, closing, Option.mem_def] at member
    cases member
    decide

/-- Blanks around the delimiters do not count. -/
theorem strictBody_of_pads {text : String} (pads : Text.Pads (enclose body) text.toList) :
    strictBody text = body := by
  have trimmed : Text.trim text.toList = enclose body := pads.trim_eq.trans (trim_enclose body)
  simp only [strictBody, trimmed, body?_eq_some_iff.2 rfl, Option.getD_some]

/-- A body that strict reading accepts: no delimiter stands in it, and it gives a path. -/
structure Accepted (body : List Char) : Prop where
  noOpening : hasOpening body = false
  noClosing : hasClosing body = false
  hasPath : ∃ path, (Value.enclosed body).path = some path ∧ path ≠ ""

theorem Accepted.notBlank (accepted : Accepted body) : Text.allBlank body = false := by
  obtain ⟨path, atBody, -⟩ := accepted.hasPath
  rw [← Bool.not_eq_true]
  intro blank
  rw [Value.enclosed, ofBody_of_allBlank blank] at atBody
  cases atBody

/-- The verbatim text of what is read strictly is the body in its delimiters, whether they
were written or not. -/
theorem read_eq (text : String) : read text =
    if hasOpening (strictBody text) || hasClosing (strictBody text) then
      .error (.nestedDelimiters text)
    else
      match (Value.enclosed (strictBody text)).path with
      | none | some "" => .error (.noPath text)
      | some _ => .ok (Value.enclosed (strictBody text)) := by
  have source : (if (body? (Text.trim text.toList)).isSome then Text.trim text.toList
      else enclose (Text.trim text.toList)) = enclose (strictBody text) := by
    cases found : body? (Text.trim text.toList) with
    | none => simp [strictBody, found]
    | some body =>
      simp only [strictBody, found, Option.isSome_some, if_true, Option.getD_some]
      exact body?_eq_some_iff.1 found
  rw [read, source]
  rfl

/-- Strict reading takes the texts whose body it accepts, each as the reference of its
body. -/
theorem read_eq_ok_iff {text : String} : read text = .ok reference ↔
    Accepted (strictBody text) ∧ reference = Value.enclosed (strictBody text) := by
  rw [read_eq]
  constructor
  · intro taken
    split at taken
    · cases taken
    · next free =>
      rw [Bool.or_eq_true, not_or, Bool.not_eq_true, Bool.not_eq_true] at free
      split at taken
      · cases taken
      · cases taken
      · next path notEmpty atBody =>
        exact ⟨⟨free.1, free.2, path, atBody, notEmpty⟩, (Except.ok.inj taken).symm⟩
  · rintro ⟨⟨noOpening, noClosing, path, atBody, notEmpty⟩, rfl⟩
    rw [noOpening, noClosing, atBody]
    simp

/-- What is accepted makes a reference in a value unless it begins or ends with a brace. -/
theorem Accepted.isBody_iff (accepted : Accepted body) :
    IsBody body ↔ body.head? ≠ some '{' ∧ body.getLast? ≠ some '}' := by
  constructor
  · intro isBody
    exact ⟨isBody.head, isBody.last⟩
  · rintro ⟨head, last⟩
    exact ⟨accepted.noOpening, accepted.noClosing, head, last, accepted.notBlank⟩

end Reference

namespace Value

/-- A text that encloses a body is read as a single reference iff it is an enclosed body, and
then as the one of the body. -/
theorem parse_source_enclosed_eq_iff :
    parse (enclosed body).source = [.reference reference] ↔
      IsBody body ∧ reference = enclosed body := by
  constructor
  · intro read
    rw [enclosed, Reference.source_ofBody, parse, String.toList_ofList] at read
    obtain ⟨body', isBody, same, rfl⟩ := eq_enclosed_of_parseChars read
    obtain rfl := enclose_injective same
    exact ⟨isBody, rfl⟩
  · rintro ⟨isBody, rfl⟩
    exact parse_enclosed isBody

theorem parse_source_enclosed_iff :
    parse (enclosed body).source = [.reference (enclosed body)] ↔ IsBody body :=
  parse_source_enclosed_eq_iff.trans (and_iff_left rfl)

/-- A reference that was read strictly is read back from a value that spells it, unless the
body in its delimiters begins with an opening or ends with a closing brace. -/
theorem parse_source_iff_of_read {text : String} (accepted : Reference.read text = .ok reference) :
    parse reference.source = [.reference reference] ↔
      ∃ body, reference.source = String.ofList (enclose body) ∧
        body.head? ≠ some '{' ∧ body.getLast? ≠ some '}' := by
  obtain ⟨body, rfl⟩ := Reference.read_eq_ok_iff.1 accepted
  have spelled : (enclosed (Reference.strictBody text)).source =
      String.ofList (enclose (Reference.strictBody text)) :=
    Reference.source_ofBody _ _
  rw [parse_source_enclosed_iff, body.isBody_iff]
  constructor
  · exact fun free => ⟨_, spelled, free⟩
  · rintro ⟨body, same, free⟩
    rwa [enclose_injective (String.ofList_injective (spelled.symm.trans same))]

/-- A text without delimiters is read back once they are put around it, whatever single braces
stand inside. -/
theorem parse_source_of_read_bare :
    Reference.read " $struct/a\x7db\x7bc " = .ok (.ofPath "$struct/a\x7db\x7bc") ∧
      parse (Reference.ofPath "$struct/a\x7db\x7bc").source =
        [.reference (.ofPath "$struct/a\x7db\x7bc")] := by
  have accepted : Reference.read " $struct/a\x7db\x7bc " =
      .ok (.ofPath "$struct/a\x7db\x7bc") := by
    decide +kernel
  refine ⟨accepted, (parse_source_iff_of_read accepted).2 ⟨"$struct/a\x7db\x7bc".toList, ?_⟩⟩
  decide +kernel

/-- Of three braces in a row strict reading takes the outer two as the delimiter, reading in a
value the inner two. -/
theorem parse_source_of_read_braced :
    Reference.read "{{{A}}}" = .ok (.ofPath "{A}") ∧
      parse (Reference.ofPath "{A}").source =
        [.literal "\x7b", .reference (.ofPath "A"), .literal "\x7d"] := by
  decide +kernel

/-! ## References of a value -/

theorem exists_body_of_mem_extractReferences {value : String}
    (found : reference ∈ extractReferences value) :
    ∃ body, IsBody body ∧ reference = enclosed body := by
  obtain ⟨places, lists, read⟩ := exists_listsOccurrences value.toList
  rw [extractReferences, parse, read] at found
  obtain ⟨⟨start, body⟩, place, rfl⟩ := List.mem_map.1 found
  exact ⟨body, ((lists.mem_iff start body).1 place).1, rfl⟩

/-- What is found in a value is read strictly as the same reference, with any blanks around it,
unless it gives no path or an empty one. -/
theorem read_of_mem_extractReferences {value text : String}
    (found : reference ∈ extractReferences value)
    (pads : Text.Pads reference.source.toList text.toList) :
    Reference.read text =
      if reference.path = none ∨ reference.path = some "" then .error (.noPath text)
      else .ok reference := by
  obtain ⟨body, isBody, rfl⟩ := exists_body_of_mem_extractReferences found
  rw [enclosed, Reference.source_ofBody, String.toList_ofList] at pads
  rw [Reference.read_eq, Reference.strictBody_of_pads pads, isBody.noOpening, isBody.noClosing]
  -- no delimiter stands in a body that was found, so only its path may be refused
  cases (enclosed body).path with
  | none => simp
  | some path => by_cases empty : path = "" <;> simp [empty]

/-- Of two references in one value the first is read with the single braces of its body, and the
second is refused because its path is empty. -/
theorem read_of_mem_extractReferences_braces :
    let braced := enclosed "Using: $this;Path: a\x7db\x7bc".toList
    let pathless := enclosed "Alias:A;Path: ".toList
    extractReferences ("\x7b" ++ braced.source ++ pathless.source) = [braced, pathless] ∧
      Reference.read ("\u3000" ++ braced.source ++ "\n") = .ok braced ∧
      Reference.read pathless.source = .error (.noPath pathless.source) := by
  intro braced pathless
  have found : extractReferences ("\x7b" ++ braced.source ++ pathless.source) =
      [braced, pathless] := by decide +kernel
  have first : braced ∈ extractReferences ("\x7b" ++ braced.source ++ pathless.source) :=
    found ▸ List.mem_cons_self
  have second : pathless ∈ extractReferences ("\x7b" ++ braced.source ++ pathless.source) :=
    found ▸ List.mem_cons_of_mem _ List.mem_cons_self
  have around : Text.Pads braced.source.toList ("\u3000" ++ braced.source ++ "\n").toList :=
    ⟨['\u3000'], ['\n'], rfl, rfl, by decide +kernel⟩
  refine ⟨found, ?_, ?_⟩
  · exact (read_of_mem_extractReferences first around).trans (by decide +kernel)
  · exact (read_of_mem_extractReferences second (Text.pads_self _)).trans (by decide +kernel)

end Value

end LayeredConfig
