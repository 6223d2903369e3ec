import LayeredConfig.Proofs.Reference.Body
import LayeredConfig.Proofs.Value.Strict

/-!
# Paths that can be written bare

The reference to a path is written by putting the delimiters around the path, whatever stands
in it. A value that spells it is read as that reference again only if nothing in the path is
taken for something else: a separator ends a token or a name, blanks at the ends are trimmed
off, and a brace at an end makes a delimiter together with those around the path.

## Main definitions

* `Value.IsBarePath` — the paths that can be written so

## Main results

* `Value.parse_source_ofPath_iff` — these are the paths whose reference is read back
-/

namespace LayeredConfig.Value

open Delimiter

variable {path : List Char}

/-- A path that means itself between the delimiters. -/
structure IsBarePath (path : List Char) : Prop where
  nonempty : path ≠ []
  start : ∀ c ∈ path.head?, Text.isBlank c = false
  stop : ∀ c ∈ path.getLast?, Text.isBlank c = false
  noColon : ':' ∉ path
  noSemicolon : ';' ∉ path
  noOpening : ¬ opening <:+: path
  noClosing : ¬ closing <:+: path
  head : path.head? ≠ some '{'
  last : path.getLast? ≠ some '}'

theorem ofPath_eq_enclosed_iff {path : String} :
    Reference.ofPath path = enclosed path.toList ↔ (Reference.Token.bare path.toList).Valid := by
  rw [eq_comm, enclosed, ← Reference.ofBody_eq_path_iff, String.ofList_toList]
  rfl

/-- What can be written bare is a body and a token by itself. -/
theorem isBarePath_iff : IsBarePath path ↔ IsBody path ∧ (Reference.Token.bare path).Valid := by
  constructor
  · intro bare
    have trimmed : Text.trim path = path := Text.trim_eq_self_of_ends bare.start bare.stop
    have notBlank : Text.allBlank path = false := by
      rw [← Bool.not_eq_true, ← Text.trim_eq_nil_iff, trimmed]
      exact bare.nonempty
    refine ⟨⟨?_, ?_, bare.head, bare.last, notBlank⟩, bare.nonempty, trimmed, ?_⟩
    · exact Bool.eq_false_iff.2 fun doubled => bare.noOpening (hasDoubled_iff.1 doubled)
    · exact Bool.eq_false_iff.2 fun doubled => bare.noClosing (hasDoubled_iff.1 doubled)
    · simpa using ⟨bare.noColon, bare.noSemicolon⟩
  · rintro ⟨isBody, nonempty, uncut⟩
    obtain ⟨start, stop⟩ := Text.trim_eq_self_iff.1 uncut.trimmed
    refine ⟨nonempty, start, stop, uncut.free ':' (by decide), uncut.free ';' (by decide), ?_, ?_,
      isBody.head, isBody.last⟩
    · exact fun inside => Bool.eq_false_iff.1 isBody.noOpening (hasDoubled_iff.2 inside)
    · exact fun inside => Bool.eq_false_iff.1 isBody.noClosing (hasDoubled_iff.2 inside)

/-- The reference to a path is read back from a value that spells it iff the path can be
written bare. -/
theorem parse_source_ofPath_iff (path : String) :
    parse (Reference.ofPath path).source = [.reference (.ofPath path)] ↔
      IsBarePath path.toList := by
  have spelled : (Reference.ofPath path).source = (enclosed path.toList).source :=
    (Reference.source_ofBody _ _).symm
  rw [spelled, parse_source_enclosed_eq_iff, ofPath_eq_enclosed_iff, isBarePath_iff]

/-- Of the braces at the end of a path and behind it the first two are the delimiter. -/
example : parse (Reference.ofPath "\x7ba\x7db\x7d").source =
    [.literal "\x7b", .reference (.ofPath "a\x7db"), .literal "\x7d"] := by
  decide +kernel

end LayeredConfig.Value
