import Mathlib.Data.List.Forall2
import LayeredConfig.Proofs.Reference.Body
import LayeredConfig.Proofs.Value.Strict

/-!
# Ways of writing a target

A reserved name selects a namespace as the first segment of a path or as the value of a
`Using` command. A text in which a reference is written in one way has the same parts as the
text in which it is written in the other way, with the same targets in the same places.

## Main definitions

* `Value.SameTargets` — the same texts and targets, place by place
* `Reference.prefixedBody`, `Reference.selectedBody` — the two ways of writing a namespace

## Main results

* `Reference.target?_prefixedBody`, `Reference.target?_selectedBody` — both have one target
* `Value.sameTargets_parseChars` — bodies with one target stand for each other in any text
-/

namespace LayeredConfig

/-! ## Parts with the same targets -/

/-- Two parts are the same literal text, or references with one target. -/
inductive Part.SameTarget : Part → Part → Prop
  | literal (text : String) : SameTarget (.literal text) (.literal text)
  | reference {r r' : Reference} :
    r.target? = r'.target? → SameTarget (.reference r) (.reference r')

theorem Part.SameTarget.refl (part : Part) : part.SameTarget part := by
  cases part with
  | literal text => exact .literal text
  | reference r => exact .reference rfl

namespace Value

/-- As many parts, with the same literal texts and the same targets in the same places. -/
def SameTargets (parts parts' : List Part) : Prop :=
  List.Forall₂ Part.SameTarget parts parts'

namespace SameTargets

variable {parts parts' : List Part}

theorem refl (parts : List Part) : SameTargets parts parts :=
  List.forall₂_same.2 fun part _ => .refl part

theorem lead (same : SameTargets parts parts') (text : List Char) :
    SameTargets (Value.lead text parts) (Value.lead text parts') := by
  unfold Value.lead
  split
  · exact same
  · exact .cons (.literal _) same

theorem length_references (same : SameTargets parts parts') :
    (references parts).length = (references parts').length := by
  induction same with
  | nil => rfl
  | cons first _ ih =>
    cases first with
    | literal text => exact ih
    | reference target => exact congrArg (· + 1) ih

theorem references_eq_nil_iff (same : SameTargets parts parts') :
    references parts = [] ↔ references parts' = [] := by
  rw [← List.length_eq_zero_iff, ← List.length_eq_zero_iff, same.length_references]

end SameTargets

end Value

/-! ## Blanks and braces -/

/-- A blank is no letter, so it has no other case. -/
theorem Text.toLower_of_isBlank {c : Char} (blank : isBlank c = true) : c.toLower = c := by
  unfold Char.toLower
  split
  · next letter =>
    obtain ⟨low, high⟩ := letter
    have low : 65 ≤ c.toNat := UInt32.le_iff_toNat_le.1 low
    have high : c.toNat ≤ 90 := UInt32.le_iff_toNat_le.1 high
    simp only [isBlank, blankRanges, List.any_eq_true, List.mem_cons, List.not_mem_nil,
      Bool.and_eq_true, decide_eq_true_eq] at blank
    obtain ⟨range, member, inside⟩ := blank
    -- no range of blanks meets the capital letters
    rcases member with rfl | rfl | rfl | rfl | rfl | rfl | rfl | rfl | rfl | rfl | ⟨⟨⟩⟩ <;>
      simp only at inside <;> omega
  · rfl

/-- A text without braces makes a reference unless it is blank. -/
theorem Delimiter.isBody_of_not_mem {body : List Char} {c : Char} (opening : '{' ∉ body)
    (closing : '}' ∉ body) (member : c ∈ body) (visible : Text.isBlank c = false) :
    IsBody body := by
  have single : ∀ brace ∉ body, hasDoubled brace body = false := by
    intro brace absent
    rw [← Bool.not_eq_true, hasDoubled_iff]
    exact fun doubled => absent (doubled.subset List.mem_cons_self)
  refine ⟨single _ opening, single _ closing, ?_, ?_, ?_⟩
  · exact fun head => opening (List.mem_of_head? head)
  · exact fun last => closing (List.mem_of_getLast? last)
  · rw [← Bool.not_eq_true]
    intro blank
    rw [List.all_eq_true.1 blank c member] at visible
    cases visible

/-! ## Reserved names -/

namespace Namespace

variable {name : List Char} {space : Namespace} {c : Char}

/-- The characters of a reserved name in lower case. -/
theorem toLower_mem_of_ofReserved? (isReserved : ofReserved? name = some space)
    (member : c ∈ name) :
    c.toLower ∈ reserved.flatMap fun entry => entry.1.toList := by
  obtain ⟨entry, found, -⟩ := Option.map_eq_some_iff.1 isReserved
  have same : name.map Char.toLower = entry.1.toList.map Char.toLower :=
    beq_iff_eq.1 (List.find?_some found :)
  have lower : entry.1.toList.map Char.toLower = entry.1.toList := by
    have all : ∀ entry ∈ reserved, entry.1.toList.map Char.toLower = entry.1.toList := by decide
    exact all entry (List.mem_of_find?_eq_some found)
  have inside := List.mem_map_of_mem (f := Char.toLower) member
  rw [same, lower] at inside
  exact List.mem_flatMap.2 ⟨entry, List.mem_of_find?_eq_some found, inside⟩

theorem not_mem_of_ofReserved? (isReserved : ofReserved? name = some space)
    (other : c.toLower ∉ reserved.flatMap fun entry => entry.1.toList) : c ∉ name :=
  fun member => other (toLower_mem_of_ofReserved? isReserved member)

theorem isBlank_of_mem (isReserved : ofReserved? name = some space) (member : c ∈ name) :
    Text.isBlank c = false := by
  have lower := toLower_mem_of_ofReserved? isReserved member
  rw [← Bool.not_eq_true]
  intro blank
  rw [Text.toLower_of_isBlank blank] at lower
  have noBlanks : (reserved.flatMap fun entry => entry.1.toList).any Text.isBlank = false := by
    decide
  exact List.any_eq_false.1 noBlanks _ lower blank

/-- A reserved name is not empty. -/
theorem ne_nil_of_ofReserved? (isReserved : ofReserved? name = some space) : name ≠ [] := by
  rintro rfl
  cases isReserved

end Namespace

/-! ## The two ways of writing a namespace -/

namespace Reference

open Delimiter

variable {name path : List Char} {space : Namespace}

/-- The body that names a namespace in front of the path. -/
def prefixedBody (name path : List Char) : List Char :=
  name ++ '/' :: path

/-- The body that selects a namespace by a command. -/
def selectedBody (name path : List Char) : List Char :=
  (Command.select.name.toList ++ ':' :: name) ++ ';' :: (Command.path.name.toList ++ ':' :: path)

/-- A path that stands in a body as it is: nothing cuts it, and nothing is trimmed off. -/
structure IsPlainPath (path : List Char) : Prop where
  trimmed : Text.trim path = path
  free : ∀ c ∈ path, c ∉ [';', ':', '{', '}']

instance : DecidablePred IsPlainPath := fun path =>
  decidable_of_iff (Text.trim path = path ∧ path.all (· ∉ [';', ':', '{', '}']) = true) <| by
    simp only [List.all_eq_true, decide_eq_true_eq]
    exact ⟨fun ⟨trimmed, free⟩ => ⟨trimmed, free⟩, fun ⟨trimmed, free⟩ => ⟨trimmed, free⟩⟩

theorem IsPlainPath.not_mem (plain : IsPlainPath path) {c : Char}
    (mark : c ∈ [';', ':', '{', '}']) : c ∉ path :=
  fun member => plain.free c member mark

/-- Nothing cuts a body that is a reserved name and a plain path. -/
theorem not_mem_prefixedBody (isReserved : Namespace.ofReserved? name = some space)
    (plain : IsPlainPath path) {mark : Char} (isMark : mark ∈ [';', ':', '{', '}']) :
    mark ∉ prefixedBody name path := by
  have outside : mark ≠ '/' ∧
      mark.toLower ∉ Namespace.reserved.flatMap fun entry => entry.1.toList := by
    simp only [List.mem_cons, List.not_mem_nil, or_false] at isMark
    rcases isMark with rfl | rfl | rfl | rfl <;> decide
  rw [prefixedBody, List.mem_append, List.mem_cons, not_or, not_or]
  exact ⟨Namespace.not_mem_of_ofReserved? isReserved outside.2, outside.1, plain.not_mem isMark⟩

theorem not_mem_command {c : Char} {command : Command} {value : List Char}
    (inCommand : c ∉ command.name.toList) (colon : c ≠ ':') (inValue : c ∉ value) :
    c ∉ command.name.toList ++ ':' :: value := by
  rw [List.mem_append, List.mem_cons, not_or, not_or]
  exact ⟨inCommand, colon, inValue⟩

/-- A reserved name and a plain path are one token, a path. -/
theorem valid_prefixedBody (isReserved : Namespace.ofReserved? name = some space)
    (plain : IsPlainPath path) : (Token.bare (prefixedBody name path)).Valid := by
  have trimmed : Text.trim (prefixedBody name path) = prefixedBody name path := by
    cases name with
    | nil => exact absurd rfl (Namespace.ne_nil_of_ofReserved? isReserved)
    | cons c front =>
      have head := Namespace.isBlank_of_mem isReserved List.mem_cons_self
      exact Text.trim_cons_append head (by decide) plain.trimmed front
  refine ⟨List.append_ne_nil_of_right_ne_nil _ (List.cons_ne_nil _ _), trimmed, ?_⟩
  exact fun mark isMark => not_mem_prefixedBody isReserved plain (by grind)

/-- A path that begins with a reserved name is looked up in the namespace of that name. -/
theorem target?_prefixedBody (isReserved : Namespace.ofReserved? name = some space)
    (plain : IsPlainPath path) (source : String) :
    (ofBody (prefixedBody name path) source).target? = some (space, String.ofList path) := by
  have noSlash : '/' ∉ name := Namespace.not_mem_of_ofReserved? isReserved (by decide)
  have cut : Text.cutFirst? '/' (prefixedBody name path) = some (name, path) :=
    Text.cutFirst?_append_cons noSlash path
  rw [ofBody_eq_path_iff.2 (valid_prefixedBody isReserved plain)]
  simp [target?, Namespace.ofPath?, cut, isReserved]

/-- A reserved name in a command selects its namespace for the path as it is. -/
theorem target?_selectedBody (isReserved : Namespace.ofReserved? name = some space)
    (plain : IsPlainPath path) (source : String) :
    (ofBody (selectedBody name path) source).target? = some (space, String.ofList path) := by
  have trimName : Text.trim name = name :=
    Text.trim_of_forall fun c => Namespace.isBlank_of_mem isReserved
  have nonempty := Namespace.ne_nil_of_ofReserved? isReserved
  have known (command : Command) : Uncut [':', ';'] command.name.toList := by
    cases command <;> decide
  have validName : (Token.command Command.select.name.toList name).Valid :=
    ⟨known .select, trimName, List.forall_mem_singleton.2
      (Namespace.not_mem_of_ofReserved? isReserved (by decide))⟩
  have validPath : (Token.command Command.path.name.toList path).Valid :=
    ⟨known .path, plain.trimmed, List.forall_mem_singleton.2 (plain.not_mem (by decide))⟩
  have writes : Writes [.command Command.select.name.toList name,
      .command Command.path.name.toList path] (selectedBody name path) := by
    simpa [Token.plain, selectedBody] using writes_plain
      [.command Command.select.name.toList name, .command Command.path.name.toList path]
  have read : ofBody (selectedBody name path) source =
      { selector := some (String.ofList name), path := some (String.ofList path), source } :=
    ofBody_eq_ofTokens writes
      (List.forall_mem_cons.2 ⟨validName, List.forall_mem_singleton.2 validPath⟩) source
  rw [read]
  simp [target?, Namespace.ofUsing, trimName, nonempty, isReserved]

theorem isBody_prefixedBody (isReserved : Namespace.ofReserved? name = some space)
    (plain : IsPlainPath path) : IsBody (prefixedBody name path) := by
  have opening : '{' ∉ prefixedBody name path :=
    not_mem_prefixedBody isReserved plain (by decide)
  have closing : '}' ∉ prefixedBody name path :=
    not_mem_prefixedBody isReserved plain (by decide)
  have slash : '/' ∈ prefixedBody name path := List.mem_append_right _ List.mem_cons_self
  exact isBody_of_not_mem opening closing slash (by decide)

theorem isBody_selectedBody (isReserved : Namespace.ofReserved? name = some space)
    (plain : IsPlainPath path) : IsBody (selectedBody name path) := by
  have outside : ∀ brace ∈ ['{', '}'], brace ∉ selectedBody name path := by
    intro brace isBrace
    have distinct : brace ≠ ';' ∧ brace ≠ ':' ∧ brace ∉ Command.select.name.toList ∧
        brace ∉ Command.path.name.toList ∧
        brace.toLower ∉ Namespace.reserved.flatMap fun entry => entry.1.toList := by
      rcases List.mem_pair.1 isBrace with rfl | rfl <;> decide
    obtain ⟨semicolon, colon, inSelect, inPath, other⟩ := distinct
    rw [selectedBody, List.mem_append, List.mem_cons, not_or, not_or]
    exact ⟨not_mem_command inSelect colon (Namespace.not_mem_of_ofReserved? isReserved other),
      semicolon, not_mem_command inPath colon (plain.not_mem (by grind))⟩
  have semicolon : ';' ∈ selectedBody name path := List.mem_append_right _ List.mem_cons_self
  exact isBody_of_not_mem (outside _ (by decide)) (outside _ (by decide)) semicolon (by decide)

end Reference

/-! ## Bodies in a text -/

namespace Value

open Delimiter

variable {body body' : List Char}

/-- A body stands for another one with its target wherever it is enclosed in a text. What
stands before it may end in anything, even in an opening delimiter. -/
theorem sameTargets_reading (isBody : IsBody body) (isBody' : IsBody body')
    (target : (enclosed body).target? = (enclosed body').target?) (before after : List Char) :
    (reading (before ++ enclose body ++ after)).1 = (reading (before ++ enclose body' ++ after)).1 ∧
      SameTargets (reading (before ++ enclose body ++ after)).2
        (reading (before ++ enclose body' ++ after)).2 := by
  induction before using pieceInduction with
  | tail before free =>
    have plain := reading_of_hasClosing_eq_false free
    rw [reading_append_enclose plain isBody, reading_append_enclose plain isBody']
    exact ⟨rfl, .cons (.reference target) (SameTargets.refl _)⟩
  | piece piece rest free ih =>
    obtain ⟨start, parts⟩ := ih
    have split (body : List Char) : piece ++ closing ++ rest ++ enclose body ++ after =
        piece ++ closing ++ (rest ++ enclose body ++ after) := by
      simp only [List.append_assoc]
    rw [split, split, reading_append free, reading_append free]
    cases splitPiece? piece with
    | none => exact ⟨congrArg (piece ++ closing ++ ·) start, parts⟩
    | some pair =>
      refine ⟨rfl, .cons (.refl _) ?_⟩
      rw [parseChars_eq, parseChars_eq, start]
      exact parts.lead _

theorem sameTargets_parseChars (isBody : IsBody body) (isBody' : IsBody body')
    (target : (enclosed body).target? = (enclosed body').target?) (before after : List Char) :
    SameTargets (parseChars (before ++ enclose body ++ after))
      (parseChars (before ++ enclose body' ++ after)) := by
  obtain ⟨start, parts⟩ := sameTargets_reading isBody isBody' target before after
  rw [parseChars_eq, parseChars_eq, start]
  exact parts.lead _

end Value

end LayeredConfig
