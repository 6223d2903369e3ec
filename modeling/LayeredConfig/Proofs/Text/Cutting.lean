import Mathlib.Data.List.DropRight
import LayeredConfig.Text.Blank
import LayeredConfig.Text.Split

/-!
# What trimming and cutting leave

Trimming takes off the blanks that a text is written with and nothing else, so what is left of
a text is the one trimmed text that is padded to it. A text is cut into the pieces that were
joined, if no separator stands in them.

## Main definitions

* `Text.Pads` — a text is written with blanks around it

## Main results

* `Text.trim_eq_iff` — what trimming leaves of a text
* `Text.splitOn_eq` — cutting at all separators is the cutting of the standard library
-/

namespace LayeredConfig.Text

variable {separator c d : Char} {text padded before after : List Char}

/-! ## Blanks -/

/-- A text is written with blanks around it. -/
def Pads (text padded : List Char) : Prop :=
  ∃ before after, allBlank before = true ∧ allBlank after = true ∧
    padded = before ++ text ++ after

theorem pads_self (text : List Char) : Pads text text :=
  ⟨[], [], rfl, rfl, (List.append_nil text).symm⟩

theorem Pads.length_le (pads : Pads text padded) : text.length ≤ padded.length := by
  obtain ⟨before, after, -, -, rfl⟩ := pads
  simp only [List.length_append]
  omega

theorem trimStart_eq_nil_of_allBlank (blank : allBlank text = true) : trimStart text = [] :=
  List.dropWhile_eq_nil_iff.2 (List.all_eq_true.1 blank)

theorem trim_eq_nil_of_allBlank (blank : allBlank text = true) : trim text = [] := by
  rw [trim, trimStart_eq_nil_of_allBlank blank]
  rfl

theorem trimEnd_append (blank : allBlank after = true) (text : List Char) :
    trimEnd (text ++ after) = trimEnd text := by
  have backwards : ∀ c ∈ after.reverse, isBlank c = true := fun c member =>
    List.all_eq_true.1 blank c (List.mem_reverse.1 member)
  rw [trimEnd, List.reverse_append, List.dropWhile_append_of_pos backwards, trimEnd]

/-- Blanks around a text do not count. -/
theorem Pads.trim_eq (pads : Pads text padded) : trim padded = trim text := by
  obtain ⟨before, after, blankBefore, blankAfter, rfl⟩ := pads
  rw [trim, trim, trimStart, List.append_assoc,
    List.dropWhile_append_of_pos (List.all_eq_true.1 blankBefore), List.dropWhile_append]
  split
  · next allBlank =>
    -- nothing of the text itself is left, so the blanks behind it are at the start
    have nothing : trimStart text = [] := List.isEmpty_iff.1 allBlank
    have behind : after.dropWhile isBlank = [] := trimStart_eq_nil_of_allBlank blankAfter
    rw [nothing, behind]
  · exact trimEnd_append blankAfter _

/-- What is trimmed off a text are blanks around the rest. -/
theorem pads_trim (text : List Char) : Pads (trim text) text := by
  refine ⟨text.takeWhile isBlank, (trimStart text).rtakeWhile isBlank, List.all_takeWhile, ?_, ?_⟩
  · exact List.all_eq_true.2 fun c member => List.mem_rtakeWhile_imp member
  · have ends : trimEnd (trimStart text) ++ (trimStart text).rtakeWhile isBlank = trimStart text :=
      List.rdropWhile_append_rtakeWhile
    rw [trim, List.append_assoc, ends]
    exact List.takeWhile_append_dropWhile.symm

theorem not_mem_of_allBlank (blank : allBlank text = true) (visible : isBlank c = false) :
    c ∉ text := by
  intro member
  rw [List.all_eq_true.1 blank c member] at visible
  cases visible

/-- Blanks add no visible character to a text. -/
theorem Pads.not_mem (pads : Pads text padded) (visible : isBlank c = false) (free : c ∉ text) :
    c ∉ padded := by
  obtain ⟨before, after, blankBefore, blankAfter, rfl⟩ := pads
  rw [List.mem_append, List.mem_append, not_or, not_or]
  exact ⟨⟨not_mem_of_allBlank blankBefore visible, free⟩, not_mem_of_allBlank blankAfter visible⟩

theorem pads_trimStart (text : List Char) : Pads (trimStart text) text :=
  ⟨text.takeWhile isBlank, [], List.all_takeWhile, rfl, by
    rw [List.append_nil]
    exact List.takeWhile_append_dropWhile.symm⟩

theorem pads_trimEnd (text : List Char) : Pads (trimEnd text) text :=
  ⟨[], text.rtakeWhile isBlank, rfl,
    List.all_eq_true.2 fun _ member => List.mem_rtakeWhile_imp member,
    List.rdropWhile_append_rtakeWhile.symm⟩

theorem mem_of_mem_trim (member : c ∈ trim text) : c ∈ text := by
  obtain ⟨before, after, -, -, same⟩ := pads_trim text
  rw [same]
  exact List.mem_append_left _ (List.mem_append_right _ member)

/-- Nothing is left of blanks only. -/
theorem trim_eq_nil_iff : trim text = [] ↔ allBlank text = true := by
  refine ⟨fun empty => ?_, trim_eq_nil_of_allBlank⟩
  obtain ⟨before, after, blankBefore, blankAfter, same⟩ := pads_trim text
  rw [same, empty, List.append_nil, allBlank, List.all_append, Bool.and_eq_true]
  exact ⟨blankBefore, blankAfter⟩

/-- Nothing is trimmed off a text that neither begins nor ends with a blank. -/
theorem trim_eq_self_of_ends (start : ∀ c ∈ text.head?, isBlank c = false)
    (stop : ∀ c ∈ text.getLast?, isBlank c = false) : trim text = text := by
  have kept : ∀ text : List Char, (∀ c ∈ text.head?, isBlank c = false) →
      text.dropWhile isBlank = text := by
    rintro (_ | ⟨c, text⟩) start
    · rfl
    · rw [List.dropWhile_cons_of_neg (by rw [start c rfl]; decide)]
  rw [trim, trimStart, kept text start, trimEnd, kept text.reverse, List.reverse_reverse]
  rwa [List.head?_reverse]

theorem isBlank_of_mem_head?_trim (member : c ∈ (trim text).head?) : isBlank c = false := by
  -- trimming at the end leaves the start of what is there
  obtain ⟨rest, same⟩ : trim text <+: trimStart text := List.rdropWhile_prefix isBlank _
  have first : (trimStart text).head? = some c := by
    rw [← same, List.head?_append, Option.mem_def.1 member]
    rfl
  have visible := List.head?_dropWhile_not isBlank text
  rw [show (text.dropWhile isBlank).head? = some c from first] at visible
  exact visible

theorem isBlank_of_mem_getLast?_trim (member : c ∈ (trim text).getLast?) :
    isBlank c = false := by
  have nonempty : trim text ≠ [] := by
    intro empty
    rw [empty] at member
    cases member
  have visible := List.rdropWhile_last_not isBlank (trimStart text) nonempty
  have last : (trim text).getLast nonempty = c := by
    rw [Option.mem_def, List.getLast?_eq_some_getLast nonempty] at member
    exact Option.some.inj member
  rw [← last]
  exact Bool.not_eq_true _ ▸ visible

theorem trim_trim (text : List Char) : trim (trim text) = trim text :=
  trim_eq_self_of_ends (fun _ => isBlank_of_mem_head?_trim) fun _ => isBlank_of_mem_getLast?_trim

/-- A text is trimmed iff it neither begins nor ends with a blank. -/
theorem trim_eq_self_iff : trim text = text ↔
    (∀ c ∈ text.head?, isBlank c = false) ∧ ∀ c ∈ text.getLast?, isBlank c = false := by
  constructor
  · intro trimmed
    rw [← trimmed]
    exact ⟨fun _ => isBlank_of_mem_head?_trim, fun _ => isBlank_of_mem_getLast?_trim⟩
  · rintro ⟨start, stop⟩
    exact trim_eq_self_of_ends start stop

/-- What trimming leaves of a text is the trimmed text that is padded to it. -/
theorem trim_eq_iff : trim padded = text ↔ Pads text padded ∧ trim text = text := by
  constructor
  · rintro rfl
    exact ⟨pads_trim padded, trim_trim padded⟩
  · rintro ⟨pads, trimmed⟩
    rw [pads.trim_eq, trimmed]

/-- At either side of a visible mark a text is trimmed by itself. -/
theorem trim_append_cons (visible : isBlank c = false) (before after : List Char) :
    trim (before ++ c :: after) = trimStart before ++ c :: trimEnd after := by
  have kept : ∀ text, (c :: text).dropWhile isBlank = c :: text := fun text =>
    List.dropWhile_cons_of_neg (by rw [visible]; decide)
  have start : trimStart (before ++ c :: after) = trimStart before ++ c :: after := by
    rw [trimStart, List.dropWhile_append, kept, trimStart]
    split
    · next empty => rw [List.isEmpty_iff.1 empty, List.nil_append]
    · rfl
  rw [trim, start, trimEnd, List.reverse_append, List.reverse_cons, List.append_assoc,
    List.singleton_append, List.dropWhile_append, kept, trimEnd]
  split
  · next empty => simp [List.isEmpty_iff.1 empty]
  · simp

theorem trim_of_forall (free : ∀ c ∈ text, isBlank c = false) : trim text = text :=
  trim_eq_self_of_ends (fun c member => free c (List.mem_of_head? member))
    fun c member => free c (List.mem_of_getLast? member)

/-- Blanks are dropped at the ends only. -/
theorem trim_cons_append (head : isBlank c = false) (middle : isBlank d = false)
    (trimmed : trim text = text) (front : List Char) :
    trim (c :: front ++ d :: text) = c :: front ++ d :: text := by
  refine trim_eq_self_of_ends ?_ ?_
  · rintro _ ⟨⟩
    exact head
  · intro e member
    rw [List.getLast?_append, List.getLast?_cons, Option.some_or, Option.mem_some_iff] at member
    cases last : text.getLast? with
    | none =>
      -- behind an empty text the mark is what stops the trimming
      rw [last] at member
      exact member ▸ middle
    | some e' =>
      rw [last] at member
      exact member ▸ (trim_eq_self_iff.1 trimmed).2 e' last

/-! ## Separators -/

/-- Cutting at all separators is the cutting of the standard library. -/
theorem splitOn_eq (separator : Char) (text : List Char) :
    splitOn separator text = text.splitOn separator := by
  induction text with
  | nil => rfl
  | cons c rest ih =>
    rw [splitOn, List.splitOn_cons_eq_if_modifyHead, ih]
    by_cases same : c = separator
    · simp [same]
    · rw [if_neg same, if_neg (by simpa using same)]
      cases pieces : rest.splitOn separator with
      | nil => exact absurd pieces (List.splitOn_ne_nil separator rest)
      | cons piece pieces => rfl

/-- No separator stands in a piece. -/
theorem not_mem_of_mem_splitOn {piece : List Char} (isPiece : piece ∈ splitOn separator text) :
    separator ∉ piece := by
  induction text generalizing piece with
  | nil =>
    rw [splitOn, List.mem_singleton] at isPiece
    rw [isPiece]
    exact List.not_mem_nil
  | cons c rest ih =>
    unfold splitOn at isPiece
    split at isPiece
    · rcases List.mem_cons.1 isPiece with rfl | isPiece
      · exact List.not_mem_nil
      · exact ih isPiece
    · next different =>
      split at isPiece
      · next empty => exact absurd empty (splitOn_ne_nil separator rest)
      · next first pieces cut =>
        rw [cut] at ih
        rcases List.mem_cons.1 isPiece with rfl | isPiece
        · rw [List.mem_cons, not_or]
          exact ⟨Ne.symm different, ih List.mem_cons_self⟩
        · exact ih (List.mem_cons_of_mem _ isPiece)

/-- Each piece stands in the text that joins them. -/
theorem isInfix_intercalate {pieces : List (List Char)} {piece : List Char}
    (member : piece ∈ pieces) (separator : List Char) :
    piece <:+: separator.intercalate pieces := by
  induction pieces with
  | nil => cases member
  | cons first pieces ih =>
    by_cases last : pieces = []
    · rw [last, List.mem_singleton] at member
      have only : separator.intercalate (first :: pieces) = piece := by
        rw [last, member, List.intercalate_singleton]
      exact only ▸ List.infix_rfl
    · rw [List.intercalate_cons_of_ne_nil last]
      rcases List.mem_cons.1 member with rfl | member
      · rw [List.append_assoc]
        exact (List.prefix_append _ _).isInfix
      · exact (ih member).trans (List.suffix_append _ _).isInfix

theorem cutFirst?_append_cons (free : separator ∉ before) (after : List Char) :
    cutFirst? separator (before ++ separator :: after) = some (before, after) := by
  induction before with
  | nil => rw [List.nil_append, cutFirst?, if_pos rfl]
  | cons c before ih =>
    rw [List.mem_cons, not_or] at free
    rw [List.cons_append, cutFirst?, if_neg (Ne.symm free.1), ih free.2]
    rfl

theorem cutFirst?_eq_none_iff : cutFirst? separator text = none ↔ separator ∉ text := by
  constructor
  · intro uncut member
    obtain ⟨before, after, rfl, free⟩ := List.eq_append_cons_of_mem member
    rw [cutFirst?_append_cons free] at uncut
    cases uncut
  · intro free
    cases cut : cutFirst? separator text with
    | none => rfl
    | some pair =>
      rw [(eq_of_cutFirst? cut).1] at free
      exact absurd (List.mem_append_right _ List.mem_cons_self) free

end LayeredConfig.Text
