import Mathlib.Data.List.Basic
import Mathlib.Data.List.TakeWhile
import LayeredConfig.Proofs.Resolution.Scene

/-!
# What a section enumerates

The entries of a section are read off the map in one scan, from the first key that is not
before the pattern up to the first one that does not begin with it. Since keys that begin
alike stand together, this misses no key of the section and meets no other one. Each key is
worth one entry, or the entries of the section for which its own text stands, whose names are
put behind its own.

## Main definitions

* `Wildcard.Names` — the name of a key inside a section
* `Context.outcomeWithin` — what a text comes to in a frame of its own
* `Context.entriesAt` — the entries that a key is worth in a section

## Main results

* `joinSuffix_eq_intercalate` — names are joined as if empty ones were not there
* `Wildcard.names_iff_eq_suffix` — a key of a section has one name in it
* `Context.expandSection_enumerates` — the keys, the entries and the note of a section
-/

namespace LayeredConfig

/-! ## Names -/

/-- Two names are joined by a slash, as if an empty one were not there. -/
theorem joinSuffix_eq_intercalate (outer inner : String) :
    joinSuffix outer inner = "/".intercalate ([outer, inner].filter (· ≠ "")) := by
  unfold joinSuffix
  split
  · next empty => by_cases last : inner = "" <;> simp [empty, last]
  · next named => by_cases last : inner = "" <;> simp [named, last, String.append_assoc]

namespace Wildcard

variable {w : Wildcard} {key name : String}

/-- The key is what stands before the star, with the name behind it. A bare star leaves all
slashes between them aside. -/
def Names (w : Wildcard) (key name : String) : Prop :=
  if w.bare then
    ∃ n, key.toList = w.stem.toList ++ List.replicate n '/' ++ name.toList ∧
      name.toList.head? ≠ some '/'
  else
    key = w.stem ++ "/" ++ name

theorem suffix_append {rest : List Char} (spelled : key.toList = w.pattern.toList ++ rest) :
    w.suffix key = String.ofList (if w.bare then rest.dropWhile (· = '/') else rest) := by
  rw [suffix, spelled, ← String.length_toList, List.drop_left]

/-- What is left without the slashes at the start is the part behind them that does not begin
with another one. -/
theorem eq_dropWhile_slash_iff {rest name : List Char} :
    name = rest.dropWhile (· = '/') ↔
      ∃ n, rest = List.replicate n '/' ++ name ∧ name.head? ≠ some '/' := by
  constructor
  · rintro rfl
    have slashes : ∀ c ∈ rest.takeWhile (· = '/'), c = '/' := fun c member => by
      simpa using List.mem_takeWhile_imp member
    refine ⟨(rest.takeWhile (· = '/')).length, ?_, fun first => ?_⟩
    · rw [← List.eq_replicate_of_mem slashes, List.takeWhile_append_dropWhile]
    · have stops := List.head?_dropWhile_not (fun c => decide (c = '/')) rest
      rw [first] at stops
      simp at stops
  · rintro ⟨n, rfl, stops⟩
    rw [List.dropWhile_append_of_pos (by simp)]
    cases name with
    | nil => rfl
    | cons c name =>
      rw [List.dropWhile_cons_of_neg]
      simpa using stops

/-- A key of a section has one name in it. -/
theorem names_iff_eq_suffix (begins : w.pattern.toList <+: key.toList) :
    w.Names key name ↔ name = w.suffix key := by
  obtain ⟨rest, spelled⟩ := begins
  rw [suffix_append spelled.symm, Names]
  cases bare : w.bare with
  | false =>
    have pattern : w.pattern = w.stem ++ "/" := by simp [Wildcard.pattern, bare]
    rw [pattern] at spelled
    simp [← String.toList_inj, ← spelled, eq_comm (a := name.toList)]
  | true =>
    have pattern : w.pattern = w.stem := by simp [Wildcard.pattern, bare]
    rw [pattern] at spelled
    simp only [if_true, ← String.toList_inj, String.toList_ofList, eq_dropWhile_slash_iff,
      ← spelled, List.append_assoc, List.append_cancel_left_eq]

end Wildcard

/-! ## Entries -/

namespace Context

variable {context : Context} {room : Nat} {stack : Stack} {space : Space} {w : Wildcard}

/-- What a text comes to in a frame of its own. Nothing is left of it if the frame is open
already or there is no room for one more. -/
def outcomeWithin (context : Context) (room : Nat) (stack : Stack) (frame : Frame)
    (text : String) : Outcome :=
  if frame ∈ stack.opened then
    .text ""
  else
    match room with
    | 0 => .text ""
    | left + 1 =>
      (resolveParts (context.resolve left (stack.push frame)) (context.parse text)).outcome

/-- The entries that a key is worth in a section: the null or the text that it holds, what its
text comes to, or the entries of the section that the text stands for. -/
def entriesAt (context : Context) (room : Nat) (stack : Stack) (space : Space) (w : Wildcard)
    (key : String) : SectionEntries :=
  match (context.keys space).find? key with
  | none => []
  | some none => [(w.suffix key, none)]
  | some (some text) =>
    if Value.references (context.parse text) = [] then
      [(w.suffix key, some text)]
    else
      match context.outcomeWithin room stack ⟨space, key⟩ text with
      | .text text => [(w.suffix key, some text)]
      | .entries entries => entries.map fun (inner, value) =>
        ("/".intercalate ([w.suffix key, inner].filter (· ≠ "")), value)

theorem key_resolve_entry {key suffix text : String} :
    (context.resolve room stack (.entry space key suffix text)).2.key = key := by
  rw [resolve_eq]
  rfl

theorem key_expandEntry {suffix : String} {entry : String × Option String} :
    (context.expandEntry (context.resolve room stack) space suffix entry).2.key = entry.1 := by
  obtain ⟨key, _ | text⟩ := entry
  · rfl
  · rw [expandEntry]
    split
    · rfl
    · exact key_resolve_entry

theorem outcome_resolve_entry (key suffix text : String) :
    (context.resolve room stack (.entry space key suffix text)).1 =
      context.outcomeWithin room stack ⟨space, key⟩ text := by
  rw [resolve_eq, outcome_answer]
  simp only [findingOf, openFrame, outcomeWithin]
  by_cases opened : (⟨space, key⟩ : Frame) ∈ stack.opened
  · simp only [opened, if_true, Finding.fault]
  · cases room <;> simp only [opened, if_false, inside?, Finding.fault]

/-- The entries under the name of a key are those that the key is worth. -/
theorem expandEntry_eq_entriesAt {entry : String × Option String}
    (member : entry ∈ (context.keys space).entries) :
    (context.expandEntry (context.resolve room stack) space (w.suffix entry.1) entry).1 =
      context.entriesAt room stack space w entry.1 := by
  obtain ⟨key, value⟩ := entry
  have found := KeyMap.mem_entries_iff.1 member
  cases value with
  | none => simp only [expandEntry, entriesAt, found]
  | some text =>
    by_cases plain : Value.references (context.parse text) = []
    · simp only [expandEntry, entriesAt, found, plain, if_true]
    · simp only [expandEntry, entriesAt, found, plain, if_false, outcome_resolve_entry]
      cases context.outcomeWithin room stack ⟨space, key⟩ text with
      | text text => rfl
      | entries entries => simp only [Outcome.entriesUnder, joinSuffix_eq_intercalate]

/-- A section that is entered visits exactly the keys of the map that begin with its pattern,
each once and in key order. Its entries are those that the keys are worth, one key after the
other, each under the name that is left of the key without the pattern. That the section is
empty is noted exactly when it has no entries. -/
theorem expandSection_enumerates (context : Context) (room : Nat) (stack : Stack)
    (space : Space) (w : Wildcard) (fresh : ⟨space, w.path⟩ ∉ stack.opened) :
    let finding := context.expandSection (context.inside? (room + 1)) stack space w
    let visited := finding.children.map (·.key)
    visited.Pairwise (· < ·) ∧
    (∀ key, key ∈ visited ↔
      (context.keys space).contains key = true ∧ w.pattern.toList <+: key.toList) ∧
    (∀ key ∈ visited, ∀ name, w.Names key name ↔ name = w.suffix key) ∧
    finding.outcome = .entries
      (visited.flatMap (context.entriesAt room (stack.push ⟨space, w.path⟩) space w)) ∧
    finding.issues = if finding.outcome = .entries [] then [.emptySection w.path] else [] := by
  intro finding visited
  have entered : finding = context.expandEntries space w
      (context.resolve room (stack.push ⟨space, w.path⟩)) := by
    simp only [finding, expandSection_eq, openFrame, fresh, if_false, inside?]
  have keys : visited = (w.entries (context.keys space)).map Prod.fst := by
    simp only [visited, entered, expandEntries, List.map_map]
    exact List.map_congr_left fun entry _ => key_expandEntry
  have sorted : (w.entries (context.keys space)).Pairwise fun a b => a.1 < b.1 := by
    rw [Wildcard.entries, KeyMap.below_eq_filter]
    exact (context.keys space).sorted.filter _
  have matched : ∀ key, key ∈ visited ↔
      (context.keys space).contains key = true ∧ w.pattern.toList <+: key.toList := by
    intro key
    simp only [keys, List.mem_map, Wildcard.mem_entries_iff, ← KeyMap.mem_keys_iff, KeyMap.keys]
    constructor
    · rintro ⟨entry, ⟨member, begins⟩, rfl⟩
      exact ⟨⟨entry, member, rfl⟩, begins⟩
    · rintro ⟨⟨entry, member, rfl⟩, begins⟩
      exact ⟨entry, ⟨member, begins⟩, rfl⟩
  have outcome : finding.outcome = .entries
      (visited.flatMap (context.entriesAt room (stack.push ⟨space, w.path⟩) space w)) := by
    simp only [keys, entered, expandEntries, List.flatMap_map]
    refine congrArg Outcome.entries (List.flatMap_congr fun entry member => ?_)
    exact expandEntry_eq_entriesAt (Wildcard.mem_entries_iff.1 member).1
  refine ⟨keys ▸ List.pairwise_map.2 sorted, matched,
    fun key member name => Wildcard.names_iff_eq_suffix ((matched key).1 member).2, outcome, ?_⟩
  rw [entered]
  simp only [expandEntries, Outcome.entries.injEq]

/-- A section with a null, a key without a name and a section inside, beside keys that do not
begin alike. -/
def suppliers : Context where
  environment := .ofList [("db", some "0"), ("db/list", some "{{cache/*}}"), ("dba", none),
    ("cache/", some "1"), ("cache/a", some "{{db}}"), ("cache/b", some "{{db*}}"),
    ("cb", some "y")]

/-- The section inside goes back to the one around it, and both have a key without a name. -/
theorem expandSection_suppliers :
    ⟨.environment, "db*"⟩ ∉ (Stack.mk "K" []).opened ∧
    (suppliers.expandSection (suppliers.inside? 4) { root := "K" } .environment
      ⟨"db", true⟩).outcome =
        .entries [("", some "0"), ("list", some "1"), ("list/a", some "0"), ("list/b", some ""),
          ("a", none)] := by
  have fresh : ⟨.environment, (⟨"db", true⟩ : Wildcard).path⟩ ∉ (Stack.mk "K" []).opened :=
    List.not_mem_nil
  obtain ⟨-, -, -, outcome, -⟩ :=
    suppliers.expandSection_enumerates 3 { root := "K" } .environment ⟨"db", true⟩ fresh
  have visited : (suppliers.expandSection (suppliers.inside? 4) { root := "K" } .environment
      ⟨"db", true⟩).children.map (·.key) = ["db", "db/list", "dba"] := by decide +kernel
  rw [visited] at outcome
  refine ⟨List.not_mem_nil, outcome.trans ?_⟩
  decide +kernel

end Context

end LayeredConfig
