/-!
# Maps from keys to values, in key order

The keys of a configuration are paths such as `db/host`. A `KeyMap` holds its
entries in strictly increasing key order, the order by code point, so that a
walk over the map, a section of it and everything written from it come out in
one fixed order. Two maps with the same entries are equal.

## Main definitions

* `KeyMap` — entries in strictly increasing key order
* `KeyMap.find?`, `KeyMap.insert`, `KeyMap.erase`, `KeyMap.filter` — the usual operations
* `KeyMap.overlay` — one map laid over another
* `KeyMap.below` — the entries whose keys begin with a pattern
* `ConfigMap` — keys to texts, where `none` is an explicit null
-/

namespace LayeredConfig

/-- A map from text keys to values, as a list of entries in strictly increasing
key order. -/
structure KeyMap (α : Type) where
  /-- The entries in key order. -/
  entries : List (String × α)
  sorted : entries.Pairwise fun a b => a.1 < b.1

namespace KeyMap

variable {α : Type}

theorem ext {m m' : KeyMap α} (h : m.entries = m'.entries) : m = m' := by
  cases m; cases m'; cases h; rfl

instance [DecidableEq α] : DecidableEq (KeyMap α) := fun m m' =>
  if h : m.entries = m'.entries then
    isTrue (ext h)
  else
    isFalse fun e => h (congrArg entries e)

/-- The map without entries. -/
def empty : KeyMap α where
  entries := []
  sorted := .nil

instance : EmptyCollection (KeyMap α) := ⟨empty⟩

instance : Inhabited (KeyMap α) := ⟨empty⟩

/-- The number of entries. -/
def size (m : KeyMap α) : Nat := m.entries.length

/-- The keys in order. -/
def keys (m : KeyMap α) : List String := m.entries.map Prod.fst

/-- The value at a key. -/
def find? (m : KeyMap α) (key : String) : Option α := m.entries.lookup key

/-- The map has an entry at the key. -/
def contains (m : KeyMap α) (key : String) : Bool := (m.find? key).isSome

/-- Puts an entry in its place in key order; an entry with the same key is
replaced. -/
def insertEntry (key : String) (value : α) : List (String × α) → List (String × α)
  | [] => [(key, value)]
  | entry :: rest =>
    if key < entry.1 then
      (key, value) :: entry :: rest
    else if key = entry.1 then
      (key, value) :: rest
    else
      entry :: insertEntry key value rest

theorem mem_insertEntry {key : String} {value : α} {entries : List (String × α)}
    {entry : String × α} (h : entry ∈ insertEntry key value entries) :
    entry = (key, value) ∨ entry ∈ entries := by
  induction entries with
  | nil => simpa [insertEntry] using h
  | cons head rest ih =>
    unfold insertEntry at h
    split at h
    · simpa using h
    · split at h
      · rcases List.mem_cons.1 h with h | h
        · exact .inl h
        · exact .inr (List.mem_cons_of_mem _ h)
      · rcases List.mem_cons.1 h with h | h
        · exact .inr (h ▸ List.mem_cons_self)
        · exact (ih h).imp id (List.mem_cons_of_mem _)

theorem sorted_insertEntry {entries : List (String × α)}
    (sorted : entries.Pairwise fun a b => a.1 < b.1) (key : String) (value : α) :
    (insertEntry key value entries).Pairwise fun a b => a.1 < b.1 := by
  induction entries with
  | nil => simp [insertEntry]
  | cons head rest ih =>
    have above := (List.pairwise_cons.1 sorted).1
    have tail := (List.pairwise_cons.1 sorted).2
    unfold insertEntry
    split
    · next below =>
      refine List.pairwise_cons.2 ⟨fun entry member => ?_, sorted⟩
      rcases List.mem_cons.1 member with rfl | member
      · exact below
      · exact String.lt_trans below (above entry member)
    · next notBelow =>
      split
      · next same =>
        subst same
        exact List.pairwise_cons.2 ⟨above, tail⟩
      · next different =>
        refine List.pairwise_cons.2 ⟨fun entry member => ?_, ih tail⟩
        rcases mem_insertEntry member with rfl | member
        · exact Decidable.byContradiction fun notAbove =>
            different (String.le_antisymm (String.not_lt.1 notAbove) (String.not_lt.1 notBelow))
        · exact above entry member

/-- The map with a value put at a key, whatever was there before. -/
def insert (m : KeyMap α) (key : String) (value : α) : KeyMap α where
  entries := insertEntry key value m.entries
  sorted := sorted_insertEntry m.sorted key value

/-- The map with the entry at a key removed, if there is one. -/
def erase (m : KeyMap α) (key : String) : KeyMap α where
  entries := m.entries.filter fun entry => entry.1 ≠ key
  sorted := m.sorted.filter _

/-- The entries whose keys satisfy a test. -/
def filter (m : KeyMap α) (keep : String → Bool) : KeyMap α where
  entries := m.entries.filter fun entry => keep entry.1
  sorted := m.sorted.filter _

/-- The entries put in one after the other; of two with the same key the later
one stays. -/
def insertAll (m : KeyMap α) (entries : List (String × α)) : KeyMap α :=
  entries.foldl (fun m entry => m.insert entry.1 entry.2) m

/-- The map of a list of entries; of two with the same key the later one stays. -/
def ofList (entries : List (String × α)) : KeyMap α :=
  insertAll ∅ entries

/-- One map laid over another: where both have a key, the upper value is seen. -/
def overlay (lower upper : KeyMap α) : KeyMap α :=
  lower.insertAll upper.entries

/-- The entries whose keys begin with `pattern`. In key order they stand
together, from the first key that is not before the pattern up to the first one
that does not begin with it. -/
def below (m : KeyMap α) (pattern : String) : List (String × α) :=
  (m.entries.dropWhile fun entry => entry.1 < pattern).takeWhile fun entry =>
    pattern.toList.isPrefixOf entry.1.toList

end KeyMap

/-- A configuration: paths with their texts. A path can be present with an
explicit null, written `none`. -/
abbrev ConfigMap := KeyMap (Option String)

end LayeredConfig
