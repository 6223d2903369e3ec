import LayeredConfig.KeyMap.Basic

/-!
# What the operations on maps do to look-ups

A map is known by what is found at its keys. The lemmas here say so, and say for
each operation what is found afterwards.

## Main results

* `KeyMap.mem_entries_iff` — the entries are what is found
* `KeyMap.ext_find?` — maps in which the same is found are equal
* `KeyMap.find?_insert`, `KeyMap.find?_erase`, `KeyMap.find?_filter`, `KeyMap.find?_overlay`
* `KeyMap.overlay_eq_overlay_iff` — what a map shows under another one
* `KeyMap.below_eq_filter` — a scan of the map misses no key that begins with the pattern
-/

namespace LayeredConfig.KeyMap

variable {α : Type} {m m' : KeyMap α} {key key' : String} {value : α}

theorem lookup_cons (entry : String × α) (rest : List (String × α)) :
    (entry :: rest).lookup key = if key = entry.1 then some entry.2 else rest.lookup key := by
  obtain ⟨k, v⟩ := entry
  by_cases same : key = k
  · simp [same]
  · simp [List.lookup_cons, same, beq_false_of_ne same]

theorem lookup_eq_none_of_lt {entries : List (String × α)}
    (above : ∀ entry ∈ entries, key < entry.1) : entries.lookup key = none := by
  induction entries with
  | nil => rfl
  | cons entry rest ih =>
    have different : key ≠ entry.1 := fun same =>
      String.lt_irrefl entry.1 (same ▸ above entry List.mem_cons_self)
    rw [lookup_cons, if_neg different]
    exact ih fun entry member => above entry (List.mem_cons_of_mem _ member)

/-- Under pairwise different keys every entry is found. -/
theorem lookup_eq_some_iff_of_nodup {entries : List (String × α)}
    (nodup : (entries.map Prod.fst).Nodup) :
    entries.lookup key = some value ↔ (key, value) ∈ entries := by
  induction entries with
  | nil => simp
  | cons entry rest ih =>
    obtain ⟨fresh, nodup⟩ := List.nodup_cons.1 nodup
    rw [lookup_cons]
    by_cases same : key = entry.1
    · have notBelow : (key, value) ∉ rest := fun member =>
        fresh (same ▸ List.mem_map_of_mem (f := Prod.fst) member)
      rw [if_pos same, List.mem_cons, or_iff_left notBelow]
      constructor
      · intro found
        rw [same, ← Option.some.inj found]
      · intro equal
        rw [← equal]
    · have notHead : (key, value) ≠ entry := fun equal => same (congrArg Prod.fst equal)
      rw [if_neg same, ih nodup, List.mem_cons, or_iff_right notHead]

/-- Under pairwise different keys the order of the entries does not matter. -/
theorem lookup_eq_of_perm {entries entries' : List (String × α)}
    (nodup : (entries.map Prod.fst).Nodup) (perm : entries.Perm entries') :
    entries'.lookup key = entries.lookup key := by
  have nodup' := (perm.map Prod.fst).nodup_iff.1 nodup
  ext value
  rw [lookup_eq_some_iff_of_nodup nodup', lookup_eq_some_iff_of_nodup nodup, perm.mem_iff]

theorem nodup_of_sorted {entries : List (String × α)}
    (sorted : entries.Pairwise fun a b => a.1 < b.1) : (entries.map Prod.fst).Nodup := by
  refine List.pairwise_map.2 (sorted.imp fun {a b} less same => ?_)
  rw [same] at less
  exact String.lt_irrefl b.1 less

theorem mem_iff_lookup {entries : List (String × α)}
    (sorted : entries.Pairwise fun a b => a.1 < b.1) :
    (key, value) ∈ entries ↔ entries.lookup key = some value :=
  (lookup_eq_some_iff_of_nodup (nodup_of_sorted sorted)).symm

theorem mem_entries_iff : (key, value) ∈ m.entries ↔ m.find? key = some value :=
  mem_iff_lookup m.sorted

theorem mem_keys_iff : key ∈ m.keys ↔ m.contains key = true := by
  simp only [keys, List.mem_map, contains, Option.isSome_iff_exists]
  constructor
  · rintro ⟨⟨k, v⟩, member, rfl⟩
    exact ⟨v, mem_entries_iff.1 member⟩
  · rintro ⟨v, found⟩
    exact ⟨(key, v), mem_entries_iff.2 found, rfl⟩

theorem contains_eq_false_iff : m.contains key = false ↔ m.find? key = none := by
  rw [contains, Option.isSome_eq_false_iff, Option.isNone_iff_eq_none]

theorem pairwise_keys (m : KeyMap α) : m.keys.Pairwise (· < ·) :=
  List.pairwise_map.2 m.sorted

theorem nodup_keys (m : KeyMap α) : m.keys.Nodup :=
  nodup_of_sorted m.sorted

/-- Two lists in key order in which the same is found at every key hold the same
entries. -/
theorem eq_of_lookup_eq {l l' : List (String × α)} (sorted : l.Pairwise fun a b => a.1 < b.1)
    (sorted' : l'.Pairwise fun a b => a.1 < b.1) (same : ∀ key, l.lookup key = l'.lookup key) :
    l = l' := by
  induction l generalizing l' with
  | nil =>
    cases l' with
    | nil => rfl
    | cons entry rest => simpa [lookup_cons] using same entry.1
  | cons entry rest ih =>
    cases l' with
    | nil => simpa [lookup_cons] using same entry.1
    | cons entry' rest' =>
      have above := (List.pairwise_cons.1 sorted).1
      have above' := (List.pairwise_cons.1 sorted').1
      have member : entry ∈ entry' :: rest' :=
        (mem_iff_lookup sorted').2
          (same entry.1 ▸ (mem_iff_lookup sorted).1 List.mem_cons_self)
      have member' : entry' ∈ entry :: rest :=
        (mem_iff_lookup sorted).2
          (same entry'.1 ▸ (mem_iff_lookup sorted').1 List.mem_cons_self)
      have heads : entry = entry' := by
        rcases List.mem_cons.1 member with equal | below
        · exact equal
        · rcases List.mem_cons.1 member' with equal | below'
          · exact equal.symm
          · exact absurd (String.lt_trans (above _ below') (above' _ below)) (String.lt_irrefl _)
      subst heads
      refine congrArg _ (ih (List.pairwise_cons.1 sorted).2 (List.pairwise_cons.1 sorted').2
        fun key => ?_)
      by_cases equal : key = entry.1
      · rw [equal, lookup_eq_none_of_lt above, lookup_eq_none_of_lt above']
      · simpa [lookup_cons, equal] using same key

theorem ext_find? (same : ∀ key, m.find? key = m'.find? key) : m = m' :=
  KeyMap.ext (eq_of_lookup_eq m.sorted m'.sorted same)

@[simp] theorem find?_empty : (∅ : KeyMap α).find? key = none := rfl

theorem lookup_map {α β : Type} (f : String → α → β) (entries : List (String × α))
    (key : String) :
    (entries.map fun entry => (entry.1, f entry.1 entry.2)).lookup key =
      (entries.lookup key).map (f key) := by
  induction entries with
  | nil => rfl
  | cons entry rest ih =>
    rw [List.map_cons, lookup_cons, lookup_cons, ih]
    by_cases same : key = entry.1
    · simp [same]
    · simp [same]

theorem lookup_insertEntry (entries : List (String × α)) :
    (insertEntry key value entries).lookup key' =
      if key' = key then some value else entries.lookup key' := by
  induction entries with
  | nil => simp [insertEntry, lookup_cons]
  | cons entry rest ih =>
    unfold insertEntry
    split
    · rw [lookup_cons]
    · split
      · next equal =>
        rw [lookup_cons, lookup_cons, ← equal]
        split <;> rfl
      · next different =>
        rw [lookup_cons, lookup_cons, ih]
        by_cases atHead : key' = entry.1
        · simp [atHead, Ne.symm different]
        · simp [atHead]

@[simp] theorem find?_insert :
    (m.insert key value).find? key' = if key' = key then some value else m.find? key' :=
  lookup_insertEntry m.entries

theorem contains_insert : (m.insert key value).contains key' = true ↔
    key' = key ∨ m.contains key' = true := by
  simp only [contains, find?_insert]
  split <;> simp_all

theorem lookup_filter (key : String) (entries : List (String × α)) (keep : String → Bool) :
    (entries.filter fun entry => keep entry.1).lookup key =
      if keep key then entries.lookup key else none := by
  induction entries with
  | nil => simp
  | cons entry rest ih =>
    rw [List.filter_cons, lookup_cons]
    by_cases same : key = entry.1
    · subst same
      by_cases kept : keep entry.1
      · simp [kept, lookup_cons]
      · simpa [kept] using ih
    · rw [if_neg same]
      split
      · rw [lookup_cons, if_neg same, ih]
      · exact ih

@[simp] theorem find?_filter (keep : String → Bool) :
    (m.filter keep).find? key = if keep key then m.find? key else none :=
  lookup_filter key m.entries keep

@[simp] theorem find?_erase :
    (m.erase key).find? key' = if key' = key then none else m.find? key' := by
  have found := lookup_filter key' m.entries fun k => decide (k ≠ key)
  by_cases same : key' = key <;> simpa [find?, erase, same] using found

/-- What is put in last is found; without it, what was found before. -/
theorem find?_insertAll (entries : List (String × α)) :
    (m.insertAll entries).find? key = (entries.reverse.lookup key).or (m.find? key) := by
  induction entries generalizing m with
  | nil => rfl
  | cons entry rest ih =>
    have step : m.insertAll (entry :: rest) = (m.insert entry.1 entry.2).insertAll rest := rfl
    rw [step, ih, find?_insert, List.reverse_cons, List.lookup_append, Option.or_assoc,
      lookup_cons, List.lookup_nil]
    split <;> rfl

theorem lookup_reverse {entries : List (String × α)}
    (sorted : entries.Pairwise fun a b => a.1 < b.1) :
    entries.reverse.lookup key = entries.lookup key :=
  lookup_eq_of_perm (nodup_of_sorted sorted) entries.reverse_perm.symm

/-- The map of its own entries, in whatever order they come. -/
theorem ofList_of_perm {entries : List (String × α)} (perm : m.entries.Perm entries) :
    ofList entries = m := by
  refine ext_find? fun key => ?_
  have reversed : m.entries.Perm entries.reverse := perm.trans entries.reverse_perm.symm
  rw [ofList, find?_insertAll, lookup_eq_of_perm (nodup_of_sorted m.sorted) reversed,
    find?_empty, Option.or_none]
  rfl

/-- Where one map is laid over another, the upper value is found first. -/
@[simp] theorem find?_overlay : (m.overlay m').find? key = (m'.find? key).or (m.find? key) := by
  rw [overlay, find?_insertAll, lookup_reverse m'.sorted]
  rfl

/-- A map shows no more than what is found at the keys that are kept. -/
theorem filter_eq_filter_iff {keep : String → Bool} :
    m.filter keep = m'.filter keep ↔ ∀ key, keep key = true → m.find? key = m'.find? key := by
  constructor
  · intro same key kept
    have found : (m.filter keep).find? key = (m'.filter keep).find? key := by rw [same]
    simpa [kept] using found
  · intro agree
    refine ext_find? fun key => ?_
    rw [find?_filter, find?_filter]
    split
    · next kept => exact agree key kept
    · rfl

/-- Under another map only what is found at the keys that it leaves open is seen. -/
theorem overlay_eq_overlay_iff {upper : KeyMap α} :
    m.overlay upper = m'.overlay upper ↔
      ∀ key, upper.contains key = false → m.find? key = m'.find? key := by
  constructor
  · intro same key leftOpen
    have found : (m.overlay upper).find? key = (m'.overlay upper).find? key := by rw [same]
    rwa [find?_overlay, find?_overlay, contains_eq_false_iff.1 leftOpen, Option.none_or,
      Option.none_or] at found
  · intro agree
    refine ext_find? fun key => ?_
    rw [find?_overlay, find?_overlay]
    cases above : upper.find? key with
    | none => exact agree key (contains_eq_false_iff.2 above)
    | some value => rfl

/-- A text is not before its own beginning. -/
theorem not_lt_of_isPrefixOf {pattern text : List Char} (begins : pattern.isPrefixOf text = true) :
    ¬ text < pattern := by
  induction pattern generalizing text with
  | nil => exact List.not_lt_nil text
  | cons c pattern ih =>
    cases text with
    | nil => simp at begins
    | cons d text =>
      simp only [List.isPrefixOf_cons_cons, Bool.and_eq_true, beq_iff_eq] at begins
      obtain ⟨rfl, begins⟩ := begins
      simpa [List.cons_lt_cons_iff, Char.lt_irrefl] using ih begins

/-- What stands between a beginning and a text with that beginning has it too. -/
theorem isPrefixOf_of_between {pattern middle text : List Char}
    (begins : pattern.isPrefixOf text = true) (notBefore : ¬ middle < pattern)
    (notAfter : ¬ text < middle) : pattern.isPrefixOf middle = true := by
  induction pattern generalizing middle text with
  | nil => rfl
  | cons c pattern ih =>
    cases text with
    | nil => simp at begins
    | cons d text =>
      simp only [List.isPrefixOf_cons_cons, Bool.and_eq_true, beq_iff_eq] at begins
      obtain ⟨rfl, begins⟩ := begins
      cases middle with
      | nil => exact absurd (List.nil_lt_cons c pattern) notBefore
      | cons e middle =>
        simp only [List.cons_lt_cons_iff, not_or, not_and] at notBefore notAfter
        have same : c = e :=
          Char.le_antisymm (Char.not_lt.1 notBefore.1) (Char.not_lt.1 notAfter.1)
        subst same
        simpa using ih begins (notBefore.2 rfl) (notAfter.2 rfl)

/-- A scan finds all elements with a property `q` if they stand together and none
of them is skipped by `p`, which holds only at the start of the list. -/
theorem takeWhile_dropWhile_eq_filter {β : Type} {p q : β → Bool} {l : List β}
    (skipped : ∀ a ∈ l, p a = true → q a = false)
    (together : l.Pairwise fun a b => p a = false → p b = false ∧ (q b = true → q a = true)) :
    (l.dropWhile p).takeWhile q = l.filter q := by
  induction l with
  | nil => rfl
  | cons a l ih =>
    have after := (List.pairwise_cons.1 together).1
    have found := ih (fun b member => skipped b (List.mem_cons_of_mem _ member))
      (List.pairwise_cons.1 together).2
    cases early : p a with
    | true => simpa [early, skipped a List.mem_cons_self early] using found
    | false =>
      have kept : l.dropWhile p = l := by
        cases l with
        | nil => rfl
        | cons b l => simp [(after b List.mem_cons_self early).1]
      rw [kept] at found
      cases begins : q a with
      | true => simp [early, begins, found]
      | false =>
        have none : ∀ b ∈ l, q b = false := fun b member =>
          Bool.eq_false_iff.2 fun h => by simp [(after b member early).2 h] at begins
        simpa [early, begins] using none

/-- In key order the entries whose keys begin with a pattern stand together, so a
scan that stops at the first other key finds them all. -/
theorem below_eq_filter (m : KeyMap α) (pattern : String) :
    m.below pattern = m.entries.filter fun entry => pattern.toList.isPrefixOf entry.1.toList := by
  refine takeWhile_dropWhile_eq_filter (fun entry _ early => ?_)
    (m.sorted.imp fun {a b} less notEarly => ⟨?_, fun begins => ?_⟩)
  · exact Bool.eq_false_iff.2 fun begins =>
      not_lt_of_isPrefixOf begins (String.lt_iff.1 (of_decide_eq_true early))
  · exact decide_eq_false fun early =>
      of_decide_eq_false notEarly (String.lt_trans less early)
  · exact isPrefixOf_of_between begins
      (fun early => of_decide_eq_false notEarly (String.lt_iff.2 early))
      fun later => String.lt_irrefl _ (String.lt_trans less (String.lt_iff.2 later))

end LayeredConfig.KeyMap
