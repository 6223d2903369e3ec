import LayeredConfig.KeyMap.Lemmas
import LayeredConfig.Resolution.Query

/-!
# What paths ask for

A path that ends in a star asks for a section, every other path for the key that it
spells. The path can be read back from the query, so no two paths ask for the same. A path
below a stem asks for the like, and what stands beside it stands below the stem as well.

## Main definitions

* `pathUnder` — a path below a stem

## Main results

* `Query.ofPath_eq_key_iff` — the paths that ask for a key are those without a final star
* `Query.path_of_ofPath_eq_all` — a section is written as the path that asks for it
* `Wildcard.mem_entries_iff` — the entries of a section are those that begin with its pattern
* `siblingPath_pathUnder` — below a stem nothing leads out of it
-/

namespace LayeredConfig.Query

theorem eq_of_ofPath_eq_key {path key : String} (h : ofPath path = .key key) : key = path := by
  unfold ofPath at h
  split at h
  · cases h
  · split at h
    · cases h
    · exact (Query.key.inj h).symm

theorem path_of_ofPath_eq_all {path : String} {wildcard : Wildcard}
    (h : ofPath path = .all wildcard) : wildcard.path = path := by
  unfold ofPath at h
  split at h
  · next stem cut =>
    cases h
    rw [Text.stripSuffix?_eq_some_iff] at cut
    apply String.toList_injective
    simp [Wildcard.path, cut]
  · split at h
    · next stem cut =>
      cases h
      rw [Text.stripSuffix?_eq_some_iff] at cut
      apply String.toList_injective
      simp [Wildcard.path, cut]
    · cases h

/-- Exactly the paths without a final star ask for a key. -/
theorem ofPath_eq_key_iff {path : String} :
    ofPath path = .key path ↔ path.toList.getLast? ≠ some '*' := by
  unfold ofPath
  -- the cases are those of `ofPath`: both kinds of sections end in a star
  split
  · next stem cut =>
    rw [Text.stripSuffix?_eq_some_iff] at cut
    simp [cut]
  · split
    · next stem cut =>
      rw [Text.stripSuffix?_eq_some_iff] at cut
      simp [cut]
    · next notBare =>
      simp only [true_iff]
      intro last
      obtain ⟨stem, ending⟩ := List.getLast?_eq_some_iff.1 last
      rw [Text.stripSuffix?_eq_some_iff.2 ending] at notBare
      cases notBare

end LayeredConfig.Query

namespace LayeredConfig

theorem Wildcard.mem_entries_iff {α : Type} {w : Wildcard} {m : KeyMap α} {entry : String × α} :
    entry ∈ w.entries m ↔ entry ∈ m.entries ∧ w.pattern.toList <+: entry.1.toList := by
  rw [entries, KeyMap.below_eq_filter, List.mem_filter, List.isPrefixOf_iff_prefix]

theorem Wildcard.find?_of_mem_entries {α : Type} {w : Wildcard} {m : KeyMap α} {key : String}
    {value : α} (member : (key, value) ∈ w.entries m) : m.find? key = some value :=
  KeyMap.mem_entries_iff.1 (mem_entries_iff.1 member).1

/-! ## Paths below a stem -/

/-- A path below a stem. -/
def pathUnder (stem path : String) : String := stem ++ "/" ++ path

variable {stem path path' : String}

theorem toList_pathUnder (stem path : String) :
    (pathUnder stem path).toList = stem.toList ++ '/' :: path.toList := by
  simp [pathUnder]

@[simp] theorem pathUnder_inj : pathUnder stem path = pathUnder stem path' ↔ path = path' := by
  rw [← String.toList_inj, toList_pathUnder, toList_pathUnder, List.append_cancel_left_eq,
    List.cons_inj_right, String.toList_inj]

/-- A path below a stem ends as it is written, or in the slash before it. -/
theorem getLast?_pathUnder_ne (ending : path.toList.getLast? ≠ some '*') :
    (pathUnder stem path).toList.getLast? ≠ some '*' := by
  rw [toList_pathUnder, List.getLast?_append, List.getLast?_cons, Option.some_or]
  cases last : path.toList.getLast? with
  | none => decide
  | some c => rwa [Option.getD_some, ← last]

theorem siblingPath_getLast? {key : String} (ending : path.toList.getLast? ≠ some '*') :
    (siblingPath key path).toList.getLast? ≠ some '*' := by
  unfold siblingPath
  split
  · exact getLast?_pathUnder_ne ending
  · exact ending

/-- What stands beside a key below a stem stands below the stem too, even beside a key that
has no parent of its own there. -/
theorem siblingPath_pathUnder (stem key path : String) :
    siblingPath (pathUnder stem key) path = pathUnder stem (siblingPath key path) := by
  rw [siblingPath, siblingPath, toList_pathUnder, Text.cutLast?_append_cons]
  cases Text.cutLast? '/' key.toList with
  | none => simp only [String.ofList_toList, pathUnder]
  | some cut =>
    apply String.toList_injective
    simp [toList_pathUnder]

end LayeredConfig
