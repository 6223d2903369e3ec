import LayeredConfig.Json.Basic
import LayeredConfig.KeyMap.Lemmas

/-!
# The order of members

The members of an object stand in no particular order: what writes a record may list them as
they are declared or sort them by name. A record is read by the names of its members, so it is
read back whatever their order, at every depth.

## Main definitions

* `Json.Reorders` — two JSON values differ at most in the order of members
* `Json.Reads` — what is read from a JSON value in whatever order its members stand

## Main results

* `Json.Reorders.exists_members` — the members are found under their names
* `Json.Reads.required`, `Json.Reads.optional`, `Json.Reads.list` — fields that are read back
-/

namespace LayeredConfig

namespace Json

/-! ## Reordered values -/

mutual

/-- Two JSON values differ at most in the order of the members of their objects. -/
inductive Reorders : Json → Json → Prop
  | null : Reorders .null .null
  | bool {value : Bool} : Reorders (.bool value) (.bool value)
  | number {mantissa : Int} {exponent : Nat} :
    Reorders (.number mantissa exponent) (.number mantissa exponent)
  | string {text : String} : Reorders (.string text) (.string text)
  | array {items items' : List Json} : ReordersItems items items' →
    Reorders (.array items) (.array items')
  | object {members middle members' : List (String × Json)} : members.Perm middle →
    ReordersMembers middle members' → Reorders (.object members) (.object members')

/-- The same for the items of arrays, one by one. -/
inductive ReordersItems : List Json → List Json → Prop
  | nil : ReordersItems [] []
  | cons {json json' : Json} {items items' : List Json} : Reorders json json' →
    ReordersItems items items' → ReordersItems (json :: items) (json' :: items')

/-- The same for members with the same names, one by one. -/
inductive ReordersMembers : List (String × Json) → List (String × Json) → Prop
  | nil : ReordersMembers [] []
  | cons {name : String} {json json' : Json} {members members' : List (String × Json)} :
    Reorders json json' → ReordersMembers members members' →
    ReordersMembers ((name, json) :: members) ((name, json') :: members')

end

mutual

/-- Every value may be left as it stands. -/
theorem Reorders.refl : (json : Json) → json.Reorders json
  | .null => .null
  | .bool _ => .bool
  | .number _ _ => .number
  | .string _ => .string
  | .array items => .array (ReordersItems.refl items)
  | .object members => .object (.refl _) (ReordersMembers.refl members)

theorem ReordersItems.refl : (items : List Json) → ReordersItems items items
  | [] => .nil
  | json :: items => .cons (Reorders.refl json) (ReordersItems.refl items)

theorem ReordersMembers.refl : (members : List (String × Json)) → ReordersMembers members members
  | [] => .nil
  | (_, json) :: members => .cons (Reorders.refl json) (ReordersMembers.refl members)

end

theorem ReordersMembers.lookup {members members' : List (String × Json)}
    (same : ReordersMembers members members') (name : String) :
    Option.Rel Reorders (members.lookup name) (members'.lookup name) := by
  induction members generalizing members' with
  | nil =>
    cases same
    exact .none
  | cons member members ih =>
    cases same with
    | cons value rest =>
      rw [KeyMap.lookup_cons, KeyMap.lookup_cons]
      split
      · exact .some value
      · exact ih rest

/-- The members of a reordered object are found under their names. -/
theorem Reorders.exists_members {members : List (String × Json)} {json : Json}
    (names : (members.map Prod.fst).Nodup) (same : (Json.object members).Reorders json) :
    ∃ members', json = .object members' ∧
      ∀ name, Option.Rel Reorders (members.lookup name) (members'.lookup name) := by
  cases same with
  | @object _ middle members' perm same =>
    refine ⟨members', rfl, fun name => ?_⟩
    rw [← KeyMap.lookup_eq_of_perm names perm]
    exact same.lookup name

/-! ## Reading -/

/-- A reader gives a value from JSON in whatever order the members stand. -/
def Reads {α : Type} (read : Json → Option α) (json : Json) (value : α) : Prop :=
  ∀ json', json.Reorders json' → read json' = some value

namespace Reads

variable {α : Type} {read : Json → Option α} {value : α} {json : Json} {name : String}
  {members members' : List (String × Json)}

theorem text (text : String) : Reads text? (.string text) text := by
  intro json same
  cases same
  rfl

theorem nullableText (text : Option String) : Reads nullableText? (ofNullable text) text := by
  intro json same
  cases text <;> cases same <;> rfl

theorem map {β : Type} (reads : Reads read json value) (f : α → β) :
    Reads (fun json => f <$> read json) json (f value) := by
  intro json' same
  exact congrArg (f <$> ·) (reads json' same)

theorem mapM_of_reordersItems {write : α → Json} {values : List α} {jsons : List Json}
    (each : ∀ value ∈ values, Reads read (write value) value)
    (same : ReordersItems (values.map write) jsons) : jsons.mapM read = some values := by
  induction values generalizing jsons with
  | nil =>
    cases same
    rfl
  | cons value values ih =>
    cases same with
    | cons head tail =>
      rw [List.mapM_cons, each value List.mem_cons_self _ head,
        ih (fun value member => each value (List.mem_cons_of_mem _ member)) tail]
      rfl

/-- An array is read back item by item. -/
theorem items {write : α → Json} {values : List α}
    (each : ∀ value ∈ values, Reads read (write value) value) :
    Reads (fun json => json.items?.bind (·.mapM read)) (.array (values.map write)) values := by
  intro json same
  cases same with
  | array same => exact mapM_of_reordersItems each same

theorem texts (texts : List String) : Reads texts? (ofTexts texts) texts :=
  items fun text _ => Reads.text text

/-! ### Fields -/

theorem exists_lookup (reads : Reads read json value) (found : members.lookup name = some json)
    (same : Option.Rel Reorders (members.lookup name) (members'.lookup name)) :
    ∃ json', members'.lookup name = some json' ∧ read json' = some value := by
  rw [found] at same
  generalize members'.lookup name = found' at same
  cases same with
  | some same => exact ⟨_, rfl, reads _ same⟩

/-- A field that is written is read back. -/
theorem required (reads : Reads read json value) (found : members.lookup name = some json)
    (same : Option.Rel Reorders (members.lookup name) (members'.lookup name)) :
    Json.required members' name read = some value := by
  obtain ⟨json', found', read'⟩ := exists_lookup reads found same
  rw [Json.required, found']
  exact read'

theorem optional (reads : Reads read json value) (found : members.lookup name = some json)
    (same : Option.Rel Reorders (members.lookup name) (members'.lookup name)) (default : α) :
    Json.optional members' name default read = some value := by
  obtain ⟨json', found', read'⟩ := exists_lookup reads found same
  rw [Json.optional, found']
  exact read'

/-- A list that is left out when it is empty is read back. -/
theorem list {read : Json → Option (List α)} {values : List α} (reads : Reads read json values)
    (found : members.lookup name = if values = [] then none else some json)
    (same : Option.Rel Reorders (members.lookup name) (members'.lookup name)) :
    Json.optional members' name [] read = some values := by
  by_cases empty : values = []
  · rw [found, if_pos empty] at same
    rw [Json.optional, empty]
    generalize members'.lookup name = found' at same
    cases same
    rfl
  · rw [if_neg empty] at found
    exact optional reads found same []

end Reads

/-! ## Written members -/

@[simp] theorem lookup_unlessEmpty {α : Type} (name key : String) (items : List α) (json : Json) :
    (unlessEmpty name items json).lookup key =
      if key = name then if items = [] then none else some json else none := by
  unfold unlessEmpty
  split
  · next empty =>
    have empty : items = [] := List.isEmpty_iff.1 empty
    simp [empty]
  · next some =>
    have some : items ≠ [] := fun empty => some (List.isEmpty_iff.2 empty)
    simp [KeyMap.lookup_cons, some]

theorem lookup_eq_none_of_sublist {members : List (String × Json)} {names : List String}
    {name : String} (sub : (members.map Prod.fst).Sublist names) (absent : name ∉ names) :
    members.lookup name = none := by
  refine List.lookup_eq_none_iff.2 fun member isMember => bne_iff_ne.2 ?_
  rintro rfl
  exact absent (sub.subset (List.mem_map_of_mem isMember))

theorem map_fst_unlessEmpty_sublist {α : Type} (name : String) (items : List α) (json : Json) :
    ((unlessEmpty name items json).map Prod.fst).Sublist [name] := by
  unfold unlessEmpty
  split
  · exact List.nil_sublist _
  · exact List.Sublist.refl _

end Json

end LayeredConfig
