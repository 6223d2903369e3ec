import LayeredConfig.KeyMap.Basic

/-!
# JSON values

References, traces and compiled configurations are stored as JSON. Reading one
of them from JSON either gives the value or refuses the JSON as a whole. A record
is written as an object with its fields as members, and may also be read from an
array of its fields in their order.

## Main definitions

* `Json` — a JSON value
* `Json.fields?` — the fields of a record
* `Json.text?`, `Json.nullableText?`, `Json.texts?` — strings, strings or null, lists of strings
* `ConfigMap.toJson`, `ConfigMap.ofJson?` — a map as an object of strings and nulls
-/

namespace LayeredConfig

/-- A JSON value. -/
inductive Json where
  | null
  | bool (value : Bool)
  /-- The number `mantissa / 10 ^ exponent`. -/
  | number (mantissa : Int) (exponent : Nat)
  | string (text : String)
  | array (items : List Json)
  | object (members : List (String × Json))

namespace Json

instance : Inhabited Json := ⟨null⟩

/-- The members of an object. -/
def members? : Json → Option (List (String × Json))
  | object members => some members
  | _ => none

/-- The fields of a record. An object names them, and members that it holds beside
them do no harm; an array gives them by position in the order of `names` and may
leave out the last ones, but holds nothing else. -/
def fields? (names : List String) : Json → Option (List (String × Json))
  | object members => some members
  | array items => if items.length ≤ names.length then some (names.zip items) else none
  | _ => none

/-- The items of an array. -/
def items? : Json → Option (List Json)
  | array items => some items
  | _ => none

/-- The text of a string. -/
def text? : Json → Option String
  | string text => some text
  | _ => none

/-- The text of a string, or nothing for a null. -/
def nullableText? : Json → Option (Option String)
  | null => some none
  | string text => some (some text)
  | _ => none

/-- A list of strings. -/
def texts? (json : Json) : Option (List String) :=
  json.items?.bind (·.mapM text?)

/-- A text, or null. -/
def ofNullable : Option String → Json
  | none => null
  | some text => string text

/-- A list of strings. -/
def ofTexts (texts : List String) : Json := array (texts.map string)

/-- The value of a field that may be missing: what `read` makes of it, or a
default. -/
def optional {α : Type} (members : List (String × Json)) (name : String) (default : α)
    (read : Json → Option α) : Option α :=
  match members.lookup name with
  | none => some default
  | some json => read json

/-- The value of a field that must be there. -/
def required {α : Type} (members : List (String × Json)) (name : String)
    (read : Json → Option α) : Option α :=
  (members.lookup name).bind read

/-- A member that is left out when its list is empty. -/
def unlessEmpty {α : Type} (name : String) (items : List α) (json : Json) :
    List (String × Json) :=
  if items.isEmpty then [] else [(name, json)]

end Json

namespace ConfigMap

/-- A map as an object. -/
def toJson (map : ConfigMap) : Json :=
  .object (map.entries.map fun entry => (entry.1, .ofNullable entry.2))

/-- The map that an object of strings and nulls writes. -/
def ofJson? (json : Json) : Option ConfigMap := do
  let entries ← (← json.members?).mapM fun member =>
    (member.2.nullableText?).map fun value => (member.1, value)
  return .ofList entries

end ConfigMap

end LayeredConfig
