import LayeredConfig.Reference.Codec
import LayeredConfig.Value.Part

/-!
# Parts in JSON

A part is a record of its kind and what it holds. The kind is a string; where it
is read from a member, it may also be an object whose one member is the kind and
holds null.

## Main definitions

* `Part.toJson`, `Part.ofJson?`
-/

namespace LayeredConfig.Part

/-- A part in JSON. -/
def toJson : Part → Json
  | literal text => .object [("type", .string "value"), ("value", .string text)]
  | reference r => .object [("type", .string "reference"), ("value", r.toJson)]

/-- The part of a kind that holds what JSON writes. -/
def ofKind? (kind : String) (content : Json) : Option Part :=
  match kind with
  | "value" => literal <$> content.text?
  | "reference" => reference <$> Reference.ofJson? content
  | _ => none

/-- The kind that a member gives. -/
def kindOfMember? : Json → Option String
  | .string kind | .object [(kind, .null)] => some kind
  | _ => none

/-- The part that JSON writes. -/
def ofJson? : Json → Option Part
  | .object members => do
    ofKind? (← Json.required members "type" kindOfMember?) (← members.lookup "value")
  | .array [.string kind, content] => ofKind? kind content
  | _ => none

end LayeredConfig.Part
