import LayeredConfig.Json.Basic
import LayeredConfig.Reference.Basic

/-!
# References in JSON

A reference is a record of its commands, null where one is missing, and its
verbatim text. When it is read back, all but the verbatim text may be left out.
A namespace is its name as a string, or an object whose one member is the name
and holds what belongs to it: the name in question for an unknown namespace, and
nothing for the others, that is null or an object without members.

## Main definitions

* `Namespace.toJson`, `Namespace.ofJson?`
* `Reference.toJson`, `Reference.ofJson?`
-/

namespace LayeredConfig

namespace Namespace

/-- A namespace in JSON. -/
def toJson : Namespace → Json
  | environment => .string "environment"
  | sibling => .string "this"
  | vars => .string "structure"
  | secret => .string "secret"
  | unknown name => .object [("unknown", .string name)]

/-- The namespace of a name that needs nothing else. -/
def ofName? : String → Option Namespace
  | "environment" => some environment
  | "this" => some sibling
  | "structure" => some vars
  | "secret" => some secret
  | _ => none

/-- The namespace that JSON writes. -/
def ofJson? : Json → Option Namespace
  | .string name => ofName? name
  | .object [("unknown", .string name)] => some (unknown name)
  | .object [(name, .null)] | .object [(name, .object [])] => ofName? name
  | _ => none

end Namespace

namespace Reference

/-- A command with an unknown name, as a pair. -/
def commandToJson (command : String × String) : Json :=
  .array [.string command.1, .string command.2]

/-- The command that a pair writes. -/
def commandOfJson? : Json → Option (String × String)
  | .array [.string name, .string value] => some (name, value)
  | _ => none

/-- A reference in JSON. -/
def toJson (reference : Reference) : Json :=
  .object <|
    [("using", .ofNullable reference.selector), ("alias", .ofNullable reference.caption),
      ("path", .ofNullable reference.path)] ++
    Json.unlessEmpty "unrecognized" reference.unrecognized
      (.array (reference.unrecognized.map commandToJson)) ++
    [("source", .string reference.source)]

/-- The fields of a reference in their order. -/
def fieldNames : List String := ["using", "alias", "path", "unrecognized", "source"]

/-- The reference that JSON writes. -/
def ofJson? (json : Json) : Option Reference := do
  let members ← json.fields? fieldNames
  return {
    selector := ← Json.optional members "using" none Json.nullableText?
    caption := ← Json.optional members "alias" none Json.nullableText?
    path := ← Json.optional members "path" none Json.nullableText?
    unrecognized := ← Json.optional members "unrecognized" []
      fun json => json.items?.bind (·.mapM commandOfJson?)
    source := ← Json.required members "source" Json.text? }

end Reference

end LayeredConfig
