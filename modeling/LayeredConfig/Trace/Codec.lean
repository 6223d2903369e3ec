import LayeredConfig.Reference.Codec
import LayeredConfig.Trace.Basic

/-!
# Traces in JSON

A node is an object that holds its key, its diagnostics and the nodes below it
side by side with what its kind adds. Lists that are empty are left out. Stored
diagnostics are messages. The kind is a string; a node that stands below another
one may also be read with the number of its kind, counted from zero.

## Main definitions

* `Trace.nodeMembers` — the members that all kinds of nodes share
* `Trace.toJson`, `Trace.ofJson?`
-/

namespace LayeredConfig.Trace

/-- The members that all kinds of nodes share. -/
def nodeMembers (key : String) (diagnostics : Diagnostics String) (children : List Json) :
    List (String × Json) :=
  [("key", .string key)] ++
  Json.unlessEmpty "warnings" diagnostics.warnings (.ofTexts diagnostics.warnings) ++
  Json.unlessEmpty "errors" diagnostics.errors (.ofTexts diagnostics.errors) ++
  Json.unlessEmpty "children" children (.array children)

namespace Detail

/-- The members that a kind of node adds. -/
def toMembers : Detail → List (String × Json)
  | value v => [("kind", .string "value"), ("value", .ofNullable v)]
  | key reference space v =>
    [("kind", .string "key"), ("reference", reference.toJson), ("namespace", space.toJson),
      ("value", .ofNullable v)]
  | multi raw v expanded =>
    [("kind", .string "multi"), ("original", .ofNullable raw), ("value", .ofNullable v)] ++
    Json.unlessEmpty "expanded" expanded (.ofTexts expanded)

/-- The kinds of nodes in their order. -/
def kinds : List String := ["value", "key", "multi"]

/-- The kind of a node, where a node below another one may give its number. -/
def kindOfJson? (below : Bool) : Json → Option String
  | .string kind => some kind
  | .number (.ofNat n) 0 => if below then kinds[n]? else none
  | _ => none

/-- What the members of a node say beyond what all kinds share. -/
def ofMembers? (below : Bool) (members : List (String × Json)) : Option Detail := do
  let kind ← Json.required members "kind" (kindOfJson? below)
  let v ← Json.optional members "value" none Json.nullableText?
  match kind with
  | "value" => return value v
  | "key" =>
    return key (← Json.required members "reference" Reference.ofJson?)
      (← Json.required members "namespace" Namespace.ofJson?) v
  | "multi" =>
    return multi (← Json.optional members "original" none Json.nullableText?) v
      (← Json.optional members "expanded" [] Json.texts?)
  | _ => none

end Detail

mutual

/-- A trace in JSON. -/
def toJson : Trace String → Json
  | ⟨key, diagnostics, children, detail⟩ =>
    .object (nodeMembers key diagnostics (toJsons children) ++ detail.toMembers)

/-- Traces in JSON, one by one. -/
def toJsons : List (Trace String) → List Json
  | [] => []
  | trace :: traces => trace.toJson :: toJsons traces

end

/-- The node that the members of an object write, given the nodes below it. -/
def ofMembers? (below : Bool) (members : List (String × Json))
    (children : List (Trace String)) : Option (Trace String) := do
  return {
    key := ← Json.required members "key" Json.text?
    diagnostics :=
      { warnings := ← Json.optional members "warnings" [] Json.texts?
        errors := ← Json.optional members "errors" [] Json.texts? }
    children
    detail := ← Detail.ofMembers? below members }

mutual

/-- The trace that JSON writes, by itself or below another node. -/
def ofJson? (below : Bool) : Json → Option (Trace String)
  | .object members => (childrenOf? members).bind (ofMembers? below members)
  | _ => none

/-- The nodes below the node that an object writes. -/
def childrenOf? : List (String × Json) → Option (List (Trace String))
  | [] => some []
  | (name, .array items) :: members =>
    if name = "children" then ofJsons? true items else childrenOf? members
  | (name, _) :: members => if name = "children" then none else childrenOf? members

/-- The traces that a list of JSON values writes, by themselves or below another
node. -/
def ofJsons? (below : Bool) : List Json → Option (List (Trace String))
  | [] => some []
  | json :: jsons => return (← ofJson? below json) :: (← ofJsons? below jsons)

end

end LayeredConfig.Trace
