import Mathlib.Data.List.Perm.Basic
import LayeredConfig.Compilation.Codec
import LayeredConfig.Value.Codec
import LayeredConfig.Proofs.Json.Order

/-!
# Results are read back from their JSON

What is written of a result, a part or a reference is read back as it was, in whatever order
the members of the written objects stand. The lists that are left out when they are empty, the
kinds and the nulls are all read back, and so are the nodes below a node, at any depth.

## Main results

* `Namespace.reads_toJson`, `Reference.reads_toJson`, `Part.reads_toJson`
* `ConfigMap.reads_toJson` — a map, whose entries come in any order
* `Trace.reads_toJson` — a trace, by itself or below another node
* `CompilationResult.reads_toJson`, `CompilationResult.ofJson?_toJson` — a result
* `Json.roundTrip_of_reorders` — the three that are stored, together
-/

namespace LayeredConfig

open Json (Reads Reorders ReordersMembers)

/-! ## References and parts -/

namespace Namespace

theorem reads_toJson (space : Namespace) : Reads ofJson? space.toJson space := by
  intro json same
  cases space with
  | unknown name =>
    cases same with
    | object perm same =>
      rw [List.singleton_perm] at perm
      subst perm
      cases same with
      | cons value rest =>
        cases value
        cases rest
        rfl
  | environment | sibling | vars | secret =>
    cases same
    rfl

end Namespace

namespace Reference

/-- The members of the object that is written for a reference. -/
def members (reference : Reference) : List (String × Json) :=
  [("using", .ofNullable reference.selector), ("alias", .ofNullable reference.caption),
    ("path", .ofNullable reference.path)] ++
  Json.unlessEmpty "unrecognized" reference.unrecognized
    (.array (reference.unrecognized.map commandToJson)) ++
  [("source", .string reference.source)]

theorem reads_commandToJson (command : String × String) :
    Reads commandOfJson? (commandToJson command) command := by
  intro json same
  cases same with
  | array same =>
    cases same with
    | cons name rest =>
      cases rest with
      | cons value rest =>
        cases name
        cases value
        cases rest
        rfl

theorem nodup_names (reference : Reference) : (reference.members.map Prod.fst).Nodup := by
  have names : fieldNames.Nodup := by decide
  refine names.sublist ?_
  rw [members, List.map_append, List.map_append]
  exact ((List.Sublist.refl ["using", "alias", "path"]).append
    (Json.map_fst_unlessEmpty_sublist _ _ _)).append (List.Sublist.refl ["source"])

theorem reads_toJson (reference : Reference) : Reads ofJson? reference.toJson reference := by
  intro json same
  obtain ⟨written, rfl, fields⟩ := Reorders.exists_members reference.nodup_names same
  have selector := (Reads.nullableText reference.selector).optional
    (by simp [members]) (fields "using") none
  have caption := (Reads.nullableText reference.caption).optional
    (by simp [members, List.lookup_cons]) (fields "alias") none
  have path := (Reads.nullableText reference.path).optional
    (by simp [members, List.lookup_cons]) (fields "path") none
  have commands : Reads (fun json => json.items?.bind (·.mapM commandOfJson?))
      (.array (reference.unrecognized.map commandToJson)) reference.unrecognized :=
    Reads.items fun command _ => reads_commandToJson command
  have unrecognized := commands.list
    (by simp [members, List.lookup_cons, List.lookup_append])
    (fields "unrecognized")
  have source := (Reads.text reference.source).required
    (by simp [members, List.lookup_cons, List.lookup_append])
    (fields "source")
  simp only [ofJson?, Json.fields?, selector, caption, path, unrecognized, source,
    Option.bind_eq_bind, Option.bind_some, Option.pure_def]

end Reference

namespace Part

theorem reads_kind (kind : String) : Reads kindOfMember? (.string kind) kind := by
  intro json same
  cases same
  rfl

/-- A part is read back by the kind that stands beside what it holds. -/
theorem reads_object {kind : String} {content : Json} {part : Part}
    (reads : Reads (ofKind? kind) content part) :
    Reads ofJson? (.object [("type", .string kind), ("value", content)]) part := by
  intro json same
  obtain ⟨members, rfl, fields⟩ := Reorders.exists_members (by simp) same
  have kind := (reads_kind kind).required (by simp) (fields "type")
  obtain ⟨held, found, read⟩ := reads.exists_lookup (by simp [List.lookup_cons]) (fields "value")
  simp only [ofJson?, kind, found, Option.bind_eq_bind, Option.bind_some, read]

theorem reads_toJson (part : Part) : Reads ofJson? part.toJson part := by
  cases part with
  | literal text => exact reads_object ((Reads.text text).map literal)
  | reference r => exact reads_object (r.reads_toJson.map reference)

end Part

/-! ## Maps -/

namespace ConfigMap

/-- The member that is written for an entry. -/
def toMember (entry : String × Option String) : String × Json := (entry.1, .ofNullable entry.2)

theorem mapM_of_reordersMembers {entries : List (String × Option String)}
    {members : List (String × Json)}
    (same : ReordersMembers (entries.map toMember) members) :
    (members.mapM fun member => member.2.nullableText?.map fun value => (member.1, value)) =
      some entries := by
  induction entries generalizing members with
  | nil =>
    cases same
    rfl
  | cons entry entries ih =>
    cases same with
    | cons value rest =>
      rw [List.mapM_cons, Reads.nullableText entry.2 _ value, ih rest]
      rfl

/-- A map is read back whatever the order of its entries. -/
theorem reads_toJson (map : ConfigMap) : Reads ofJson? map.toJson map := by
  intro json same
  cases same with
  | @object _ middle members perm same =>
    -- the members in another order are those of the entries in another order
    have reordered : Relation.Comp (fun members entries => members = entries.map toMember)
        List.Perm middle map.entries := by
      rw [List.eq_map_comp_perm]
      exact perm.symm
    obtain ⟨entries, rfl, sameEntries⟩ := reordered
    simp only [ofJson?, Json.members?, mapM_of_reordersMembers same, Option.bind_eq_bind,
      Option.bind_some, Option.pure_def, KeyMap.ofList_of_perm sameEntries.symm]

end ConfigMap

/-! ## Traces -/

namespace Trace

theorem toJsons_eq_map (traces : List (Trace String)) : toJsons traces = traces.map toJson := by
  induction traces with
  | nil => rfl
  | cons trace traces ih => rw [toJsons, List.map_cons, ih]

theorem ofJsons?_eq_mapM (below : Bool) (jsons : List Json) :
    ofJsons? below jsons = jsons.mapM (ofJson? below) := by
  induction jsons with
  | nil => rfl
  | cons json jsons ih => rw [ofJsons?, List.mapM_cons, ih]

/-- The nodes below a node are a list that may be left out. -/
theorem childrenOf?_eq (members : List (String × Json)) :
    childrenOf? members =
      Json.optional members "children" [] fun json => json.items?.bind (ofJsons? true) := by
  induction members with
  | nil => rfl
  | cons member members ih =>
    obtain ⟨name, json⟩ := member
    rw [Json.optional, KeyMap.lookup_cons]
    by_cases same : name = "children"
    · subst same
      cases json <;> rfl
    · rw [if_neg (Ne.symm same), ← Json.optional, ← ih]
      cases json <;> simp only [childrenOf?, same, if_false]

/-- The names of the members that all kinds of nodes share. -/
def nodeNames : List String := ["key", "warnings", "errors", "children"]

theorem map_fst_nodeMembers_sublist (key : String) (diagnostics : Diagnostics String)
    (children : List Json) :
    ((nodeMembers key diagnostics children).map Prod.fst).Sublist nodeNames := by
  rw [nodeMembers, List.map_append, List.map_append, List.map_append]
  exact (((List.Sublist.refl ["key"]).append (Json.map_fst_unlessEmpty_sublist _ _ _)).append
    (Json.map_fst_unlessEmpty_sublist _ _ _)).append (Json.map_fst_unlessEmpty_sublist _ _ _)

namespace Detail

/-- The names of the members that only some kinds of nodes have. -/
def names : List String := ["kind", "reference", "namespace", "original", "value", "expanded"]

theorem map_fst_sublist (detail : Detail) : (detail.toMembers.map Prod.fst).Sublist names := by
  cases detail with
  | value v =>
    have kept : ["kind", "value"].Sublist names := by decide
    exact kept
  | key r space v =>
    have kept : ["kind", "reference", "namespace", "value"].Sublist names := by decide
    exact kept
  | multi raw v expanded =>
    have kept : (["kind", "original", "value"] ++ ["expanded"]).Sublist names := by decide
    rw [toMembers, List.map_append]
    exact ((List.Sublist.refl _).append (Json.map_fst_unlessEmpty_sublist _ _ _)).trans kept

theorem reads_kind (below : Bool) (kind : String) :
    Reads (kindOfJson? below) (.string kind) kind := by
  intro json same
  cases same
  rfl

/-- What a kind of node adds is read back by that kind. -/
theorem ofMembers?_of_fields (detail : Detail) (below : Bool) {written : List (String × Json)}
    (fields : ∀ name ∈ names,
      Option.Rel Reorders (detail.toMembers.lookup name) (written.lookup name)) :
    ofMembers? below written = some detail := by
  have kindField := fields "kind" (by decide)
  have valueField := fields "value" (by decide)
  cases detail with
  | value v =>
    have kind := (reads_kind below "value").required (by simp [toMembers]) kindField
    have value := (Reads.nullableText v).optional (by simp [toMembers, List.lookup_cons])
      valueField none
    simp only [ofMembers?, kind, value, Option.bind_eq_bind, Option.bind_some, Option.pure_def]
  | key r space v =>
    have kind := (reads_kind below "key").required (by simp [toMembers]) kindField
    have value := (Reads.nullableText v).optional (by simp [toMembers, List.lookup_cons])
      valueField none
    have reference := r.reads_toJson.required (by simp [toMembers, List.lookup_cons])
      (fields "reference" (by decide))
    have namespace' := space.reads_toJson.required (by simp [toMembers, List.lookup_cons])
      (fields "namespace" (by decide))
    simp only [ofMembers?, kind, value, reference, namespace', Option.bind_eq_bind,
      Option.bind_some, Option.pure_def]
  | multi raw v expanded =>
    have kind := (reads_kind below "multi").required (by simp [toMembers]) kindField
    have value := (Reads.nullableText v).optional (by simp [toMembers, List.lookup_cons])
      valueField none
    have original := (Reads.nullableText raw).optional (by simp [toMembers, List.lookup_cons])
      (fields "original" (by decide)) none
    have paths := (Reads.texts expanded).list
      (by simp [toMembers, List.lookup_cons])
      (fields "expanded" (by decide))
    simp only [ofMembers?, kind, value, original, paths, Option.bind_eq_bind, Option.bind_some,
      Option.pure_def]

end Detail

/-- The members of the object that is written for a node. -/
def members (trace : Trace String) : List (String × Json) :=
  nodeMembers trace.key trace.diagnostics (toJsons trace.children) ++ trace.detail.toMembers

theorem toJson_eq (trace : Trace String) : trace.toJson = .object trace.members := by
  cases trace
  rw [toJson]
  rfl

theorem nodup_names (trace : Trace String) : (trace.members.map Prod.fst).Nodup := by
  have names : (nodeNames ++ Detail.names).Nodup := by decide
  rw [members, List.map_append]
  exact names.sublist ((map_fst_nodeMembers_sublist _ _ _).append trace.detail.map_fst_sublist)

theorem lookup_members_of_mem_names (trace : Trace String) {name : String}
    (member : name ∈ Detail.names) :
    trace.members.lookup name = trace.detail.toMembers.lookup name := by
  have apart : ∀ name ∈ Detail.names, name ∉ nodeNames := by decide
  rw [members, List.lookup_append, Option.or_eq_right_of_none]
  exact Json.lookup_eq_none_of_sublist (map_fst_nodeMembers_sublist _ _ _) (apart name member)

theorem lookup_members_of_mem_nodeNames (trace : Trace String) {name : String}
    (member : name ∈ nodeNames) :
    trace.members.lookup name =
      (nodeMembers trace.key trace.diagnostics (toJsons trace.children)).lookup name := by
  have apart : ∀ name ∈ nodeNames, name ∉ Detail.names := by decide
  have absent := Json.lookup_eq_none_of_sublist trace.detail.map_fst_sublist (apart name member)
  rw [members, List.lookup_append, absent, Option.or_none]

/-- A node is read back if the nodes below it are. -/
theorem ofMembers?_of_fields (trace : Trace String) (below : Bool)
    {written : List (String × Json)}
    (fields : ∀ name, Option.Rel Reorders (trace.members.lookup name) (written.lookup name)) :
    ofMembers? below written trace.children = some trace := by
  have shared (name : String) (member : name ∈ nodeNames) : Option.Rel Reorders
      ((nodeMembers trace.key trace.diagnostics (toJsons trace.children)).lookup name)
      (written.lookup name) :=
    trace.lookup_members_of_mem_nodeNames member ▸ fields name
  have key := (Reads.text trace.key).required (by simp [nodeMembers]) (shared "key" (by decide))
  have warnings := (Reads.texts trace.diagnostics.warnings).list
    (by simp [nodeMembers, List.lookup_append, List.lookup_cons]) (shared "warnings" (by decide))
  have errors := (Reads.texts trace.diagnostics.errors).list
    (by simp [nodeMembers, List.lookup_append, List.lookup_cons]) (shared "errors" (by decide))
  have detail := trace.detail.ofMembers?_of_fields below fun name member =>
    trace.lookup_members_of_mem_names member ▸ fields name
  simp only [ofMembers?, key, warnings, errors, detail, Option.bind_eq_bind, Option.bind_some,
    Option.pure_def]
  cases trace
  rfl

/-- The nodes below a node are read back if each of them is. -/
theorem childrenOf?_of_fields (trace : Trace String) {written : List (String × Json)}
    (fields : ∀ name, Option.Rel Reorders (trace.members.lookup name) (written.lookup name))
    (each : ∀ child ∈ trace.children, Reads (ofJson? true) child.toJson child) :
    childrenOf? written = some trace.children := by
  have children : Reads (fun json => json.items?.bind (ofJsons? true))
      (.array (toJsons trace.children)) trace.children := by
    rw [toJsons_eq_map, funext (ofJsons?_eq_mapM true)]
    exact Reads.items each
  rw [childrenOf?_eq]
  refine children.list ?_ (fields "children")
  rw [trace.lookup_members_of_mem_nodeNames (by decide)]
  simp [nodeMembers, List.lookup_append, List.lookup_cons, toJsons_eq_map]

-- The induction is on the trace and on the list of its children; a child is always read as a
-- node below another one, whatever the trace itself is.
mutual

/-- A trace is read back, by itself or below another node. -/
theorem reads_toJson : (trace : Trace String) → (below : Bool) →
    Reads (ofJson? below) trace.toJson trace
  | ⟨key, diagnostics, children, detail⟩, below => by
    intro json same
    rw [toJson_eq] at same
    obtain ⟨written, rfl, fields⟩ := Reorders.exists_members (nodup_names _) same
    rw [ofJson?, childrenOf?_of_fields _ fields (reads_toJson_of_mem children), Option.bind_some]
    exact ofMembers?_of_fields _ below fields

theorem reads_toJson_of_mem : (traces : List (Trace String)) → ∀ trace ∈ traces,
    Reads (ofJson? true) trace.toJson trace
  | [], _, member => nomatch member
  | first :: rest, trace, member => by
    rcases List.mem_cons.1 member with same | member
    · rw [same]
      exact reads_toJson first true
    · exact reads_toJson_of_mem rest trace member

end

end Trace

/-! ## Results -/

namespace CompilationResult

theorem reads_toJson (result : CompilationResult String) :
    Reads ofJson? result.toJson result := by
  intro json same
  obtain ⟨written, rfl, fields⟩ := Reorders.exists_members (by simp) same
  have compiled := result.compiled.reads_toJson.required (by simp)
    (fields "compiled_configuration")
  have traces : Reads (fun json => json.items?.bind (Trace.ofJsons? false))
      (.array (Trace.toJsons result.trace)) result.trace := by
    rw [Trace.toJsons_eq_map, funext (Trace.ofJsons?_eq_mapM false)]
    exact Reads.items fun trace _ => trace.reads_toJson false
  have trace := traces.required (by simp [List.lookup_cons]) (fields "trace")
  simp only [ofJson?, Json.fields?, compiled, trace, Option.bind_eq_bind, Option.bind_some,
    Option.pure_def]

/-- In particular a result is read back from its JSON as it is written. -/
theorem ofJson?_toJson (result : CompilationResult String) :
    ofJson? result.toJson = some result :=
  result.reads_toJson _ (.refl _)

end CompilationResult

/-- Whatever is stored is read back, in whatever order the members of its objects stand: a
result with all of its traces, a part, and a reference. -/
theorem Json.roundTrip_of_reorders (json : Json) :
    (∀ result : CompilationResult String, result.toJson.Reorders json →
      CompilationResult.ofJson? json = some result) ∧
    (∀ part : Part, part.toJson.Reorders json → Part.ofJson? json = some part) ∧
    ∀ reference : Reference, reference.toJson.Reorders json →
      Reference.ofJson? json = some reference :=
  ⟨fun result => result.reads_toJson json, fun part => part.reads_toJson json,
    fun reference => reference.reads_toJson json⟩

/-- A look-up in a namespace that does not exist, with a command that is not known. -/
def unknownLookup : Trace String where
  key := "p"
  diagnostics := { warnings := ["unknown namespace"] }
  detail := .key
    { selector := some "nowhere", path := some "p", unrecognized := [("Color", "red")]
      source := "{{Using:nowhere;Color:red;p}}" } (.unknown "nowhere") (some "")

/-- A result with a null and a look-up that failed. -/
def unknownResult : CompilationResult String where
  compiled := .ofPairs [("K", "")]
  trace := [{ key := "K", children := [unknownLookup], detail := .multi none (some "") [] }]

/-- A result is read back from an object whose members are sorted the other way round. -/
theorem Json.roundTrip_of_reorders_swapped :
    ∃ compiled trace, unknownResult.toJson =
        .object [("compiled_configuration", compiled), ("trace", trace)] ∧
      CompilationResult.ofJson? (.object [("trace", trace), ("compiled_configuration", compiled)]) =
        some unknownResult :=
  ⟨_, _, rfl, (Json.roundTrip_of_reorders _).1 unknownResult (.object (.swap _ _ _) (.refl _))⟩

end LayeredConfig
