import LayeredConfig.Resolution.Context
import LayeredConfig.Resolution.Outcome

/-!
# Resolution of references

A reference is replaced by the text at its target, in which references are
resolved in turn. Each text with references that is entered this way, and each
section that is expanded, opens a frame. A frame that is already open is not
entered again, and no more frames are opened than there is room for; either way
the reference comes to an empty text and the trace tells why.

Resolution is set up in two layers. `Context.answer` says how one request is
answered when the requests inside an opened frame can be answered already.
`Context.resolve` ties the knot: with room for `n + 1` more frames the inner
requests are answered with room for `n`.

## Main definitions

* `Request` — a reference to look up or an entry of a section to resolve
* `Context.answer` — one request, given the answers inside an opened frame
* `Context.resolve` — a request with room for so many more frames
* `Context.resolveText` — the text of a key of the structure
-/

namespace LayeredConfig

/-- How a reference stands in its text. -/
inductive Placement where
  /-- The reference is the whole text, so a section may take its place. -/
  | whole
  /-- The reference stands among other parts. -/
  | embedded
  deriving DecidableEq, Repr

/-- What resolution is asked for. -/
inductive Request where
  /-- The outcome of a reference. -/
  | reference (placement : Placement) (reference : Reference)
  /-- The outcome of a text with references that a section matched under `key`
  and names `suffix`. -/
  | entry (space : Space) (key suffix text : String)
  deriving DecidableEq, Repr

/-- Answers requests, each with the node of the trace that tells about it. -/
abbrev Answerer := Request → Outcome × Trace Issue

/-- Resolves the parts of a text one after the other and joins their texts. A
section in the middle of a text adds nothing. -/
def joinParts (answer : Answerer) : List Part → String × List (Trace Issue)
  | [] => ("", [])
  | .literal text :: parts =>
    let (rest, traces) := joinParts answer parts
    (text ++ rest, traces)
  | .reference reference :: parts =>
    let (outcome, trace) := answer (.reference .embedded reference)
    let (rest, traces) := joinParts answer parts
    (outcome.text?.getD "" ++ rest, trace :: traces)

/-- Resolves the parts of a text. A single reference comes to whatever it stands
for; everything else comes to a text. -/
def resolveParts (answer : Answerer) : List Part → Finding
  | [.reference reference] =>
    let (outcome, trace) := answer (.reference .whole reference)
    { outcome, children := [trace] }
  | parts =>
    let (text, children) := joinParts answer parts
    { outcome := .text text, children }

/-- Opens a frame, unless it is open already or there is no room: gives the
answers inside it. Without room as many frames are open as the limit allows. -/
def openFrame (inside? : Option (Stack → Answerer)) (stack : Stack) (frame : Frame) :
    Except Issue Answerer :=
  -- a cycle is reported as such even where there is no room either
  if frame ∈ stack.opened then
    .error (.cyclicReference frame.path)
  else
    match inside? with
    | none => .error (.depthExceeded frame.path stack.depth)
    | some inside => .ok (inside (stack.push frame))

/-- Where a reference is looked up. -/
inductive Target where
  /-- A path of a map. -/
  | keys (space : Space) (path : String)
  /-- A path of the secret store. -/
  | secret (path : String)
  /-- A path of a namespace that does not exist. -/
  | unknown (name path source : String)
  /-- Nowhere, as the reference has no path. -/
  | nowhere (source : String)
  deriving DecidableEq, Repr

namespace Target

/-- The target of a reference, seen from the path that is being resolved. -/
def ofReference (current : String) (reference : Reference) : Target :=
  match reference.target? with
  | none => nowhere reference.source
  | some (.environment, path) => keys .environment path
  | some (.sibling, path) => keys .environment (siblingPath current path)
  | some (.vars, path) => keys .vars path
  | some (.secret, path) => secret path
  | some (.unknown name, path) => unknown name path reference.source

/-- The key under which the look-up is traced: the path, or the verbatim text of
a reference without one. -/
def key : Target → String
  | keys _ path | secret path | unknown _ path _ => path
  | nowhere source => source

/-- The namespace under which the look-up is traced. -/
def toNamespace : Target → Namespace
  | keys space _ => space.toNamespace
  | secret _ => .secret
  | unknown name _ _ => .unknown name
  | nowhere _ => .environment

end Target

namespace Context

/-- Takes the text of a key. A null reads as an empty text, and a text without
references is taken as it is. A section that the text leads to is passed on only
to a reference that is the whole of its own text. -/
def resolveKey (context : Context) (inside? : Option (Stack → Answerer)) (stack : Stack)
    (placement : Placement) (space : Space) (key : String) : Finding :=
  match (context.keys space).find? key with
  | none => .fault (.missingKey space.label key)
  | some none => { outcome := .text "" }
  | some (some text) =>
    let parts := context.parse text
    -- a text without references opens no frame, so it is found at any depth
    if Value.references parts = [] then
      { outcome := .text text }
    else
      match openFrame inside? stack ⟨space, key⟩ with
      | .error issue => .fault issue
      | .ok answer =>
        let finding := resolveParts answer parts
        match placement, finding.outcome with
        | .embedded, .entries _ =>
          { finding with
            outcome := .text "", issues := finding.issues ++ [.sectionNotWholeValue key] }
        | _, _ => finding

/-- The entries that one matched key adds to a section. Nulls and texts without
references are taken as they are. -/
def expandEntry (context : Context) (answer : Answerer) (space : Space) (suffix : String)
    (entry : String × Option String) : SectionEntries × Trace Issue :=
  match entry with
  | (key, none) => ([(suffix, none)], { key, detail := .value none })
  | (key, some text) =>
    if Value.references (context.parse text) = [] then
      ([(suffix, some text)], { key, detail := .value (some text) })
    else
      let (outcome, trace) := answer (.entry space key suffix text)
      (outcome.entriesUnder suffix, trace)

/-- Expands a section: the entries of all matched keys in key order. -/
def expandSection (context : Context) (inside? : Option (Stack → Answerer)) (stack : Stack)
    (space : Space) (wildcard : Wildcard) : Finding :=
  match openFrame inside? stack ⟨space, wildcard.path⟩ with
  | .error issue => .fault issue
  | .ok answer =>
    let expanded := (wildcard.entries (context.keys space)).map fun entry =>
      context.expandEntry answer space (wildcard.suffix entry.1) entry
    let entries := expanded.flatMap Prod.fst
    -- the section is also empty if all that it matches are empty sections
    { outcome := .entries entries
      issues := if entries = [] then [.emptySection wildcard.path] else []
      children := expanded.map Prod.snd }

/-- Takes a section, which only a reference that is the whole text can ask
for. -/
def resolveSection (context : Context) (inside? : Option (Stack → Answerer)) (stack : Stack)
    (placement : Placement) (space : Space) (wildcard : Wildcard) : Finding :=
  match placement with
  | .embedded => .fault (.sectionNotWholeValue wildcard.path)
  | .whole => context.expandSection inside? stack space wildcard

/-- Takes what a path of a map asks for. A bare star is always noted, and refused
unless the settings allow it. -/
def resolvePath (context : Context) (inside? : Option (Stack → Answerer)) (stack : Stack)
    (placement : Placement) (space : Space) (path : String) : Finding :=
  match Query.ofPath path with
  | .key key => context.resolveKey inside? stack placement space key
  | .all wildcard =>
    -- the malformed wildcard is noted before whatever comes up inside the section
    if !wildcard.bare then
      context.resolveSection inside? stack placement space wildcard
    else if context.settings.legacyWildcard then
      (context.resolveSection inside? stack placement space wildcard).after
        (.malformedWildcard path)
    else
      .fault (.rejectedWildcard path)

/-- Takes a secret, whose text is never read for references. -/
def resolveSecret (context : Context) (path : String) : Finding :=
  match Query.ofPath path with
  | .all _ => .fault (.secretSection path)
  | .key _ =>
    match context.secrets path with
    | some text => { outcome := .text text }
    | none => .fault (.missingSecret path)

/-- Looks up the target of a reference. -/
def resolveTarget (context : Context) (inside? : Option (Stack → Answerer)) (stack : Stack)
    (placement : Placement) : Target → Finding
  | .keys space path => context.resolvePath inside? stack placement space path
  | .secret path => context.resolveSecret path
  | .unknown name _ source => .fault (.unknownNamespace name source)
  | .nowhere source => .fault (.missingPath source)

/-- Answers one request, given the answers inside a frame opened above the stack,
or `none` if no more frame may be opened. -/
def answer (context : Context) (inside? : Option (Stack → Answerer)) (stack : Stack) : Answerer
  | .reference placement reference =>
    let target := Target.ofReference stack.current reference
    let finding := context.resolveTarget inside? stack placement target
    (finding.outcome,
      finding.trace target.key (.key reference target.toNamespace finding.outcome.text?))
  | .entry space key suffix text =>
    let finding :=
      match openFrame inside? stack ⟨space, key⟩ with
      | .error issue => Finding.fault issue
      | .ok answer => resolveParts answer (context.parse text)
    (finding.outcome,
      finding.trace key
        (.multi (some text) finding.outcome.text? (finding.outcome.namesUnder suffix)))

/-- Answers a request with room for so many more frames. -/
def resolve (context : Context) : (room : Nat) → Stack → Answerer
  | 0, stack, request => context.answer none stack request
  | room + 1, stack, request =>
    context.answer (some fun stack request => context.resolve room stack request) stack request

/-- Resolves the parts of the text of a key of the structure. -/
def resolvePartsOf (context : Context) (key : String) (parts : List Part) : Finding :=
  resolveParts (context.resolve (context.room parts) { root := key }) parts

/-- Resolves the text of a key of the structure. -/
def resolveText (context : Context) (key text : String) : Finding :=
  context.resolvePartsOf key (context.parse text)

end Context

end LayeredConfig
