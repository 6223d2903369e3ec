import LayeredConfig.Json.Token
import LayeredConfig.Settings.Basic

/-!
# Settings documents

Settings are written as one JSON object. Its two members may stand in any order,
missing ones keep their defaults, and members with other names are passed over,
whatever they hold. They may also be written as an array of the two values, where
the last ones may be missing. A document that is not JSON, gives a setting a value
of the wrong kind or gives it twice is refused as a whole; only then is the depth
limit looked at, which must not be zero.

## Main definitions

* `Settings.ReadError` — why a document is refused
* `Json.membersOfTokens?` — the members of the object that a document is
* `Json.scalarsOfTokens?` — the items of the array that a document is
* `Settings.read` — the settings that a document writes
-/

namespace LayeredConfig

namespace Json

/-- A member of an object: its name and the first token of its value. A value of
a single token is so known in full. -/
abbrev Member := Option String × Token

/-- What an unfinished value stands in. -/
inductive Nesting where
  | array
  | object
  deriving DecidableEq, Repr

/-- The token is a value by itself. -/
def Token.isScalar : Token → Bool
  | .null | .bool _ | .natural _ | .number | .string _ => true
  | _ => false

mutual

/-- Reads past one value that stands in `nesting` inside a member of the
document's object, and on to the end of the document: the members that
follow. -/
def membersAfterValue? (nesting : List Nesting) : List Token → Option (List Member)
  | .openBrace :: .closeBrace :: rest => membersAfter? nesting rest
  | .openBrace :: .string _ :: .colon :: rest => membersAfterValue? (.object :: nesting) rest
  | .openBracket :: .closeBracket :: rest => membersAfter? nesting rest
  | .openBracket :: rest => membersAfterValue? (.array :: nesting) rest
  | token :: rest => if token.isScalar then membersAfter? nesting rest else none
  | [] => none

/-- Reads on after a value that stands in `nesting`, to the end of the document:
the members that follow. -/
def membersAfter? : List Nesting → List Token → Option (List Member)
  | [], [.closeBrace] => some []
  | [], .comma :: .string name :: .colon :: first :: rest =>
    (membersAfterValue? [] (first :: rest)).map ((name, first) :: ·)
  | .array :: nesting, .comma :: rest => membersAfterValue? (.array :: nesting) rest
  | .array :: nesting, .closeBracket :: rest => membersAfter? nesting rest
  | .object :: nesting, .comma :: .string _ :: .colon :: rest =>
    membersAfterValue? (.object :: nesting) rest
  | .object :: nesting, .closeBrace :: rest => membersAfter? nesting rest
  | _, _ => none

end

/-- The members of the object that the tokens of a document write. -/
def membersOfTokens? : List Token → Option (List Member)
  | [.openBrace, .closeBrace] => some []
  | .openBrace :: .string name :: .colon :: first :: rest =>
    (membersAfterValue? [] (first :: rest)).map ((name, first) :: ·)
  | _ => none

/-- The items of an array, from the first one to the closing bracket, if each is a
single token. -/
def scalarsAfterBracket? : List Token → Option (List Token)
  | [item, .closeBracket] => if item.isScalar then some [item] else none
  | item :: .comma :: rest =>
    if item.isScalar then (scalarsAfterBracket? rest).map (item :: ·) else none
  | _ => none

/-- The items of the array that the tokens of a document write, if each is a
single token. -/
def scalarsOfTokens? : List Token → Option (List Token)
  | [.openBracket, .closeBracket] => some []
  | .openBracket :: rest => scalarsAfterBracket? rest
  | _ => none

end Json

namespace Settings

/-- Why a settings document is refused. -/
inductive ReadError where
  /-- The document is not JSON or does not have the form of settings. -/
  | malformed
  /-- The depth limit is zero. -/
  | zeroDepth
  deriving DecidableEq, Repr

/-- What the error says; the words on a malformed document are left open. -/
def ReadError.message? : ReadError → Option String
  | .malformed => none
  | .zeroDepth => some "invalid compiler settings: maxReferenceDepth must be at least 1"

/-- The first token of the value of a member that is given at most once; `none`
if it is given twice. -/
def single? (members : List Json.Member) (name : String) : Option (Option Json.Token) :=
  match members.filter (·.1 = some name) with
  | [] => some none
  | [member] => some (some member.2)
  | _ => none

/-- The limit on depth limits, which must fit into 64 bits. -/
def depthBound : Nat := 18446744073709551616

/-- The legacy flag that a member writes. -/
def readFlag? : Option Json.Token → Option Bool
  | none => some true
  | some (.bool value) => some value
  | some _ => none

/-- The depth limit that a member writes. -/
def readDepth? : Option Json.Token → Option (Option Nat)
  | none | some .null => some none
  | some (.natural value) => if value < depthBound then some (some value) else none
  | some _ => none

/-- The settings with the given tokens for values. -/
def ofTokens? (flag depth : Option Json.Token) : Option Settings := do
  return { legacyWildcard := ← readFlag? flag, depthLimit := ← readDepth? depth }

/-- The settings that the members of an object write. -/
def ofMembers? (members : List Json.Member) : Option Settings := do
  guard (members.all (·.1.isSome))
  ofTokens? (← single? members "legacyWildcardPrefix") (← single? members "maxReferenceDepth")

/-- The settings that the items of an array write. -/
def ofItems? : List Json.Token → Option Settings
  | [] => ofTokens? none none
  | [flag] => ofTokens? (some flag) none
  | [flag, depth] => ofTokens? (some flag) (some depth)
  | _ => none

/-- The settings that the tokens of a document write. -/
def ofDocument? (tokens : List Json.Token) : Option Settings :=
  ((Json.membersOfTokens? tokens).bind ofMembers?) <|>
    ((Json.scalarsOfTokens? tokens).bind ofItems?)

/-- The settings that a document writes. -/
def read (document : String) : Except ReadError Settings :=
  match (Json.tokens? document).bind ofDocument? with
  | none => .error .malformed
  | some settings => if settings.depthLimit = some 0 then .error .zeroDepth else .ok settings

end Settings

end LayeredConfig
