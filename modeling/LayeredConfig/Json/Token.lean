/-!
# Tokens of a JSON document

A JSON document is first cut into tokens. Words outside strings, that is numbers
and the names `true`, `false` and `null`, end at white space, at punctuation or
at a quote, so a word that is neither a number nor one of the three names makes
the document unreadable.

## Main definitions

* `Json.Token` — a token
* `Json.isNumeral` — the text is a number as JSON writes it
* `Json.joinSurrogates?` — code units of a string as characters
* `Json.tokens?` — the tokens of a document
-/

namespace LayeredConfig.Json

/-- A token of a JSON document. -/
inductive Token where
  | openBrace
  | closeBrace
  | openBracket
  | closeBracket
  | comma
  | colon
  | null
  | bool (value : Bool)
  /-- A number written with digits only. -/
  | natural (value : Nat)
  /-- A number with a sign, a fraction or an exponent. -/
  | number
  /-- A string; `none` if its escapes leave half of a surrogate pair. -/
  | string (text : Option String)
  deriving DecidableEq, Repr

/-- How far a number has been read. -/
inductive NumeralState where
  | start
  | sign
  | zero
  | whole
  | point
  | fraction
  | exponent
  | exponentSign
  | exponentDigits
  deriving DecidableEq, Repr

/-- Reads one more character of a number. The whole part has no leading zero,
and digits must follow a point and an exponent mark. -/
def NumeralState.next? (state : NumeralState) (c : Char) : Option NumeralState :=
  match state with
  | .start =>
    if c = '-' then some .sign
    else if c = '0' then some .zero
    else if c.isDigit then some .whole
    else none
  | .sign => if c = '0' then some .zero else if c.isDigit then some .whole else none
  | .zero => if c = '.' then some .point else if c = 'e' || c = 'E' then some .exponent else none
  | .whole =>
    if c.isDigit then some .whole
    else if c = '.' then some .point
    else if c = 'e' || c = 'E' then some .exponent
    else none
  | .point => if c.isDigit then some .fraction else none
  | .fraction =>
    if c.isDigit then some .fraction
    else if c = 'e' || c = 'E' then some .exponent
    else none
  | .exponent =>
    if c = '+' || c = '-' then some .exponentSign
    else if c.isDigit then some .exponentDigits
    else none
  | .exponentSign => if c.isDigit then some .exponentDigits else none
  | .exponentDigits => if c.isDigit then some .exponentDigits else none

/-- A number may end here. -/
def NumeralState.isFinal : NumeralState → Bool
  | .zero | .whole | .fraction | .exponentDigits => true
  | _ => false

/-- The text is a number as JSON writes it. -/
def isNumeral (text : List Char) : Bool :=
  match text.foldlM NumeralState.next? .start with
  | some state => state.isFinal
  | none => false

/-- The value of a decimal digit. -/
def digitValue (c : Char) : Nat := c.toNat - '0'.toNat

/-- The number that decimal digits write. -/
def digitsValue (digits : List Char) : Nat :=
  digits.foldl (fun value c => 10 * value + digitValue c) 0

/-- The token that a word outside strings stands for. -/
def Token.ofWord? (word : List Char) : Option Token :=
  if word = "true".toList then some (.bool true)
  else if word = "false".toList then some (.bool false)
  else if word = "null".toList then some .null
  else if isNumeral word then
    some (if word.all Char.isDigit then .natural (digitsValue word) else .number)
  else none

/-- The token of a punctuation mark. -/
def Token.ofPunctuation? : Char → Option Token
  | '{' => some .openBrace
  | '}' => some .closeBrace
  | '[' => some .openBracket
  | ']' => some .closeBracket
  | ',' => some .comma
  | ':' => some .colon
  | _ => none

/-- White space between tokens: blank, tab, line feed and carriage return. -/
def isSpace (c : Char) : Bool :=
  c = ' ' || c = '\t' || c = '\n' || c = '\r'

/-- The value of a hexadecimal digit. -/
def hexValue? (c : Char) : Option Nat :=
  if c.isDigit then some (digitValue c)
  else if 'a' ≤ c && c ≤ 'f' then some (c.toNat - 'a'.toNat + 10)
  else if 'A' ≤ c && c ≤ 'F' then some (c.toNat - 'A'.toNat + 10)
  else none

/-- The code unit that four hexadecimal digits write. -/
def hexUnit? (a b c d : Char) : Option Nat := do
  return 4096 * (← hexValue? a) + 256 * (← hexValue? b) + 16 * (← hexValue? c) + (← hexValue? d)

/-- The character that a backslash and a letter stand for. -/
def escape? : Char → Option Char
  | '"' => some '"'
  | '\\' => some '\\'
  | '/' => some '/'
  | 'b' => some '\x08'
  | 'f' => some '\x0c'
  | 'n' => some '\n'
  | 'r' => some '\r'
  | 't' => some '\t'
  | _ => none

/-- The unit is the first half of a surrogate pair. -/
def isHighSurrogate (unit : Nat) : Bool := 0xD800 ≤ unit && unit < 0xDC00

/-- The unit is the second half of a surrogate pair. -/
def isLowSurrogate (unit : Nat) : Bool := 0xDC00 ≤ unit && unit < 0xE000

/-- Characters and escaped code units as characters; `none` if half of a
surrogate pair stands alone. -/
def joinSurrogates? : List Nat → Option (List Char)
  | [] => some []
  | [unit] =>
    if isHighSurrogate unit || isLowSurrogate unit then none else some [Char.ofNat unit]
  | unit :: next :: rest =>
    if isHighSurrogate unit then
      if isLowSurrogate next then
        (joinSurrogates? rest).map
          (Char.ofNat (0x10000 + 0x400 * (unit - 0xD800) + (next - 0xDC00)) :: ·)
      else none
    else if isLowSurrogate unit then none
    else (joinSurrogates? (next :: rest)).map (Char.ofNat unit :: ·)

/-- Puts the token of a pending word in front of some tokens; no word gives no
token. -/
def withWord (word : List Char) (tokens : Option (List Token)) : Option (List Token) :=
  if word = [] then tokens else do return (← Token.ofWord? word.reverse) :: (← tokens)

mutual

/-- The tokens of a text, where `word` holds the characters of a pending word in
reverse. -/
def scan (word : List Char) : List Char → Option (List Token)
  | [] => withWord word (some [])
  | c :: rest =>
    if isSpace c then
      withWord word (scan [] rest)
    else if c = '"' then
      withWord word (scanString [] rest)
    else
      match Token.ofPunctuation? c with
      | some token => withWord word ((scan [] rest).map (token :: ·))
      | none => scan (c :: word) rest

/-- The tokens of a text that starts inside a string, where `units` holds what
has been read of the string in reverse. Control characters must be escaped. -/
def scanString (units : List Nat) : List Char → Option (List Token)
  | [] => none
  | '"' :: rest =>
    (scan [] rest).map (.string ((joinSurrogates? units.reverse).map String.ofList) :: ·)
  | '\\' :: 'u' :: a :: b :: c :: d :: rest =>
    match hexUnit? a b c d with
    | some unit => scanString (unit :: units) rest
    | none => none
  | '\\' :: c :: rest =>
    match escape? c with
    | some escaped => scanString (escaped.toNat :: units) rest
    | none => none
  | c :: rest => if c.toNat < 0x20 || c = '\\' then none else scanString (c.toNat :: units) rest

end

/-- The tokens of a document. -/
def tokens? (document : String) : Option (List Token) :=
  scan [] document.toList

end LayeredConfig.Json
