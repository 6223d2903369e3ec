import LayeredConfig.Reference.Basic
import LayeredConfig.Proofs.Text.Cutting

/-!
# The grammar of a reference body

A body is written from tokens with a semicolon between any two of them. Blanks may stand around
a name, a value or a path, and between two semicolons there may be nothing but blanks. Reading
a body forgets how it was written: for each known command the last token that gives it counts,
and the commands with unknown names are kept in order. There is nothing else to a body, since
every text is written from some tokens.

## Main definitions

* `Reference.Token` — what one token of a body says
* `Reference.Token.Writes`, `Reference.Writes` — the ways of writing a token and a body
* `Reference.ofTokens` — the reference that tokens describe
* `Reference.Rearranges` — tokens in another order, those of one command in the same one

## Main results

* `Reference.ofBody_of_writes` — reading a body finds the reference that its tokens describe
* `Reference.exists_writes` — every text is written from some tokens
-/

namespace LayeredConfig

/-! ## Names of commands -/

namespace Command

variable {name : List Char} {command command' : Command}

theorem eq_of_sameIgnoringCase (same : Text.sameIgnoringCase name command.name.toList = true)
    (same' : Text.sameIgnoringCase name command'.name.toList = true) : command = command' := by
  have names : command.name.toList.map Char.toLower = command'.name.toList.map Char.toLower :=
    (beq_iff_eq.1 same).symm.trans (beq_iff_eq.1 same')
  revert names
  cases command <;> cases command' <;> decide

theorem mem_all (command : Command) : command ∈ all := by
  cases command <;> decide

/-- A name stands for the command that it spells in any letter case. -/
theorem ofName?_eq_some_iff :
    ofName? name = some command ↔ Text.sameIgnoringCase name command.name.toList = true := by
  have spelled : ∀ command, ofName? name = some command →
      Text.sameIgnoringCase name command.name.toList = true := by
    intro command found
    unfold ofName? at found
    have same := List.find?_some found
    exact same
  refine ⟨spelled command, fun same => ?_⟩
  have isSome : (ofName? name).isSome = true :=
    List.find?_isSome.2 ⟨command, mem_all command, same⟩
  obtain ⟨command', found⟩ := Option.isSome_iff_exists.1 isSome
  rw [found, eq_of_sameIgnoringCase same (spelled command' found)]

theorem sameIgnoringCase_eq : Text.sameIgnoringCase name command.name.toList =
    decide (ofName? name = some command) := by
  rw [Bool.eq_iff_iff, decide_eq_true_eq, ofName?_eq_some_iff]

end Command

namespace Reference

/-! ## Tokens -/

/-- A text that stands in a body as it is: nothing is trimmed off it, and no mark cuts it. -/
structure Uncut (marks text : List Char) : Prop where
  trimmed : Text.trim text = text
  free : ∀ mark ∈ marks, mark ∉ text

instance (marks text : List Char) : Decidable (Uncut marks text) :=
  decidable_of_iff (Text.trim text = text ∧ marks.all (· ∉ text) = true) <| by
    simp only [List.all_eq_true, decide_eq_true_eq]
    exact ⟨fun ⟨trimmed, free⟩ => ⟨trimmed, free⟩, fun ⟨trimmed, free⟩ => ⟨trimmed, free⟩⟩

theorem uncut_trim {marks text : List Char} (free : ∀ mark ∈ marks, mark ∉ text) :
    Uncut marks (Text.trim text) :=
  ⟨Text.trim_trim text, fun mark isMark member => free mark isMark (Text.mem_of_mem_trim member)⟩

/-- What one token of a body says. -/
inductive Token where
  /-- A command with its name and its value. -/
  | command (name value : List Char)
  /-- A path by itself. -/
  | bare (path : List Char)
  deriving DecidableEq, Repr

namespace Token

/-- The token can be told from its text: a name ends at the first colon, so only a value may
have one in it. -/
def Valid : Token → Prop
  | command name value => Uncut [':', ';'] name ∧ Uncut [';'] value
  | bare path => path ≠ [] ∧ Uncut [':', ';'] path

instance : DecidablePred Valid
  | command name value => inferInstanceAs (Decidable (Uncut [':', ';'] name ∧ Uncut [';'] value))
  | bare path => inferInstanceAs (Decidable (path ≠ [] ∧ Uncut [':', ';'] path))

/-- The text that the token gives for a known command, whose name may be in any letter case. A
path by itself gives the path. -/
def gives? (known : Command) : Token → Option String
  | command name value =>
    if Text.sameIgnoringCase name known.name.toList then some (String.ofList value) else none
  | bare path => if known = .path then some (String.ofList path) else none

/-- The name and the value of a command whose name is not known. -/
def unrecognized? : Token → Option (String × String)
  | command name value =>
    if Command.all.any fun known => Text.sameIgnoringCase name known.name.toList then
      none
    else
      some (String.ofList name, String.ofList value)
  | bare _ => none

/-- The ways of writing a token: with any blanks around its name and its value, or around its
path. -/
inductive Writes : Token → List Char → Prop
  | command {name name' value value' : List Char} : Text.Pads name name' →
    Text.Pads value value' → Writes (.command name value) (name' ++ ':' :: value')
  | bare {path path' : List Char} : Text.Pads path path' → Writes (.bare path) path'

end Token

/-- The ways of writing tokens one by one. A piece of blanks says nothing. -/
inductive WritesPieces : List Token → List (List Char) → Prop
  | nil : WritesPieces [] []
  | blank {tokens : List Token} {piece : List Char} {pieces : List (List Char)} :
    Text.allBlank piece = true → WritesPieces tokens pieces →
    WritesPieces tokens (piece :: pieces)
  | token {token : Token} {tokens : List Token} {piece : List Char}
    {pieces : List (List Char)} : token.Writes piece → WritesPieces tokens pieces →
    WritesPieces (token :: tokens) (piece :: pieces)

/-- The ways of writing tokens as a body: a semicolon stands between any two pieces. -/
def Writes (tokens : List Token) (body : List Char) : Prop :=
  ∃ pieces, WritesPieces tokens pieces ∧ body = [';'].intercalate pieces

/-- The reference that tokens describe: what the last token that gives a command gives for it,
and the commands with unknown names. -/
def ofTokens (tokens : List Token) (source : String) : Reference where
  selector := (tokens.filterMap (Token.gives? .select)).getLast?
  caption := (tokens.filterMap (Token.gives? .caption)).getLast?
  path := (tokens.filterMap (Token.gives? .path)).getLast?
  unrecognized := tokens.filterMap Token.unrecognized?
  source

/-- The same tokens in another order, in which what is given for one command keeps its own. -/
structure Rearranges (tokens tokens' : List Token) : Prop where
  perm : tokens.Perm tokens'
  kept : ∀ command, tokens.filterMap (Token.gives? command) =
    tokens'.filterMap (Token.gives? command)

variable {token : Token} {tokens : List Token} {piece body : List Char}
  {pieces : List (List Char)}

/-! ## Ways of writing -/

namespace Token

/-- The text of a token without blanks. -/
def plain : Token → List Char
  | command name value => name ++ ':' :: value
  | bare path => path

theorem writes_plain (token : Token) : token.Writes token.plain := by
  cases token with
  | command name value => exact .command (Text.pads_self name) (Text.pads_self value)
  | bare path => exact .bare (Text.pads_self path)

end Token

theorem writes_plain (tokens : List Token) :
    Writes tokens ([';'].intercalate (tokens.map Token.plain)) := by
  refine ⟨_, ?_, rfl⟩
  induction tokens with
  | nil => exact .nil
  | cons token tokens ih => exact .token token.writes_plain ih

theorem Token.Writes.not_mem (writes : token.Writes piece) (valid : token.Valid) :
    ';' ∉ piece := by
  cases writes with
  | command padsName padsValue =>
    rw [List.mem_append, List.mem_cons, not_or, not_or]
    exact ⟨padsName.not_mem (by decide) (valid.1.free ';' (by decide)), by decide,
      padsValue.not_mem (by decide) (valid.2.free ';' (by decide))⟩
  | bare pads => exact pads.not_mem (by decide) (valid.2.free ';' (by decide))

/-- No semicolon stands in what is written between two of them. -/
theorem WritesPieces.not_mem (writes : WritesPieces tokens pieces)
    (valid : ∀ token ∈ tokens, token.Valid) : ∀ piece ∈ pieces, ';' ∉ piece := by
  induction writes with
  | nil => exact fun _ member => absurd member List.not_mem_nil
  | blank blank _ ih =>
    exact List.forall_mem_cons.2 ⟨Text.not_mem_of_allBlank blank (by decide), ih valid⟩
  | token first _ ih =>
    obtain ⟨validFirst, valid⟩ := List.forall_mem_cons.1 valid
    exact List.forall_mem_cons.2 ⟨first.not_mem validFirst, ih valid⟩

/-- What stands between two semicolons is blank or writes a token. -/
theorem allBlank_or_exists_token (free : ';' ∉ piece) :
    Text.allBlank piece = true ∨ ∃ token : Token, token.Valid ∧ token.Writes piece := by
  -- a colon makes it a command even where nothing stands on either side
  cases cut : Text.cutFirst? ':' piece with
  | some pair =>
    obtain ⟨name, value⟩ := pair
    obtain ⟨rfl, noColon⟩ := Text.eq_of_cutFirst? cut
    rw [List.mem_append, List.mem_cons, not_or, not_or] at free
    have uncutName : Uncut [':', ';'] (Text.trim name) :=
      uncut_trim (by simpa using ⟨noColon, free.1⟩)
    have uncutValue : Uncut [';'] (Text.trim value) := uncut_trim (by simpa using free.2.2)
    exact .inr ⟨.command _ _, ⟨uncutName, uncutValue⟩,
      .command (Text.pads_trim name) (Text.pads_trim value)⟩
  | none =>
    have noColon := Text.cutFirst?_eq_none_iff.1 cut
    have uncut : Uncut [':', ';'] (Text.trim piece) :=
      uncut_trim (by simpa using ⟨noColon, free⟩)
    by_cases empty : Text.trim piece = []
    · exact .inl (Text.trim_eq_nil_iff.1 empty)
    · exact .inr ⟨.bare _, ⟨empty, uncut⟩, .bare (Text.pads_trim piece)⟩

theorem exists_writesPieces (free : ∀ piece ∈ pieces, ';' ∉ piece) :
    ∃ tokens, (∀ token ∈ tokens, token.Valid) ∧ WritesPieces tokens pieces := by
  induction pieces with
  | nil => exact ⟨[], by simp, .nil⟩
  | cons piece pieces ih =>
    obtain ⟨freePiece, free⟩ := List.forall_mem_cons.1 free
    obtain ⟨tokens, valid, writes⟩ := ih free
    rcases allBlank_or_exists_token freePiece with blank | ⟨token, validToken, writesToken⟩
    · exact ⟨tokens, valid, .blank blank writes⟩
    · exact ⟨token :: tokens, List.forall_mem_cons.2 ⟨validToken, valid⟩,
        .token writesToken writes⟩

/-- Every text is written from some tokens. -/
theorem exists_writes (body : List Char) :
    ∃ tokens, (∀ token ∈ tokens, token.Valid) ∧ Writes tokens body := by
  have free : ∀ piece ∈ Text.splitOn ';' body, ';' ∉ piece := fun _ => Text.not_mem_of_mem_splitOn
  obtain ⟨tokens, valid, writes⟩ := exists_writesPieces free
  refine ⟨tokens, valid, _, writes, ?_⟩
  rw [Text.splitOn_eq, List.intercalate_splitOn]

/-- Every token of a body is written in it. -/
theorem Writes.exists_piece (writes : Writes tokens body) (member : token ∈ tokens) :
    ∃ piece, token.Writes piece ∧ piece <:+: body := by
  obtain ⟨pieces, writes, rfl⟩ := writes
  suffices atPiece : ∃ piece ∈ pieces, token.Writes piece by
    obtain ⟨piece, isPiece, written⟩ := atPiece
    exact ⟨piece, written, Text.isInfix_intercalate isPiece _⟩
  induction writes with
  | nil => cases member
  | blank _ _ ih =>
    obtain ⟨piece, isPiece, written⟩ := ih member
    exact ⟨piece, List.mem_cons_of_mem _ isPiece, written⟩
  | token first _ ih =>
    rcases List.mem_cons.1 member with rfl | member
    · exact ⟨_, List.mem_cons_self, first⟩
    · obtain ⟨piece, isPiece, written⟩ := ih member
      exact ⟨piece, List.mem_cons_of_mem _ isPiece, written⟩

/-! ## Reading what was written -/

/-- A reference with what one more token says, which counts before what was there. -/
def Token.addTo (token : Token) (reference : Reference) : Reference where
  selector := (token.gives? .select).or reference.selector
  caption := (token.gives? .caption).or reference.caption
  path := (token.gives? .path).or reference.path
  unrecognized := reference.unrecognized ++ token.unrecognized?.toList
  source := reference.source

theorem setCommand_eq (reference : Reference) (name value : List Char) :
    reference.setCommand name value = (Token.command name value).addTo reference := by
  simp only [setCommand, Token.addTo, Token.gives?, Token.unrecognized?,
    Command.sameIgnoringCase_eq]
  cases Command.ofName? name with
  | none => simp
  | some command => cases command <;> simp [Command.all]

/-- A token is read as what it says, however it is written. -/
theorem applyToken_of_writes (writes : token.Writes piece) (valid : token.Valid)
    (reference : Reference) : reference.applyToken piece = token.addTo reference := by
  cases writes with
  | @command name name' value value' padsName padsValue =>
    obtain ⟨uncutName, uncutValue⟩ := valid
    -- the blanks at the ends go with the whole token, those at the colon with the two sides
    have noColon : ':' ∉ Text.trimStart name' := fun member =>
      padsName.not_mem (by decide) (uncutName.free ':' List.mem_cons_self)
        ((List.dropWhile_suffix _).subset member)
    have trimmed : Text.trim (name' ++ ':' :: value') =
        Text.trimStart name' ++ ':' :: Text.trimEnd value' :=
      Text.trim_append_cons (by decide) name' value'
    have nonempty : Text.trimStart name' ++ ':' :: Text.trimEnd value' ≠ [] :=
      List.append_ne_nil_of_right_ne_nil _ (List.cons_ne_nil _ _)
    have nameRead : Text.trim (Text.trimStart name') = name := by
      rw [← (Text.pads_trimStart name').trim_eq, padsName.trim_eq, uncutName.trimmed]
    have valueRead : Text.trim (Text.trimEnd value') = value := by
      rw [← (Text.pads_trimEnd value').trim_eq, padsValue.trim_eq, uncutValue.trimmed]
    simp only [applyToken, trimmed, nonempty, if_false, Text.cutFirst?_append_cons noColon,
      nameRead, valueRead]
    exact setCommand_eq reference name value
  | @bare path _ pads =>
    obtain ⟨nonempty, uncut⟩ := valid
    have trimmed : Text.trim piece = path := Text.trim_eq_iff.2 ⟨pads, uncut.trimmed⟩
    have noColon : ':' ∉ path := uncut.free ':' List.mem_cons_self
    simp only [applyToken, trimmed, nonempty, if_false, Text.cutFirst?_eq_none_iff.2 noColon]
    simp [Token.addTo, Token.gives?, Token.unrecognized?]

theorem applyToken_of_allBlank (blank : Text.allBlank piece = true) (reference : Reference) :
    reference.applyToken piece = reference := by
  simp only [applyToken, Text.trim_eq_nil_of_allBlank blank, if_true]

theorem getLast?_filterMap_cons {α β : Type} (f : α → Option β) (a : α) (l : List α) :
    ((a :: l).filterMap f).getLast? = ((l.filterMap f).getLast?).or (f a) := by
  rw [List.filterMap_cons]
  cases f a with
  | none => rw [Option.or_none]
  | some b => cases last : (l.filterMap f).getLast? <;> simp [List.getLast?_cons, last]

/-- Of the tokens that give a command the last one counts, and what was there before counts
only if there is none. -/
theorem foldl_applyToken (writes : WritesPieces tokens pieces)
    (valid : ∀ token ∈ tokens, token.Valid) (reference : Reference) :
    pieces.foldl applyToken reference =
      { selector := ((tokens.filterMap (Token.gives? .select)).getLast?).or reference.selector
        caption := ((tokens.filterMap (Token.gives? .caption)).getLast?).or reference.caption
        path := ((tokens.filterMap (Token.gives? .path)).getLast?).or reference.path
        unrecognized := reference.unrecognized ++ tokens.filterMap Token.unrecognized?
        source := reference.source } := by
  induction writes generalizing reference with
  | nil => simp
  | blank blank _ ih => rw [List.foldl_cons, applyToken_of_allBlank blank, ih valid]
  | @token token tokens piece pieces first _ ih =>
    obtain ⟨validFirst, valid⟩ := List.forall_mem_cons.1 valid
    -- what this token gives is there when the others are read, which go before it
    rw [List.foldl_cons, applyToken_of_writes first validFirst, ih valid]
    simp only [Token.addTo, getLast?_filterMap_cons, Option.or_assoc, List.append_assoc]
    cases unknown : token.unrecognized? <;> simp [unknown]

/-- A body is read as the reference that its tokens describe. -/
theorem ofBody_eq_ofTokens (writes : Writes tokens body) (valid : ∀ token ∈ tokens, token.Valid)
    (source : String) : ofBody body source = ofTokens tokens source := by
  obtain ⟨pieces, writes, rfl⟩ := writes
  have read : (Text.splitOn ';' ([';'].intercalate pieces)).foldl applyToken { source } =
      pieces.foldl applyToken { source } := by
    cases pieces with
    | nil =>
      -- an empty body is cut into one piece, which is blank
      have blank : Text.allBlank [] = true := rfl
      exact applyToken_of_allBlank blank _
    | cons piece pieces =>
      rw [Text.splitOn_eq,
        List.splitOn_intercalate ';' (writes.not_mem valid) (List.cons_ne_nil _ _)]
  rw [ofBody, read, foldl_applyToken writes valid]
  simp [ofTokens]

/-- A blank body says nothing. -/
theorem ofBody_of_allBlank (blank : Text.allBlank body = true) (source : String) :
    ofBody body source = { source } := by
  have writes : Writes [] body := ⟨[body], .blank blank .nil, List.intercalate_singleton.symm⟩
  rw [ofBody_eq_ofTokens writes (List.forall_mem_nil _)]
  rfl

/-- A body is read as its own path iff it writes a path by itself. -/
theorem ofBody_eq_path_iff {path : List Char} {source : String} :
    ofBody path source = { path := some (String.ofList path), source } ↔
      (Token.bare path).Valid := by
  constructor
  · intro read
    obtain ⟨tokens, valid, writes⟩ := exists_writes path
    have atPath := congrArg Reference.path
      ((ofBody_eq_ofTokens writes valid source).symm.trans read)
    obtain ⟨token, member, given⟩ := List.mem_filterMap.1 (List.mem_of_getLast? atPath)
    cases token with
    | bare path' =>
      have same : String.ofList path' = String.ofList path := by simpa [Token.gives?] using given
      rw [← String.ofList_injective same]
      exact valid _ member
    | command name value =>
      -- a command is longer than its value, so its value cannot be all that is written
      have same : Text.sameIgnoringCase name Command.path.name.toList = true ∧
          String.ofList value = String.ofList path := by simpa [Token.gives?] using given
      obtain rfl : value = path := String.ofList_injective same.2
      obtain ⟨piece, written, inside⟩ := writes.exists_piece member
      cases written with
      | command padsName padsValue =>
        have shorter := inside.length_le
        have atLeast := padsValue.length_le
        simp only [List.length_append, List.length_cons] at shorter
        omega
  · intro valid
    have writes : Writes [.bare path] path := by
      simpa [Token.plain] using writes_plain [.bare path]
    rw [ofBody_eq_ofTokens writes (List.forall_mem_singleton.2 valid)]
    simp [ofTokens, Token.gives?, Token.unrecognized?]

/-- However tokens are written, the body is read as the reference that they describe. In
another order, in which those that give the same command keep theirs, they describe the same
reference but for the order of the unknown commands. -/
theorem ofBody_of_writes (writes : Writes tokens body) (valid : ∀ token ∈ tokens, token.Valid)
    (source : String) :
    ofBody body source = ofTokens tokens source ∧
      ∀ tokens' body', Rearranges tokens tokens' → Writes tokens' body' →
        ∃ unrecognized, unrecognized.Perm (ofBody body source).unrecognized ∧
          ofBody body' source = { ofBody body source with unrecognized } := by
  have read := ofBody_eq_ofTokens writes valid source
  refine ⟨read, fun tokens' body' rearranges writes' => ?_⟩
  have valid' : ∀ token ∈ tokens', token.Valid := fun token member =>
    valid token (rearranges.perm.mem_iff.2 member)
  refine ⟨tokens'.filterMap Token.unrecognized?, ?_, ?_⟩
  · rw [read]
    exact (rearranges.perm.symm).filterMap _
  · rw [read, ofBody_eq_ofTokens writes' valid' source]
    simp only [ofTokens, rearranges.kept]

/-- Tokens in which a path is given twice, one name is in mixed case and one is missing. -/
def scatteredTokens : List Token :=
  [.command "uSING".toList "$struct".toList, .command "Format".toList "a:b".toList,
    .bare "db/name".toList, .command [] [], .command "path".toList "urls/http://host".toList,
    .command "format".toList []]

/-- The tokens written with blanks of several kinds, some of them by themselves. -/
def scatteredBody : List Char :=
  "\tuSING :\u3000$struct ;; Format:a:b;db/name ;\u00a0;: ;path : urls/http://host;format:".toList

/-- The tokens in another order, in which the paths keep theirs. -/
def gatheredTokens : List Token :=
  [.bare "db/name".toList, .command "path".toList "urls/http://host".toList,
    .command "uSING".toList "$struct".toList, .command [] [], .command "format".toList [],
    .command "Format".toList "a:b".toList]

theorem writes_scatteredBody : Writes scatteredTokens scatteredBody := by
  refine ⟨["\tuSING :\u3000$struct ", "", " Format:a:b", "db/name ", "\u00a0", ": ",
    "path : urls/http://host", "format:"].map String.toList, ?_, by decide +kernel⟩
  exact
    .token (.command ⟨['\t'], [' '], rfl, rfl, rfl⟩ ⟨['\u3000'], [' '], rfl, rfl, rfl⟩) <|
    .blank rfl <|
    .token (.command ⟨[' '], [], rfl, rfl, rfl⟩ ⟨[], [], rfl, rfl, rfl⟩) <|
    .token (.bare ⟨[], [' '], rfl, rfl, rfl⟩) <|
    .blank rfl <|
    .token (.command ⟨[], [], rfl, rfl, rfl⟩ ⟨[' '], [], rfl, rfl, rfl⟩) <|
    .token (.command ⟨[], [' '], rfl, rfl, rfl⟩ ⟨[' '], [], rfl, rfl, rfl⟩) <|
    .token (.command ⟨[], [], rfl, rfl, rfl⟩ ⟨[], [], rfl, rfl, rfl⟩) .nil

/-- Blanks of any kind and blank tokens do not count, and of two paths the last one does. -/
theorem ofBody_of_writes_scattered :
    Writes scatteredTokens scatteredBody ∧ (∀ token ∈ scatteredTokens, token.Valid) ∧
      Rearranges scatteredTokens gatheredTokens ∧
      ofBody scatteredBody "" =
        { selector := some "$struct", path := some "urls/http://host"
          unrecognized := [("Format", "a:b"), ("", ""), ("format", "")], source := "" } ∧
      ∃ unrecognized, unrecognized.Perm [("Format", "a:b"), ("", ""), ("format", "")] ∧
        ofBody ([';'].intercalate (gatheredTokens.map Token.plain)) "" =
          { selector := some "$struct", path := some "urls/http://host"
            unrecognized, source := "" } := by
  have valid : ∀ token ∈ scatteredTokens, token.Valid := by decide +kernel
  have rearranges : Rearranges scatteredTokens gatheredTokens := by
    refine ⟨by decide +kernel, fun command => ?_⟩
    cases command <;> decide +kernel
  obtain ⟨read, other⟩ := ofBody_of_writes writes_scatteredBody valid ""
  have described : ofTokens scatteredTokens "" =
      { selector := some "$struct", path := some "urls/http://host"
        unrecognized := [("Format", "a:b"), ("", ""), ("format", "")], source := "" } := by
    decide +kernel
  rw [described] at read
  rw [read] at other
  exact ⟨writes_scatteredBody, valid, rearranges, read,
    other gatheredTokens _ rearranges (writes_plain gatheredTokens)⟩

end Reference

end LayeredConfig
