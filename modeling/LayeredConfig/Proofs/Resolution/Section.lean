import LayeredConfig.Proofs.Resolution.Scene

/-!
# Sections as written and as looked up

Whether a reference is written as a section is told from its path. What is looked up is what
remains of the path behind a reserved first segment, put beside the key that holds the
reference if it is taken relative to it. Both end in `/*` unless the star stands right behind
the reserved segment: then the slash goes with the segment, and a lone star is left where no
parent brings another slash. Such a star counts as a bare one.

## Main definitions

* `Reference.LeavesStar` — all that is left of the path to look up is a star
* `Trace.NotesBareStar`, `Trace.NotesRefusal` — what may be noted instead of a section

## Main results

* `Reference.lookup_of_isSection` — what is looked up for a reference written as a section
* `Context.resolve_of_isSection` — what such a reference comes to
-/

namespace LayeredConfig

/-! ## Paths that end in a slash and a star -/

/-- The path ends in a slash and a star. -/
def EndsInSection (path : List Char) : Prop := ['/', '*'] <:+ path

instance (path : List Char) : Decidable (EndsInSection path) :=
  inferInstanceAs (Decidable (_ <:+ _))

theorem EndsInSection.append {path : List Char} (ends : EndsInSection path)
    (before : List Char) : EndsInSection (before ++ path) :=
  ends.trans (List.suffix_append _ _)

/-- Behind a slash stands the end of the path, or the star alone. -/
theorem EndsInSection.behind_slash {head rest : List Char}
    (ends : EndsInSection (head ++ '/' :: rest)) : EndsInSection rest ∨ rest = ['*'] := by
  obtain ⟨stem, spelled⟩ := ends
  rcases List.append_eq_append_iff.1 spelled with ⟨middle, -, same⟩ | ⟨middle, -, same⟩
  · cases middle with
    | nil => exact .inr (List.cons.inj same).2.symm
    | cons c middle =>
      -- no slash follows the one before the star
      have slash : '/' ∈ ['*'] := by
        rw [(List.cons.inj same).2]
        exact List.mem_append_right _ List.mem_cons_self
      exact absurd slash (by decide)
  · cases middle with
    | nil => exact .inr (List.cons.inj same).2
    | cons c middle => exact .inl ⟨middle, (List.cons.inj same).2.symm⟩

theorem Query.ofPath_of_endsInSection {path : String} (ends : EndsInSection path.toList) :
    ∃ stem, ofPath path = .all ⟨stem, false⟩ := by
  obtain ⟨stem, spelled⟩ := ends
  have cut := Text.stripSuffix?_eq_some_iff.2 spelled.symm
  exact ⟨String.ofList stem, by rw [ofPath, cut]⟩

/-- A star beside a key with a parent ends in a slash and a star, and so does every path that
ends so already. -/
theorem endsInSection_siblingPath {key path : String}
    (ends : EndsInSection path.toList ∨ path = "*" ∧ '/' ∈ key.toList) :
    EndsInSection (siblingPath key path).toList := by
  unfold siblingPath
  cases cut : Text.cutLast? '/' key.toList with
  | none =>
    rcases ends with ends | ⟨-, slash⟩
    · exact ends
    · exact absurd slash (Text.cutLast?_eq_none_iff.1 cut)
  | some pair =>
    obtain ⟨parent, name⟩ := pair
    have spelled : (String.ofList parent ++ "/" ++ path).toList = parent ++ '/' :: path.toList := by
      simp
    rw [spelled]
    rcases ends with ends | ⟨rfl, -⟩
    · exact (ends.append ['/']).append parent
    · exact List.suffix_append parent _

theorem siblingPath_of_not_mem {key path : String} (free : '/' ∉ key.toList) :
    siblingPath key path = path := by
  rw [siblingPath, Text.cutLast?_eq_none_iff.2 free]

/-! ## References written as sections -/

theorem Namespace.ne_environment_of_ofReserved? {name : List Char} {space : Namespace}
    (reserved? : ofReserved? name = some space) : space ≠ .environment := by
  obtain ⟨entry, found, rfl⟩ := Option.map_eq_some_iff.1 reserved?
  have known : ∀ entry ∈ reserved, entry.2 ≠ .environment := by decide
  exact known entry (List.mem_of_find?_eq_some found)

namespace Reference

variable {reference : Reference} {name : Namespace} {path current : String} {space : Space}

theorem isSection_iff : reference.isSection = true ↔
    ∃ path, reference.path = some path ∧ EndsInSection path.toList := by
  unfold isSection
  cases reference.path with
  | none => simp
  | some path =>
    simp only [Option.isSome_iff_exists, Text.stripSuffix?_eq_some_iff, Option.some.injEq,
      exists_eq_left']
    exact exists_congr fun stem => eq_comm

/-- The path to look up of a reference that is written as a section ends like the written one,
or only the star is left of it behind a reserved segment. -/
theorem target?_of_isSection (written : reference.isSection = true)
    (target : reference.target? = some (name, path)) :
    EndsInSection path.toList ∨ path = "*" ∧ name ≠ .environment := by
  obtain ⟨whole, atPath, ends⟩ := isSection_iff.1 written
  rw [target?, atPath, Option.map_some, Option.some.injEq] at target
  cases selector : reference.selector with
  | some chosen =>
    simp only [selector, Prod.mk.injEq] at target
    exact .inl (target.2 ▸ ends)
  | none =>
    simp only [selector] at target
    cases cut : Namespace.ofPath? whole with
    | none =>
      simp only [cut, Option.getD_none, Prod.mk.injEq] at target
      exact .inl (target.2 ▸ ends)
    | some found =>
      simp only [cut, Option.getD_some] at target
      subst target
      unfold Namespace.ofPath? at cut
      split at cut
      · next head rest atSlash =>
        obtain ⟨space, reserved?, same⟩ := Option.map_eq_some_iff.1 cut
        obtain ⟨rfl, rfl⟩ := Prod.mk.inj same
        rw [(Text.eq_of_cutFirst? atSlash).1] at ends
        rcases ends.behind_slash with ends | alone
        · exact .inl (by rwa [String.toList_ofList])
        · exact .inr ⟨by rw [alone], Namespace.ne_environment_of_ofReserved? reserved?⟩
      · cases cut

/-- All that is left of the path to look up is a star: behind a reserved first segment stands
nothing else, and the key that holds the reference has no parent whose slash would come before
it. -/
def LeavesStar (reference : Reference) (current : String) : Prop :=
  reference.target? = some (.vars, "*") ∨
    reference.target? = some (.sibling, "*") ∧ '/' ∉ current.toList

instance (reference : Reference) (current : String) : Decidable (reference.LeavesStar current) :=
  inferInstanceAs (Decidable (_ ∨ _ ∧ _))

/-- What is looked up for a reference that is written as a section ends like one, or it is a
star alone. -/
theorem lookup_of_isSection (written : reference.isSection = true)
    (leads : Target.ofReference current reference = .keys space path) :
    EndsInSection path.toList ∧ ¬ reference.LeavesStar current ∨
      path = "*" ∧ reference.LeavesStar current := by
  have notAlone : ¬ EndsInSection "*".toList := by decide
  unfold Target.ofReference at leads
  split at leads <;> cases leads
  · next target =>
    rcases target?_of_isSection written target with ends | ⟨-, other⟩
    · exact .inl ⟨ends, by simp [LeavesStar, target]⟩
    · exact absurd rfl other
  · next relative target =>
    by_cases star : relative = "*" ∧ '/' ∉ current.toList
    · obtain ⟨rfl, free⟩ := star
      exact .inr ⟨siblingPath_of_not_mem free, .inr ⟨target, free⟩⟩
    · refine .inl ⟨endsInSection_siblingPath ?_, ?_⟩
      · rcases target?_of_isSection written target with ends | ⟨rfl, -⟩
        · exact .inl ends
        · exact .inr ⟨rfl, by simpa using star⟩
      · simpa [LeavesStar, target] using star
  · next target =>
    rcases target?_of_isSection written target with ends | ⟨rfl, -⟩
    · refine .inl ⟨ends, ?_⟩
      rintro (leaves | ⟨leaves, -⟩)
      · cases target.symm.trans leaves
        exact notAlone ends
      · cases target.symm.trans leaves
    · exact .inr ⟨rfl, .inl target⟩

end Reference

/-! ## What is noted instead of a section -/

/-- It is noted on the node that the path ends in a star without a slash before it. -/
def Trace.NotesBareStar (node : Trace Issue) : Prop :=
  ∃ path, .malformedWildcard path ∈ node.diagnostics.warnings ∨
    .rejectedWildcard path ∈ node.diagnostics.warnings

/-- It is noted on the node that its frame was refused. -/
def Trace.NotesRefusal (node : Trace Issue) : Prop :=
  ∃ path, .cyclicReference path ∈ node.diagnostics.errors ∨
    ∃ limit, .depthExceeded path limit ∈ node.diagnostics.errors

namespace Context

variable {context : Context} {inside? : Option (Stack → Answerer)} {stack : Stack}
  {space : Space} {path : String} {wildcard : Wildcard} {request : Request} {room : Nat}

theorem notesBareStar_resolve : (context.resolve room stack request).2.NotesBareStar ↔
    ∃ path, .malformedWildcard path ∈ (context.findingOf (context.inside? room) stack
        request).issues ∨
      .rejectedWildcard path ∈ (context.findingOf (context.inside? room) stack request).issues := by
  rw [resolve_eq, Trace.NotesBareStar, diagnostics_answer]
  simp [Diagnostics.ofIssues, Issue.severity]

theorem notesRefusal_resolve : (context.resolve room stack request).2.NotesRefusal ↔
    ∃ path, .cyclicReference path ∈ (context.findingOf (context.inside? room) stack
        request).issues ∨
      ∃ limit, .depthExceeded path limit ∈ (context.findingOf (context.inside? room) stack
        request).issues := by
  rw [resolve_eq, Trace.NotesRefusal, diagnostics_answer]
  simp [Diagnostics.ofIssues, Issue.severity]

/-- A section is expanded unless its frame is refused. -/
theorem entries_or_refused_expandSection (context : Context)
    (inside? : Option (Stack → Answerer)) (stack : Stack) (space : Space) (wildcard : Wildcard) :
    (∃ entries, (context.expandSection inside? stack space wildcard).outcome =
      .entries entries) ∨
    ∃ path, .cyclicReference path ∈
        (context.expandSection inside? stack space wildcard).issues ∨
      ∃ limit, .depthExceeded path limit ∈
        (context.expandSection inside? stack space wildcard).issues := by
  rw [expandSection_eq]
  cases opened : openFrame inside? stack ⟨space, wildcard.path⟩ with
  | ok answer => exact .inl ⟨_, rfl⟩
  | error issue =>
    refine .inr ⟨wildcard.path, ?_⟩
    rcases openFrame_eq_error_iff.1 opened with ⟨-, rfl⟩ | ⟨-, -, rfl⟩
    · exact .inl (List.mem_singleton_self _)
    · exact .inr ⟨stack.depth, List.mem_singleton_self _⟩

/-- The star of a section is not what is noted on it. -/
theorem not_bareStar_expandSection (context : Context) (inside? : Option (Stack → Answerer))
    (stack : Stack) (space : Space) (wildcard : Wildcard) (path : String) :
    .malformedWildcard path ∉ (context.expandSection inside? stack space wildcard).issues ∧
      .rejectedWildcard path ∉ (context.expandSection inside? stack space wildcard).issues := by
  rw [expandSection_eq]
  cases opened : openFrame inside? stack ⟨space, wildcard.path⟩ with
  | ok answer =>
    simp only [expandEntries]
    split <;> simp
  | error issue =>
    rcases openFrame_eq_error_iff.1 opened with ⟨-, rfl⟩ | ⟨-, -, rfl⟩ <;> simp [Finding.fault]

/-- A path that ends in a slash and a star is taken for the section that it spells. -/
theorem resolvePath_of_endsInSection (context : Context) (inside? : Option (Stack → Answerer))
    (stack : Stack) (space : Space) (ends : EndsInSection path.toList) :
    ∃ wildcard, context.resolvePath inside? stack .whole space path =
      context.expandSection inside? stack space wildcard := by
  obtain ⟨stem, query⟩ := Query.ofPath_of_endsInSection ends
  exact ⟨⟨stem, false⟩, by simp only [resolvePath, query]; rfl⟩

/-- A star alone is noted and taken for the section of all keys, or it is refused. -/
theorem resolvePath_star (context : Context) (inside? : Option (Stack → Answerer))
    (stack : Stack) (space : Space) :
    context.resolvePath inside? stack .whole space "*" =
      if context.settings.legacyWildcard then
        (context.expandSection inside? stack space ⟨"", true⟩).after (.malformedWildcard "*")
      else
        .fault (.rejectedWildcard "*") := by
  have query : Query.ofPath "*" = .all ⟨"", true⟩ := by decide
  simp only [resolvePath, query]
  rfl

/-- A reference to a place in one of the maps, which is written as a section and is the whole
of its text, is taken for a section without a note on its star, unless only the star is left
to be looked up. It comes to a section unless its frame is refused, or the star is left and
the settings do not allow bare stars. -/
theorem resolve_of_isSection (context : Context) (room : Nat) (stack : Stack)
    {reference : Reference} {name : Namespace} {path : String}
    (written : reference.isSection = true) (target : reference.target? = some (name, path))
    (inMap : name = .environment ∨ name = .sibling ∨ name = .vars) :
    let answer := context.resolve room stack (.reference .whole reference)
    (answer.2.NotesBareStar ↔ reference.LeavesStar stack.current) ∧
    ((∃ entries, answer.1 = .entries entries) ∨ answer.2.NotesRefusal ↔
      ¬ (reference.LeavesStar stack.current ∧ context.settings.legacyWildcard = false)) := by
  intro answer
  obtain ⟨space, lookup, leads⟩ : ∃ space lookup,
      Target.ofReference stack.current reference = .keys space lookup := by
    rcases inMap with rfl | rfl | rfl <;> exact ⟨_, _, by rw [Target.ofReference, target]⟩
  have found : context.findingOf (context.inside? room) stack (.reference .whole reference) =
      context.resolvePath (context.inside? room) stack .whole space lookup := by
    simp only [findingOf, leads, resolveTarget]
  have outcome : answer.1 =
      (context.resolvePath (context.inside? room) stack .whole space lookup).outcome := by
    rw [← found, ← outcome_answer, ← resolve_eq]
  rw [notesBareStar_resolve, notesRefusal_resolve, outcome, found]
  rcases Reference.lookup_of_isSection written leads with ⟨ends, spelled⟩ | ⟨rfl, leaves⟩
  · obtain ⟨wildcard, taken⟩ :=
      context.resolvePath_of_endsInSection (context.inside? room) stack space ends
    rw [taken]
    refine ⟨iff_of_false ?_ spelled, iff_of_true ?_ (fun both => spelled both.1)⟩
    · rintro ⟨path, noted | noted⟩
      · exact (not_bareStar_expandSection _ _ _ _ _ path).1 noted
      · exact (not_bareStar_expandSection _ _ _ _ _ path).2 noted
    · exact entries_or_refused_expandSection _ _ _ _ _
  · rw [resolvePath_star]
    cases allowed : context.settings.legacyWildcard with
    | true =>
      refine ⟨iff_of_true ⟨"*", .inl List.mem_cons_self⟩ leaves, iff_of_true ?_ (by simp)⟩
      -- what is noted on the star comes before whatever is noted on the section
      refine (entries_or_refused_expandSection context _ _ space ⟨"", true⟩).imp id ?_
      rintro ⟨path, noted | ⟨limit, noted⟩⟩
      · exact ⟨path, .inl (List.mem_cons_of_mem _ noted)⟩
      · exact ⟨path, .inr ⟨limit, List.mem_cons_of_mem _ noted⟩⟩
    | false =>
      refine ⟨iff_of_true ⟨"*", .inr (List.mem_singleton_self _)⟩ leaves,
        iff_of_false ?_ (by simpa using leaves)⟩
      simp [Finding.fault]

/-- An environment and variables with one section each. -/
def servers : Context where
  environment := .ofList [("db/host", some "h"), ("db/port", some "{{$struct/port}}")]
  vars := .ofList [("port", some "1")]
  settings := { legacyWildcard := false }

/-- Behind `$this` a star alone is written. Beside a key with a parent it is the section of the
parent. -/
theorem resolve_of_isSection_servers :
    (Reference.ofPath "$this/*").isSection = true ∧
    (Reference.ofPath "$this/*").target? = some (.sibling, "*") ∧
    ¬ (servers.resolve 2 { root := "db/all" }
      (.reference .whole (.ofPath "$this/*"))).2.NotesBareStar ∧
    ((∃ entries, (servers.resolve 2 { root := "db/all" }
        (.reference .whole (.ofPath "$this/*"))).1 = .entries entries) ∨
      (servers.resolve 2 { root := "db/all" }
        (.reference .whole (.ofPath "$this/*"))).2.NotesRefusal) := by
  have written : (Reference.ofPath "$this/*").isSection = true := by decide +kernel
  have target : (Reference.ofPath "$this/*").target? = some (.sibling, "*") := by decide +kernel
  have apart : ¬ (Reference.ofPath "$this/*").LeavesStar "db/all" := by decide +kernel
  obtain ⟨noted, taken⟩ :=
    servers.resolve_of_isSection 2 { root := "db/all" } written target (.inr (.inl rfl))
  exact ⟨written, target, fun star => apart (noted.1 star),
    taken.2 fun both => apart both.1⟩

/-- The section of all variables is refused as a bare star, although a slash and a star are
written. -/
theorem resolve_of_isSection_leavesStar :
    Value.parse "{{$struct/*}}" = [.reference (.ofPath "$struct/*")] ∧
    (Reference.ofPath "$struct/*").isSection = true ∧
    (Reference.ofPath "$struct/*").target? = some (.vars, "*") ∧
    (servers.resolveText "K" "{{$struct/*}}").outcome = .text "" ∧
    (servers.resolveText "K" "{{$struct/*}}").children.map (·.diagnostics) =
      [{ warnings := [.rejectedWildcard "*"] }] := by
  decide +kernel

end Context

end LayeredConfig
