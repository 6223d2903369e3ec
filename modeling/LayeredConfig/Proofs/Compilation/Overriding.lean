import LayeredConfig.Proofs.Compilation.Layering

/-!
# What is overridden cannot be seen

A key of an environment hides the default at this key from both passes. The first pass sees
the environment laid over the default one, and what it compiles to takes the place of all
keys of the environment, even of those at which it writes nothing. So a compilation over a
default environment shows nothing of the defaults that are overridden.

## Main results

* `Compiler.merge_eq_of_overridden` — both passes see the same
* `Compiler.compileLayered_eq_of_overridden` — and so the output is the same
-/

namespace LayeredConfig.Compiler

section Overriding

variable {environment base base' : Environment}

theorem compileOver_eq_of_overridden (compiler : Compiler)
    (agree : ∀ key, environment.keys.contains key = false →
      base.keys.find? key = base'.keys.find? key) (vars : ConfigMap) :
    compiler.compileOver base environment vars = compiler.compileOver base' environment vars := by
  have visible : base.overlay environment.name environment.keys =
      base'.overlay environment.name environment.keys :=
    congrArg (Environment.mk environment.name) (KeyMap.overlay_eq_overlay_iff.2 agree)
  rw [compileOver, visible, compileOver]

theorem merge_eq_of_overridden (compiler : Compiler)
    (agree : ∀ key, environment.keys.contains key = false →
      base.keys.find? key = base'.keys.find? key) (vars : ConfigMap) :
    compiler.merge base environment vars = compiler.merge base' environment vars := by
  have left : (base.keys.filter fun key => !environment.keys.contains key) =
      base'.keys.filter fun key => !environment.keys.contains key := by
    refine KeyMap.filter_eq_filter_iff.2 fun key isLeft => agree key ?_
    simpa using isLeft
  rw [merge, merge, left, compileOver_eq_of_overridden compiler agree]

end Overriding

/-- Over two default environments that differ only at keys of the environment, a structure
compiles to the same, with the same traces. At a key of the environment the second pass finds
just what the first one wrote there, be it nothing. -/
theorem compileLayered_eq_of_overridden (compiler : Compiler)
    (environment base base' : Environment) (template : Structure)
    (named : isBlankName base.name = false) (named' : isBlankName base'.name = false)
    (agree : ∀ key, environment.keys.contains key = false →
      base.keys.find? key = base'.keys.find? key) :
    compiler.compileLayered environment (some base) template =
        compiler.compileLayered environment (some base') template ∧
      ∀ key, environment.keys.contains key = true →
        (compiler.merge base environment template.vars).1.keys.find? key =
          (compiler.compileOver base environment template.vars).compiled.find? key := by
  constructor
  · simp only [compileLayered, checkName, named, named',
      merge_eq_of_overridden compiler agree template.vars]
  · intro key overridden
    rw [find?_merge, if_pos overridden, Option.or_none]

/-- An environment in which the first pass expands one key and drops another one. -/
def hidingLayer : Environment where
  name := "dev"
  keys := .ofPairs [("Db", "{{db/*}}"), ("Opt", "{{opt/*}}"), ("db/host", "devhost")]

/-- Texts for the keys that are expanded and dropped. -/
def hiddenBase : Environment where
  name := "base"
  keys := .ofPairs [("Db", "{{Opt}}"), ("Opt", "hidden"), ("port", "80")]

/-- No texts for these keys, and one for the third key of the environment. -/
def plainBase : Environment where
  name := "plain"
  keys := .ofPairs [("db/host", "{{port}}"), ("port", "80")]

/-- A structure that asks for what is hidden and for what is not. -/
def hidingUser : Structure where
  name := "app"
  keys := .ofPairs [("Lost", "<{{Opt}}>"), ("Plain", "<{{Db}}>"), ("Port", "{{port}}"),
    ("Sect", "{{Db/*}}")]

/-- The texts of the one default environment show through as little as their absence from
the other one. -/
theorem compileLayered_eq_of_overridden_hiding :
    isBlankName hiddenBase.name = false ∧ isBlankName plainBase.name = false ∧
    (∀ key, hidingLayer.keys.contains key = false →
      hiddenBase.keys.find? key = plainBase.keys.find? key) ∧
    ({} : Compiler).compileLayered hidingLayer (some hiddenBase) hidingUser =
      ({} : Compiler).compileLayered hidingLayer (some plainBase) hidingUser ∧
    (({} : Compiler).merge hiddenBase hidingLayer hidingUser.vars).1.keys.find? "Opt" = none ∧
    ∃ layered,
      ({} : Compiler).compileLayered hidingLayer (some hiddenBase) hidingUser = .ok layered ∧
      layered.result.compiled =
        .ofPairs [("Lost", "<>"), ("Plain", "<>"), ("Port", "80"), ("Sect/host", "devhost")] := by
  have named : isBlankName hiddenBase.name = false := by decide +kernel
  have named' : isBlankName plainBase.name = false := by decide +kernel
  have agree : ∀ key, hidingLayer.keys.contains key = false →
      hiddenBase.keys.find? key = plainBase.keys.find? key :=
    KeyMap.overlay_eq_overlay_iff.1 (by decide +kernel)
  obtain ⟨same, overridden⟩ := compileLayered_eq_of_overridden {} hidingLayer hiddenBase
    plainBase hidingUser named named' agree
  have dropped : (({} : Compiler).merge hiddenBase hidingLayer hidingUser.vars).1.keys.find?
      "Opt" = none :=
    (overridden "Opt" (by decide +kernel)).trans (by decide +kernel)
  exact ⟨named, named', agree, same, dropped,
    _, compileLayered_eq_ok _ (by decide +kernel) (by decide +kernel) named, by decide +kernel⟩

end LayeredConfig.Compiler
