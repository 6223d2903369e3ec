import LayeredConfig.Settings.Document

/-!
# Errors

Compilation itself never fails. What can be refused is what it is given: a
settings document, a name or a key to report on.

## Main definitions

* `CompileError` — what can be refused
* `CompileError.message?` — what the error says
-/

namespace LayeredConfig

/-- What a name belongs to. -/
inductive NameRole where
  | template
  | environment
  | defaultEnvironment
  deriving DecidableEq, Repr

/-- What the role is called in messages. -/
def NameRole.label : NameRole → String
  | .template => "structure"
  | .environment => "environment"
  | .defaultEnvironment => "default environment"

/-- What can be refused. -/
inductive CompileError where
  /-- The settings document is refused. -/
  | settings (error : Settings.ReadError)
  /-- A name has no character that is not blank. -/
  | blankName (role : NameRole)
  /-- The structure has no such key. -/
  | noSuchKey (name key : String)
  deriving DecidableEq, Repr

/-- What the error says, as far as the words are fixed. -/
def CompileError.message? : CompileError → Option String
  | .settings error => error.message?.map fun message => s!"domain error: {message}"
  | .blankName role => some s!"invalid input: {role.label} name cannot be empty"
  | .noSuchKey name key => some s!"not found: structure '{name}' has no key '{key}'"

end LayeredConfig
