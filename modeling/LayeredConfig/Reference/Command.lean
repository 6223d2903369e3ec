import LayeredConfig.Text.Split

/-!
# Commands of a reference

The body of a reference is a list of commands, such as `Using: $struct` or
`Path: db/name`. Command names are compared ignoring the case of ASCII letters.

## Main definitions

* `Command` — a command with a known name
* `Command.ofName?` — the command that a name stands for
-/

namespace LayeredConfig

/-- A command that a reference understands. -/
inductive Command where
  /-- Selects the namespace in which the path is looked up. -/
  | select
  /-- Gives the reference a name for display; resolution ignores it. -/
  | caption
  /-- Gives the path to look up. -/
  | path
  deriving DecidableEq, Repr

namespace Command

/-- The name under which a command is written. -/
def name : Command → String
  | select => "Using"
  | caption => "Alias"
  | path => "Path"

/-- All commands. -/
def all : List Command := [select, caption, path]

/-- The command that a name stands for, in any letter case. -/
def ofName? (name : List Char) : Option Command :=
  all.find? fun command => Text.sameIgnoringCase name command.name.toList

end Command

end LayeredConfig
