/-!
# Settings of the compiler

## Main definitions

* `Settings` — what adjusts how references are resolved
-/

namespace LayeredConfig

/-- What adjusts how references are resolved. -/
structure Settings where
  /-- A path that ends in `*` without a `/` before it matches every key that
  begins with the rest; otherwise such a path is refused with a warning. -/
  legacyWildcard : Bool := true
  /-- How deep references may nest below a structure key; `none` leaves only the
  detection of cycles. -/
  depthLimit : Option Nat := none
  deriving DecidableEq, Repr

end LayeredConfig
