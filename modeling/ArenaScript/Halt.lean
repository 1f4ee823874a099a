/-!
# Halts

A script can fail in two ways.  Failures of the script itself are values of
the language and are described with the errors.  This module names the
remaining outcomes, after which an engine has no answer to give: an access
outside its memory, a chain of references that never ends, and an allowance of
steps that was used up.
-/

namespace ArenaScript

/-- Why a computation stopped without an answer. -/
inductive Halt where
  /-- An access outside the arena, a text or a stack. -/
  | fault
  /-- A chain of references was longer than the arena has room for, so it is cyclic. -/
  | endless
  /-- The allowance of steps was used up. -/
  | exhausted
deriving DecidableEq, Repr

end ArenaScript
