import Mathlib.Algebra.Field.Defs
import Mathlib.Algebra.Order.Ring.Int

/-!
# Floating-point numbers

Where the rounding of a computation does not matter, its numbers are those of a field.
-/

/-- The numbers of a type `double` where they are computed with exactly. -/
abbrev ExactDouble (K : Type) := Field K
