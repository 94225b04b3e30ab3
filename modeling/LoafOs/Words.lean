import Mathlib.Algebra.Group.Nat.Defs

/-!
# Fixed-width results
-/

namespace LoafOs

/-- A `uint32_t` result. -/
abbrev u32 (value : Nat) : Nat := value % 2 ^ 32

/-- A `uint16_t` result. -/
abbrev u16 (value : Nat) : Nat := value % 2 ^ 16

end LoafOs
