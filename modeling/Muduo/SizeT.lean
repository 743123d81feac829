import Mathlib.Algebra.Group.Nat.Defs
import Mathlib.Data.List.Basic

/-!
# Machine sizes, and calls that do not return

`size_t` values are naturals below `2 ^ 64`; sums and differences wrap, as the code's do. A call
either returns or ends in a `Fault`.
-/

namespace Muduo

/-- `size_t` addition. -/
def addSize (a b : Nat) : Nat := (a + b) % 2 ^ 64

/-- `size_t` subtraction. -/
def subSize (a b : Nat) : Nat := (2 ^ 64 + a - b) % 2 ^ 64

/-- `std::vector<char>::max_size()`. -/
def maxSize : Nat := 2 ^ 63 - 1

theorem addSize_eq {a b : Nat} (h : a + b ≤ maxSize) : addSize a b = a + b := by
  simp only [addSize, maxSize] at *; omega

theorem subSize_eq {a b : Nat} (hb : b ≤ a) (ha : a ≤ maxSize) : subSize a b = a - b := by
  simp only [subSize, maxSize] at *; omega

/-- How a call can end other than by returning. -/
inductive Fault
  /-- `std::length_error`, thrown by a vector asked for more than `maxSize` elements. -/
  | lengthError
  /-- An access outside the vector or the source block: undefined behaviour. -/
  | outOfBounds
  /-- `LOG_FATAL`, which calls `exit(-1)`. -/
  | fatal
deriving DecidableEq, Repr

theorem toOption_eq_some {ε α : Type} {x : Except ε α} {a : α} :
    x.toOption = some a ↔ x = .ok a := by
  cases x <;> simp [Except.toOption]

theorem bind_eq_ok {ε α β : Type} {x : Except ε α} {f : α → Except ε β} {b : β} :
    (x >>= f) = .ok b ↔ ∃ a, x = .ok a ∧ f a = .ok b := by
  cases x <;> simp [bind, Except.bind]

theorem map_eq_ok {ε α β : Type} {x : Except ε α} {f : α → β} {y : β} :
    x.map f = .ok y ↔ ∃ a, x = .ok a ∧ f a = y := by
  cases x <;> simp [Except.map]

theorem map_eq_error {ε α β : Type} {x : Except ε α} {f : α → β} {e : ε} :
    x.map f = .error e ↔ x = .error e := by
  cases x <;> simp [Except.map]

end Muduo
