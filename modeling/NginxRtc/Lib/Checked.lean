/-
  Unsigned arithmetic that notices when it goes wrong.

  An operation is `none` when its exact result does not fit the word, that is on overflow, on
  underflow and on a division by zero.  `add_exact` and its like: otherwise it is the exact result.
-/
import Mathlib.Algebra.Group.Nat.Defs
import Mathlib.Data.Nat.Basic

namespace Checked

def add (a b : UInt64) : Option UInt64 := if a.toNat + b.toNat < 2 ^ 64 then some (a + b) else none

def sub (a b : UInt64) : Option UInt64 := if b ≤ a then some (a - b) else none

def mul (a b : UInt64) : Option UInt64 := if a.toNat * b.toNat < 2 ^ 64 then some (a * b) else none

def div (a b : UInt64) : Option UInt64 := if b = 0 then none else some (a / b)

def add32 (a b : UInt32) : Option UInt32 := if a.toNat + b.toNat < 2 ^ 32 then some (a + b) else none

/-- The operation succeeds, with the result `n`. -/
def Yields (r : Option UInt64) (n : ℕ) : Prop := ∃ c, r = some c ∧ c.toNat = n

variable {a b : UInt64}

theorem add_exact (h : a.toNat + b.toNat < 2 ^ 64) : Yields (add a b) (a.toNat + b.toNat) :=
  ⟨a + b, if_pos h, by rw [UInt64.toNat_add, Nat.mod_eq_of_lt h]⟩

theorem sub_exact (h : b.toNat ≤ a.toNat) : Yields (sub a b) (a.toNat - b.toNat) :=
  ⟨a - b, if_pos (UInt64.le_iff_toNat_le.2 h), UInt64.toNat_sub_of_le a b (UInt64.le_iff_toNat_le.2 h)⟩

theorem mul_exact (h : a.toNat * b.toNat < 2 ^ 64) : Yields (mul a b) (a.toNat * b.toNat) :=
  ⟨a * b, if_pos h, by rw [UInt64.toNat_mul, Nat.mod_eq_of_lt h]⟩

theorem div_exact (h : 0 < b.toNat) : Yields (div a b) (a.toNat / b.toNat) := by
  have hne : b ≠ 0 := fun h0 => absurd h (by rw [h0]; exact Nat.lt_irrefl 0)
  exact ⟨a / b, if_neg hne, UInt64.toNat_div a b⟩

theorem add32_exact {a b : UInt32} (h : a.toNat + b.toNat < 2 ^ 32) : add32 a b = some (a + b) :=
  if_pos h

/-- One operation after another. -/
theorem Yields.bind {β : Type} {r : Option UInt64} {n : ℕ} (h : Yields r n) {f : UInt64 → Option β}
    {P : β → Prop} (hf : ∀ c, c.toNat = n → ∃ x, f c = some x ∧ P x) :
    ∃ x, r.bind f = some x ∧ P x := by
  obtain ⟨c, rfl, hc⟩ := h
  exact hf c hc

end Checked
