/-
  A window of consecutive positions in a circular list.

  Positions are free-running counters; the cell of position `x` is `x` modulo the number of
  cells.  `window d cells start n` lists the cells of the `n` positions from `start` on.

  `window_set_next`: writing the position right after a window that is not full extends the
  window by the written value.  `window_succ`: the first cell of a window, and the rest of it.
  `toNat_and_mask`, `toNat_add_mod`: a 64-bit counter that wraps, cut to its low bits by a mask,
  addresses the same cell as the unbounded one.
-/
import Mathlib.Data.List.Basic
import Mathlib.Data.Nat.ModEq

namespace Window

universe u
variable {α : Type u}

def window (d : α) (cells : List α) (start n : ℕ) : List α :=
  (List.range n).map fun i => cells.getD ((start + i) % cells.length) d

@[simp] theorem window_zero (d : α) (cells : List α) (start : ℕ) :
    window d cells start 0 = [] := rfl

@[simp] theorem length_window (d : α) (cells : List α) (start n : ℕ) :
    (window d cells start n).length = n := by simp [window]

/-- Positions less than one turn apart have different cells. -/
theorem slot_injective {c start i j : ℕ} (hi : i < c) (hj : j < c)
    (h : (start + i) % c = (start + j) % c) : i = j := by
  have h' : i ≡ j [MOD c] := Nat.ModEq.add_left_cancel' start h
  exact Nat.ModEq.eq_of_lt_of_lt h' hi hj

theorem window_succ (d : α) (cells : List α) (start n : ℕ) :
    window d cells start (n + 1) =
      cells.getD (start % cells.length) d :: window d cells (start + 1) n := by
  simp only [window, List.range_succ_eq_map, List.map_cons, List.map_map, Nat.add_zero]
  congr 1
  refine List.map_congr_left fun i _ => ?_
  simp only [Function.comp_apply, Nat.succ_eq_add_one, Nat.add_assoc, Nat.add_comm 1]

theorem window_set_next (d : α) {cells : List α} {start n : ℕ} (h : n < cells.length) (v : α) :
    window d (cells.set ((start + n) % cells.length) v) start (n + 1) =
      window d cells start n ++ [v] := by
  have hc : 0 < cells.length := Nat.zero_lt_of_lt h
  simp only [window, List.length_set, List.range_succ, List.map_append, List.map_singleton]
  congr 1
  · refine List.map_congr_left fun i hi => ?_
    have hin : i < n := List.mem_range.1 hi
    have hne : (start + n) % cells.length ≠ (start + i) % cells.length := fun he =>
      absurd (slot_injective h (hin.trans h) he) (Nat.ne_of_gt hin)
    simp only [List.getD_eq_getElem?_getD, List.getElem?_set_ne hne]
  · simp [List.getD_eq_getElem?_getD, Nat.mod_lt _ hc]

theorem window_congr_start (d : α) {cells : List α} {s t : ℕ}
    (h : s % cells.length = t % cells.length) (n : ℕ) :
    window d cells s n = window d cells t n :=
  List.map_congr_left fun i _ => by rw [Nat.add_mod, h, ← Nat.add_mod]

/-! ## Wrapping counters -/

theorem toNat_and_mask {m : UInt64} {k : ℕ} (hm : m.toNat = 2 ^ k - 1) (x : UInt64) :
    (x &&& m).toNat = x.toNat % 2 ^ k := by
  rw [UInt64.toNat_and, hm, Nat.and_two_pow_sub_one_eq_mod]

theorem toNat_add_mod {k : ℕ} (hk : k ≤ 64) (x y : UInt64) :
    (x + y).toNat % 2 ^ k = (x.toNat + y.toNat) % 2 ^ k := by
  rw [UInt64.toNat_add, Nat.mod_mod_of_dvd _ (Nat.pow_dvd_pow 2 hk)]

/-- The write position of a ring is its read position plus the number of cells in between. -/
theorem toNat_mod_eq_add_sub {k : ℕ} (hk : k ≤ 64) (x y : UInt64) :
    x.toNat % 2 ^ k = (y.toNat + (x - y).toNat) % 2 ^ k := by
  have h : y + (x - y) = x := by rw [UInt64.add_comm, UInt64.sub_add_cancel]
  rw [← toNat_add_mod hk, h]

end Window
