/-
  Putting numbered things back in order.

  What arrived out of order waits until everything before it has come.  `front` is the first number
  that is missing, `waiting` whether anything beyond it is there, and `since` when the current wait
  began.

  `front_insert`, `front_lt_front_insert`: what an arrival does to the front.  `Prompt`: what a buffer
  with a window and a deadline can put up with.
-/
import Mathlib.Data.Finset.Card
import Mathlib.Data.Finset.Range
import NginxRtc.Lib.Run

namespace Reorder

variable {A : Finset ℕ} {i m : ℕ}

/-- The first number from `m` on that has not arrived, in `n` tries. -/
def search (A : Finset ℕ) : ℕ → ℕ → ℕ
  | 0, m => m
  | n + 1, m => if m ∈ A then search A n (m + 1) else m

/-- The first number that has not arrived. -/
def front (A : Finset ℕ) : ℕ := search A A.card 0

theorem search_spec (n : ℕ) (h : ∀ i < m, i ∈ A) :
    (∀ i < search A n m, i ∈ A) ∧ (search A n m ∉ A ∨ search A n m = m + n) := by
  induction n generalizing m with
  | zero => exact ⟨h, .inr rfl⟩
  | succ n ih =>
    by_cases hm : m ∈ A
    · have hnext : ∀ i < m + 1, i ∈ A := fun i hi =>
        (Nat.lt_succ_iff_lt_or_eq.1 hi).elim (h i) fun he => he ▸ hm
      rw [search, if_pos hm, show m + (n + 1) = m + 1 + n by omega]
      exact ih hnext
    · rw [search, if_neg hm]
      exact ⟨h, .inl hm⟩

theorem mem_of_lt_front (h : i < front A) : i ∈ A :=
  (search_spec A.card fun _ hi => absurd hi (Nat.not_lt_zero _)).1 i h

theorem front_notMem (A : Finset ℕ) : front A ∉ A := by
  obtain ⟨-, hn | hcard⟩ := @search_spec A 0 A.card fun _ hi => absurd hi (Nat.not_lt_zero _)
  · exact hn
  · -- one more than there are numbers
    intro hm
    have hsub : Finset.range (A.card + 1) ⊆ A := by
      intro i hi
      rw [Nat.zero_add] at hcard
      rcases Nat.lt_succ_iff_lt_or_eq.1 (Finset.mem_range.1 hi) with hlt | rfl
      · exact mem_of_lt_front (hlt.trans_eq hcard.symm)
      · exact hcard ▸ hm
    have hle := Finset.card_le_card hsub
    rw [Finset.card_range] at hle
    omega

theorem front_eq (hm : m ∉ A) (h : ∀ i < m, i ∈ A) : front A = m :=
  Nat.le_antisymm (Nat.le_of_not_lt fun hlt => hm (mem_of_lt_front hlt))
    (Nat.le_of_not_lt fun hlt => front_notMem A (h _ hlt))

theorem front_empty : front ∅ = 0 := front_eq (Finset.notMem_empty 0) fun i hi => absurd hi (Nat.not_lt_zero i)

theorem front_range (n : ℕ) : front (Finset.range n) = n :=
  front_eq Finset.notMem_range_self fun _ hi => Finset.mem_range.2 hi

/-- An arrival beyond the front leaves the front. -/
theorem front_insert (h : i ≠ front A) : front (insert i A) = front A := by
  refine front_eq (fun hm => ?_) fun k hk => Finset.mem_insert_of_mem (mem_of_lt_front hk)
  exact (Finset.mem_insert.1 hm).elim (fun hi => h hi.symm) (front_notMem A)

/-- The arrival everybody waits for moves the front. -/
theorem front_lt_front_insert (A : Finset ℕ) : front A < front (insert (front A) A) := by
  refine Nat.lt_of_not_le fun hle => front_notMem (insert (front A) A) ?_
  rcases Nat.eq_or_lt_of_le hle with he | hlt
  · rw [he]
    exact Finset.mem_insert_self _ _
  · exact Finset.mem_insert_of_mem (mem_of_lt_front hlt)

/-- Something has arrived that waits. -/
def Waiting (A : Finset ℕ) : Prop := ∃ i ∈ A, front A < i

instance (A : Finset ℕ) : Decidable (Waiting A) := inferInstanceAs (Decidable (∃ i ∈ A, _))

/-! ## Arrivals -/

/-- What has arrived, and since when something waits. -/
structure State where
  arrived : Finset ℕ
  since : Option ℕ

/-- Number `x.1` arrives at the time `x.2`. -/
def step (s : State) (x : ℕ × ℕ) : State where
  arrived := insert x.1 s.arrived
  since := if Waiting (insert x.1 s.arrived) then some (s.since.getD x.2) else none

/-- The arrival is less than `window` ahead of the front and at most `back` behind it; and if it is
    not behind and something waits after it, that began less than `timeout` ago. -/
structure Prompt (window back timeout : ℕ) (s : State) (x : ℕ × ℕ) : Prop where
  near : x.1 < front s.arrived + window
  recent : front s.arrived ≤ x.1 + back
  soon : front s.arrived ≤ x.1 → ∀ t ∈ (step s x).since, t ≤ x.2 ∧ x.2 < t + timeout

instance (window back timeout : ℕ) (s : State) (x : ℕ × ℕ) : Decidable (Prompt window back timeout s x) :=
  decidable_of_iff
    (x.1 < front s.arrived + window ∧ front s.arrived ≤ x.1 + back ∧
      (front s.arrived ≤ x.1 → ∀ t ∈ (step s x).since, t ≤ x.2 ∧ x.2 < t + timeout))
    ⟨fun ⟨h₁, h₂, h₃⟩ => ⟨h₁, h₂, h₃⟩, fun h => ⟨h.near, h.recent, h.soon⟩⟩

theorem front_le_front_insert (A : Finset ℕ) (i : ℕ) : front A ≤ front (insert i A) := by
  by_cases h : i = front A
  · rw [h]
    exact Nat.le_of_lt (front_lt_front_insert A)
  · exact Nat.le_of_eq (front_insert h).symm

/-- What has arrived stays less than the window ahead. -/
theorem near_insert {window : ℕ} (hA : ∀ k ∈ A, k < front A + window) (hi : i < front A + window) :
    ∀ k ∈ insert i A, k < front (insert i A) + window := by
  intro k hk
  have hle := Nat.add_le_add_right (front_le_front_insert A i) window
  rcases Finset.mem_insert.1 hk with rfl | hk
  · exact Nat.lt_of_lt_of_le hi hle
  · exact Nat.lt_of_lt_of_le (hA k hk) hle

variable {s : State} {x : ℕ × ℕ}

theorem since_of_waiting (h : Waiting (step s x).arrived) :
    (step s x).since = some (s.since.getD x.2) := if_pos h

theorem since_of_not_waiting (h : ¬Waiting (step s x).arrived) : (step s x).since = none := if_neg h

theorem since_isSome (s : State) (x : ℕ × ℕ) :
    (step s x).since.isSome ↔ Waiting (step s x).arrived := by
  by_cases h : Waiting (step s x).arrived
  · exact iff_of_true (by rw [since_of_waiting h]; rfl) h
  · exact iff_of_false (by rw [since_of_not_waiting h]; exact Bool.false_ne_true) h

theorem arrived_run (s : State) (xs : List (ℕ × ℕ)) :
    (Lts.run step s xs).arrived = s.arrived ∪ (xs.map Prod.fst).toFinset := by
  induction xs generalizing s with
  | nil => exact (Finset.union_empty _).symm
  | cons x xs ih =>
    rw [Lts.run_cons, ih, List.map_cons, List.toFinset_cons, Finset.union_insert]
    exact Finset.insert_union _ _ _

end Reorder
