/-
  A gate that lets a request through unless one went through less than `gap` before.

  Requests come with their time, and whether anything can be done about them.  `Kept.ask`: what went
  through is `gap` apart, and every request that could be met was, or comes less than `gap` after one
  that was.
-/
import Mathlib.Data.List.Chain

namespace Throttle

/-- The times of the requests that went through, after one more. -/
def ask (gap : ℕ) (log : List ℕ) (t : ℕ) (able : Bool) : List ℕ :=
  if able ∧ ∀ l ∈ log.getLast?, l + gap ≤ t then log ++ [t] else log

structure Kept (gap : ℕ) (asks : List (ℕ × Bool)) (log : List ℕ) : Prop where
  spaced : log.Pairwise fun s t => s + gap ≤ t
  served : ∀ t, (t, true) ∈ asks → ∃ s ∈ log, s ≤ t ∧ t < s + gap
  asked : ∀ s ∈ log, (s, true) ∈ asks

variable {gap : ℕ} {asks : List (ℕ × Bool)} {log : List ℕ}

theorem Kept.nil : Kept gap [] [] :=
  ⟨.nil, fun _ h => absurd h List.not_mem_nil, fun _ h => absurd h List.not_mem_nil⟩

/-- Whatever is behind the last time is behind all of them. -/
theorem Kept.behind (h : Kept gap asks log) {t : ℕ} (ht : ∀ l ∈ log.getLast?, l + gap ≤ t) :
    ∀ s ∈ log, s + gap ≤ t := by
  intro s hs
  induction log using List.reverseRecOn with
  | nil => exact absurd hs List.not_mem_nil
  | append_singleton log l _ =>
    have hl := ht l (by rw [List.getLast?_concat]; rfl)
    rcases List.mem_append.1 hs with hs | hs
    · have hsl := (List.pairwise_append.1 h.spaced).2.2 s hs l (List.mem_singleton_self l)
      omega
    · rw [List.mem_singleton.1 hs]
      exact hl

/-- **One more request**, later than what went through. -/
theorem Kept.ask (h : Kept gap asks log) (hgap : 0 < gap) {t : ℕ} (ht : ∀ s ∈ log, s ≤ t)
    (able : Bool) : Kept gap (asks ++ [(t, able)]) (ask gap log t able) := by
  rw [Throttle.ask]
  split_ifs with hpass
  · obtain ⟨rfl, hlast⟩ := hpass
    refine ⟨?_, fun s hs => ?_, fun s hs => ?_⟩
    · refine List.pairwise_append.2 ⟨h.spaced, List.pairwise_singleton _ _, fun s hs u hu => ?_⟩
      rw [List.mem_singleton.1 hu]
      exact h.behind hlast s hs
    · rcases List.mem_append.1 hs with hs | hs
      · obtain ⟨u, hu, hle⟩ := h.served s hs
        exact ⟨u, List.mem_append_left _ hu, hle⟩
      · obtain rfl := (Prod.mk.inj (List.mem_singleton.1 hs)).1
        exact ⟨s, List.mem_append_right _ (List.mem_singleton_self s), le_refl s, by omega⟩
    · rcases List.mem_append.1 hs with hs | hs
      · exact List.mem_append_left _ (h.asked s hs)
      · rw [List.mem_singleton.1 hs]
        exact List.mem_append_right _ (List.mem_singleton_self _)
  · refine ⟨h.spaced, fun s hs => ?_, fun s hs => List.mem_append_left _ (h.asked s hs)⟩
    rcases List.mem_append.1 hs with hs | hs
    · exact h.served s hs
    · obtain ⟨rfl, rfl⟩ := Prod.mk.inj (List.mem_singleton.1 hs)
      -- it was held back by one that came less than `gap` before
      have hlate : ∃ l ∈ log.getLast?, s < l + gap := by
        by_contra hnone
        refine hpass ⟨rfl, fun l hl => ?_⟩
        by_contra hlt
        exact hnone ⟨l, hl, by omega⟩
      obtain ⟨l, hl, hlt⟩ := hlate
      have hmem := List.mem_of_getLast? hl
      exact ⟨l, hmem, ht l hmem, hlt⟩

end Throttle
