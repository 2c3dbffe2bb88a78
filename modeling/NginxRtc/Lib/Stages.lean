/-
  Stages that a run works off one after the other.

  A stage waits for an event it accepts, and the stages before it come first.

  `left_eq_nil_iff`: a run completes the stages exactly if it has, in order, an event for each of them.
  `length_left_iff`: how many it completes.  `run_stages`: a machine whose steps are steps of its
  stages.
-/
import Mathlib.Data.List.Forall2
import NginxRtc.Lib.Run

namespace Stages

variable {ε σ : Type}

/-- What an event leaves of the stages. -/
def pass (e : ε) : List (ε → Bool) → List (ε → Bool)
  | [] => []
  | p :: ps => if p e then ps else p :: ps

/-- What a run leaves of the stages. -/
def left (ps : List (ε → Bool)) (es : List ε) : List (ε → Bool) := es.foldl (fun ps e => pass e ps) ps

/-- Some events of `es`, in their order, are accepted by the stages, in theirs. -/
abbrev Completes (ps : List (ε → Bool)) (es : List ε) : Prop :=
  List.SublistForall₂ (fun p e => p e = true) ps es

variable {p : ε → Bool} {ps : List (ε → Bool)} {e : ε} {es : List ε}

@[simp] theorem left_nil (ps : List (ε → Bool)) : left ps [] = ps := rfl

@[simp] theorem left_cons (ps : List (ε → Bool)) (e : ε) (es : List ε) :
    left ps (e :: es) = left (pass e ps) es := rfl

theorem completes_tail (h : Completes (p :: ps) es) : Completes ps es := by
  induction es with
  | nil => exact nomatch h
  | cons e es ih =>
    cases h with
    | cons _ h => exact .cons_right h
    | cons_right h => exact .cons_right (ih h)

/-- The first event a stage accepts may be taken for it. -/
theorem completes_cons_of_pos (h : p e = true) : Completes (p :: ps) (e :: es) ↔ Completes ps es := by
  refine ⟨fun hc => ?_, .cons h⟩
  cases hc with
  | cons _ hc => exact hc
  | cons_right hc => exact completes_tail hc

theorem completes_cons_of_neg (h : ¬ p e = true) :
    Completes (p :: ps) (e :: es) ↔ Completes (p :: ps) es := by
  refine ⟨fun hc => ?_, .cons_right⟩
  cases hc with
  | cons hp _ => exact absurd hp h
  | cons_right hc => exact hc

theorem length_pass_le (e : ε) (ps : List (ε → Bool)) : (pass e ps).length ≤ ps.length := by
  cases ps with
  | nil => exact Nat.le_refl 0
  | cons p ps =>
    rw [pass]
    split_ifs
    · exact Nat.le_succ _
    · exact Nat.le_refl _

theorem length_left_le (ps : List (ε → Bool)) (es : List ε) : (left ps es).length ≤ ps.length := by
  induction es generalizing ps with
  | nil => exact Nat.le_refl _
  | cons e es ih => exact Nat.le_trans (ih _) (length_pass_le e ps)

/-- **How far a run gets**: `k` stages are completed exactly if the events for them are there. -/
theorem length_left_iff {k : ℕ} (hk : k ≤ ps.length) :
    (left ps es).length + k ≤ ps.length ↔ Completes (ps.take k) es := by
  induction es generalizing ps k with
  | nil =>
    cases k with
    | zero => exact iff_of_true (Nat.le_refl _) .nil
    | succ k =>
      cases ps with
      | nil => exact nomatch hk
      | cons p ps =>
        refine iff_of_false (by simp) fun h => ?_
        cases h
  | cons e es ih =>
    rw [left_cons]
    cases k with
    | zero => exact iff_of_true (Nat.le_trans (length_left_le _ _) (length_pass_le e ps)) .nil
    | succ k =>
      cases ps with
      | nil => exact nomatch hk
      | cons p ps =>
        rw [pass, List.take_succ_cons]
        split_ifs with hp
        · rw [completes_cons_of_pos hp, ← ih (Nat.le_of_succ_le_succ hk), List.length_cons]
          omega
        · rw [completes_cons_of_neg hp, ← List.take_succ_cons, ← ih hk]

theorem left_eq_nil_iff : left ps es = [] ↔ Completes ps es := by
  have h : (left ps es).length + ps.length ≤ ps.length ↔ Completes (ps.take ps.length) es :=
    length_left_iff (Nat.le_refl _)
  rw [List.take_length] at h
  rw [← h, ← List.length_eq_zero_iff]
  omega

/-- A machine that has stages before it, as long as nothing `bad` happens. -/
theorem run_stages {step : σ → ε → σ} {todo : σ → List (ε → Bool)} {bad : ε → Prop}
    (hstep : ∀ s e, ¬ bad e → todo (step s e) = pass e (todo s)) {s : σ} {es : List ε}
    (h : ∀ e ∈ es, ¬ bad e) : todo (Lts.run step s es) = left (todo s) es := by
  induction es generalizing s with
  | nil => rfl
  | cons e es ih =>
    rw [Lts.run_cons, left_cons, ih fun e he => h e (List.mem_cons_of_mem _ he),
      hstep s e (h e List.mem_cons_self)]

end Stages
