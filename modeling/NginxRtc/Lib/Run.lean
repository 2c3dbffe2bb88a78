/-
  Runs of a step function.

  A run is the list of its events; `run step s es` is the state after it.  `Along` says that a
  guard holds at every step of the run, `Visits` that a property holds in every state of it.

  `visits_of_step`: an invariant kept by every guarded step holds in every state of a run whose
  steps all satisfy the guard.  `visits_iff_along`: when, in a good state, a step leads to a good
  state exactly if the guard holds, a run stays good exactly if its steps all satisfy the guard.
  `Reachable.induction`: invariants of reachable states.
-/
import Mathlib.Data.List.Basic
import Mathlib.Logic.Basic

namespace Lts

universe u v
variable {σ : Type u} {ε : Type v}

/-- The state after the events `es`. -/
def run (step : σ → ε → σ) (s : σ) (es : List ε) : σ := es.foldl step s

/-- `G` holds of each event and the state it happens in. -/
def Along (step : σ → ε → σ) (G : σ → ε → Prop) : σ → List ε → Prop
  | _, [] => True
  | s, e :: es => G s e ∧ Along step G (step s e) es

/-- `P` holds in the first state and in every later one. -/
def Visits (step : σ → ε → σ) (P : σ → Prop) : σ → List ε → Prop
  | s, [] => P s
  | s, e :: es => P s ∧ Visits step P (step s e) es

/-- What the events of a run put out, one after the other. -/
def outputs {β : Type v} (step : σ → ε → σ) (out : σ → ε → List β) : σ → List ε → List β
  | _, [] => []
  | s, e :: es => out s e ++ outputs step out (step s e) es

/-- The states some run from `s₀` ends in. -/
def Reachable (step : σ → ε → σ) (s₀ s : σ) : Prop := ∃ es, run step s₀ es = s

variable {step : σ → ε → σ}

@[simp] theorem run_nil (s : σ) : run step s [] = s := rfl

@[simp] theorem run_cons (s : σ) (e : ε) (es : List ε) :
    run step s (e :: es) = run step (step s e) es := rfl

theorem run_append (s : σ) (es es' : List ε) :
    run step s (es ++ es') = run step (run step s es) es' := List.foldl_append

instance Along.instDecidable (G : σ → ε → Prop) [∀ s e, Decidable (G s e)] :
    ∀ (s : σ) (es : List ε), Decidable (Along step G s es)
  | _, [] => instDecidableTrue
  | s, e :: es =>
    have := Along.instDecidable G (step s e) es
    inferInstanceAs (Decidable (G s e ∧ Along step G (step s e) es))

theorem along_append {G : σ → ε → Prop} {s : σ} {es es' : List ε} :
    Along step G s (es ++ es') ↔ Along step G s es ∧ Along step G (run step s es) es' := by
  induction es generalizing s with
  | nil => simp [Along]
  | cons e es ih => simp only [List.cons_append, Along, ih, run_cons, and_assoc]

theorem along_true (s : σ) (es : List ε) : Along step (fun _ _ => True) s es := by
  induction es generalizing s with
  | nil => trivial
  | cons e es ih => exact ⟨trivial, ih _⟩

theorem Along.mono {G G' : σ → ε → Prop} (h : ∀ s e, G s e → G' s e) {s : σ} {es : List ε}
    (ha : Along step G s es) : Along step G' s es := by
  induction es generalizing s with
  | nil => trivial
  | cons e es ih => exact ⟨h _ _ ha.1, ih ha.2⟩

theorem Along.and {G G' : σ → ε → Prop} {s : σ} {es : List ε} (h : Along step G s es)
    (h' : Along step G' s es) : Along step (fun s e => G s e ∧ G' s e) s es := by
  induction es generalizing s with
  | nil => trivial
  | cons e es ih => exact ⟨⟨h.1, h'.1⟩, ih h.2 h'.2⟩

theorem Visits.head {P : σ → Prop} {s : σ} {es : List ε} (h : Visits step P s es) : P s := by
  cases es with
  | nil => exact h
  | cons e es => exact h.1

theorem Visits.last {P : σ → Prop} {s : σ} {es : List ε} (h : Visits step P s es) :
    P (run step s es) := by
  induction es generalizing s with
  | nil => exact h
  | cons e es ih => exact ih h.2

theorem Visits.mono {P Q : σ → Prop} (h : ∀ s, P s → Q s) {s : σ} {es : List ε}
    (hv : Visits step P s es) : Visits step Q s es := by
  induction es generalizing s with
  | nil => exact h _ hv
  | cons e es ih => exact ⟨h _ hv.1, ih hv.2⟩

/-- An invariant kept by every step that satisfies the guard. -/
theorem visits_of_step {P : σ → Prop} {G : σ → ε → Prop}
    (hstep : ∀ s e, P s → G s e → P (step s e)) {s : σ} (hs : P s) {es : List ε}
    (ha : Along step G s es) : Visits step P s es := by
  induction es generalizing s with
  | nil => exact hs
  | cons e es ih => exact ⟨hs, ih (hstep s e hs ha.1) ha.2⟩

/-- What an invariant says of each step of a guarded run. -/
theorem along_of_step {P : σ → Prop} {G Q : σ → ε → Prop}
    (hstep : ∀ s e, P s → G s e → P (step s e)) (hq : ∀ s e, P s → G s e → Q s e) {s : σ}
    (hs : P s) {es : List ε} (ha : Along step G s es) : Along step Q s es := by
  induction es generalizing s with
  | nil => trivial
  | cons e es ih => exact ⟨hq s e hs ha.1, ih (hstep s e hs ha.1) ha.2⟩

/-- Two properties of a step that agree under an invariant agree along every guarded run. -/
theorem along_iff_of_step {P : σ → Prop} {G Q Q' : σ → ε → Prop}
    (hstep : ∀ s e, P s → G s e → P (step s e)) (hq : ∀ s e, P s → G s e → (Q s e ↔ Q' s e))
    {s : σ} (hs : P s) {es : List ε} (ha : Along step G s es) :
    Along step Q s es ↔ Along step Q' s es := by
  induction es generalizing s with
  | nil => exact Iff.rfl
  | cons e es ih => exact and_congr (hq s e hs ha.1) (ih (hstep s e hs ha.1) ha.2)

/-- A property of a step that, under an invariant, holds exactly if the guard does; the guarded steps
    keep the invariant. -/
theorem along_iff_guard {P : σ → Prop} {G Q : σ → ε → Prop}
    (hstep : ∀ s e, P s → G s e → P (step s e)) (hq : ∀ s e, P s → (Q s e ↔ G s e)) {s : σ}
    (hs : P s) {es : List ε} : Along step Q s es ↔ Along step G s es := by
  induction es generalizing s with
  | nil => exact Iff.rfl
  | cons e es ih =>
    constructor
    · rintro ⟨hhead, htail⟩
      have hg := (hq s e hs).1 hhead
      exact ⟨hg, (ih (hstep s e hs hg)).1 htail⟩
    · rintro ⟨hg, htail⟩
      exact ⟨(hq s e hs).2 hg, (ih (hstep s e hs hg)).2 htail⟩

theorem run_of_step {P : σ → Prop} {G : σ → ε → Prop}
    (hstep : ∀ s e, P s → G s e → P (step s e)) {s : σ} (hs : P s) {es : List ε}
    (ha : Along step G s es) : P (run step s es) :=
  (visits_of_step hstep hs ha).last

/-- A side invariant `I` that every step keeps, and a property `P` that a step keeps exactly when
    its guard holds. -/
theorem visits_iff_along {I P : σ → Prop} {G : σ → ε → Prop} (hI : ∀ s e, I s → I (step s e))
    (hstep : ∀ s e, I s → P s → (P (step s e) ↔ G s e)) {s : σ} (hi : I s) (hs : P s)
    {es : List ε} : Visits step P s es ↔ Along step G s es := by
  induction es generalizing s with
  | nil => exact ⟨fun _ => trivial, fun _ => hs⟩
  | cons e es ih =>
    constructor
    · rintro ⟨-, hv⟩
      have hp : P (step s e) := hv.head
      exact ⟨(hstep s e hi hs).1 hp, (ih (hI s e hi) hp).1 hv⟩
    · rintro ⟨hg, ha⟩
      have hp : P (step s e) := (hstep s e hi hs).2 hg
      exact ⟨hs, (ih (hI s e hi) hp).2 ha⟩

theorem Reachable.refl (s : σ) : Reachable step s s := ⟨[], rfl⟩

theorem Reachable.next {s₀ s : σ} (h : Reachable step s₀ s) (e : ε) :
    Reachable step s₀ (step s e) := by
  obtain ⟨es, rfl⟩ := h
  exact ⟨es ++ [e], by rw [run_append]; rfl⟩

/-- Invariants of reachable states. -/
theorem Reachable.induction {P : σ → Prop} {s₀ : σ} (h₀ : P s₀)
    (hstep : ∀ s e, P s → P (step s e)) {s : σ} (h : Reachable step s₀ s) : P s := by
  obtain ⟨es, rfl⟩ := h
  have hs : ∀ s e, P s → True → P (step s e) := fun s e hs _ => hstep s e hs
  exact run_of_step hs h₀ (along_true s₀ es)

end Lts
