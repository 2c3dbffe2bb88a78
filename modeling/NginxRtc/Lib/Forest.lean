/-
  Forests given by parent pointers.

  Every node has at most one parent and the way up from a node ends.  `Up` is that way as data, so
  a loop that follows the pointers is a recursion on it; `path` lists the nodes it goes through.

  `IsLca s t a`: the common ancestors of `s` and `t` are the ancestors of `a`, where `none` stands
  for no common ancestor at all.  `isLca_lca`, `IsLca.unique`: there is exactly one such `a`.
  `lca_parent_left`, `lca_parent_right`: a node off the other one's path may be replaced by its
  parent, which is how an algorithm that climbs finds it.
-/
import Mathlib.Data.List.Find
import Mathlib.Data.List.Infix
import Mathlib.Data.List.Nodup
import Mathlib.Data.List.TakeWhile

universe u

/-- The way up from a pointer, ending in the null pointer. -/
inductive Up {σ : Type u} (parent : σ → Option σ) : Option σ → Type u
  | null : Up parent none
  | node (s : σ) (rest : Up parent (parent s)) : Up parent (some s)

/-- Nodes with parent pointers, each with its way up. -/
structure Forest (σ : Type u) where
  parent : σ → Option σ
  up : ∀ s, Up parent (some s)

theorem Up.unique {σ : Type u} {parent : σ → Option σ} {it : Option σ} (a b : Up parent it) :
    a = b := by
  induction a with
  | null => cases b; rfl
  | node s _ ih =>
    cases b with
    | node _ rest => rw [ih rest]

/-- The nodes on the way up. -/
def Up.path {σ : Type u} {parent : σ → Option σ} : {it : Option σ} → Up parent it → List σ
  | _, .null => []
  | _, .node s rest => s :: rest.path

namespace Forest
variable {σ : Type u} (F : Forest σ)

def upFrom : (it : Option σ) → Up F.parent it
  | none => .null
  | some s => F.up s

/-- A pointer's node, its parent, and so on to the root. -/
def path (it : Option σ) : List σ := (F.upFrom it).path

@[simp] theorem path_none : F.path none = [] := rfl

@[simp] theorem path_some (s : σ) : F.path (some s) = s :: F.path (F.parent s) := by
  rw [path, Up.unique (F.upFrom (some s)) (.node s (F.upFrom (F.parent s)))]
  rfl

variable {F} {s t a b : σ} {it jt : Option σ}

/-- Induction along the way up. -/
theorem up_induction {P : Option σ → Prop} (null : P none)
    (node : ∀ s, P (F.parent s) → P (some s)) (it : Option σ) : P it := by
  induction F.upFrom it with
  | null => exact null
  | node s _ ih => exact node s ih

/-! ## Ancestors -/

theorem path_suffix (h : a ∈ F.path it) : F.path (some a) <:+ F.path it := by
  induction it using F.up_induction with
  | null => cases h
  | node s ih =>
    rw [path_some, List.mem_cons] at h
    rcases h with rfl | h
    · exact List.suffix_rfl
    · rw [F.path_some s]
      exact (ih h).trans (List.suffix_cons s _)

theorem mem_path_self : s ∈ F.path (some s) := by simp

theorem mem_path_trans (hb : b ∈ F.path (some a)) (ha : a ∈ F.path it) : b ∈ F.path it :=
  (path_suffix ha).subset hb

/-- A node whose path is the longer one is not on the other path. -/
theorem not_mem_path (h : (F.path it).length < (F.path (some s)).length) : s ∉ F.path it :=
  fun hs => absurd (path_suffix hs).length_le (by omega)

theorem path_nodup (it : Option σ) : (F.path it).Nodup := by
  induction it using F.up_induction with
  | null => simp
  | node s ih =>
    rw [path_some, List.nodup_cons]
    exact ⟨not_mem_path (by simp), ih⟩

/-- Each of two nodes above the other: they are the same. -/
theorem path_antisymm (ha : a ∈ F.path (some b)) (hb : b ∈ F.path (some a)) : a = b := by
  have h := (path_suffix ha).eq_of_length
    (Nat.le_antisymm (path_suffix ha).length_le (path_suffix hb).length_le)
  simp only [path_some, List.cons.injEq] at h
  exact h.1

/-! ## The least common ancestor -/

/-- The common ancestors of the two are the ancestors of `a`. -/
def IsLca (F : Forest σ) (it jt a : Option σ) : Prop :=
  ∀ c, c ∈ F.path a ↔ c ∈ F.path it ∧ c ∈ F.path jt

theorem IsLca.unique {a b : Option σ} (ha : F.IsLca it jt a) (hb : F.IsLca it jt b) : a = b := by
  have h : ∀ c, c ∈ F.path a ↔ c ∈ F.path b := fun c => (ha c).trans (hb c).symm
  cases a with
  | none =>
    cases b with
    | none => rfl
    | some b => exact absurd ((h b).2 mem_path_self) (by simp)
  | some a =>
    cases b with
    | none => exact absurd ((h a).1 mem_path_self) (by simp)
    | some b => rw [path_antisymm ((h a).1 mem_path_self) ((h b).2 mem_path_self)]

variable [DecidableEq σ]

/-- The first node on the way up from `it` that is also on the way up from `jt`. -/
def lca (F : Forest σ) (it jt : Option σ) : Option σ := (F.path it).find? (· ∈ F.path jt)

theorem lca_none : F.lca none jt = none := rfl

theorem lca_of_mem (h : s ∈ F.path jt) : F.lca (some s) jt = some s := by simp [lca, h]

theorem lca_parent_left (h : s ∉ F.path jt) : F.lca (some s) jt = F.lca (F.parent s) jt := by
  simp [lca, h]

theorem lca_parent_right (h : t ∉ F.path it) : F.lca it (some t) = F.lca it (F.parent t) := by
  rw [lca, lca]
  refine List.find?_congr fun c hc => ?_
  have hne : c ≠ t := fun he => h (he ▸ hc)
  simp [hne]

theorem isLca_lca (it jt : Option σ) : F.IsLca it jt (F.lca it jt) := by
  induction it using F.up_induction with
  | null => intro c; simp [lca_none]
  | node s ih =>
    intro c
    by_cases hs : s ∈ F.path jt
    · rw [lca_of_mem hs]
      exact ⟨fun hc => ⟨hc, mem_path_trans hc hs⟩, fun hc => hc.1⟩
    · rw [lca_parent_left hs, ih c, path_some, List.mem_cons]
      have hne : c ∈ F.path jt → c ≠ s := fun hc he => hs (he ▸ hc)
      tauto

theorem IsLca.eq {a : Option σ} (h : F.IsLca it jt a) : F.lca it jt = a := (isLca_lca it jt).unique h

/-! ## The part of a path below a node -/

/-- The nodes on the way up that come before `a`; all of them when `a` is not among them. -/
def below (F : Forest σ) (a it : Option σ) : List σ := (F.path it).takeWhile (some · ≠ a)

@[simp] theorem below_none (a : Option σ) : F.below a none = [] := rfl

theorem below_self (s : σ) : F.below (some s) (some s) = [] := by simp [below]

theorem below_parent {a : Option σ} (h : some s ≠ a) :
    F.below a (some s) = s :: F.below a (F.parent s) := by simp [below, h]

theorem below_length_le (a it : Option σ) : (F.below a it).length ≤ (F.path it).length :=
  (List.takeWhile_prefix _).length_le

theorem below_nodup (a it : Option σ) : (F.below a it).Nodup :=
  (path_nodup it).sublist (List.takeWhile_sublist _)

end Forest
