/-
  A pool of allocated cells, kept in the order of a list that grows at its head.

  A cell is reached by its address.  An address is given out once: after `free` it denotes
  nothing, also when later cells are allocated, so a pointer kept past the free of its cell
  is visible as an address with `get = none`.

  `get_alloc`, `get_modify`, `get_free`, `get_sweep`: what each operation does to every
  address.  `find?_spec`, `find?_eq_none`, `find?_eq_of_unique`, `find?_modify`: lookups by a property.
  `Older`: a pool whose values at old addresses keep a key.
-/
import Mathlib.Data.List.Nodup
import Mathlib.Data.List.Infix
import Mathlib.Logic.Basic

universe u

/-- Allocated cells with their addresses, most recently allocated first. -/
structure Pool (α : Type u) where
  cells : List (ℕ × α)
  next : ℕ
  nodup : (cells.map Prod.fst).Nodup
  bound : ∀ a ∈ cells.map Prod.fst, a < next

namespace Pool
variable {α : Type u}

/-- The pool before any allocation. -/
def empty : Pool α := ⟨[], 0, List.nodup_nil, fun _ h => absurd h List.not_mem_nil⟩

/-- The addresses in use, in list order. -/
def addrs (p : Pool α) : List ℕ := p.cells.map Prod.fst

/-- The value at address `a`, if the address is in use. -/
def get (p : Pool α) (a : ℕ) : Option α := p.cells.lookup a

/-- A new cell at the head of the list; its address is `p.next`. -/
def alloc (p : Pool α) (v : α) : Pool α where
  cells := (p.next, v) :: p.cells
  next := p.next + 1
  nodup := by
    rw [List.map_cons, List.nodup_cons]
    exact ⟨fun h => absurd (p.bound _ h) (lt_irrefl _), p.nodup⟩
  bound a h := by
    rw [List.map_cons, List.mem_cons] at h
    rcases h with h | h
    · exact h ▸ Nat.lt_succ_self _
    · exact Nat.lt_succ_of_lt (p.bound a h)

/-- Visit every cell in place: `none` frees it, `some v` stores `v`. -/
def sweepCells (f : ℕ → α → Option α) (cs : List (ℕ × α)) : List (ℕ × α) :=
  cs.filterMap fun c => (f c.1 c.2).map fun v => (c.1, v)

theorem sweepCells_addrs (f : ℕ → α → Option α) (cs : List (ℕ × α)) :
    List.Sublist ((sweepCells f cs).map Prod.fst) (cs.map Prod.fst) := by
  induction cs with
  | nil => exact List.Sublist.refl _
  | cons c cs ih =>
    simp only [sweepCells, List.filterMap_cons]
    cases f c.1 c.2 with
    | none => exact ih.cons _
    | some v => exact ih.cons_cons _

def sweep (p : Pool α) (f : ℕ → α → Option α) : Pool α where
  cells := sweepCells f p.cells
  next := p.next
  nodup := p.nodup.sublist (sweepCells_addrs f p.cells)
  bound a h := p.bound a ((sweepCells_addrs f p.cells).subset h)

/-- Replace the value at `a`; nothing happens when `a` is not in use. -/
def modify (p : Pool α) (a : ℕ) (f : α → α) : Pool α :=
  p.sweep fun b v => some (if b = a then f v else v)

/-- Unlink and free the cell at `a`. -/
def free (p : Pool α) (a : ℕ) : Pool α :=
  p.sweep fun b v => if b = a then none else some v

/-- The address of the first cell whose value satisfies `q`. -/
def find? (p : Pool α) (q : α → Bool) : Option ℕ :=
  (p.cells.find? fun c => q c.2).map Prod.fst

/-! ## Lookups in the cell list -/

theorem mem_of_lookup_eq_some {cs : List (ℕ × α)} {a : ℕ} {v : α} (h : cs.lookup a = some v) :
    (a, v) ∈ cs := by
  obtain ⟨l₁, l₂, rfl, -⟩ := List.lookup_eq_some_iff.1 h
  simp

theorem lookup_cons_of_ne {b : ℕ} {w : α} {cs : List (ℕ × α)} {a : ℕ} (h : a ≠ b) :
    ((b, w) :: cs).lookup a = cs.lookup a := by
  rw [List.lookup_cons, beq_false_of_ne h]

theorem lookup_eq_some_of_mem {cs : List (ℕ × α)} (hn : (cs.map Prod.fst).Nodup) {a : ℕ} {v : α}
    (h : (a, v) ∈ cs) : cs.lookup a = some v := by
  induction cs with
  | nil => exact absurd h List.not_mem_nil
  | cons c cs ih =>
    obtain ⟨b, w⟩ := c
    rw [List.map_cons, List.nodup_cons] at hn
    rcases List.mem_cons.1 h with he | hm
    · obtain ⟨rfl, rfl⟩ := Prod.mk.injEq .. ▸ he
      exact List.lookup_cons_self
    · have hne : a ≠ b := by
        rintro rfl
        exact hn.1 (List.mem_map.2 ⟨_, hm, rfl⟩)
      rw [lookup_cons_of_ne hne, ih hn.2 hm]

theorem lookup_eq_none_of_notMem {cs : List (ℕ × α)} {a : ℕ} (h : a ∉ cs.map Prod.fst) :
    cs.lookup a = none := by
  cases hl : cs.lookup a with
  | none => rfl
  | some v => exact absurd (List.mem_map_of_mem (mem_of_lookup_eq_some hl)) h

theorem mem_cells_iff {p : Pool α} {a : ℕ} {v : α} : (a, v) ∈ p.cells ↔ p.get a = some v :=
  ⟨lookup_eq_some_of_mem p.nodup, mem_of_lookup_eq_some⟩

theorem mem_addrs_iff {p : Pool α} {a : ℕ} : a ∈ p.addrs ↔ (p.get a).isSome := by
  simp only [addrs, List.mem_map, Prod.exists, exists_and_right, exists_eq_right, mem_cells_iff,
    Option.isSome_iff_exists]

theorem lt_next {p : Pool α} {a : ℕ} {v : α} (h : p.get a = some v) : a < p.next :=
  p.bound a (List.mem_map_of_mem (mem_cells_iff.2 h))

@[simp] theorem get_next (p : Pool α) : p.get p.next = none := by
  cases h : p.get p.next with
  | none => rfl
  | some v => exact absurd (lt_next h) (lt_irrefl _)

/-! ## What each operation does to an address -/

@[simp] theorem get_empty (a : ℕ) : (empty : Pool α).get a = none := rfl

theorem get_alloc (p : Pool α) (v : α) (a : ℕ) :
    (p.alloc v).get a = if a = p.next then some v else p.get a := by
  by_cases h : a = p.next
  · subst h
    simp [get, alloc]
  · rw [if_neg h]
    exact lookup_cons_of_ne h

@[simp] theorem get_alloc_self (p : Pool α) (v : α) : (p.alloc v).get p.next = some v := by
  rw [get_alloc, if_pos rfl]

theorem get_alloc_of_some {p : Pool α} {v w : α} {a : ℕ} (h : p.get a = some w) :
    (p.alloc v).get a = some w := by
  rw [get_alloc, if_neg (Nat.ne_of_lt (lt_next h)), h]

@[simp] theorem next_alloc (p : Pool α) (v : α) : (p.alloc v).next = p.next + 1 := rfl

@[simp] theorem addrs_alloc (p : Pool α) (v : α) : (p.alloc v).addrs = p.next :: p.addrs := rfl

@[simp] theorem next_sweep (p : Pool α) (f : ℕ → α → Option α) : (p.sweep f).next = p.next := rfl

theorem lookup_sweepCells (f : ℕ → α → Option α) {cs : List (ℕ × α)}
    (hn : (cs.map Prod.fst).Nodup) (a : ℕ) :
    (sweepCells f cs).lookup a = (cs.lookup a).bind (f a) := by
  induction cs with
  | nil => rfl
  | cons c cs ih =>
    obtain ⟨b, w⟩ := c
    rw [List.map_cons, List.nodup_cons] at hn
    have ih := ih hn.2
    simp only [sweepCells, List.filterMap_cons] at ih ⊢
    by_cases hc : a = b
    · subst hc
      -- a freed cell leaves no second cell at its address
      have hnot : cs.lookup a = none := lookup_eq_none_of_notMem hn.1
      cases hf : f a w with
      | none => simp [ih, hnot, hf]
      | some v => simp [hf]
    · rw [lookup_cons_of_ne hc, ← ih]
      cases f b w with
      | none => rfl
      | some v => exact lookup_cons_of_ne hc

theorem get_sweep (p : Pool α) (f : ℕ → α → Option α) (a : ℕ) :
    (p.sweep f).get a = (p.get a).bind (f a) := lookup_sweepCells f p.nodup a

theorem get_modify (p : Pool α) (a : ℕ) (f : α → α) (b : ℕ) :
    (p.modify a f).get b = if b = a then (p.get b).map f else p.get b := by
  rw [modify, get_sweep]
  by_cases h : b = a <;> cases p.get b <;> simp [h]

@[simp] theorem get_modify_self (p : Pool α) (a : ℕ) (f : α → α) :
    (p.modify a f).get a = (p.get a).map f := by rw [get_modify, if_pos rfl]

theorem get_modify_of_ne {p : Pool α} {a b : ℕ} (h : b ≠ a) (f : α → α) :
    (p.modify a f).get b = p.get b := by rw [get_modify, if_neg h]

theorem get_free (p : Pool α) (a b : ℕ) :
    (p.free a).get b = if b = a then none else p.get b := by
  rw [free, get_sweep]
  by_cases h : b = a <;> cases p.get b <;> simp [h]

@[simp] theorem get_free_self (p : Pool α) (a : ℕ) : (p.free a).get a = none := by
  rw [get_free, if_pos rfl]

theorem get_free_of_ne {p : Pool α} {a b : ℕ} (h : b ≠ a) : (p.free a).get b = p.get b := by
  rw [get_free, if_neg h]

@[simp] theorem next_modify (p : Pool α) (a : ℕ) (f : α → α) : (p.modify a f).next = p.next := rfl

@[simp] theorem next_free (p : Pool α) (a : ℕ) : (p.free a).next = p.next := rfl

theorem isSome_modify (p : Pool α) (a : ℕ) (f : α → α) (b : ℕ) :
    ((p.modify a f).get b).isSome = (p.get b).isSome := by
  rw [get_modify]; split_ifs <;> simp

/-! ## Lookups by a property -/

theorem find?_spec {p : Pool α} {q : α → Bool} {a : ℕ} (h : p.find? q = some a) :
    ∃ v, p.get a = some v ∧ q v = true := by
  simp only [find?, Option.map_eq_some_iff] at h
  obtain ⟨⟨b, v⟩, hf, rfl⟩ := h
  exact ⟨v, mem_cells_iff.1 (List.mem_of_find?_eq_some hf), by simpa using List.find?_some hf⟩

theorem find?_eq_none {p : Pool α} {q : α → Bool} :
    p.find? q = none ↔ ∀ a v, p.get a = some v → q v = false := by
  simp only [find?, Option.map_eq_none_iff, List.find?_eq_none, Prod.forall, mem_cells_iff,
    Bool.not_eq_true]

/-- When at most one cell satisfies `q`, finding it does not depend on the list order. -/
theorem find?_eq_of_unique {p : Pool α} {q : α → Bool} {a : ℕ} {v : α} (h : p.get a = some v)
    (hq : q v = true) (hu : ∀ b w, p.get b = some w → q w = true → b = a) :
    p.find? q = some a := by
  cases hf : p.find? q with
  | none => exact absurd (find?_eq_none.1 hf a v h) (by simp [hq])
  | some b =>
    obtain ⟨w, hw, hqw⟩ := find?_spec hf
    rw [hu b w hw hqw]

/-- Rewriting a cell without touching what `q` looks at moves nothing `q` finds. -/
theorem find?_modify (p : Pool α) (a : ℕ) {f : α → α} {q : α → Bool} (h : ∀ v, q (f v) = q v) :
    (p.modify a f).find? q = p.find? q := by
  simp only [find?, modify, sweep, sweepCells]
  induction p.cells with
  | nil => rfl
  | cons c cs ih =>
    have hq : q (if c.1 = a then f c.2 else c.2) = q c.2 := by split_ifs <;> simp [h]
    simp only [List.filterMap_cons, Option.map_some, List.find?_cons, hq]
    cases q c.2 with
    | true => rfl
    | false => exact ih

theorem ext_cells {p p' : Pool α} (hc : p.cells = p'.cells) (hn : p.next = p'.next) : p = p' := by
  cases p
  cases p'
  simp only at hc hn
  subst hc hn
  rfl

/-- A rewrite depends only on what it does to the cell that is there. -/
theorem modify_congr {p : Pool α} {a : ℕ} {f g : α → α} (h : ∀ v, p.get a = some v → f v = g v) :
    p.modify a f = p.modify a g := by
  refine ext_cells ?_ rfl
  simp only [modify, sweep, sweepCells]
  refine List.filterMap_congr fun c hc => ?_
  split_ifs with he
  · subst he
    rw [h c.2 (mem_cells_iff.1 hc)]
  · rfl

/-- Nothing is rewritten at an address not in use. -/
theorem modify_of_none {p : Pool α} {a : ℕ} (h : p.get a = none) (f : α → α) :
    p.modify a f = p := by
  refine ext_cells ?_ rfl
  simp only [modify, sweep, sweepCells]
  refine (List.filterMap_congr fun c hc => ?_).trans List.filterMap_some
  have hne : c.1 ≠ a := by
    rintro rfl
    exact nomatch h.symm.trans (mem_cells_iff.1 hc)
  rw [if_neg hne, Option.map_some]

/-! ## Addresses over time -/

section Older
variable {β : Type u} {key : α → β} {p q r : Pool α}

/-- Every value of `q` at an address that `p` had given out was in `p`, with the same key. -/
structure Older (key : α → β) (p q : Pool α) : Prop where
  next : p.next ≤ q.next
  kept : ∀ a w, a < p.next → q.get a = some w → ∃ v, p.get a = some v ∧ key w = key v

theorem Older.refl (key : α → β) (p : Pool α) : p.Older key p :=
  ⟨le_refl _, fun _ w _ h => ⟨w, h, rfl⟩⟩

theorem Older.trans (h : p.Older key q) (h' : q.Older key r) : p.Older key r := by
  refine ⟨h.next.trans h'.next, fun a w ha hw => ?_⟩
  obtain ⟨v, hv, hk⟩ := h'.kept a w (ha.trans_le h.next) hw
  obtain ⟨u, hu, hk'⟩ := h.kept a v ha hv
  exact ⟨u, hu, hk.trans hk'⟩

theorem older_modify (p : Pool α) (a : ℕ) {f : α → α} (h : ∀ v, p.get a = some v → key (f v) = key v) :
    p.Older key (p.modify a f) := by
  refine ⟨le_refl _, fun b w _ hw => ?_⟩
  rw [get_modify] at hw
  split_ifs at hw with hb
  · subst hb
    obtain ⟨v, hv, rfl⟩ := Option.map_eq_some_iff.1 hw
    exact ⟨v, hv, h v hv⟩
  · exact ⟨w, hw, rfl⟩

theorem older_alloc (key : α → β) (p : Pool α) (v : α) : p.Older key (p.alloc v) := by
  refine ⟨Nat.le_succ _, fun a w ha hw => ?_⟩
  rw [get_alloc, if_neg (Nat.ne_of_lt ha)] at hw
  exact ⟨w, hw, rfl⟩

theorem older_free (key : α → β) (p : Pool α) (a : ℕ) : p.Older key (p.free a) := by
  refine ⟨le_refl _, fun b w _ hw => ?_⟩
  rw [get_free] at hw
  split_ifs at hw
  exact ⟨w, hw, rfl⟩

end Older

/-! ## Pools seen through a function -/

section Map
variable {β : Type u}

/-- The same cells with the values `f` makes of theirs. -/
def map (p : Pool α) (f : α → β) : Pool β where
  cells := p.cells.map fun c => (c.1, f c.2)
  next := p.next
  nodup := by
    rw [List.map_map]
    exact p.nodup
  bound a h := by
    rw [List.map_map] at h
    exact p.bound a h

theorem get_map (p : Pool α) (f : α → β) (a : ℕ) : (p.map f).get a = (p.get a).map f := by
  simp only [get, map]
  induction p.cells with
  | nil => rfl
  | cons c cs ih =>
    obtain ⟨b, v⟩ := c
    by_cases h : a = b
    · subst h
      rw [List.map_cons, List.lookup_cons_self, List.lookup_cons_self, Option.map_some]
    · rw [List.map_cons, lookup_cons_of_ne h, ih, lookup_cons_of_ne h]

theorem map_alloc (p : Pool α) (f : α → β) (v : α) : (p.alloc v).map f = (p.map f).alloc (f v) := rfl

theorem map_free (p : Pool α) (f : α → β) (a : ℕ) : (p.free a).map f = (p.map f).free a := by
  refine ext_cells ?_ rfl
  simp only [map, free, sweep, sweepCells, List.map_filterMap, List.filterMap_map]
  refine List.filterMap_congr fun c _ => ?_
  simp only [Function.comp_apply]
  split_ifs <;> rfl

/-- Rewriting a cell, seen through `f`, is the rewriting `g'` when `g` does to it what `g'` does. -/
theorem map_modify {p : Pool α} {f : α → β} {a : ℕ} {g : α → α} {g' : β → β}
    (h : ∀ v, p.get a = some v → f (g v) = g' (f v)) :
    (p.modify a g).map f = (p.map f).modify a g' := by
  refine ext_cells ?_ rfl
  simp only [map, modify, sweep, sweepCells, List.map_filterMap, List.filterMap_map]
  refine List.filterMap_congr fun c hc => ?_
  simp only [Function.comp_apply, Option.map_some]
  split_ifs with ha
  · rw [h c.2 (ha ▸ mem_cells_iff.1 hc)]
  · rfl

/-- A rewriting that `f` does not see. -/
theorem map_modify_eq {p : Pool α} {f : α → β} {a : ℕ} {g : α → α}
    (h : ∀ v, p.get a = some v → f (g v) = f v) : (p.modify a g).map f = p.map f := by
  refine ext_cells ?_ rfl
  simp only [map, modify, sweep, sweepCells, List.map_filterMap]
  rw [← List.filterMap_eq_map]
  refine List.filterMap_congr fun c hc => ?_
  simp only [Function.comp_apply, Option.map_some]
  split_ifs with ha
  · rw [h c.2 (ha ▸ mem_cells_iff.1 hc)]
  · rfl

theorem find?_map (p : Pool α) (f : α → β) (q : β → Bool) :
    (p.map f).find? q = p.find? fun v => q (f v) := by
  simp only [find?, map, List.find?_map, Option.map_map]
  rfl

end Map

end Pool
