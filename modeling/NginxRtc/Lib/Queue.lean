/-
  Intrusive queues: circular doubly linked lists whose links sit in the nodes themselves.

  A queue is known by its head, a node of its own; the empty queue is a head linked to itself, and
  so is a node that stands on no queue.  `IsQueue m h xs` says that the links of `m` from the head
  `h` spell out the list `xs`, forwards and backwards.

  `isQueue_insertHead`, `isQueue_remove`: what the two operations do to a queue.  `links_insertHead`,
  `links_remove`: they leave every other node alone.  `IsQueue.unique`: the links determine the
  list.
-/
import Mathlib.Data.List.Nodup
import Mathlib.Logic.Function.Basic

universe u

/-- The links of all nodes; a null pointer is `none`. -/
structure QueueMem (α : Type u) where
  next : α → Option α
  prev : α → Option α

namespace QueueMem
variable {α : Type u}

/-! ## Operations -/

section Operations
variable [DecidableEq α]

/-- No node was ever linked. -/
def zeroed : QueueMem α := ⟨fun _ => none, fun _ => none⟩

def setNext (m : QueueMem α) (a : α) (v : Option α) : QueueMem α :=
  { m with next := Function.update m.next a v }

def setPrev (m : QueueMem α) (a : α) (v : Option α) : QueueMem α :=
  { m with prev := Function.update m.prev a v }

/-- Link a node to itself. -/
def init (m : QueueMem α) (q : α) : QueueMem α := (m.setPrev q (some q)).setNext q (some q)

/-- Nothing stands on the queue of `h`. -/
def empty (m : QueueMem α) (h : α) : Bool := m.next h = some h

/-- The first node after `a`, if there is one, points back to `v`. -/
def setPrevOfNext (m : QueueMem α) (a : α) (v : Option α) : QueueMem α :=
  (m.next a).elim m fun y => m.setPrev y v

/-- Link `x` in behind the head `h`. -/
def insertHead (m : QueueMem α) (h x : α) : QueueMem α :=
  (((m.setNext x (m.next h)).setPrevOfNext x (some x)).setPrev x (some h)).setNext h (some x)

/-- Link the neighbours of `x` to each other.  The links of `x` stay as they are. -/
def remove (m : QueueMem α) (x : α) : QueueMem α :=
  ((m.setPrevOfNext x (m.prev x)).prev x).elim (m.setPrevOfNext x (m.prev x)) fun y =>
    (m.setPrevOfNext x (m.prev x)).setNext y (m.next x)

/-- The first node of a queue, if there is one. -/
def first (m : QueueMem α) (h : α) : Option α := if m.empty h then none else m.next h

/-- The node after `x`, unless that is the head. -/
def after (m : QueueMem α) (h x : α) : Option α :=
  (m.next x).bind fun y => if y = h then none else some y

/-- The nodes met from `x` on, in `n` steps. -/
def walk (m : QueueMem α) (h : α) : ℕ → Option α → List α
  | n + 1, some x => x :: m.walk h n (m.after h x)
  | _, _ => []

/-! ## The links after an operation -/

theorem init_next (m : QueueMem α) (q c : α) :
    (m.init q).next c = if c = q then some q else m.next c := by
  simp only [init, setNext, setPrev, Function.update_apply]

theorem init_prev (m : QueueMem α) (q c : α) :
    (m.init q).prev c = if c = q then some q else m.prev c := by
  simp only [init, setNext, setPrev, Function.update_apply]

theorem setPrevOfNext_next (m : QueueMem α) (a : α) (v : Option α) :
    (m.setPrevOfNext a v).next = m.next := by
  unfold setPrevOfNext
  cases m.next a <;> rfl

theorem setPrevOfNext_prev (m : QueueMem α) (a : α) (v : Option α) (c : α) :
    (m.setPrevOfNext a v).prev c = if m.next a = some c then v else m.prev c := by
  unfold setPrevOfNext
  cases hn : m.next a with
  | none => simp
  | some y => simp only [Option.elim_some, setPrev, Function.update_apply, Option.some.injEq,
      eq_comm]

theorem insertHead_next (m : QueueMem α) (h x c : α) :
    (m.insertHead h x).next c = if c = h then some x else if c = x then m.next h else m.next c := by
  simp only [insertHead, setNext, setPrev, setPrevOfNext_next, Function.update_apply]

theorem insertHead_prev (m : QueueMem α) (h x c : α) :
    (m.insertHead h x).prev c =
      if c = x then some h else if m.next h = some c then some x else m.prev c := by
  simp only [insertHead, setNext, setPrev, Function.update_apply, setPrevOfNext_prev, if_true]

theorem remove_prev (m : QueueMem α) (x c : α) :
    (m.remove x).prev c = if m.next x = some c then m.prev x else m.prev c := by
  unfold remove
  cases (m.setPrevOfNext x (m.prev x)).prev x <;> exact setPrevOfNext_prev m x _ c

theorem remove_next (m : QueueMem α) (x c : α) :
    (m.remove x).next c = if m.prev x = some c then m.next x else m.next c := by
  have hprev : (m.setPrevOfNext x (m.prev x)).prev x = m.prev x := by
    rw [setPrevOfNext_prev, ite_self]
  unfold remove
  rw [hprev]
  cases m.prev x with
  | none => simp [setPrevOfNext_next]
  | some y =>
    simp only [Option.elim_some, setNext, Function.update_apply, setPrevOfNext_next,
      Option.some.injEq, eq_comm]

end Operations

/-! ## Paths -/

/-- The links lead from `a` over the nodes `xs` to `b`, and back. -/
def Path (m : QueueMem α) : α → List α → α → Prop
  | a, [], b => m.next a = some b ∧ m.prev b = some a
  | a, x :: xs, b => m.next a = some x ∧ m.prev x = some a ∧ Path m x xs b

variable {m m' : QueueMem α} {a b h x : α} {xs ys : List α}

theorem Path.congr (hp : m.Path a xs b) (hnext : ∀ c ∈ a :: xs, m'.next c = m.next c)
    (hprev : ∀ c ∈ xs ++ [b], m'.prev c = m.prev c) : m'.Path a xs b := by
  induction xs generalizing a with
  | nil =>
    obtain ⟨hn, hb⟩ := hp
    exact ⟨(hnext a (by simp)).trans hn, (hprev b (by simp)).trans hb⟩
  | cons x xs ih =>
    obtain ⟨hn, hx, hp⟩ := hp
    refine ⟨(hnext a (by simp)).trans hn, (hprev x (by simp)).trans hx, ih hp ?_ ?_⟩
    · exact fun c hc => hnext c (List.mem_cons_of_mem _ hc)
    · exact fun c hc => hprev c (List.mem_cons_of_mem _ hc)

theorem path_append {l r : List α} :
    m.Path a (l ++ x :: r) b ↔ m.Path a l x ∧ m.Path x r b := by
  induction l generalizing a with
  | nil => simp only [List.nil_append, Path, and_assoc]
  | cons y l ih => simp only [List.cons_append, Path, ih, and_assoc]

/-- The node a path ends in points back into the path. -/
theorem Path.last (hp : m.Path a xs b) : ∃ p ∈ a :: xs, m.prev b = some p := by
  induction xs generalizing a with
  | nil => exact ⟨a, by simp, hp.2⟩
  | cons x xs ih =>
    obtain ⟨p, hmem, hprev⟩ := ih hp.2.2
    exact ⟨p, List.mem_cons_of_mem _ hmem, hprev⟩

/-- The node a path starts from points forward into the path. -/
theorem Path.first (hp : m.Path a xs b) : ∃ n ∈ xs ++ [b], m.next a = some n := by
  cases xs with
  | nil => exact ⟨b, by simp, hp.1⟩
  | cons x xs => exact ⟨x, by simp, hp.1⟩

theorem Path.unique (hx : m.Path a xs b) (hy : m.Path a ys b) (hbx : b ∉ xs) (hby : b ∉ ys) :
    xs = ys := by
  induction xs generalizing a ys with
  | nil =>
    cases ys with
    | nil => rfl
    | cons y ys =>
      obtain rfl : b = y := Option.some.inj (hx.1.symm.trans hy.1)
      exact absurd List.mem_cons_self hby
  | cons x xs ih =>
    cases ys with
    | nil =>
      obtain rfl : x = b := Option.some.inj (hx.1.symm.trans hy.1)
      exact absurd List.mem_cons_self hbx
    | cons y ys =>
      obtain rfl : x = y := Option.some.inj (hx.1.symm.trans hy.1)
      rw [ih hx.2.2 hy.2.2 (fun hm => hbx (List.mem_cons_of_mem _ hm))
        fun hm => hby (List.mem_cons_of_mem _ hm)]

/-- Taking `x` out of a path joins its two sides. -/
theorem Path.remove [DecidableEq α] {l r : List α} (hl : m.Path a l x) (hr : m.Path x r b)
    (hnd : (l ++ x :: r).Nodup) (ha : a ∉ l ++ x :: r) (hb : b ∉ l ++ x :: r) :
    (m.remove x).Path a (l ++ r) b := by
  obtain ⟨n, hn, hnext⟩ := hr.first
  induction l generalizing a with
  | nil =>
    obtain ⟨hax, hxa⟩ := hl
    rw [List.nil_append] at hnd ha hb ⊢
    have hfree : ∀ c ∈ r, (m.remove x).next c = m.next c := by
      intro c hc
      rw [remove_next, hxa, if_neg]
      rintro ⟨⟩
      exact ha (List.mem_cons_of_mem _ hc)
    have hback : ∀ c, m.next x ≠ some c → (m.remove x).prev c = m.prev c := fun c hc => by
      rw [remove_prev, if_neg hc]
    cases r with
    | nil =>
      refine ⟨?_, ?_⟩
      · rw [remove_next, hxa, if_pos rfl, hr.1]
      · rw [remove_prev, if_pos hr.1, hxa]
    | cons y r =>
      obtain ⟨hxy, -, hyb⟩ := hr
      refine ⟨?_, ?_, hyb.congr hfree fun c hc => hback c ?_⟩
      · rw [remove_next, hxa, if_pos rfl, hxy]
      · rw [remove_prev, if_pos hxy, hxa]
      · rw [hxy]
        rintro ⟨⟩
        rw [List.mem_append, List.mem_singleton] at hc
        rcases hc with hc | rfl
        · exact (List.nodup_cons.1 (List.nodup_cons.1 hnd).2).1 hc
        · exact hb (by simp)
  | cons y l ih =>
    obtain ⟨hay, hya, hyx⟩ := hl
    rw [List.cons_append] at hnd ha hb
    obtain ⟨hy, hnd⟩ := List.nodup_cons.1 hnd
    obtain ⟨p, hp, hprev⟩ := hyx.last
    refine ⟨?_, ?_, ih hyx hnd hy fun hm => hb (List.mem_cons_of_mem _ hm)⟩
    · rw [remove_next, hprev, if_neg, hay]
      rintro ⟨⟩
      refine ha ?_
      rcases List.mem_cons.1 hp with rfl | hp
      · exact List.mem_cons_self
      · exact List.mem_cons_of_mem _ (List.mem_append_left _ hp)
    · rw [remove_prev, hnext, if_neg, hya]
      rintro ⟨⟩
      rw [List.mem_append, List.mem_singleton] at hn
      rcases hn with hn | rfl
      · exact hy (List.mem_append_right _ (List.mem_cons_of_mem _ hn))
      · exact hb List.mem_cons_self

/-! ## Queues -/

/-- The queue of the head `h` holds the nodes `xs`, first one first. -/
structure IsQueue (m : QueueMem α) (h : α) (xs : List α) : Prop where
  nodup : (h :: xs).Nodup
  path : m.Path h xs h

namespace IsQueue

theorem head_notMem (hq : m.IsQueue h xs) : h ∉ xs := (List.nodup_cons.1 hq.nodup).1

theorem unique (hx : m.IsQueue h xs) (hy : m.IsQueue h ys) : xs = ys :=
  hx.path.unique hy.path hx.head_notMem hy.head_notMem

theorem congr (hq : m.IsQueue h xs)
    (hsame : ∀ c ∈ h :: xs, m'.next c = m.next c ∧ m'.prev c = m.prev c) : m'.IsQueue h xs := by
  refine ⟨hq.nodup, hq.path.congr (fun c hc => (hsame c hc).1) fun c hc => (hsame c ?_).2⟩
  rw [List.mem_append, List.mem_singleton] at hc
  rcases hc with hc | rfl
  · exact List.mem_cons_of_mem _ hc
  · exact List.mem_cons_self

theorem empty_iff [DecidableEq α] (hq : m.IsQueue h xs) : m.empty h = true ↔ xs = [] := by
  rw [empty, decide_eq_true_iff]
  constructor
  · intro hself
    obtain ⟨n, hn, hnext⟩ := hq.path.first
    obtain rfl : h = n := Option.some.inj (hself.symm.trans hnext)
    cases xs with
    | nil => rfl
    | cons x xs =>
      obtain rfl : h = x := Option.some.inj (hself.symm.trans hq.path.1)
      exact absurd List.mem_cons_self hq.head_notMem
  · rintro rfl
    exact hq.path.1

/-- Where the queue splits at one of its nodes. -/
theorem split (hq : m.IsQueue h xs) (hx : x ∈ xs) :
    ∃ l r, xs = l ++ x :: r ∧ m.Path h l x ∧ m.Path x r h := by
  obtain ⟨l, r, rfl⟩ := List.append_of_mem hx
  exact ⟨l, r, rfl, path_append.1 hq.path⟩

/-- The neighbours of a node on the queue are on the queue, or its head, and not the node. -/
theorem neighbours (hq : m.IsQueue h xs) (hx : x ∈ xs) :
    (∃ n ∈ h :: xs, m.next x = some n ∧ n ≠ x) ∧ ∃ p ∈ h :: xs, m.prev x = some p ∧ p ≠ x := by
  have hhx : h ≠ x := fun he => hq.head_notMem (he ▸ hx)
  obtain ⟨l, r, rfl, hl, hr⟩ := hq.split hx
  obtain ⟨n, hn, hnext⟩ := hr.first
  obtain ⟨p, hp, hprev⟩ := hl.last
  have hnd := (List.nodup_cons.1 hq.nodup).2
  refine ⟨⟨n, ?_, hnext, ?_⟩, p, ?_, hprev, ?_⟩
  · rw [List.mem_append, List.mem_singleton] at hn
    rcases hn with hn | rfl
    · exact List.mem_cons_of_mem _ (List.mem_append_right _ (List.mem_cons_of_mem _ hn))
    · exact List.mem_cons_self
  · rintro rfl
    rw [List.mem_append, List.mem_singleton] at hn
    rcases hn with hn | hn
    · exact (List.nodup_cons.1 (List.nodup_append.1 hnd).2.1).1 hn
    · exact hhx hn.symm
  · rcases List.mem_cons.1 hp with rfl | hp
    · exact List.mem_cons_self
    · exact List.mem_cons_of_mem _ (List.mem_append_left _ hp)
  · rintro rfl
    rcases List.mem_cons.1 hp with hp | hp
    · exact hhx hp.symm
    · exact (List.nodup_append.1 hnd).2.2 p hp p List.mem_cons_self rfl

end IsQueue

/-! ## Queues after an operation -/

section Effects
variable [DecidableEq α]

theorem isQueue_init (m : QueueMem α) (q : α) : (m.init q).IsQueue q [] := by
  refine ⟨by simp, ?_, ?_⟩
  · rw [init_next, if_pos rfl]
  · rw [init_prev, if_pos rfl]

/-- **Inserting** puts a node in front of the queue. -/
theorem isQueue_insertHead (hq : m.IsQueue h xs) (hx : x ∉ h :: xs) :
    (m.insertHead h x).IsQueue h (x :: xs) := by
  rw [List.mem_cons, not_or] at hx
  obtain ⟨hxh, hxs⟩ := hx
  refine ⟨?_, ?_, ?_, ?_⟩
  · rw [List.nodup_cons, List.mem_cons, not_or, List.nodup_cons]
    obtain ⟨hh, hnd⟩ := List.nodup_cons.1 hq.nodup
    exact ⟨⟨Ne.symm hxh, hh⟩, hxs, hnd⟩
  · rw [insertHead_next, if_pos rfl]
  · rw [insertHead_prev, if_pos rfl]
  · have hp := hq.path
    cases xs with
    | nil =>
      refine ⟨?_, ?_⟩
      · rw [insertHead_next, if_neg hxh, if_pos rfl, hp.1]
      · rw [insertHead_prev, if_neg (Ne.symm hxh), if_pos hp.1]
    | cons y ys =>
      obtain ⟨hhy, -, hyh⟩ := hp
      rw [List.mem_cons, not_or] at hxs
      obtain ⟨hnh, hny⟩ := List.nodup_cons.1 hq.nodup
      rw [List.mem_cons, not_or] at hnh
      refine ⟨?_, ?_, hyh.congr (fun c hc => ?_) fun c hc => ?_⟩
      · rw [insertHead_next, if_neg hxh, if_pos rfl, hhy]
      · rw [insertHead_prev, if_neg (Ne.symm hxs.1), if_pos hhy]
      · have hch : c ≠ h := by
          rintro rfl
          rcases List.mem_cons.1 hc with hc | hc
          · exact hnh.1 hc
          · exact hnh.2 hc
        have hcx : c ≠ x := by
          rintro rfl
          rcases List.mem_cons.1 hc with hc | hc
          · exact hxs.1 hc
          · exact hxs.2 hc
        rw [insertHead_next, if_neg hch, if_neg hcx]
      · rw [List.mem_append, List.mem_singleton] at hc
        have hcx : c ≠ x := by
          rintro rfl
          rcases hc with hc | hc
          · exact hxs.2 hc
          · exact hxh hc
        rw [insertHead_prev, if_neg hcx, hhy, if_neg]
        rintro ⟨⟩
        rcases hc with hc | hc
        · exact (List.nodup_cons.1 hny).1 hc
        · exact hnh.1 hc.symm

/-- **Removing** takes a node out of the queue. -/
theorem isQueue_remove (hq : m.IsQueue h xs) (hx : x ∈ xs) :
    (m.remove x).IsQueue h (xs.erase x) := by
  refine ⟨?_, ?_⟩
  · exact hq.nodup.sublist (List.Sublist.cons_cons h List.erase_sublist)
  · have hnd := List.nodup_cons.1 hq.nodup
    obtain ⟨l, r, rfl, hl, hr⟩ := hq.split hx
    have hxl : x ∉ l := fun hm =>
      (List.nodup_append.1 hnd.2).2.2 x hm x List.mem_cons_self rfl
    rw [List.erase_append_right _ hxl, List.erase_cons_head]
    exact hl.remove hr hnd.2 hnd.1 hnd.1

theorem Path.walk (hp : m.Path a xs h) (hh : h ∉ xs) {n : ℕ} (hn : xs.length ≤ n) :
    m.walk h n (m.after h a) = xs := by
  induction xs generalizing a n with
  | nil =>
    rw [after, hp.1, Option.bind_some, if_pos rfl]
    cases n <;> rfl
  | cons x xs ih =>
    obtain ⟨hnext, -, hp⟩ := hp
    obtain ⟨hx, hh⟩ := not_or.1 (mt List.mem_cons.2 hh)
    obtain ⟨n, rfl⟩ : ∃ k, n = k + 1 := ⟨n - 1, by rw [List.length_cons] at hn; omega⟩
    rw [after, hnext, Option.bind_some, if_neg (Ne.symm hx), QueueMem.walk,
      ih hp hh (Nat.le_of_succ_le_succ hn)]

/-- **A walk** of a queue meets its nodes, each once and in order. -/
theorem walk_queue (hq : m.IsQueue h xs) {n : ℕ} (hn : xs.length ≤ n) :
    m.walk h n (m.first h) = xs := by
  have hfirst : m.first h = m.after h h := by
    rw [first, after, empty]
    cases hnext : m.next h with
    | none => simp
    | some y => simp only [Option.some.injEq, decide_eq_true_eq, Option.bind_some]
  rw [hfirst]
  exact hq.path.walk hq.head_notMem hn

theorem links_init {q c : α} (hc : c ≠ q) :
    (m.init q).next c = m.next c ∧ (m.init q).prev c = m.prev c := by
  rw [init_next, init_prev, if_neg hc, if_neg hc]
  exact ⟨rfl, rfl⟩

theorem links_insertHead (hq : m.IsQueue h xs) {c : α} (hcx : c ≠ x) (hc : c ∉ h :: xs) :
    (m.insertHead h x).next c = m.next c ∧ (m.insertHead h x).prev c = m.prev c := by
  obtain ⟨n, hn, hnext⟩ := hq.path.first
  have hch : c ≠ h := fun he => hc (he ▸ List.mem_cons_self)
  rw [insertHead_next, insertHead_prev, if_neg hch, if_neg hcx, if_neg hcx, hnext, if_neg]
  · exact ⟨rfl, rfl⟩
  · rintro ⟨⟩
    rw [List.mem_append, List.mem_singleton] at hn
    rcases hn with hn | hn
    · exact hc (List.mem_cons_of_mem _ hn)
    · exact hch hn

theorem links_remove (hq : m.IsQueue h xs) (hx : x ∈ xs) {c : α} (hc : c ∉ h :: xs) :
    (m.remove x).next c = m.next c ∧ (m.remove x).prev c = m.prev c := by
  obtain ⟨⟨n, hn, hnext, -⟩, p, hp, hprev, -⟩ := hq.neighbours hx
  rw [remove_next, remove_prev, hnext, hprev, if_neg, if_neg]
  · exact ⟨rfl, rfl⟩
  · rintro ⟨⟩
    exact hc hn
  · rintro ⟨⟩
    exact hc hp

end Effects

end QueueMem
