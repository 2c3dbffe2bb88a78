/-
  A cache of the most recent entries pushed into a ring of `2 ^ k` slots.

  `head` is the next absolute write index, a `w`-bit word that runs freely and wraps; the cached
  entries are those at `[head - count, head)`.  Some entries are marked, and `mark` is the index the
  last marked one was written at.

  `recent` lists the cached entries, oldest first.  `recent_push`: a push appends its entry and
  drops the oldest one if the ring was full.  `find_some`: what a lookup by distance from the
  oldest entry finds; `find_eq_some_iff`: among entries with consecutive keys, every one of them.
  `replay_eq`: a replay clamped to `mark` is the tail of `recent` from its last marked entry on, as
  long as the window does not straddle the wrap of `head`.
-/
import Mathlib.Data.List.DropRight
import Mathlib.Data.List.Infix
import NginxRtc.Lib.Window

universe u

structure CacheRing (w : ℕ) (α : Type u) where
  head : BitVec w
  count : BitVec w
  mark : BitVec w
  cap : BitVec w
  slots : List α
  pow : ∃ k < w, cap.toNat = 2 ^ k
  lenEq : slots.length = cap.toNat
  fill : count.toNat ≤ cap.toNat

namespace CacheRing

variable {w : ℕ} {α : Type u}

theorem cap_le (r : CacheRing w α) : 2 * r.cap.toNat ≤ 2 ^ w := by
  obtain ⟨k, hk, hcap⟩ := r.pow
  have hle : 2 ^ (k + 1) ≤ 2 ^ w := Nat.pow_le_pow_right Nat.two_pos hk
  rw [hcap]
  omega

theorem cap_pos (r : CacheRing w α) : 0 < r.cap.toNat := by
  obtain ⟨k, -, hcap⟩ := r.pow
  rw [hcap]
  exact Nat.two_pow_pos k

theorem one_toNat (r : CacheRing w α) : (1#w).toNat = 1 := by
  have hpos := r.cap_pos
  have hle := r.cap_le
  rw [BitVec.toNat_ofNat, Nat.mod_eq_of_lt (by omega)]

theorem toNat_count_succ {r : CacheRing w α} (h : r.count < r.cap) :
    (r.count + 1#w).toNat = r.count.toNat + 1 := by
  have hlt : r.count.toNat < r.cap.toNat := BitVec.lt_def.1 h
  have hcap := r.cap.isLt
  rw [BitVec.toNat_add, r.one_toNat, Nat.mod_eq_of_lt (by omega)]

/-- Store one entry at `head` and advance. -/
def push (r : CacheRing w α) (v : α) (marked : Bool) : CacheRing w α :=
  { r with
    slots := r.slots.set (r.head &&& (r.cap - 1#w)).toNat v
    mark := if marked then r.head else r.mark
    head := r.head + 1#w
    count := if r.count < r.cap then r.count + 1#w else r.count
    lenEq := by rw [List.length_set, r.lenEq]
    fill := by
      split_ifs with h
      · rw [toNat_count_succ h]
        exact BitVec.lt_def.1 h
      · exact r.fill }

/-- Forget the cached entries and the mark; the indices run on. -/
def clear (r : CacheRing w α) : CacheRing w α :=
  { r with count := 0#w, mark := 0#w, fill := by simp }

theorem slot_eq (r : CacheRing w α) (x : BitVec w) :
    (x &&& (r.cap - 1#w)).toNat = x.toNat % r.slots.length := by
  obtain ⟨k, hk, hcap⟩ := r.pow
  have h1 : (1#w) ≤ r.cap := by
    rw [BitVec.le_def, r.one_toNat]
    exact r.cap_pos
  rw [BitVec.toNat_and, BitVec.toNat_sub_of_le h1, r.one_toNat, r.lenEq, hcap,
    Nat.and_two_pow_sub_one_eq_mod]

theorem toNat_add_mod (r : CacheRing w α) (x y : BitVec w) :
    (x + y).toNat % r.slots.length = (x.toNat + y.toNat) % r.slots.length := by
  obtain ⟨k, hk, hcap⟩ := r.pow
  rw [r.lenEq, hcap, BitVec.toNat_add, Nat.mod_mod_of_dvd _ (Nat.pow_dvd_pow 2 hk.le)]

/-- Where a replay starts: at the oldest entry, or at the last marked one if its index is larger. -/
def replayStart (r : CacheRing w α) : BitVec w :=
  if r.head - r.count < r.mark then r.mark else r.head - r.count

/-- The window of cached entries does not straddle the wrap of `head`. -/
def Unwrapped (r : CacheRing w α) : Prop := r.count.toNat ≤ r.head.toNat

instance (r : CacheRing w α) : Decidable r.Unwrapped := Nat.decLe ..

/-- The window straddles the wrap of `head`, is empty, or the mark lies beyond it. -/
def Idle (r : CacheRing w α) : Prop :=
  ¬ r.Unwrapped ∨ r.count.toNat = 0 ∨ r.head.toNat ≤ r.mark.toNat

theorem toNat_start {r : CacheRing w α} (h : r.Unwrapped) :
    (r.head - r.count).toNat = r.head.toNat - r.count.toNat :=
  BitVec.toNat_sub_of_le (BitVec.le_def.2 h)

theorem start_le_replayStart (r : CacheRing w α) :
    (r.head - r.count).toNat ≤ r.replayStart.toNat := by
  unfold replayStart
  split_ifs with h
  · exact (BitVec.lt_def.1 h).le
  · exact le_refl _

theorem head_slot (r : CacheRing w α) :
    (r.head &&& (r.cap - 1#w)).toNat =
      ((r.head - r.count).toNat + r.count.toNat) % r.slots.length := by
  rw [slot_eq, ← toNat_add_mod, BitVec.sub_add_cancel]

section Entries
variable [Inhabited α]

/-- The entry at the absolute index `x`. -/
def slotAt (r : CacheRing w α) (x : BitVec w) : α :=
  r.slots.getD (x &&& (r.cap - 1#w)).toNat default

/-- The cached entries, oldest first. -/
def recent (r : CacheRing w α) : List α :=
  Window.window default r.slots (r.head - r.count).toNat r.count.toNat

theorem slotAt_eq (r : CacheRing w α) (x : BitVec w) :
    r.slotAt x = r.slots.getD (x.toNat % r.slots.length) default := by
  rw [slotAt, slot_eq]

theorem length_recent (r : CacheRing w α) : r.recent.length = r.count.toNat :=
  Window.length_window ..

/-- An empty ring holds the last entries of none. -/
theorem recent_of_count {r : CacheRing w α} (h : r.count.toNat = 0) (n : ℕ) :
    r.recent = ([] : List α).rtake n := by
  rw [List.rtake_nil]
  exact List.eq_nil_of_length_eq_zero (r.length_recent.trans h)

/-- **A push appends its entry**, and drops the oldest one if the ring was full. -/
theorem recent_push (r : CacheRing w α) (v : α) (marked : Bool) :
    (r.push v marked).recent = (r.recent ++ [v]).drop (if r.count < r.cap then 0 else 1) := by
  by_cases h : r.count < r.cap
  · have hlt : r.count.toNat < r.slots.length := by
      rw [r.lenEq]
      exact BitVec.lt_def.1 h
    have hstart : r.head + 1#w - (r.count + 1#w) = r.head - r.count := by
      rw [BitVec.add_comm r.count, ← BitVec.sub_sub, BitVec.add_sub_cancel]
    simp only [recent, push, if_pos h, List.drop_zero, hstart, toNat_count_succ h, r.head_slot]
    exact Window.window_set_next _ hlt _
  · have hcount : r.count.toNat = r.slots.length := by
      have hle := BitVec.lt_def.not.1 h
      rw [r.lenEq]
      exact le_antisymm r.fill (not_lt.1 hle)
    obtain ⟨n, hn⟩ : ∃ n, r.slots.length = n + 1 := by
      have hpos := r.cap_pos
      rw [← r.lenEq] at hpos
      exact ⟨_, (Nat.succ_pred_eq_of_pos hpos).symm⟩
    have hstart : r.head + 1#w - r.count = r.head - r.count + 1#w := by
      rw [BitVec.sub_eq_add_neg, BitVec.add_assoc, BitVec.add_comm 1#w, ← BitVec.add_assoc,
        ← BitVec.sub_eq_add_neg]
    have hcn : r.count.toNat = n + 1 := hcount.trans hn
    have hmod : (r.head - r.count + 1#w).toNat % r.slots.length =
        ((r.head - r.count).toNat + 1) % r.slots.length := by
      rw [toNat_add_mod, r.one_toNat]
    have hidx : (r.head &&& (r.cap - 1#w)).toNat =
        ((r.head - r.count + 1#w).toNat + n) % r.slots.length := by
      rw [r.head_slot, hcn, Nat.add_mod (r.head - r.count + 1#w).toNat, hmod, ← Nat.add_mod]
      congr 1
      omega
    have hold : r.recent = r.slots.getD ((r.head - r.count).toNat % r.slots.length) default ::
        Window.window default r.slots (r.head - r.count + 1#w).toNat n := by
      rw [recent, hcn, Window.window_succ, Window.window_congr_start _ hmod]
    have hlt : n < r.slots.length := by omega
    rw [hold]
    simp only [recent, push, if_neg h, hstart, hcn, hidx, List.cons_append, List.drop_succ_cons,
      List.drop_zero]
    exact Window.window_set_next _ hlt _

theorem recent_clear (r : CacheRing w α) : r.clear.recent = [] := by
  simp [recent, clear]

/-- What is cached are the entries pushed last. -/
theorem recent_suffix_push {r : CacheRing w α} {vs : List α} (h : r.recent <:+ vs) (v : α)
    (marked : Bool) : (r.push v marked).recent <:+ vs ++ [v] := by
  rw [recent_push]
  refine (List.drop_suffix _ _).trans ?_
  obtain ⟨pre, hpre⟩ := h
  exact ⟨pre, by rw [← List.append_assoc, hpre]⟩

/-- **The cache holds the entries pushed last**, as many as it has slots for. -/
theorem recent_push_rtake {r : CacheRing w α} {vs : List α}
    (h : r.recent = vs.rtake r.cap.toNat) (v : α) (marked : Bool) :
    (r.push v marked).recent = (vs ++ [v]).rtake r.cap.toNat := by
  have hcount : r.count.toNat = min vs.length r.cap.toNat := by
    rw [← length_recent, h, List.rtake, List.length_drop]
    omega
  rw [recent_push, h]
  simp only [List.rtake, List.length_append, List.length_singleton]
  split_ifs with hlt
  · have hroom : r.count.toNat < r.cap.toNat := BitVec.lt_def.1 hlt
    have h0 : vs.length - r.cap.toNat = 0 := by omega
    have h1 : vs.length + 1 - r.cap.toNat = 0 := by omega
    rw [h0, h1]
    rfl
  · have hfull : r.cap.toNat ≤ r.count.toNat := not_lt.1 (BitVec.lt_def.not.1 hlt)
    have hle : vs.length - r.cap.toNat ≤ vs.length := Nat.sub_le ..
    have hnext : vs.length + 1 - r.cap.toNat = vs.length - r.cap.toNat + 1 := by omega
    rw [← List.drop_append_of_le_length hle, List.drop_drop, hnext]

/-! ## Lookups -/

/-- Later entries have later keys, and no two are half the key space apart. -/
def Ascends (key : α → BitVec 16) (vs : List α) : Prop :=
  vs.Pairwise fun a b => 0 < (key b - key a).toNat ∧ (key b - key a).toNat < 2 ^ 15

/-- No key is missing between the entries. -/
def Consecutive (key : α → BitVec 16) (vs : List α) : Prop :=
  vs.IsChain fun a b => key b = key a + 1#16

/-- Look the key `seq` up by its distance from the key of the oldest entry. -/
def find (r : CacheRing w α) (key : α → BitVec 16) (seq : BitVec 16) : Option α :=
  if r.count = 0#w then none
  else
    let start := r.head - r.count
    let dist := seq - key (r.slotAt start)
    if dist.toNat < r.count.toNat then
      let v := r.slotAt (start + BitVec.ofNat w dist.toNat)
      if key v = seq then some v else none
    else none

/-- The entry `i` places after the oldest one. -/
theorem recent_getElem? (r : CacheRing w α) {i : ℕ} (hi : i < r.count.toNat) :
    r.recent[i]? = some (r.slotAt (r.head - r.count + BitVec.ofNat w i)) := by
  have hlt : i < 2 ^ w := by
    have := r.count.isLt
    omega
  have hofNat : (BitVec.ofNat w i).toNat = i := by
    rw [BitVec.toNat_ofNat, Nat.mod_eq_of_lt hlt]
  rw [slotAt_eq, toNat_add_mod, hofNat, recent, Window.window, List.getElem?_map,
    List.getElem?_range hi, Option.map_some]

/-- **What a lookup finds** is a cached entry with the key it was asked for, at the distance of that
    key from the key of the oldest entry. -/
theorem find_some {r : CacheRing w α} {key : α → BitVec 16} {seq : BitVec 16} {v : α}
    (h : r.find key seq = some v) :
    key v = seq ∧ ∃ v₀, r.recent[0]? = some v₀ ∧ r.recent[(seq - key v₀).toNat]? = some v := by
  unfold find at h
  dsimp only at h
  split_ifs at h with h0 hdist hkey
  obtain rfl := Option.some.inj h
  have hpos : 0 < r.count.toNat := by omega
  have hzero : r.head - r.count + BitVec.ofNat w 0 = r.head - r.count := BitVec.add_zero _
  refine ⟨hkey, _, r.recent_getElem? hpos, ?_⟩
  rw [hzero]
  exact r.recent_getElem? hdist

/-! ### Entries with climbing keys -/

omit [Inhabited α] in
/-- The key distance from the first entry to the last is at least the number of steps, and exactly
    that if no key is missing between them. -/
theorem Ascends.dist_last {key : α → BitVec 16} {u v : α} {vs : List α}
    (h : Ascends key (u :: vs)) (hv : (u :: vs).getLast? = some v) :
    vs.length ≤ (key v - key u).toNat ∧
      ((key v - key u).toNat = vs.length ↔ Consecutive key (u :: vs)) := by
  induction vs generalizing u with
  | nil =>
    obtain rfl : u = v := by simpa using hv
    simp [Consecutive]
  | cons w vs ih =>
    rw [List.getLast?_cons_cons] at hv
    obtain ⟨hu, hrest⟩ := List.pairwise_cons.1 h
    obtain ⟨hle, hiff⟩ := ih hrest hv
    have hstep := hu w List.mem_cons_self
    have hsmall : (key v - key w).toNat < 2 ^ 15 := by
      rcases List.mem_cons.1 (List.mem_of_getLast? hv) with rfl | hm
      · simp
      · exact ((List.pairwise_cons.1 hrest).1 v hm).2
    have hsum : (key v - key u).toNat = (key v - key w).toNat + (key w - key u).toNat := by
      have hsplit : key v - key u = key v - key w + (key w - key u) := by
        rw [BitVec.sub_eq_add_neg (key w), ← BitVec.add_assoc, BitVec.sub_add_cancel,
          ← BitVec.sub_eq_add_neg]
      rw [hsplit, BitVec.toNat_add, Nat.mod_eq_of_lt (by omega)]
    have hnext : key w = key u + 1#16 ↔ (key w - key u).toNat = 1 := by
      constructor
      · intro he
        rw [he, BitVec.add_comm, BitVec.add_sub_cancel]
        rfl
      · intro he
        have hone : key w - key u = 1#16 := BitVec.eq_of_toNat_eq he
        rw [← hone, BitVec.add_comm, BitVec.sub_add_cancel]
    have hcons : Consecutive key (u :: w :: vs) ↔
        key w = key u + 1#16 ∧ Consecutive key (w :: vs) := List.isChain_cons_cons
    rw [hcons, ← hiff, hnext, List.length_cons]
    omega

omit [Inhabited α] in
theorem Ascends.dist {key : α → BitVec 16} {u v : α} {vs : List α} {i : ℕ} (h : Ascends key vs)
    (hu : vs.head? = some u) (hv : vs[i]? = some v) :
    i ≤ (key v - key u).toNat ∧
      ((key v - key u).toNat = i ↔ Consecutive key (vs.take (i + 1))) := by
  cases vs with
  | nil => exact nomatch hu
  | cons x vs =>
    obtain rfl : x = u := Option.some.inj hu
    have hlt := (List.getElem?_eq_some_iff.1 hv).1
    have hlen : (vs.take i).length = i := by
      rw [List.length_cons] at hlt
      rw [List.length_take, Nat.min_eq_left (by omega)]
    have hlast : ((x :: vs).take (i + 1)).getLast? = some v := by
      rw [List.getLast?_take, if_neg (Nat.succ_ne_zero i), Nat.add_sub_cancel, hv]
      rfl
    have hup : Ascends key ((x :: vs).take (i + 1)) := h.sublist (List.take_sublist _ _)
    rw [List.take_succ_cons] at *
    simpa only [hlen] using hup.dist_last hlast

omit [Inhabited α] in
theorem Ascends.index_unique {key : α → BitVec 16} {v x : α} {vs : List α} {i k : ℕ}
    (h : Ascends key vs) (hk : vs[k]? = some x) (hi : vs[i]? = some v) (he : key x = key v) :
    k = i := by
  have hne : ∀ {i j : ℕ} {a b : α}, vs[i]? = some a → vs[j]? = some b → i < j →
      key a ≠ key b := by
    intro i j a b ha hb hij hab
    obtain ⟨hi, rfl⟩ := List.getElem?_eq_some_iff.1 ha
    obtain ⟨hj, rfl⟩ := List.getElem?_eq_some_iff.1 hb
    have hp := (List.pairwise_iff_getElem.1 h i j hi hj hij).1
    rw [hab, BitVec.sub_self] at hp
    exact absurd hp (by decide)
  rcases Nat.lt_trichotomy k i with hlt | heq | hgt
  · exact absurd he (hne hk hi hlt)
  · exact heq
  · exact absurd he.symm (hne hi hk hgt)

/-- A lookup by the distance from the oldest entry. -/
theorem find_eq (r : CacheRing w α) (key : α → BitVec 16) (seq : BitVec 16) :
    r.find key seq = r.recent.head?.bind fun u =>
      (r.recent[(seq - key u).toNat]?).filter fun v => key v = seq := by
  unfold find
  by_cases h0 : r.count = 0#w
  · have hnil : r.recent = [] := by
      refine List.eq_nil_of_length_eq_zero ?_
      rw [length_recent, h0]
      rfl
    rw [if_pos h0, hnil]
    rfl
  · have hpos : 0 < r.count.toNat :=
      Nat.pos_of_ne_zero fun hz => h0 (BitVec.eq_of_toNat_eq (hz.trans rfl))
    have hhead : r.recent.head? = some (r.slotAt (r.head - r.count)) := by
      rw [List.head?_eq_getElem?, r.recent_getElem? hpos]
      congr 2
      exact BitVec.add_zero _
    rw [if_neg h0, hhead, Option.bind_some]
    dsimp only
    split
    · next hd =>
      rw [r.recent_getElem? hd, Option.filter_some]
      simp only [decide_eq_true_eq]
    · next hd =>
      rw [List.getElem?_eq_none (by rw [length_recent]; exact not_lt.1 hd)]
      rfl

/-- **A lookup misses nothing before a gap**: among entries with climbing keys it finds the one with
    the key, or misses if there is none, exactly when no key is missing between the oldest entry and
    that one. -/
theorem find_eq_iff {r : CacheRing w α} {key : α → BitVec 16} (h : Ascends key r.recent)
    (seq : BitVec 16) :
    r.find key seq = r.recent.find? (fun v => key v = seq) ↔
      ∀ i v, r.recent[i]? = some v → key v = seq → Consecutive key (r.recent.take (i + 1)) := by
  rw [find_eq]
  generalize r.recent = vs at *
  cases hf : vs.find? (fun v => key v = seq) with
  | none =>
    have hnone : ∀ v ∈ vs, key v ≠ seq := by simpa using hf
    refine iff_of_true (Option.eq_none_iff_forall_ne_some.2 fun v hv => ?_) fun i v hv hk => ?_
    · obtain ⟨u, -, hv⟩ := Option.bind_eq_some_iff.1 hv
      obtain ⟨hget, hkey⟩ := Option.filter_eq_some_iff.1 hv
      exact hnone v (List.mem_of_getElem? hget) (by simpa using hkey)
    · exact absurd hk (hnone v (List.mem_of_getElem? hv))
  | some v =>
    obtain rfl : key v = seq := by simpa using List.find?_some hf
    obtain ⟨i, hi⟩ := List.mem_iff_getElem?.1 (List.mem_of_find?_eq_some hf)
    obtain ⟨u, hu⟩ : ∃ u, vs.head? = some u := by
      cases vs with
      | nil => exact nomatch hi
      | cons u vs => exact ⟨u, rfl⟩
    have hcond : (∀ k x, vs[k]? = some x → key x = key v → Consecutive key (vs.take (k + 1))) ↔
        Consecutive key (vs.take (i + 1)) :=
      ⟨fun hc => hc i v hi rfl, fun hc k x hk hx => h.index_unique hk hi hx ▸ hc⟩
    rw [hcond, ← (h.dist hu hi).2, hu, Option.bind_some]
    constructor
    · intro hd
      exact h.index_unique (Option.filter_eq_some_iff.1 hd).1 hi rfl
    · intro hd
      rw [hd, hi]
      exact Option.filter_eq_some_iff.2 ⟨rfl, by simp⟩

/-! ### Entries with consecutive keys -/

omit [Inhabited α] in
theorem Consecutive.key_eq {key : α → BitVec 16} {u v : α} {vs : List α} {i : ℕ}
    (h : Consecutive key (u :: vs)) (hv : (u :: vs)[i]? = some v) :
    key v = key u + BitVec.ofNat 16 i := by
  induction vs generalizing u i with
  | nil =>
    cases i with
    | zero =>
      obtain rfl : u = v := Option.some.inj hv
      exact (BitVec.add_zero _).symm
    | succ i => exact nomatch hv
  | cons x vs ih =>
    cases i with
    | zero =>
      obtain rfl : u = v := Option.some.inj hv
      exact (BitVec.add_zero _).symm
    | succ i =>
      obtain ⟨hx, hrest⟩ := List.isChain_cons_cons.1 h
      rw [ih hrest hv, hx, BitVec.add_assoc, Nat.add_comm i, BitVec.ofNat_add]

/-- **A lookup among consecutive entries is exact**, in a ring whose slots the keys can tell
    apart. -/
theorem find_eq_some_iff {r : CacheRing w α} {key : α → BitVec 16}
    (h : Consecutive key r.recent) (hcap : r.cap.toNat ≤ 2 ^ 16) (seq : BitVec 16) (v : α) :
    r.find key seq = some v ↔ v ∈ r.recent ∧ key v = seq := by
  constructor
  · intro hf
    obtain ⟨hkey, _, -, hget⟩ := find_some hf
    exact ⟨List.mem_of_getElem? hget, hkey⟩
  · rintro ⟨hv, rfl⟩
    obtain ⟨i, hi⟩ := List.mem_iff_getElem?.1 hv
    have hlt : i < r.recent.length := (List.getElem?_eq_some_iff.1 hi).1
    rw [find_eq]
    rw [length_recent] at hlt
    have hfill := r.fill
    generalize r.recent = vs at *
    cases vs with
    | nil => exact nomatch hi
    | cons u vs =>
      have hdist : (key v - key u).toNat = i := by
        rw [h.key_eq hi, BitVec.add_comm, BitVec.add_sub_cancel, BitVec.toNat_ofNat,
          Nat.mod_eq_of_lt (by omega)]
      rw [List.head?_cons, Option.bind_some, hdist, hi]
      exact Option.filter_eq_some_iff.2 ⟨rfl, by simp⟩

/-! ## Replays -/

/-- The entries a replay walks over, `for (i = start; i < head; i++)`. -/
def replay (r : CacheRing w α) : List α :=
  (List.range' r.replayStart.toNat (r.head.toNat - r.replayStart.toNat)).map fun i =>
    r.slotAt (BitVec.ofNat w i)

/-- **A replay is a tail of the cached entries.** -/
theorem replay_eq_drop {r : CacheRing w α} (h : r.Unwrapped) :
    r.replay = r.recent.drop (r.replayStart.toNat - (r.head - r.count).toNat) := by
  have hstart := toNat_start h
  have hle := r.start_le_replayStart
  have hc : r.count.toNat ≤ r.head.toNat := h
  refine List.ext_getElem? fun i => ?_
  rw [List.getElem?_drop, replay, List.getElem?_map]
  by_cases hi : i < r.head.toNat - r.replayStart.toNat
  · rw [List.getElem?_range' hi, Option.map_some, recent_getElem? r (by omega)]
    congr 2
    refine BitVec.eq_of_toNat_eq ?_
    have hlt := r.head.isLt
    rw [BitVec.toNat_ofNat, BitVec.toNat_add, BitVec.toNat_ofNat, hstart,
      Nat.mod_eq_of_lt (show r.replayStart.toNat - (r.head.toNat - r.count.toNat) + i < 2 ^ w by omega)]
    congr 1
    omega
  · rw [List.getElem?_eq_none (by simpa using not_lt.1 hi), Option.map_none,
      List.getElem?_eq_none (by rw [length_recent]; omega)]

/-- Across the wrap of `head` a replay walks over nothing. -/
theorem replay_wrapped {r : CacheRing w α} (h : ¬ r.Unwrapped) : r.replay = [] := by
  have hlt : r.head.toNat < r.count.toNat := not_le.1 h
  have hcap := r.cap_le
  have hfill := r.fill
  have hstart : (r.head - r.count).toNat = 2 ^ w + r.head.toNat - r.count.toNat := by
    have hc := r.count.isLt
    rw [BitVec.toNat_sub, Nat.mod_eq_of_lt (by omega)]
    omega
  have hle := r.start_le_replayStart
  have hn : r.head.toNat - r.replayStart.toNat = 0 := by omega
  rw [replay, hn]
  rfl

theorem replay_suffix (r : CacheRing w α) : r.replay <:+ r.recent := by
  by_cases h : r.Unwrapped
  · rw [replay_eq_drop h]
    exact List.drop_suffix ..
  · rw [replay_wrapped h]
    exact List.nil_suffix

/-- **A replay walks over nothing** exactly when the ring is idle. -/
theorem replay_eq_nil_iff (r : CacheRing w α) : r.replay = [] ↔ r.Idle := by
  unfold Idle
  by_cases h : r.Unwrapped
  · have hstart := toNat_start h
    have hc : r.count.toNat ≤ r.head.toNat := h
    rw [replay_eq_drop h, List.drop_eq_nil_iff, length_recent]
    unfold replayStart
    split_ifs with hm
    · have hlt := BitVec.lt_def.1 hm
      constructor
      · intro hle
        exact .inr (.inr (by omega))
      · rintro (hn | h0 | hle)
        · exact absurd h hn
        · omega
        · omega
    · have hge := not_lt.1 (BitVec.lt_def.not.1 hm)
      constructor
      · intro hle
        exact .inr (.inl (by omega))
      · rintro (hn | h0 | hle)
        · exact absurd h hn
        · omega
        · omega
  · exact iff_of_true (replay_wrapped h) (.inl h)

/-! ### Marks -/

/-- The last marked entry that is still cached was written at the index `mark`. -/
def Marked (marks : α → Bool) (r : CacheRing w α) : Prop :=
  ∀ pre v post, r.recent = pre ++ v :: post → marks v = true → (∀ u ∈ post, marks u = false) →
    r.mark = r.head - BitVec.ofNat w (post.length + 1)

theorem marked_of_recent {marks : α → Bool} {r : CacheRing w α} (h : r.recent = []) :
    r.Marked marks := by
  intro pre v post hr
  rw [h] at hr
  exact absurd hr.symm (by simp)

theorem Marked.push {marks : α → Bool} {r : CacheRing w α} (h : r.Marked marks) (v : α) :
    (r.push v (marks v)).Marked marks := by
  intro pre u post hr hu hpost
  rw [recent_push] at hr
  obtain ⟨pre', hall⟩ : ∃ pre', r.recent ++ [v] = pre' ++ u :: post := by
    refine ⟨(r.recent ++ [v]).take (if r.count < r.cap then 0 else 1) ++ pre, ?_⟩
    rw [List.append_assoc, ← hr, List.take_append_drop]
  rcases List.eq_nil_or_concat post with rfl | ⟨post₀, x, rfl⟩
  · obtain ⟨-, hv⟩ := List.append_inj' hall rfl
    obtain rfl : v = u := by simpa using hv
    simp only [CacheRing.push, hu, if_true, List.length_nil, Nat.zero_add]
    exact (BitVec.add_sub_cancel r.head 1#w).symm
  · rw [List.concat_eq_append] at hall hpost ⊢
    have hall' : r.recent ++ [v] = (pre' ++ u :: post₀) ++ [x] := by
      rw [hall, List.append_assoc, List.cons_append]
    obtain ⟨hold, hv⟩ := List.append_inj' hall' rfl
    obtain rfl : v = x := by simpa using hv
    have hmark := h pre' u post₀ hold hu fun y hy => hpost y (List.mem_append_left _ hy)
    have hnot : marks v = false := hpost v (by simp)
    simp only [CacheRing.push, hnot, Bool.false_eq_true, if_false, hmark, List.length_append,
      List.length_singleton]
    have hsucc : BitVec.ofNat w (post₀.length + 1 + 1) = 1#w + BitVec.ofNat w (post₀.length + 1) := by
      rw [BitVec.add_comm, BitVec.ofNat_add]
    rw [hsucc, ← BitVec.sub_sub, BitVec.add_sub_cancel]

omit [Inhabited α] in
theorem exists_last_marked {marks : α → Bool} {vs : List α} (h : vs.any marks = true) :
    ∃ pre v post, vs = pre ++ v :: post ∧ marks v = true ∧ ∀ u ∈ post, marks u = false := by
  induction vs with
  | nil => exact absurd h (by simp)
  | cons x xs ih =>
    by_cases hxs : xs.any marks = true
    · obtain ⟨pre, v, post, rfl, hv, hpost⟩ := ih hxs
      exact ⟨x :: pre, v, post, rfl, hv, hpost⟩
    · have hx : marks x = true := by simpa [hxs] using h
      refine ⟨[], x, xs, rfl, hx, fun u hu => ?_⟩
      rw [List.any_eq_true, not_exists] at hxs
      exact Bool.eq_false_iff.2 fun hm => hxs u ⟨hu, hm⟩

/-- **A replay starts at the last marked entry**, if one is cached. -/
theorem replay_eq {marks : α → Bool} {r : CacheRing w α} (hm : r.Marked marks) (h : r.Unwrapped)
    {pre post : List α} {v : α} (hr : r.recent = pre ++ v :: post) (hv : marks v = true)
    (hpost : ∀ u ∈ post, marks u = false) : r.replay = v :: post := by
  have hmark := hm pre v post hr hv hpost
  have hstart := toNat_start h
  have hc : r.count.toNat ≤ r.head.toNat := h
  have hlen : r.count.toNat = pre.length + (post.length + 1) := by
    rw [← length_recent, hr, List.length_append, List.length_cons]
  have hlt := r.head.isLt
  have hofNat : (BitVec.ofNat w (post.length + 1)).toNat = post.length + 1 := by
    rw [BitVec.toNat_ofNat, Nat.mod_eq_of_lt (by omega)]
  have hmarkNat : r.mark.toNat = r.head.toNat - (post.length + 1) := by
    rw [hmark, BitVec.toNat_sub_of_le (BitVec.le_def.2 (by omega)), hofNat]
  have hdrop : r.replayStart.toNat - (r.head - r.count).toNat = pre.length := by
    unfold replayStart
    split_ifs with hgt
    · omega
    · have hge := not_lt.1 (BitVec.lt_def.not.1 hgt)
      omega
  rw [replay_eq_drop h, hdrop, hr, List.drop_left]

/-- A marked entry is cached, and the window does not straddle the wrap of `head`. -/
def Startable (marks : α → Bool) (r : CacheRing w α) : Prop :=
  r.Unwrapped ∧ r.recent.any marks = true

instance (marks : α → Bool) (r : CacheRing w α) : Decidable (r.Startable marks) :=
  inferInstanceAs (Decidable (_ ∧ _))

end Entries

/-! ## Bursts -/

/-- Hand entries over one by one, up to the first refused one or the first one to stop at. -/
def burst (accept : ℕ → Bool) (stop : α → Bool) : ℕ → List α → List α
  | _, [] => []
  | i, v :: vs => v :: if !accept i || stop v then [] else burst accept stop (i + 1) vs

/-- The entries up to the first one to stop at. -/
def upTo (stop : α → Bool) : List α → List α
  | [] => []
  | v :: vs => v :: if stop v then [] else upTo stop vs

theorem burst_upTo (accept : ℕ → Bool) (stop : α → Bool) (i : ℕ) (vs : List α) :
    burst accept stop i (upTo stop vs) = burst accept stop i vs := by
  induction vs generalizing i with
  | nil => rfl
  | cons v vs ih =>
    rw [upTo, burst, burst]
    cases stop v with
    | true => simp
    | false => simp [ih]

theorem burst_prefix (accept : ℕ → Bool) (stop : α → Bool) (i : ℕ) (vs : List α) :
    burst accept stop i vs <+: vs := by
  induction vs generalizing i with
  | nil => exact List.prefix_rfl
  | cons v vs ih =>
    rw [burst]
    split_ifs
    · simp
    · exact (List.prefix_cons_inj v).2 (ih (i + 1))

theorem upTo_eq_nil {stop : α → Bool} {vs : List α} : upTo stop vs = [] ↔ vs = [] := by
  cases vs <;> simp [upTo]

end CacheRing
