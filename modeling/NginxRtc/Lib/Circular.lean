/-
  Circular buffers: a list of cells whose end is followed by its beginning.

  `put` and `get` copy a run of cells from an offset on, in two parts when the run passes the end.
  A copy that leaves the list is `none`.  `Holds buf off s`: the cells of `buf` from `off` on, around
  the end, are `s`.

  `put_some`: a run that is no longer than the buffer is stored, and no other cell changes.
  `get_of_holds`: what is held is read back.  `holds_append`: runs one behind the other.
  `Holds.put_behind`: what is stored behind a run, without going all the way around, leaves it alone.
-/
import Mathlib.Data.List.Basic
import NginxRtc.Lib.Window

universe u

namespace Circular
variable {α : Type u} {buf b s t : List α} {off k n : ℕ}

/-! ## Copies -/

/-- Copy `s` over the cells from `off` on. -/
def copyIn (buf : List α) (off : ℕ) (s : List α) : Option (List α) :=
  if off + s.length ≤ buf.length then
    some (buf.take off ++ s ++ buf.drop (off + s.length))
  else none

/-- The `n` cells from `off` on. -/
def copyOut (buf : List α) (off n : ℕ) : Option (List α) :=
  if off + n ≤ buf.length then some ((buf.drop off).take n) else none

/-- Store `s` from `off` on, around the end. -/
def put (buf : List α) (off : ℕ) (s : List α) : Option (List α) :=
  (copyIn buf off (s.take (buf.length - off))).bind fun b =>
    if buf.length - off < s.length then copyIn b 0 (s.drop (buf.length - off)) else some b

/-- Read `n` cells from `off` on, around the end. -/
def get (buf : List α) (off n : ℕ) : Option (List α) :=
  (copyOut buf off (min (buf.length - off) n)).bind fun s =>
    if buf.length - off < n then (copyOut buf 0 (n - (buf.length - off))).map (s ++ ·) else some s

theorem copyIn_some (h : off + s.length ≤ buf.length) :
    ∃ b, copyIn buf off s = some b ∧ b.length = buf.length ∧
      ∀ j, b[j]? = if off ≤ j ∧ j < off + s.length then s[j - off]? else buf[j]? := by
  refine ⟨_, if_pos h, ?_, fun j => ?_⟩
  · simp only [List.length_append, List.length_take, List.length_drop]
    omega
  · have hlen : (buf.take off).length = off := by
      rw [List.length_take]
      omega
    by_cases hlt : j < off
    · rw [if_neg (by omega), List.append_assoc, List.getElem?_append_left (by omega),
        List.getElem?_take_of_lt hlt]
    · by_cases hin : j < off + s.length
      · rw [if_pos ⟨by omega, hin⟩,
          List.getElem?_append_left (by rw [List.length_append]; omega),
          List.getElem?_append_right (by omega), hlen]
      · rw [if_neg (by omega), List.getElem?_append_right (by rw [List.length_append]; omega),
          List.getElem?_drop]
        congr 1
        rw [List.length_append, hlen]
        omega

/-! ## Runs -/

/-- The cells from `off` on, around the end, are `s`. -/
def Holds (buf : List α) (off : ℕ) (s : List α) : Prop :=
  ∀ i, i < s.length → buf[(off + i) % buf.length]? = s[i]?

theorem holds_nil (buf : List α) (off : ℕ) : Holds buf off [] := fun _ h => nomatch h

theorem holds_mod : Holds buf (off % buf.length) s ↔ Holds buf off s := by
  simp only [Holds, Nat.mod_add_mod]

theorem holds_append : Holds buf off (s ++ t) ↔ Holds buf off s ∧ Holds buf (off + s.length) t := by
  constructor
  · refine fun h => ⟨fun i hi => ?_, fun i hi => ?_⟩
    · rw [h i (by rw [List.length_append]; omega), List.getElem?_append_left hi]
    · rw [Nat.add_assoc, h (s.length + i) (by rw [List.length_append]; omega),
        List.getElem?_append_right (Nat.le_add_right ..), Nat.add_sub_cancel_left]
  · rintro ⟨hs, ht⟩ i hi
    by_cases hlt : i < s.length
    · rw [hs i hlt, List.getElem?_append_left hlt]
    · have hle : s.length ≤ i := Nat.le_of_not_lt hlt
      rw [List.length_append] at hi
      rw [List.getElem?_append_right hle, ← ht (i - s.length) (by omega)]
      congr 2
      omega

/-- Two runs of one length from one cell are the same. -/
theorem Holds.unique (hs : Holds buf off s) (ht : Holds buf off t) (h : s.length = t.length) :
    s = t := by
  refine List.ext_getElem? fun i => ?_
  by_cases hi : i < s.length
  · rw [← hs i hi, ht i (h ▸ hi)]
  · rw [List.getElem?_eq_none (Nat.le_of_not_lt hi),
      List.getElem?_eq_none (h ▸ Nat.le_of_not_lt hi)]

/-- **A run is stored**, and the cells outside of it stay as they are. -/
theorem put_some (hoff : off < buf.length) (hs : s.length ≤ buf.length) :
    ∃ b, put buf off s = some b ∧ b.length = buf.length ∧ Holds b off s ∧
      ∀ j, (∀ i, i < s.length → (off + i) % buf.length ≠ j) → b[j]? = buf[j]? := by
  unfold put
  have hfirst : (s.take (buf.length - off)).length = min (buf.length - off) s.length :=
    List.length_take
  have hin : off + (s.take (buf.length - off)).length ≤ buf.length := by omega
  obtain ⟨b, hb, hlen, hget⟩ := copyIn_some hin
  rw [hb, Option.bind_some]
  split_ifs with hwrap
  · have hrest : (s.drop (buf.length - off)).length = s.length - (buf.length - off) :=
      List.length_drop
    have hin' : 0 + (s.drop (buf.length - off)).length ≤ b.length := by omega
    obtain ⟨d, hd, hlen', hget'⟩ := copyIn_some hin'
    refine ⟨d, hd, hlen'.trans hlen, fun i hi => ?_, fun j hj => ?_⟩
    · rw [hlen', hlen, hget']
      by_cases hi' : i < buf.length - off
      · rw [Nat.mod_eq_of_lt (by omega), if_neg (by omega), hget, if_pos (by omega),
          Nat.add_sub_cancel_left, List.getElem?_take_of_lt hi']
      · have hmod : (off + i) % buf.length = off + i - buf.length := by
          rw [Nat.mod_eq_sub_mod (by omega), Nat.mod_eq_of_lt (by omega)]
        rw [hmod, if_pos (by omega), List.getElem?_drop]
        congr 1
        omega
    · rw [hget', hget]
      -- a cell of either part would be one of the run
      rw [if_neg, if_neg]
      · rintro ⟨hle, hlt⟩
        refine hj (j - off) (by omega) ?_
        rw [Nat.mod_eq_of_lt (by omega)]
        omega
      · rintro ⟨-, hlt⟩
        refine hj (buf.length - off + j) (by omega) ?_
        rw [Nat.mod_eq_sub_mod (by omega), Nat.mod_eq_of_lt (by omega)]
        omega
  · refine ⟨b, rfl, hlen, fun i hi => ?_, fun j hj => ?_⟩
    · rw [hlen, hget, Nat.mod_eq_of_lt (by omega), if_pos (by omega), Nat.add_sub_cancel_left,
        List.getElem?_take_of_lt (by omega)]
    · rw [hget, if_neg]
      rintro ⟨hle, hlt⟩
      refine hj (j - off) (by omega) ?_
      rw [Nat.mod_eq_of_lt (by omega)]
      omega

/-- **What is stored behind a run leaves it alone**, unless it comes round to it. -/
theorem Holds.put_behind (h : Holds buf off t) (hk : t.length ≤ k) (hfit : k + s.length ≤ buf.length)
    (hlen : b.length = buf.length)
    (hkeep : ∀ j, (∀ i, i < s.length → ((off + k) % buf.length + i) % buf.length ≠ j) →
      b[j]? = buf[j]?) : Holds b off t := by
  intro i hi
  rw [hlen, hkeep, h i hi]
  intro i' hi' hcell
  rw [Nat.mod_add_mod, Nat.add_assoc] at hcell
  have hsame : k + i' = i := Window.slot_injective (by omega) (by omega) hcell
  omega

/-- A run of any length up to that of the buffer is read. -/
theorem get_some (hoff : off < buf.length) (hn : n ≤ buf.length) :
    ∃ s, get buf off n = some s ∧ s.length = n ∧ Holds buf off s := by
  unfold get copyOut
  rw [if_pos (by omega), Option.bind_some]
  have hfirst : ((buf.drop off).take (min (buf.length - off) n)).length =
      min (buf.length - off) n := by
    rw [List.length_take, List.length_drop]
    omega
  have hhead : Holds buf off ((buf.drop off).take (min (buf.length - off) n)) := by
    intro i hi
    rw [hfirst] at hi
    rw [Nat.mod_eq_of_lt (by omega), List.getElem?_take_of_lt hi, List.getElem?_drop]
  by_cases hwrap : buf.length - off < n
  · rw [if_pos hwrap, if_pos (by omega), Option.map_some]
    have hrest : ((buf.drop 0).take (n - (buf.length - off))).length = n - (buf.length - off) := by
      rw [List.length_take, List.length_drop]
      omega
    refine ⟨_, rfl, by rw [List.length_append, hfirst, hrest]; omega, ?_⟩
    rw [holds_append]
    refine ⟨hhead, fun i hi => ?_⟩
    rw [hrest] at hi
    rw [hfirst, Nat.min_eq_left (by omega), List.getElem?_take_of_lt hi, List.getElem?_drop]
    congr 1
    rw [Nat.mod_eq_sub_mod (by omega), Nat.mod_eq_of_lt (by omega)]
    omega
  · exact ⟨_, if_neg hwrap, by rw [hfirst]; omega, hhead⟩

/-- **What is held is read back.** -/
theorem get_of_holds (h : Holds buf off s) (hoff : off < buf.length) (hs : s.length ≤ buf.length) :
    get buf off s.length = some s := by
  obtain ⟨t, ht, hlen, hholds⟩ := get_some (n := s.length) hoff hs
  rw [ht, hholds.unique h hlen]

end Circular
