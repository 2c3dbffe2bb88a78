/-
  Big-endian words in byte strings.

  A read of a word is `none` when one of its bytes lies past the end of the string.  `rd32_some` and
  its like: a read inside the string succeeds.  `rd32_wr32` and its like: what was written is read
  back, wherever it stands.
-/
import Mathlib.Algebra.GroupWithZero.Nat
import Mathlib.Data.List.Basic

namespace Wire

/-! ## Reading -/

/-- Two bytes as a word, the first one on top. -/
def word16 (a b : UInt8) : UInt16 := (a.toUInt16 <<< 8) ||| b.toUInt16

def word24 (a b c : UInt8) : UInt32 := (a.toUInt32 <<< 16) ||| (b.toUInt32 <<< 8) ||| c.toUInt32

def word32 (a b c d : UInt8) : UInt32 :=
  (a.toUInt32 <<< 24) ||| (b.toUInt32 <<< 16) ||| (c.toUInt32 <<< 8) ||| d.toUInt32

def word64 (a b : UInt32) : UInt64 := (a.toUInt64 <<< 32) ||| b.toUInt64

variable (b : List UInt8) (i : ℕ)

def rd16 : Option UInt16 :=
  match b[i]?, b[i + 1]? with
  | some x, some y => some (word16 x y)
  | _, _ => none

def rd24 : Option UInt32 :=
  match b[i]?, b[i + 1]?, b[i + 2]? with
  | some x, some y, some z => some (word24 x y z)
  | _, _, _ => none

def rd32 : Option UInt32 :=
  match b[i]?, b[i + 1]?, b[i + 2]?, b[i + 3]? with
  | some x, some y, some z, some t => some (word32 x y z t)
  | _, _, _, _ => none

def rd64 : Option UInt64 :=
  match rd32 b i, rd32 b (i + 4) with
  | some x, some y => some (word64 x y)
  | _, _ => none

/-- The `n` bytes from `i` on. -/
def slice (n : ℕ) : Option (List UInt8) :=
  if i + n ≤ b.length then some ((b.drop i).take n) else none

variable {b : List UInt8} {i : ℕ}

theorem rd8_some (h : i < b.length) : ∃ x, b[i]? = some x :=
  ⟨b[i], List.getElem?_eq_getElem h⟩

theorem rd16_some (h : i + 2 ≤ b.length) : ∃ x, rd16 b i = some x := by
  obtain ⟨x, hx⟩ := rd8_some (b := b) (i := i) (by omega)
  obtain ⟨y, hy⟩ := rd8_some (b := b) (i := i + 1) (by omega)
  exact ⟨word16 x y, by simp only [rd16, hx, hy]⟩

theorem rd24_some (h : i + 3 ≤ b.length) : ∃ x, rd24 b i = some x := by
  obtain ⟨x, hx⟩ := rd8_some (b := b) (i := i) (by omega)
  obtain ⟨y, hy⟩ := rd8_some (b := b) (i := i + 1) (by omega)
  obtain ⟨z, hz⟩ := rd8_some (b := b) (i := i + 2) (by omega)
  exact ⟨word24 x y z, by simp only [rd24, hx, hy, hz]⟩

theorem rd32_some (h : i + 4 ≤ b.length) : ∃ x, rd32 b i = some x := by
  obtain ⟨x, hx⟩ := rd8_some (b := b) (i := i) (by omega)
  obtain ⟨y, hy⟩ := rd8_some (b := b) (i := i + 1) (by omega)
  obtain ⟨z, hz⟩ := rd8_some (b := b) (i := i + 2) (by omega)
  obtain ⟨t, ht⟩ := rd8_some (b := b) (i := i + 3) (by omega)
  exact ⟨word32 x y z t, by simp only [rd32, hx, hy, hz, ht]⟩

theorem rd64_some (h : i + 8 ≤ b.length) : ∃ x, rd64 b i = some x := by
  obtain ⟨x, hx⟩ := rd32_some (b := b) (i := i) (by omega)
  obtain ⟨y, hy⟩ := rd32_some (b := b) (i := i + 4) (by omega)
  exact ⟨word64 x y, by simp only [rd64, hx, hy]⟩

theorem slice_some {n : ℕ} (h : i + n ≤ b.length) : slice b i n = some ((b.drop i).take n) := if_pos h

/-- A word whose last byte lies past the end is not read. -/
theorem rd32_none (h : b.length < i + 4) : rd32 b i = none := by
  unfold rd32
  rw [List.getElem?_eq_none (show b.length ≤ i + 3 by omega)]
  split
  · next h₃ => exact nomatch h₃
  · rfl

/-! ### Reads of a suffix -/

theorem rd24_drop (b : List UInt8) (i k : ℕ) : rd24 (b.drop i) k = rd24 b (i + k) := by
  simp only [rd24, List.getElem?_drop, Nat.add_assoc]

theorem rd32_drop (b : List UInt8) (i k : ℕ) : rd32 (b.drop i) k = rd32 b (i + k) := by
  simp only [rd32, List.getElem?_drop, Nat.add_assoc]

/-! ## Writing -/

def wr16 (v : UInt16) : List UInt8 := [(v >>> 8).toUInt8, v.toUInt8]

def wr24 (v : UInt32) : List UInt8 := [(v >>> 16).toUInt8, (v >>> 8).toUInt8, v.toUInt8]

def wr32 (v : UInt32) : List UInt8 :=
  [(v >>> 24).toUInt8, (v >>> 16).toUInt8, (v >>> 8).toUInt8, v.toUInt8]

def wr64 (v : UInt64) : List UInt8 := wr32 (v >>> 32).toUInt32 ++ wr32 v.toUInt32

@[simp] theorem length_wr16 (v : UInt16) : (wr16 v).length = 2 := rfl

@[simp] theorem length_wr24 (v : UInt32) : (wr24 v).length = 3 := rfl

@[simp] theorem length_wr32 (v : UInt32) : (wr32 v).length = 4 := rfl

@[simp] theorem length_wr64 (v : UInt64) : (wr64 v).length = 8 := rfl

/-! ### What was written is read back -/

theorem or_shift {a b k : ℕ} (h : b < 2 ^ k) : 2 ^ k * a ||| b = 2 ^ k * a + b :=
  (Nat.two_pow_add_eq_or_of_lt h a).symm

/-- A shifted value that stays within the word. -/
theorem shl_mod {x j k n : ℕ} (hx : x < 2 ^ j) (h : j + k ≤ n) : x * 2 ^ k % 2 ^ n = 2 ^ k * x := by
  rw [Nat.mod_eq_of_lt, Nat.mul_comm]
  calc x * 2 ^ k < 2 ^ j * 2 ^ k := Nat.mul_lt_mul_of_pos_right hx (Nat.two_pow_pos k)
    _ = 2 ^ (j + k) := (Nat.pow_add 2 j k).symm
    _ ≤ 2 ^ n := Nat.pow_le_pow_right Nat.two_pos h

theorem word16_toNat (a b : UInt8) : (word16 a b).toNat = 256 * a.toNat + b.toNat := by
  simp only [word16, UInt16.toNat_or, UInt16.toNat_shiftLeft, UInt8.toNat_toUInt16,
    Nat.shiftLeft_eq, UInt16.reduceToNat, Nat.reduceMod]
  rw [shl_mod a.toNat_lt (by decide)]
  exact (or_shift b.toNat_lt).trans (by omega)

theorem word24_toNat (a b c : UInt8) :
    (word24 a b c).toNat = 65536 * a.toNat + 256 * b.toNat + c.toNat := by
  have hb := b.toNat_lt
  have hj : 2 ^ 16 * a.toNat + 2 ^ 8 * b.toNat = 2 ^ 8 * (256 * a.toNat + b.toNat) := by omega
  simp only [word24, UInt32.toNat_or, UInt32.toNat_shiftLeft, UInt8.toNat_toUInt32,
    Nat.shiftLeft_eq, UInt32.reduceToNat, Nat.reduceMod]
  rw [shl_mod a.toNat_lt (by decide), shl_mod b.toNat_lt (by decide), or_shift (by omega), hj]
  exact (or_shift c.toNat_lt).trans (by omega)

theorem word32_toNat (a b c d : UInt8) : (word32 a b c d).toNat =
    16777216 * a.toNat + 65536 * b.toNat + 256 * c.toNat + d.toNat := by
  have hb := b.toNat_lt
  have hc := c.toNat_lt
  have hj : 2 ^ 24 * a.toNat + 2 ^ 16 * b.toNat = 2 ^ 16 * (256 * a.toNat + b.toNat) := by
    simp only [Nat.reducePow]
    omega
  have hk : 2 ^ 16 * (256 * a.toNat + b.toNat) + 2 ^ 8 * c.toNat =
      2 ^ 8 * (65536 * a.toNat + 256 * b.toNat + c.toNat) := by omega
  simp only [word32, UInt32.toNat_or, UInt32.toNat_shiftLeft, UInt8.toNat_toUInt32,
    Nat.shiftLeft_eq, UInt32.reduceToNat, Nat.reduceMod]
  have hb' : 2 ^ 16 * b.toNat < 2 ^ 24 := by
    simp only [Nat.reducePow] at *
    omega
  rw [shl_mod a.toNat_lt (by decide), shl_mod b.toNat_lt (by decide),
    shl_mod c.toNat_lt (by decide), or_shift hb', hj, or_shift (by omega), hk]
  refine (or_shift d.toNat_lt).trans ?_
  omega

theorem word64_toNat (a b : UInt32) : (word64 a b).toNat = 4294967296 * a.toNat + b.toNat := by
  simp only [word64, UInt64.toNat_or, UInt64.toNat_shiftLeft, UInt32.toNat_toUInt64,
    Nat.shiftLeft_eq, UInt64.reduceToNat, Nat.reduceMod]
  rw [shl_mod a.toNat_lt (by decide)]
  refine (or_shift b.toNat_lt).trans ?_
  rw [show 2 ^ 32 = 4294967296 from rfl]

/-- The top byte of a word. -/
theorem word32_top (a b c d : UInt8) : ((word32 a b c d >>> 24) &&& 0xff).toNat = a.toNat := by
  have ha := a.toNat_lt
  have hb := b.toNat_lt
  have hc := c.toNat_lt
  have hd := d.toNat_lt
  simp only [UInt32.toNat_and, UInt32.toNat_shiftRight, word32_toNat, UInt32.reduceToNat,
    Nat.reduceMod, Nat.shiftRight_eq_div_pow, Nat.reducePow] at *
  rw [Nat.and_two_pow_sub_one_eq_mod _ 8]
  omega

theorem word16_bytes (v : UInt16) : word16 (v >>> 8).toUInt8 v.toUInt8 = v := by
  have hv := v.toNat_lt
  refine UInt16.toNat_inj.1 ?_
  rw [word16_toNat]
  simp only [UInt16.toNat_toUInt8, UInt16.toNat_shiftRight, UInt16.reduceToNat, Nat.reduceMod,
    Nat.shiftRight_eq_div_pow, Nat.reducePow] at *
  omega

theorem word24_bytes {v : UInt32} (h : v.toNat < 2 ^ 24) :
    word24 (v >>> 16).toUInt8 (v >>> 8).toUInt8 v.toUInt8 = v := by
  refine UInt32.toNat_inj.1 ?_
  rw [word24_toNat]
  simp only [UInt32.toNat_toUInt8, UInt32.toNat_shiftRight, UInt32.reduceToNat, Nat.reduceMod,
    Nat.shiftRight_eq_div_pow, Nat.reducePow] at *
  omega

theorem word32_bytes (v : UInt32) :
    word32 (v >>> 24).toUInt8 (v >>> 16).toUInt8 (v >>> 8).toUInt8 v.toUInt8 = v := by
  have hv := v.toNat_lt
  refine UInt32.toNat_inj.1 ?_
  rw [word32_toNat]
  simp only [UInt32.toNat_toUInt8, UInt32.toNat_shiftRight, UInt32.reduceToNat, Nat.reduceMod,
    Nat.shiftRight_eq_div_pow, Nat.reducePow] at *
  omega

theorem word64_words (v : UInt64) : word64 (v >>> 32).toUInt32 v.toUInt32 = v := by
  have hv := v.toNat_lt
  refine UInt64.toNat_inj.1 ?_
  rw [word64_toNat]
  simp only [UInt64.toNat_toUInt32, UInt64.toNat_shiftRight, UInt64.reduceToNat, Nat.reduceMod,
    Nat.shiftRight_eq_div_pow, Nat.reducePow] at *
  omega

/-! ## Fields of a word -/

/-- Fields of `w` bits each, the first one on top. -/
def packed (w : ℕ) : List (Fin (2 ^ w)) → ℕ
  | [] => 0
  | d :: ds => d.val * 2 ^ (w * ds.length) + packed w ds

theorem packed_lt (w : ℕ) (ds : List (Fin (2 ^ w))) : packed w ds < 2 ^ (w * ds.length) := by
  induction ds with
  | nil => exact Nat.one_pos
  | cons d ds ih =>
    calc packed w (d :: ds) < d * 2 ^ (w * ds.length) + 2 ^ (w * ds.length) := Nat.add_lt_add_left ih _
      _ = (d + 1) * 2 ^ (w * ds.length) := (Nat.succ_mul _ _).symm
      _ ≤ 2 ^ w * 2 ^ (w * ds.length) := Nat.mul_le_mul_right _ d.isLt
      _ = 2 ^ (w * (d :: ds).length) := by
        rw [← Nat.pow_add, List.length_cons, Nat.mul_succ, Nat.add_comm]

/-- A field is read by a shift and a mask. -/
theorem packed_field {w k : ℕ} {ds : List (Fin (2 ^ w))} (h : k < ds.length) :
    packed w ds / 2 ^ (w * (ds.length - 1 - k)) % 2 ^ w = ds[k] := by
  induction ds generalizing k with
  | nil => exact absurd h (Nat.not_lt_zero k)
  | cons d ds ih =>
    have hlt := packed_lt w ds
    cases k with
    | zero =>
      have hdiv : packed w (d :: ds) / 2 ^ (w * ds.length) = d := by
        rw [packed, Nat.add_comm, Nat.add_mul_div_right _ _ (Nat.two_pow_pos _), Nat.div_eq_of_lt hlt,
          Nat.zero_add]
      simpa [hdiv] using Nat.mod_eq_of_lt d.isLt
    | succ k =>
      have hk : k < ds.length := Nat.lt_of_succ_lt_succ h
      -- the field on top is a multiple of everything up to the field above the one that is read
      have hsplit : w * ds.length = w * (ds.length - 1 - k) + w + w * k := by
        rw [← Nat.mul_succ, ← Nat.mul_add]
        congr 1
        omega
      have hidx : (d :: ds).length - 1 - (k + 1) = ds.length - 1 - k := by
        rw [List.length_cons]
        omega
      have htop : d.val * 2 ^ (w * ds.length) =
          2 ^ (w * (ds.length - 1 - k)) * (2 ^ w * (d.val * 2 ^ (w * k))) := by
        rw [hsplit, Nat.pow_add, Nat.pow_add]
        ac_rfl
      rw [hidx, packed, htop, Nat.mul_add_div (Nat.two_pow_pos _), Nat.mul_add_mod, ih hk,
        List.getElem_cons_succ]

end Wire
