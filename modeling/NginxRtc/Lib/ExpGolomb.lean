/-
  Bit strings, the most significant bit first, and Exp-Golomb codes.

  `ofBytes` is the bit string of a byte string and `value` the number a bit string stands for.  The
  code of `n` is `n + 1` in binary behind as many zeros as it has digits after the first.

  `getElem?_ofBytes`: a bit of a byte string is a bit of one of its bytes.  `value_digits`: the digits
  of a number stand for it.  `value_suffix`: how the two parts of a code give `n` back.
-/
import Mathlib.Algebra.GroupWithZero.Nat
import Mathlib.Data.List.Basic

namespace Bits

/-- The last `k` binary digits of `m`. -/
def digits : ℕ → ℕ → List Bool
  | 0, _ => []
  | k + 1, m => m.testBit k :: digits k m

/-- The number whose binary digits are the bits. -/
def value : List Bool → ℕ
  | [] => 0
  | b :: bs => b.toNat * 2 ^ bs.length + value bs

def ofByte (b : UInt8) : List Bool := digits 8 b.toNat

def ofBytes (data : List UInt8) : List Bool := data.flatMap ofByte

@[simp] theorem length_digits (k m : ℕ) : (digits k m).length = k := by
  induction k with
  | zero => rfl
  | succ k ih => rw [digits, List.length_cons, ih]

theorem getElem?_digits {k i : ℕ} (m : ℕ) (h : i < k) :
    (digits k m)[i]? = some (m.testBit (k - 1 - i)) := by
  induction k generalizing i with
  | zero => cases h
  | succ k ih =>
    cases i with
    | zero => rfl
    | succ i =>
      rw [digits, List.getElem?_cons_succ, ih (by omega)]
      congr 2
      omega

theorem value_digits (k m : ℕ) : value (digits k m) = m % 2 ^ k := by
  induction k with
  | zero => simp [digits, value, Nat.mod_one]
  | succ k ih =>
    rw [digits, value, length_digits, ih, Nat.toNat_testBit, Nat.mod_pow_succ]
    exact (Nat.add_comm _ _).trans (by rw [Nat.mul_comm])

@[simp] theorem length_ofBytes (data : List UInt8) : (ofBytes data).length = 8 * data.length := by
  induction data with
  | nil => rfl
  | cons b data ih =>
    rw [ofBytes, List.flatMap_cons, List.length_append, ofByte, length_digits, List.length_cons]
    rw [ofBytes] at ih
    omega

theorem getElem?_ofBytes (data : List UInt8) (i : ℕ) :
    (ofBytes data)[i]? = data[i / 8]?.map fun b => b.toNat.testBit (7 - i % 8) := by
  induction data generalizing i with
  | nil => rfl
  | cons b data ih =>
    have hlen : (ofByte b).length = 8 := length_digits 8 b.toNat
    rw [ofBytes, List.flatMap_cons]
    rcases Nat.lt_or_ge i 8 with hi | hi
    · rw [List.getElem?_append_left (by omega), ofByte, getElem?_digits _ hi,
        Nat.div_eq_of_lt hi, Nat.mod_eq_of_lt hi]
      rfl
    · have hdiv : i / 8 = (i - 8) / 8 + 1 := by omega
      rw [List.getElem?_append_right (by omega), hlen, hdiv, List.getElem?_cons_succ,
        show i % 8 = (i - 8) % 8 by omega]
      exact ih (i - 8)

end Bits

namespace ExpGolomb

/-- How many digits of `n + 1` follow the first. -/
def order (n : ℕ) : ℕ := (n + 1).log2

/-- What follows the first digit of `n + 1`. -/
def suffix (n : ℕ) : List Bool := Bits.digits (order n) (n + 1)

/-- The Exp-Golomb code of `n`. -/
def code (n : ℕ) : List Bool := List.replicate (order n) false ++ true :: suffix n

example : [code 0, code 1, code 2, code 6] =
    [[true], [false, true, false], [false, true, true], [false, false, true, true, true]] := by decide

@[simp] theorem length_suffix (n : ℕ) : (suffix n).length = order n := Bits.length_digits _ _

theorem length_code (n : ℕ) : (code n).length = 2 * order n + 1 := by
  rw [code, List.length_append, List.length_replicate, List.length_cons, length_suffix]
  omega

theorem two_pow_order_le (n : ℕ) : 2 ^ order n ≤ n + 1 := Nat.log2_self_le (by omega)

theorem lt_two_pow_order (n : ℕ) : n + 1 < 2 ^ (order n + 1) := Nat.lt_log2_self

theorem order_lt {n k : ℕ} (h : n + 1 < 2 ^ k) : order n < k :=
  (Nat.log2_lt (by omega)).2 h

/-- The suffix counts on from the smallest number of its order. -/
theorem value_suffix (n : ℕ) : 2 ^ order n - 1 + Bits.value (suffix n) = n := by
  have hle := two_pow_order_le n
  have hlt := lt_two_pow_order n
  rw [Nat.pow_succ] at hlt
  have hmod : (n + 1) % 2 ^ order n = n + 1 - 2 ^ order n := by
    rw [Nat.mod_eq_sub_mod hle, Nat.mod_eq_of_lt (by omega)]
  rw [suffix, Bits.value_digits, hmod]
  omega

end ExpGolomb
