/-
  Rounding a machine word up to a power of two by smearing its bits.

  `smear s x` copies every bit of `x` to the position `s` below it.  Doubling the shift six times
  fills all 64 positions below the highest set bit, and adding one gives a power of two.

  `testBit_smear`: which bits a smear sets.  `fill_eq`: a filled word is `2 ^ k - 1`, where `k` is
  the number of bits of the word.
-/
import Mathlib.Data.Nat.Bitwise
import Mathlib.Data.Nat.Size

namespace Smear

/-- The bits of `x`, and each one again `s` positions lower. -/
def smear (s x : ℕ) : ℕ := x ||| (x >>> s)

/-- Some bit of `x` is set at one of the `n` positions from `i` on. -/
def SetFrom (x n i : ℕ) : Prop := ∃ d < n, x.testBit (i + d) = true

theorem setFrom_one (x i : ℕ) : SetFrom x 1 i ↔ x.testBit i = true := by
  constructor
  · rintro ⟨d, hd, h⟩
    obtain rfl : d = 0 := by omega
    exact h
  · intro h
    exact ⟨0, Nat.one_pos, h⟩

/-- **A smear by `n` doubles the reach** of a word whose bits already reach `n` positions down. -/
theorem testBit_smear {x y n : ℕ} (h : ∀ i, y.testBit i = true ↔ SetFrom x n i) (i : ℕ) :
    (smear n y).testBit i = true ↔ SetFrom x (n + n) i := by
  rw [smear, Nat.testBit_or, Nat.testBit_shiftRight, Bool.or_eq_true, h, h]
  constructor
  · rintro (⟨d, hd, hx⟩ | ⟨d, hd, hx⟩)
    · exact ⟨d, by omega, hx⟩
    · exact ⟨n + d, by omega, by rwa [← Nat.add_assoc, Nat.add_comm i n]⟩
  · rintro ⟨d, hd, hx⟩
    by_cases hdn : d < n
    · exact .inl ⟨d, hdn, hx⟩
    · refine .inr ⟨d - n, by omega, ?_⟩
      have he : n + i + (d - n) = i + d := by omega
      rwa [he]

/-- Six smears fill a 64-bit word below its highest bit. -/
def fill (x : ℕ) : ℕ := smear 32 (smear 16 (smear 8 (smear 4 (smear 2 (smear 1 x)))))

theorem testBit_fill (x i : ℕ) : (fill x).testBit i = true ↔ SetFrom x 64 i :=
  testBit_smear (testBit_smear (testBit_smear (testBit_smear (testBit_smear (testBit_smear
    fun i => (setFrom_one x i).symm))))) i

/-- A filled word is all ones up to its highest bit. -/
theorem fill_eq {x : ℕ} (hx : x < 2 ^ 64) : fill x = 2 ^ x.size - 1 := by
  refine Nat.eq_of_testBit_eq fun i => ?_
  rw [Bool.eq_iff_iff, testBit_fill, Nat.testBit_two_pow_sub_one, decide_eq_true_eq]
  constructor
  · rintro ⟨d, -, h⟩
    have hlt : i + d < x.size := by
      by_contra hge
      have hsmall : x < 2 ^ (i + d) := Nat.size_le.1 (not_lt.1 hge)
      rw [Nat.testBit_lt_two_pow hsmall] at h
      exact nomatch h
    omega
  · intro hi
    have hpos : 0 < x := Nat.size_pos.1 (by omega)
    have h64 : x.size ≤ 64 := Nat.size_le.2 hx
    have htop : x.testBit (x.size - 1) = true := by
      have hle : 2 ^ (x.size - 1) ≤ x := by
        by_contra hlt
        have := Nat.size_le.2 (not_le.1 hlt)
        omega
      refine Nat.testBit_of_two_pow_le_and_two_pow_add_one_gt hle ?_
      have hs : x.size - 1 + 1 = x.size := by omega
      rw [hs]
      exact Nat.lt_size_self x
    refine ⟨x.size - 1 - i, by omega, ?_⟩
    have he : i + (x.size - 1 - i) = x.size - 1 := by omega
    rwa [he]

end Smear
