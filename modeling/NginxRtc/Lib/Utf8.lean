/-
  UTF-8: the bytes of characters.

  `Valid.split`: no character spans an ASCII byte, so that both sides of one are valid.
-/
import Mathlib.Data.List.Basic
import Mathlib.Data.UInt

namespace Utf8

/-! ## UTF-8 -/

/-- The bytes are those of some characters. -/
def Valid (s : List UInt8) : Prop := ∃ cs : List Char, cs.flatMap String.utf8EncodeChar = s

theorem valid_nil : Valid [] := ⟨[], rfl⟩

theorem Valid.append {s t : List UInt8} (hs : Valid s) (ht : Valid t) : Valid (s ++ t) := by
  obtain ⟨cs, rfl⟩ := hs
  obtain ⟨ds, rfl⟩ := ht
  exact ⟨cs ++ ds, List.flatMap_append⟩

theorem valid_char (c : Char) : Valid (String.utf8EncodeChar c) :=
  ⟨[c], by rw [List.flatMap_singleton]⟩

theorem valid_ascii {s : List UInt8} (h : ∀ b ∈ s, b < 0x80) : Valid s := by
  induction s with
  | nil => exact valid_nil
  | cons b s ih =>
    obtain ⟨hb, hs⟩ := List.forall_mem_cons.1 h
    have hb : b.toNat < 0x80 := UInt8.lt_iff_toNat_lt.1 hb
    have hc : String.utf8EncodeChar (Char.ofNat b.toNat) = [b] := by
      have hvalid : b.toNat.isValidChar := .inl (by omega)
      have hval : (Char.ofNat b.toNat).val.toNat = b.toNat := by
        rw [Char.ofNat, dif_pos hvalid]
        rfl
      rw [String.utf8EncodeChar]
      simp only [hval]
      rw [if_pos (by omega), UInt8.ofNat_toNat]
    rw [← List.singleton_append, ← hc]
    exact (valid_char _).append (ih hs)

/-- A character is one ASCII byte, or has none. -/
theorem encode_cases (c : Char) :
    (∃ b, String.utf8EncodeChar c = [b]) ∨ ∀ b ∈ String.utf8EncodeChar c, 0x80 ≤ b := by
  fun_cases String.utf8EncodeChar c with
  | case1 => exact .inl ⟨_, rfl⟩
  | case2 =>
    refine .inr fun b hb => ?_
    simp only [List.mem_cons, List.not_mem_nil, or_false] at hb
    rw [UInt8.le_iff_toNat_le]
    rcases hb with rfl | rfl <;> simp <;> omega
  | case3 =>
    refine .inr fun b hb => ?_
    simp only [List.mem_cons, List.not_mem_nil, or_false] at hb
    rw [UInt8.le_iff_toNat_le]
    rcases hb with rfl | rfl | rfl <;> simp <;> omega
  | case4 =>
    refine .inr fun b hb => ?_
    simp only [List.mem_cons, List.not_mem_nil, or_false] at hb
    rw [UInt8.le_iff_toNat_le]
    rcases hb with rfl | rfl | rfl | rfl <;> simp <;> omega

/-- **No character spans an ASCII byte.** -/
theorem Valid.split {s t : List UInt8} {q : UInt8} (hq : q < 0x80) (h : Valid (s ++ q :: t)) :
    Valid s ∧ Valid t := by
  obtain ⟨cs, hcs⟩ := h
  induction cs generalizing s with
  | nil => simp at hcs
  | cons c cs ih =>
    rw [List.flatMap_cons] at hcs
    rcases List.append_eq_append_iff.1 hcs with ⟨s', rfl, hrest⟩ | ⟨u, hu, hrest⟩
    · obtain ⟨hs, ht⟩ := ih hrest
      exact ⟨(valid_char c).append hs, ht⟩
    cases u with
    | nil =>
      obtain ⟨-, ht⟩ := @ih [] hrest.symm
      rw [List.append_nil] at hu
      exact ⟨hu ▸ valid_char c, ht⟩
    | cons x u =>
      obtain ⟨rfl, rfl⟩ := List.cons.inj hrest
      rcases encode_cases c with ⟨b, hb⟩ | hhigh
      · rw [hb] at hu
        have hnil : s = [] ∧ u = [] := by
          cases s with
          | nil => exact ⟨rfl, (List.cons.inj hu).2.symm⟩
          | cons y s => simp at hu
        obtain ⟨rfl, rfl⟩ := hnil
        exact ⟨valid_nil, cs, rfl⟩
      · have hmem : q ∈ String.utf8EncodeChar c := by
          rw [hu]
          exact List.mem_append_right _ List.mem_cons_self
        have hge := UInt8.le_iff_toNat_le.1 (hhigh q hmem)
        have hlt := UInt8.lt_iff_toNat_lt.1 hq
        omega

end Utf8
