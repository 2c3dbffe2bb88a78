/-
  Writing JSON strings with escapes.

  A string may spell a byte in several ways; an `Escaper` has one for each byte.

  `Escaper.string_text`: whatever an escaper writes is read back.  `Escaper.valid_text`: it is UTF-8 if
  and only if what was escaped is.
-/
import NginxRtc.Lib.Json.Write

namespace Utf8

theorem valid_append_cons {s t : List UInt8} {q : UInt8} (hq : q < 0x80) :
    Valid (s ++ q :: t) ↔ Valid s ∧ Valid t := by
  constructor
  · exact Valid.split hq
  · rintro ⟨hs, ht⟩
    exact hs.append (Json.Written.utf8_cons hq ht)

theorem valid_ascii_append {w : List UInt8} (h : ∀ b ∈ w, b < 0x80) (t : List UInt8) :
    Valid (w ++ t) ↔ Valid t := by
  induction w with
  | nil => rfl
  | cons b w ih =>
    obtain ⟨hb, hw⟩ := List.forall_mem_cons.1 h
    rw [← ih hw]
    exact (valid_append_cons (s := []) hb).trans (and_iff_right valid_nil)

end Utf8

namespace Json

/-- A text that stands for the byte `c` in a string: itself, an escape of one character, or its number
    if it is ASCII. -/
inductive Spells (c : UInt8) : List UInt8 → Prop
  | byte : Ordinary c → Spells c [c]
  | letter {e : UInt8} : e ≠ 117 → escaped e = some c → Spells c [92, e]
  | unit {x y z w : UInt8} : hex4 x y z w = some c.toNat → c < 0x80 → Spells c [92, 117, x, y, z, w]

/-- A text for every byte. -/
structure Escaper where
  byte : UInt8 → List UInt8
  spells : ∀ c, Spells c (byte c)

/-! ## Reading back -/

theorem encode_ascii {c : UInt8} (h : c < 0x80) : encode c.toNat = [c] := by
  have hc : c.toNat < 0x80 := UInt8.lt_iff_toNat_lt.1 h
  have hval : (Char.ofNat c.toNat).val.toNat = c.toNat := by
    rw [Char.ofNat, dif_pos (.inl (by omega))]
    rfl
  rw [encode, if_neg (by omega), String.utf8EncodeChar]
  simp only [hval]
  rw [if_pos (by omega), UInt8.ofNat_toNat]

/-- A code unit of ASCII is no surrogate. -/
theorem decode_ascii {c : UInt8} (h : c < 0x80) (ps : List Piece) :
    decode (.unit c.toNat :: ps) = c :: decode ps := by
  have hc : c.toNat < 0x80 := UInt8.lt_iff_toNat_lt.1 h
  have hone : encode c.toNat ++ decode ps = c :: decode ps := by rw [encode_ascii h, List.singleton_append]
  match ps with
  | [] => exact hone
  | .byte b :: ps => exact hone
  | .unit v :: ps => rwa [decode, if_neg (by omega)]

theorem Spells.pieces {c : UInt8} {t : List UInt8} (h : Spells c t) (s : List UInt8) :
    ∃ p, Json.pieces (t ++ s) = (Json.pieces s).map (fun r => (p :: r.1, r.2)) ∧
      ∀ ps, decode (p :: ps) = c :: decode ps := by
  cases h with
  | byte ho => exact ⟨.byte c, pieces_ordinary ho s, fun ps => by rw [decode]⟩
  | letter he hc =>
    refine ⟨.byte c, ?_, fun ps => by rw [decode]⟩
    show Json.pieces (92 :: _ :: s) = _
    rw [pieces_escape he, hc, Option.bind_some]
  | unit hx hc =>
    refine ⟨.unit c.toNat, ?_, decode_ascii hc⟩
    show Json.pieces (92 :: 117 :: _ :: _ :: _ :: _ :: s) = _
    rw [pieces_unit, hx, Option.bind_some]

/-! ## UTF-8 -/

theorem ascii_of_hexValue {c : UInt8} {n : ℕ} (h : hexValue c = some n) : c < 0x80 := by
  unfold hexValue at h
  split_ifs at h with hdigit hupper hlower
  · exact UInt8.lt_of_le_of_lt hdigit.2 (by decide)
  · exact UInt8.lt_of_le_of_lt hupper.2 (by decide)
  · exact UInt8.lt_of_le_of_lt hlower.2 (by decide)

theorem ascii_of_hex4 {x y z w : UInt8} {n : ℕ} (h : hex4 x y z w = some n) :
    x < 0x80 ∧ y < 0x80 ∧ z < 0x80 ∧ w < 0x80 := by
  unfold hex4 at h
  split at h
  next hx hy hz hw =>
    exact ⟨ascii_of_hexValue hx, ascii_of_hexValue hy, ascii_of_hexValue hz, ascii_of_hexValue hw⟩
  · cases h

theorem ascii_of_escaped {e c : UInt8} (h : escaped e = some c) : e < 0x80 ∧ c < 0x80 := by
  unfold escaped at h
  split_ifs at h with hself hb hf hn hr ht <;> cases h
  · rcases hself with rfl | rfl | rfl <;> decide
  all_goals
    subst e
    decide

/-- A byte is spelled as itself, or it is ASCII and its text is. -/
theorem Spells.cases_ascii {c : UInt8} {t : List UInt8} (h : Spells c t) :
    t = [c] ∨ c < 0x80 ∧ ∃ w, t = 92 :: w ∧ ∀ b ∈ w, b < 0x80 := by
  cases h with
  | byte _ => exact .inl rfl
  | letter _ hc =>
    obtain ⟨he, hc⟩ := ascii_of_escaped hc
    exact .inr ⟨hc, _, rfl, fun b hb => List.mem_singleton.1 hb ▸ he⟩
  | unit hx hc =>
    obtain ⟨hx, hy, hz, hw⟩ := ascii_of_hex4 hx
    refine .inr ⟨hc, _, rfl, ?_⟩
    rintro b hb
    simp only [List.mem_cons, List.not_mem_nil, or_false] at hb
    rcases hb with rfl | rfl | rfl | rfl | rfl
    · decide
    · exact hx
    · exact hy
    · exact hz
    · exact hw

namespace Escaper

variable (e : Escaper)

/-- What is written for a string. -/
def text (s : List UInt8) : List UInt8 := s.flatMap e.byte

theorem text_cons (c : UInt8) (s : List UInt8) : e.text (c :: s) = e.byte c ++ e.text s := rfl

/-- **What was escaped is read back.** -/
theorem string_text (s r : List UInt8) : string (e.text s ++ 34 :: r) = some (s, r) := by
  have hpieces : ∃ ps, pieces (e.text s ++ 34 :: r) = some (ps, r) ∧ decode ps = s := by
    induction s with
    | nil => exact ⟨[], pieces_quote r, rfl⟩
    | cons c s ih =>
      obtain ⟨ps, hps, hs⟩ := ih
      obtain ⟨p, hp, hc⟩ := (e.spells c).pieces (e.text s ++ 34 :: r)
      refine ⟨p :: ps, ?_, by rw [hc, hs]⟩
      rw [text_cons, List.append_assoc, hp, hps]
      rfl
  obtain ⟨ps, hps, hs⟩ := hpieces
  rw [string, hps, Option.map_some, hs]

theorem valid_append_text (p s : List UInt8) : Utf8.Valid (p ++ e.text s) ↔ Utf8.Valid (p ++ s) := by
  induction s generalizing p with
  | nil => rfl
  | cons c s ih =>
    rw [text_cons]
    rcases (e.spells c).cases_ascii with h | ⟨hc, w, hw, hascii⟩
    · rw [h, ← List.append_assoc, ih, List.append_assoc, List.singleton_append]
    · rw [hw, List.cons_append, Utf8.valid_append_cons (by decide), Utf8.valid_ascii_append hascii,
        Utf8.valid_append_cons hc]
      exact and_congr_right fun _ => ih []

theorem valid_text (s : List UInt8) : Utf8.Valid (e.text s) ↔ Utf8.Valid s := e.valid_append_text [] s

/-- A string between quotes. -/
theorem reads_text (s : List UInt8) : Reads (.string s) (quoted (e.text s)) := by
  intro n r hn _
  cases n with
  | zero => exact absurd hn (by simp [quoted])
  | succ n =>
    rw [value, quoted, List.cons_append, skip_quote, List.append_assoc]
    dsimp only
    rw [if_pos rfl, List.singleton_append, string_text]
    rfl

end Escaper

end Json
