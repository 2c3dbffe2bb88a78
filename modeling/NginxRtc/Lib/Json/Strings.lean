/-
  The strings of JSON texts (RFC 8259).

  `string` reads a string behind its opening quote; what comes out are the bytes of its characters.
  `string_of_ordinary`: a string that needs no escapes is read back from between quotes.
  `ordinary_of_string`: any other text between quotes is not, if a comma and a quote follow.
-/
import NginxRtc.Lib.Utf8

namespace Json

/-! ## Strings -/

/-- A part of a string: a byte that stands for itself, or a code unit of UTF-16 behind `\u`. -/
inductive Piece where
  | byte (b : UInt8)
  | unit (u : ℕ)
deriving DecidableEq

/-- The digits of a number in base 16. -/
def hexValue (c : UInt8) : Option ℕ :=
  if 48 ≤ c ∧ c ≤ 57 then some (c.toNat - 48)
  else if 65 ≤ c ∧ c ≤ 70 then some (c.toNat - 55)
  else if 97 ≤ c ∧ c ≤ 102 then some (c.toNat - 87)
  else none

def hex4 (a b c d : UInt8) : Option ℕ :=
  match hexValue a, hexValue b, hexValue c, hexValue d with
  | some a, some b, some c, some d => some (((a * 16 + b) * 16 + c) * 16 + d)
  | _, _, _, _ => none

/-- What an escape of one character stands for. -/
def escaped (c : UInt8) : Option UInt8 :=
  if c = 34 ∨ c = 92 ∨ c = 47 then some c
  else if c = 98 then some 8
  else if c = 102 then some 12
  else if c = 110 then some 10
  else if c = 114 then some 13
  else if c = 116 then some 9
  else none

/-- The parts of a string up to its closing quote, and what follows. -/
def pieces : List UInt8 → Option (List Piece × List UInt8)
  | [] => none
  | c :: s =>
    if c = 34 then some ([], s)
    else if c < 32 then none
    else if c ≠ 92 then (pieces s).map fun r => (.byte c :: r.1, r.2)
    else
      match s with
      | [] => none
      | e :: s =>
        if e ≠ 117 then
          match escaped e with
          | none => none
          | some b => (pieces s).map fun r => (.byte b :: r.1, r.2)
        else
          match s with
          | x :: y :: z :: w :: s =>
            match hex4 x y z w with
            | none => none
            | some u => (pieces s).map fun r => (.unit u :: r.1, r.2)
          | _ => none

/-- The encoding of a code point; what is none is replaced. -/
def encode (n : ℕ) : List UInt8 :=
  String.utf8EncodeChar (if 0xd800 ≤ n ∧ n < 0xe000 then Char.ofNat 0xfffd else Char.ofNat n)

/-- The bytes of a string; two surrogates in a row are one character. -/
def decode : List Piece → List UInt8
  | [] => []
  | .byte b :: ps => b :: decode ps
  | .unit u :: .unit v :: ps =>
    if 0xd800 ≤ u ∧ u < 0xdc00 ∧ 0xdc00 ≤ v ∧ v < 0xe000 then
      encode (0x10000 + (u - 0xd800) * 0x400 + (v - 0xdc00)) ++ decode ps
    else encode u ++ decode (.unit v :: ps)
  | .unit u :: ps => encode u ++ decode ps

/-- A string behind its opening quote. -/
def string (s : List UInt8) : Option (List UInt8 × List UInt8) :=
  (pieces s).map fun r => (decode r.1, r.2)

/-- A byte that a string writes as itself. -/
def Ordinary (c : UInt8) : Prop := 32 ≤ c ∧ c ≠ 34 ∧ c ≠ 92

instance (c : UInt8) : Decidable (Ordinary c) :=
  inferInstanceAs (Decidable (32 ≤ c ∧ c ≠ 34 ∧ c ≠ 92))

/-- A string that is written without escapes. -/
def Unescaped (s : List UInt8) : Prop := ∀ c ∈ s, Ordinary c

instance (s : List UInt8) : Decidable (Unescaped s) := List.decidableBAll Ordinary s

/-- A string that can stand between quotes as it is. -/
structure Plain (s : List UInt8) : Prop where
  utf8 : Utf8.Valid s
  unescaped : Unescaped s

/-- ASCII text that can stand between quotes as it is. -/
def Printable (s : List UInt8) : Prop := ∀ c ∈ s, Ordinary c ∧ c < 0x80

instance (s : List UInt8) : Decidable (Printable s) :=
  List.decidableBAll (fun c => Ordinary c ∧ c < 0x80) s

theorem Printable.plain {s : List UInt8} (h : Printable s) : Plain s :=
  ⟨Utf8.valid_ascii fun c hc => (h c hc).2, fun c hc => (h c hc).1⟩

theorem Printable.append {s t : List UInt8} (hs : Printable s) (ht : Printable t) :
    Printable (s ++ t) :=
  List.forall_mem_append.2 ⟨hs, ht⟩

theorem pieces_ordinary {c : UInt8} (h : Ordinary c) (s : List UInt8) :
    pieces (c :: s) = (pieces s).map fun r => (.byte c :: r.1, r.2) := by
  rw [pieces.eq_def]
  dsimp only
  rw [if_neg h.2.1, if_neg (UInt8.not_lt.2 h.1), if_pos h.2.2]

theorem pieces_quote (s : List UInt8) : pieces (34 :: s) = some ([], s) := by
  rw [pieces.eq_def]
  rfl

theorem pieces_control {c : UInt8} (h : ¬ c = 34) (hlt : c < 32) (s : List UInt8) :
    pieces (c :: s) = none := by
  rw [pieces.eq_def]
  dsimp only
  rw [if_neg h, if_pos hlt]

theorem pieces_escape {e : UInt8} (h : e ≠ 117) (s : List UInt8) :
    pieces (92 :: e :: s) =
      (escaped e).bind fun b => (pieces s).map fun r => (.byte b :: r.1, r.2) := by
  rw [pieces.eq_def]
  dsimp only
  rw [if_neg (by decide), if_neg (by decide), if_neg (by decide), if_pos h]
  cases escaped e <;> rfl

theorem pieces_unit (x y z w : UInt8) (s : List UInt8) :
    pieces (92 :: 117 :: x :: y :: z :: w :: s) =
      (hex4 x y z w).bind fun u => (pieces s).map fun r => (.unit u :: r.1, r.2) := by
  rw [pieces.eq_def]
  dsimp only
  rw [if_neg (by decide), if_neg (by decide), if_neg (by decide), if_neg (by decide)]
  cases hex4 x y z w <;> rfl

theorem pieces_of_ordinary {s : List UInt8} (h : Unescaped s) (r : List UInt8) :
    pieces (s ++ 34 :: r) = some (s.map .byte, r) := by
  induction s with
  | nil => exact pieces_quote r
  | cons c s ih =>
    obtain ⟨hc, hs⟩ := List.forall_mem_cons.1 h
    rw [List.cons_append, pieces_ordinary hc, ih hs]
    rfl

theorem decode_bytes (s : List UInt8) : decode (s.map .byte) = s := by
  induction s with
  | nil => rfl
  | cons c s ih => rw [List.map_cons, decode, ih]

/-- Between quotes, as it is. -/
def quoted (s : List UInt8) : List UInt8 := 34 :: (s ++ [34])

/-- **A plain string** is read back from between quotes. -/
theorem string_of_ordinary {s : List UInt8} (h : Unescaped s) (r : List UInt8) :
    string (s ++ 34 :: r) = some (s, r) := by
  rw [string, pieces_of_ordinary h, Option.map_some, decode_bytes]

/-! ### Strings that need an escape -/

theorem length_encode (n : ℕ) : (encode n).length ≤ 4 := by
  unfold encode
  fun_cases String.utf8EncodeChar <;> simp

/-- The room a part takes, at most. -/
def Piece.room : Piece → ℕ
  | .byte _ => 1
  | .unit _ => 5

theorem length_decode (ps : List Piece) : (decode ps).length ≤ (ps.map Piece.room).sum := by
  induction ps using decode.induct with
  | case1 => exact le_refl _
  | case2 b ps ih =>
    simp only [decode, List.length_cons, List.map_cons, List.sum_cons, Piece.room]
    omega
  | case3 u v ps h ih =>
    have henc := length_encode (0x10000 + (u - 0xd800) * 0x400 + (v - 0xdc00))
    simp only [decode, if_pos h, List.length_append, List.map_cons, List.sum_cons, Piece.room]
    omega
  | case4 u v ps h ih =>
    have henc := length_encode u
    simp only [decode, if_neg h, List.length_append, List.map_cons, List.sum_cons, Piece.room]
      at ih ⊢
    omega
  | case5 u ps hne ih =>
    have henc := length_encode u
    rw [decode]
    · simp only [List.length_append, List.map_cons, List.sum_cons, Piece.room]
      omega
    · exact hne

theorem decode_append_byte (ps : List Piece) (b : UInt8) :
    decode (ps ++ [.byte b]) = decode ps ++ [b] := by
  induction ps using decode.induct with
  | case1 => rfl
  | case2 c ps ih => rw [List.cons_append, decode, ih, decode, List.cons_append]
  | case3 u v ps h ih =>
    rw [List.cons_append, List.cons_append, decode, if_pos h, ih, decode, if_pos h,
      List.append_assoc]
  | case4 u v ps h ih =>
    rw [List.cons_append, List.cons_append, decode, if_neg h]
    rw [List.cons_append] at ih
    rw [ih, decode, if_neg h, List.append_assoc]
  | case5 u ps hne ih =>
    rw [List.cons_append, decode, ih, decode, List.append_assoc]
    · exact hne
    · intro v qs hqs
      cases ps with
      | nil => exact nomatch hqs
      | cons p ps => exact hne v ps (by rw [(List.cons.inj hqs).1])

theorem hexValue_quote : hexValue 34 = none := by decide

theorem hex4_eq_none {a b c d : UInt8} (h : a = 34 ∨ b = 34 ∨ c = 34 ∨ d = 34) :
    hex4 a b c d = none := by
  unfold hex4
  rcases h with rfl | rfl | rfl | rfl <;> rw [hexValue_quote]
  all_goals split <;> simp_all

/-- What comes of a text `s` that was put between quotes as it is, with a comma and a quote behind it:
    the string ends in `s`, and short of its end if anything needed an escape, or `s` ends in a
    backslash and the string in the comma. -/
def Quoted (s : List UInt8) (ps : List Piece) : Prop :=
  ((ps.map Piece.room).sum ≤ s.length ∧
    (s.length ≤ (ps.map Piece.room).sum → Unescaped s)) ∨
  ∃ qs s', ps = qs ++ [.byte 44] ∧ s = s' ++ [92]

/-- An escape takes more room than what it stands for. -/
theorem Quoted.escape {s w : List UInt8} {p : Piece} {ps : List Piece} (h : Quoted s ps)
    (hp : p.room < w.length) : Quoted (w ++ s) (p :: ps) := by
  rcases h with ⟨hroom, -⟩ | ⟨qs, s', rfl, rfl⟩
  · refine .inl ?_
    simp only [List.map_cons, List.sum_cons, List.length_append]
    exact ⟨by omega, by omega⟩
  · exact .inr ⟨p :: qs, w ++ s', rfl, (List.append_assoc ..).symm⟩

theorem Quoted.ordinary {s : List UInt8} {c : UInt8} {ps : List Piece} (h : Quoted s ps)
    (hc : Ordinary c) : Quoted (c :: s) (.byte c :: ps) := by
  rcases h with ⟨hroom, hall⟩ | ⟨qs, s', rfl, rfl⟩
  · refine .inl ?_
    simp only [List.map_cons, List.sum_cons, List.length_cons, Piece.room]
    exact ⟨by omega, fun hlen => List.forall_mem_cons.2 ⟨hc, hall (by omega)⟩⟩
  · exact .inr ⟨.byte c :: qs, c :: s', rfl, rfl⟩

/-- A quote is not a digit in base 16. -/
theorem pieces_short {s : List UInt8} (hs : ∀ x y z w s', s = x :: y :: z :: w :: s' → False)
    (t : List UInt8) : pieces (92 :: 117 :: (s ++ 34 :: 44 :: 34 :: t)) = none := by
  rcases s with - | ⟨x, - | ⟨y, - | ⟨z, - | ⟨w, s⟩⟩⟩⟩
  · cases t with
    | nil =>
      rw [pieces.eq_def]
      rfl
    | cons w t =>
      rw [List.nil_append, pieces_unit, hex4_eq_none (.inl rfl)]
      rfl
  · rw [List.singleton_append, pieces_unit, hex4_eq_none (.inr (.inl rfl))]
    rfl
  · rw [List.cons_append, List.singleton_append, pieces_unit,
      hex4_eq_none (.inr (.inr (.inl rfl)))]
    rfl
  · rw [List.cons_append, List.cons_append, List.singleton_append, pieces_unit,
      hex4_eq_none (.inr (.inr (.inr rfl)))]
    rfl
  · exact (hs x y z w s rfl).elim

theorem pieces_quoted {s t : List UInt8} {ps : List Piece} {r : List UInt8}
    (h : pieces (s ++ 34 :: 44 :: 34 :: t) = some (ps, r)) : Quoted s ps := by
  induction s using pieces.induct generalizing ps r with
  | case1 =>
    rw [List.nil_append, pieces_quote] at h
    obtain ⟨rfl, -⟩ := Prod.mk.inj (Option.some.inj h)
    exact .inl ⟨le_refl _, fun _ c hc => nomatch hc⟩
  | case2 s =>
    rw [List.cons_append, pieces_quote] at h
    obtain ⟨rfl, -⟩ := Prod.mk.inj (Option.some.inj h)
    exact .inl ⟨Nat.zero_le _, fun hlen => absurd hlen (Nat.not_succ_le_zero _)⟩
  | case3 c s hq hlow =>
    rw [List.cons_append, pieces_control hq hlow] at h
    exact nomatch h
  | case4 c s hq hlow hb ih =>
    have hc : Ordinary c := ⟨UInt8.not_lt.1 hlow, hq, hb⟩
    rw [List.cons_append, pieces_ordinary hc] at h
    obtain ⟨r', hr, heq⟩ := Option.map_eq_some_iff.1 h
    obtain ⟨rfl, -⟩ := Prod.mk.inj heq
    exact (ih hr).ordinary hc
  | case5 c hq hlow hb =>
    obtain rfl := not_not.1 hb
    have hcomma : Ordinary 44 := by decide
    rw [List.singleton_append, pieces_escape (by decide), pieces_ordinary hcomma,
      pieces_quote] at h
    obtain ⟨rfl, -⟩ := Prod.mk.inj (Option.some.inj h)
    exact .inr ⟨[.byte 34], [], rfl, rfl⟩
  | case6 c hq hlow hb e s he hnone =>
    obtain rfl := not_not.1 hb
    rw [List.cons_append, List.cons_append, pieces_escape he, hnone] at h
    exact nomatch h
  | case7 c hq hlow hb e s he b hsome ih =>
    obtain rfl := not_not.1 hb
    rw [List.cons_append, List.cons_append, pieces_escape he, hsome] at h
    obtain ⟨r', hr, heq⟩ := Option.map_eq_some_iff.1 h
    obtain ⟨rfl, -⟩ := Prod.mk.inj heq
    exact (ih hr).escape (w := [92, e]) (Nat.lt_succ_self 1)
  | case8 c hq hlow hb e he x y z w s hnone =>
    obtain rfl := not_not.1 hb
    obtain rfl := not_not.1 he
    simp only [List.cons_append, pieces_unit, hnone] at h
    exact nomatch h
  | case9 c hq hlow hb e he x y z w s u hsome ih =>
    obtain rfl := not_not.1 hb
    obtain rfl := not_not.1 he
    simp only [List.cons_append, pieces_unit, hsome] at h
    obtain ⟨r', hr, heq⟩ := Option.map_eq_some_iff.1 h
    obtain ⟨rfl, -⟩ := Prod.mk.inj heq
    exact (ih hr).escape (w := [92, 117, x, y, z, w]) (Nat.lt_succ_self 5)
  | case10 c hq hlow hb e s he hs =>
    obtain rfl := not_not.1 hb
    obtain rfl := not_not.1 he
    rw [List.cons_append, List.cons_append, pieces_short hs] at h
    exact nomatch h

/-- **A string that comes back as it was put between quotes** needed no escape. -/
theorem ordinary_of_string {s t r : List UInt8}
    (h : string (s ++ 34 :: 44 :: 34 :: t) = some (s, r)) : Unescaped s := by
  obtain ⟨⟨ps, r'⟩, hps, heq⟩ := Option.map_eq_some_iff.1 h
  obtain ⟨hs, -⟩ := Prod.mk.inj heq
  have hlen := length_decode ps
  rw [hs] at hlen
  rcases pieces_quoted hps with ⟨-, hall⟩ | ⟨qs, s', rfl, rfl⟩
  · exact hall hlen
  · rw [decode_append_byte] at hs
    have hlast := congrArg List.getLast? hs
    simp at hlast

end Json
