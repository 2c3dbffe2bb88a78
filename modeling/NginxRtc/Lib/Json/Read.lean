/-
  JSON texts (RFC 8259), as a reader sees them.

  `value` reads one value from the front of a text, to a depth given as fuel; the strings of a value
  are the bytes of their characters, its numbers the text they were written as.  `IsText` says that
  a text is one document.

  `value_mono`: what is read at some depth is read at any greater one.  `value_object`,
  `members_value`, `value_array`, `elements_value`: what must have been read for a text to be an
  object, or an array.
-/
import NginxRtc.Lib.Json.Strings
import NginxRtc.Lib.Text

namespace Json

/-! ## Values -/

inductive Value where
  | null
  | bool (b : Bool)
  | number (text : List UInt8)
  | string (bytes : List UInt8)
  | array (vs : List Value)
  | object (ms : List (List UInt8 × Value))

/-- The members of an object under a name. -/
def Value.members (name : List UInt8) : Value → List Value
  | .object ms => (ms.filter (·.1 = name)).map Prod.snd
  | _ => []

/-! ### Reading -/

def isSpace (c : UInt8) : Bool := c = 32 || c = 9 || c = 10 || c = 13

def skip (s : List UInt8) : List UInt8 := s.dropWhile isSpace

/-- The integer part of a number; it has no leading zero. -/
def intPart : List UInt8 → Option (List UInt8 × List UInt8)
  | [] => none
  | c :: s =>
    if c = 48 then some ([48], s)
    else if Text.isDigit c then some (c :: s.takeWhile Text.isDigit, s.dropWhile Text.isDigit)
    else none

/-- At least one digit, behind what was read of the number. -/
def digits (w s : List UInt8) : Option (List UInt8 × List UInt8) :=
  if s.takeWhile Text.isDigit = [] then none
  else some (w ++ s.takeWhile Text.isDigit, s.dropWhile Text.isDigit)

/-- The fraction, if there is one. -/
def fracPart (w : List UInt8) : List UInt8 → Option (List UInt8 × List UInt8)
  | [] => some (w, [])
  | c :: s => if c = 46 then digits (w ++ [46]) s else some (w, c :: s)

/-- The exponent, if there is one. -/
def expPart (w : List UInt8) : List UInt8 → Option (List UInt8 × List UInt8)
  | [] => some (w, [])
  | c :: s =>
    if c = 101 ∨ c = 69 then
      if s.head? = some 43 ∨ s.head? = some 45 then digits (w ++ c :: s.take 1) (s.drop 1)
      else digits (w ++ [c]) s
    else some (w, c :: s)

/-- A number: its text, and what follows. -/
def number (s : List UInt8) : Option (List UInt8 × List UInt8) :=
  let sign := if s.head? = some 45 then [45] else []
  (intPart (s.drop sign.length)).bind fun r =>
    (fracPart (sign ++ r.1) r.2).bind fun r => expPart r.1 r.2

/-- The values that are written as a word. -/
def literals : List (List UInt8 × Value) :=
  [(Text.ascii "null", .null), (Text.ascii "true", .bool true), (Text.ascii "false", .bool false)]

def literal (s : List UInt8) : Option (Value × List UInt8) :=
  (literals.find? fun l => l.1.isPrefixOf s).map fun l => (l.2, s.drop l.1.length)

/-- The byte `c`, behind space. -/
def expect (c : UInt8) (s : List UInt8) : Option (List UInt8) :=
  if (skip s).head? = some c then some (skip s).tail else none

/-- The comma or the closing bracket behind an item, and whether it was the comma. -/
def separator (close : UInt8) (s : List UInt8) : Option (Bool × List UInt8) :=
  if (skip s).head? = some 44 then some (true, (skip s).tail)
  else if (skip s).head? = some close then some (false, (skip s).tail)
  else none

/-- The name of a member, with the colon behind it. -/
def key (s : List UInt8) : Option (List UInt8 × List UInt8) :=
  (expect 34 s).bind fun s => (string s).bind fun r => (expect 58 r.2).map fun s => (r.1, s)

mutual

/-- One value from the front of a text, and what follows it. -/
def value : ℕ → List UInt8 → Option (Value × List UInt8)
  | 0, _ => none
  | n + 1, s =>
    match skip s with
    | [] => none
    | c :: s =>
      if c = 34 then (string s).map fun r => (.string r.1, r.2)
      else if c = 91 then
        if (skip s).head? = some 93 then some (.array [], (skip s).tail)
        else (elements n s).map fun r => (.array r.1, r.2)
      else if c = 123 then
        if (skip s).head? = some 125 then some (.object [], (skip s).tail)
        else (members n s).map fun r => (.object r.1, r.2)
      else if c = 45 ∨ Text.isDigit c then (number (c :: s)).map fun r => (.number r.1, r.2)
      else literal (c :: s)

/-- The elements of an array up to its bracket. -/
def elements : ℕ → List UInt8 → Option (List Value × List UInt8)
  | 0, _ => none
  | n + 1, s =>
    (value n s).bind fun v => (separator 93 v.2).bind fun q =>
      if q.1 then (elements n q.2).map fun r => (v.1 :: r.1, r.2) else some ([v.1], q.2)

/-- The members of an object up to its brace. -/
def members : ℕ → List UInt8 → Option (List (List UInt8 × Value) × List UInt8)
  | 0, _ => none
  | n + 1, s =>
    (key s).bind fun k => (value n k.2).bind fun v => (separator 125 v.2).bind fun q =>
      if q.1 then (members n q.2).map fun r => ((k.1, v.1) :: r.1, r.2)
      else some ([(k.1, v.1)], q.2)

end

/-- The bytes are a JSON text, of the document `v`. -/
def IsText (s : List UInt8) (v : Value) : Prop :=
  Utf8.Valid s ∧ ∃ n r, value n s = some (v, r) ∧ skip r = []

/-! ### More depth changes nothing -/

/-- What a reader finds, the next one finds. -/
def Extends {α : Type} (f g : List UInt8 → Option α) : Prop := ∀ s x, f s = some x → g s = some x

theorem extends_succ (n : ℕ) :
    Extends (value n) (value (n + 1)) ∧ Extends (elements n) (elements (n + 1)) ∧
      Extends (members n) (members (n + 1)) := by
  induction n with
  | zero =>
    refine ⟨?_, ?_, ?_⟩
    · intro s x h
      rw [value] at h
      exact nomatch h
    · intro s x h
      rw [elements] at h
      exact nomatch h
    · intro s x h
      rw [members] at h
      exact nomatch h
  | succ n ih =>
    obtain ⟨hv, he, hm⟩ := ih
    refine ⟨?_, ?_, ?_⟩
    · intro s x h
      rw [value] at h ⊢
      cases hs : skip s with
      | nil => rw [hs] at h; exact nomatch h
      | cons c s =>
        rw [hs] at h
        dsimp only at h ⊢
        split_ifs at h ⊢
        · exact h
        · exact h
        · obtain ⟨r, hr, rfl⟩ := Option.map_eq_some_iff.1 h
          rw [he _ _ hr, Option.map_some]
        · exact h
        · obtain ⟨r, hr, rfl⟩ := Option.map_eq_some_iff.1 h
          rw [hm _ _ hr, Option.map_some]
        · exact h
        · exact h
    · intro s x h
      rw [elements] at h ⊢
      obtain ⟨v, hval, h⟩ := Option.bind_eq_some_iff.1 h
      obtain ⟨q, hsep, h⟩ := Option.bind_eq_some_iff.1 h
      rw [hv _ _ hval, Option.bind_some, hsep, Option.bind_some]
      split_ifs at h ⊢
      · obtain ⟨r, hr, rfl⟩ := Option.map_eq_some_iff.1 h
        rw [he _ _ hr, Option.map_some]
      · exact h
    · intro s x h
      rw [members] at h ⊢
      obtain ⟨k, hkey, h⟩ := Option.bind_eq_some_iff.1 h
      obtain ⟨v, hval, h⟩ := Option.bind_eq_some_iff.1 h
      obtain ⟨q, hsep, h⟩ := Option.bind_eq_some_iff.1 h
      rw [hkey, Option.bind_some, hv _ _ hval, Option.bind_some, hsep, Option.bind_some]
      split_ifs at h ⊢
      · obtain ⟨r, hr, rfl⟩ := Option.map_eq_some_iff.1 h
        rw [hm _ _ hr, Option.map_some]
      · exact h

/-- **A value that is read at some depth** is read at any greater one. -/
theorem value_mono {n m : ℕ} (h : n ≤ m) {s : List UInt8} {x : Value × List UInt8}
    (hv : value n s = some x) : value m s = some x := by
  induction h with
  | refl => exact hv
  | step _ ih => exact (extends_succ _).1 s x ih

/-! ### One token -/

theorem skip_cons {c : UInt8} (h : isSpace c = false) (s : List UInt8) : skip (c :: s) = c :: s := by
  rw [skip, List.dropWhile_cons, if_neg (by rw [h]; exact Bool.false_ne_true)]

theorem skip_quote (s : List UInt8) : skip (34 :: s) = 34 :: s := skip_cons (by decide) s

theorem separator_comma (close : UInt8) (s : List UInt8) :
    separator close (44 :: s) = some (true, s) := by
  rw [separator, skip_cons (by decide)]
  rfl

theorem separator_close {close : UInt8} (h : close = 93 ∨ close = 125) (s : List UInt8) :
    separator close (close :: s) = some (false, s) := by
  rcases h with rfl | rfl
  · rw [separator, skip_cons (by decide)]
    rfl
  · rw [separator, skip_cons (by decide)]
    rfl

theorem key_quoted {k : List UInt8} (h : Unescaped k) (s : List UInt8) :
    key (quoted k ++ 58 :: s) = some (k, s) := by
  have hquote : expect 34 (quoted k ++ 58 :: s) = some (k ++ 34 :: 58 :: s) := by
    rw [quoted, List.cons_append, expect, skip_quote, List.append_assoc]
    rfl
  rw [key, hquote, Option.bind_some, string_of_ordinary h, Option.bind_some, expect,
    skip_cons (by decide)]
  rfl

theorem skip_quoted (k s : List UInt8) : (skip (quoted k ++ s)).head? = some 34 := by
  rw [quoted, List.cons_append, skip_quote, List.head?_cons]

/-! ### What must have been read -/

theorem value_string {x r : List UInt8} {n : ℕ} {v : Value} (h : value n (34 :: x) = some (v, r)) :
    ∃ d, string x = some (d, r) ∧ v = .string d := by
  cases n with
  | zero =>
    rw [value] at h
    exact nomatch h
  | succ n =>
    rw [value, skip_quote] at h
    dsimp only at h
    rw [if_pos rfl] at h
    obtain ⟨⟨d, r'⟩, hd, heq⟩ := Option.map_eq_some_iff.1 h
    obtain ⟨rfl, rfl⟩ := Prod.mk.inj heq
    exact ⟨d, hd, rfl⟩

theorem value_array {x r : List UInt8} (hx : (skip x).head? ≠ some 93) {n : ℕ} {v : Value}
    (h : value n (91 :: x) = some (v, r)) :
    ∃ m vs, elements m x = some (vs, r) ∧ v = .array vs := by
  cases n with
  | zero =>
    rw [value] at h
    exact nomatch h
  | succ n =>
    rw [value, skip_cons (by decide)] at h
    dsimp only at h
    rw [if_neg (by decide), if_pos rfl, if_neg hx] at h
    obtain ⟨⟨vs, r'⟩, hvs, heq⟩ := Option.map_eq_some_iff.1 h
    obtain ⟨rfl, rfl⟩ := Prod.mk.inj heq
    exact ⟨n, vs, hvs, rfl⟩

theorem value_object {x r : List UInt8} (hx : (skip x).head? ≠ some 125) {n : ℕ} {v : Value}
    (h : value n (123 :: x) = some (v, r)) :
    ∃ m ms, members m x = some (ms, r) ∧ v = .object ms := by
  cases n with
  | zero =>
    rw [value] at h
    exact nomatch h
  | succ n =>
    rw [value, skip_cons (by decide)] at h
    dsimp only at h
    rw [if_neg (by decide), if_neg (by decide), if_pos rfl, if_neg hx] at h
    obtain ⟨⟨ms, r'⟩, hms, heq⟩ := Option.map_eq_some_iff.1 h
    obtain ⟨rfl, rfl⟩ := Prod.mk.inj heq
    exact ⟨n, ms, hms, rfl⟩

/-- The first element of an array, and the rest if a comma follows. -/
theorem elements_value {x r : List UInt8} {n : ℕ} {vs : List Value}
    (h : elements n x = some (vs, r)) :
    ∃ m v s ws, value m x = some (v, s) ∧ vs = v :: ws ∧
      ∀ y, s = 44 :: y → elements m y = some (ws, r) := by
  cases n with
  | zero =>
    rw [elements] at h
    exact nomatch h
  | succ n =>
    rw [elements] at h
    obtain ⟨⟨v, s⟩, hv, h⟩ := Option.bind_eq_some_iff.1 h
    obtain ⟨⟨more, s'⟩, hsep, h⟩ := Option.bind_eq_some_iff.1 h
    dsimp only at hsep h
    split_ifs at h with hmore
    · obtain ⟨⟨ws, r'⟩, hws, heq⟩ := Option.map_eq_some_iff.1 h
      obtain ⟨rfl, rfl⟩ := Prod.mk.inj heq
      refine ⟨n, v, s, ws, hv, rfl, ?_⟩
      rintro y rfl
      rw [separator_comma] at hsep
      obtain ⟨-, rfl⟩ := Prod.mk.inj (Option.some.inj hsep)
      exact hws
    · obtain ⟨rfl, rfl⟩ := Prod.mk.inj (Option.some.inj h)
      refine ⟨n, v, s, [], hv, rfl, ?_⟩
      rintro y rfl
      rw [separator_comma] at hsep
      exact absurd (Prod.mk.inj (Option.some.inj hsep)).1.symm hmore

/-- The first member of an object, and the rest if a comma follows. -/
theorem members_value {k x r : List UInt8} (hk : Unescaped k) {n : ℕ}
    {ms : List (List UInt8 × Value)} (h : members n (quoted k ++ 58 :: x) = some (ms, r)) :
    ∃ m v s ns, value m x = some (v, s) ∧ ms = (k, v) :: ns ∧
      ∀ y, s = 44 :: y → members m y = some (ns, r) := by
  cases n with
  | zero =>
    rw [members] at h
    exact nomatch h
  | succ n =>
    rw [members, key_quoted hk, Option.bind_some] at h
    obtain ⟨⟨v, s⟩, hv, h⟩ := Option.bind_eq_some_iff.1 h
    obtain ⟨⟨more, s'⟩, hsep, h⟩ := Option.bind_eq_some_iff.1 h
    dsimp only at hsep h
    split_ifs at h with hmore
    · obtain ⟨⟨ns, r'⟩, hns, heq⟩ := Option.map_eq_some_iff.1 h
      obtain ⟨rfl, rfl⟩ := Prod.mk.inj heq
      refine ⟨n, v, s, ns, hv, rfl, ?_⟩
      rintro y rfl
      rw [separator_comma] at hsep
      obtain ⟨-, rfl⟩ := Prod.mk.inj (Option.some.inj hsep)
      exact hns
    · obtain ⟨rfl, rfl⟩ := Prod.mk.inj (Option.some.inj h)
      refine ⟨n, v, s, [], hv, rfl, ?_⟩
      rintro y rfl
      rw [separator_comma] at hsep
      exact absurd (Prod.mk.inj (Option.some.inj hsep)).1.symm hmore

end Json
