/-
  Flat JSON objects as they are written: the values of all members are strings, the escapes are
  those of one letter for the quote, the backslash, the slash, line feed, carriage return and tab,
  and blanks stand between the tokens.

  `raw_quote`: a quote in the text of a string is an escaped one.  `count_raw`: a string has as
  many quotes as its text.  `split_count`: a text splits in one way at the quote that a given number
  of quotes follow.
-/
import Mathlib.Data.List.Basic
import NginxRtc.Lib.Json.Write
import NginxRtc.Lib.Text

namespace Json.Flat

/-! ## Strings -/

inductive Escape where
  | quote
  | backslash
  | slash
  | newline
  | ret
  | tab
deriving DecidableEq

namespace Escape

/-- The letter behind the backslash. -/
def letter : Escape → UInt8
  | quote => 34
  | backslash => 92
  | slash => 47
  | newline => 110
  | ret => 114
  | tab => 116

/-- The byte that is meant. -/
def value : Escape → UInt8
  | quote => 34
  | backslash => 92
  | slash => 47
  | newline => 10
  | ret => 13
  | tab => 9

end Escape

/-- A byte of a string: one that stands for itself, or an escape. -/
inductive Glyph where
  | plain (b : {b : UInt8 // b ≠ 34 ∧ b ≠ 92})
  | esc (e : Escape)
deriving DecidableEq

namespace Glyph

def raw : Glyph → List UInt8
  | plain b => [b]
  | esc e => [92, e.letter]

def value : Glyph → UInt8
  | plain b => b
  | esc e => e.value

end Glyph

/-- The text of a string, between its quotes. -/
def raw (gs : List Glyph) : List UInt8 := gs.flatMap Glyph.raw

/-- The bytes of a string. -/
def value (gs : List Glyph) : List UInt8 := gs.map Glyph.value

theorem raw_cons (g : Glyph) (gs : List Glyph) : raw (g :: gs) = g.raw ++ raw gs := rfl

theorem count_raw (gs : List Glyph) : (raw gs).count 34 = (value gs).count 34 := by
  induction gs with
  | nil => rfl
  | cons g gs ih =>
    have hg : g.raw.count 34 = [g.value].count 34 := by
      cases g with
      | plain b => rfl
      | esc e => cases e <;> rfl
    rw [raw_cons, List.count_append, ih, hg, ← List.count_append]
    rfl

/-- **A quote in the text of a string** is that of an escape. -/
theorem raw_quote {gs : List Glyph} {a b : List UInt8} (h : raw gs = a ++ 34 :: b) :
    ∃ gs₁ gs₂, gs = gs₁ ++ .esc .quote :: gs₂ ∧ raw gs₂ = b := by
  induction gs generalizing a with
  | nil => exact absurd h.symm (by simp [raw])
  | cons g gs ih =>
    rw [raw_cons] at h
    cases g with
    | plain c =>
      cases a with
      | nil => exact absurd (List.cons.inj h).1 c.2.1
      | cons x a =>
        obtain ⟨gs₁, gs₂, rfl, hb⟩ := ih (List.cons.inj h).2
        exact ⟨_ :: gs₁, gs₂, rfl, hb⟩
    | esc e =>
      match a with
      | [] => exact absurd (List.cons.inj h).1 (by decide)
      | [x] =>
        obtain ⟨hletter, hb⟩ := List.cons.inj (List.cons.inj h).2
        refine ⟨[], gs, ?_, hb⟩
        cases e with
        | quote => rfl
        | backslash | slash | newline | ret | tab => exact absurd hletter (by decide)
      | x :: y :: a =>
        obtain ⟨gs₁, gs₂, rfl, hb⟩ := ih (List.cons.inj (List.cons.inj h).2).2
        exact ⟨_ :: gs₁, gs₂, rfl, hb⟩

/-! ## Objects -/

/-- Spaces and tabs. -/
abbrev Blanks := {w : List UInt8 // ∀ c ∈ w, Text.blank c = true}

/-- A member, with the blanks before its name, around its colon and behind its value. -/
structure Member where
  indent : Blanks
  name : List Glyph
  beforeColon : Blanks
  afterColon : Blanks
  value : List Glyph
  trail : Blanks

/-- A member from its name on to its value. -/
def Member.body (m : Member) : List UInt8 :=
  34 :: (raw m.name ++ 34 :: (m.beforeColon.1 ++ 58 :: (m.afterColon.1 ++ 34 :: raw m.value)))

def Member.text (m : Member) : List UInt8 := m.indent.1 ++ (m.body ++ 34 :: m.trail.1)

structure Object where
  indent : Blanks
  members : List Member
  trail : Blanks

def Object.text (o : Object) : List UInt8 :=
  o.indent.1 ++ 123 :: (commas (o.members.map Member.text) ++ 125 :: o.trail.1)

/-- The text up to the name of `m`, behind the members `ms`. -/
def Object.before (o : Object) (ms : List Member) (m : Member) : List UInt8 :=
  o.indent.1 ++ 123 :: (ms.flatMap (fun n => n.text ++ [44]) ++ m.indent.1)

/-- The text behind the value of `m`, before the members `ns`. -/
def Object.after (o : Object) (m : Member) (ns : List Member) : List UInt8 :=
  m.trail.1 ++ (ns.flatMap (fun n => 44 :: n.text) ++ 125 :: o.trail.1)

theorem commas_mid (ms ns : List Member) (m : Member) :
    commas ((ms ++ m :: ns).map Member.text) =
      ms.flatMap (fun n => n.text ++ [44]) ++ (m.text ++ ns.flatMap fun n => 44 :: n.text) := by
  induction ms with
  | nil => simp [commas, List.flatMap_map]
  | cons k ms ih =>
    have hne : ∀ ts : List (List UInt8), ts ≠ [] → ∀ t, commas (t :: ts) = t ++ 44 :: commas ts := by
      intro ts hts t
      obtain ⟨u, ts, rfl⟩ := List.exists_cons_of_ne_nil hts
      rfl
    rw [List.cons_append, List.map_cons, hne _ (by simp), ih]
    simp

theorem Object.text_eq {o : Object} {ms ns : List Member} {m : Member}
    (h : o.members = ms ++ m :: ns) : o.text = o.before ms m ++ (m.body ++ 34 :: o.after m ns) := by
  rw [Object.text, h, commas_mid]
  simp [Object.before, Object.after, Member.text]

/-! ## The last quotes of a text -/

/-- A text splits in one way at the element that a given number of its like follow. -/
theorem split_count {α : Type} [DecidableEq α] {c : α} {p q x y : List α}
    (h : p ++ c :: x = q ++ c :: y) (hc : x.count c = y.count c) : p = q ∧ x = y := by
  rcases List.append_eq_append_iff.1 h with ⟨a, rfl, ha⟩ | ⟨a, rfl, ha⟩
  · cases a with
    | nil => exact ⟨(List.append_nil p).symm, (List.cons.inj ha).2⟩
    | cons d a =>
      rw [List.cons_append] at ha
      obtain ⟨rfl, rfl⟩ := List.cons.inj ha
      simp only [List.count_append, List.count_cons_self] at hc
      omega
  · cases a with
    | nil => exact ⟨List.append_nil q, (List.cons.inj ha).2.symm⟩
    | cons d a =>
      rw [List.cons_append] at ha
      obtain ⟨rfl, rfl⟩ := List.cons.inj ha
      simp only [List.count_append, List.count_cons_self] at hc
      omega

end Json.Flat
