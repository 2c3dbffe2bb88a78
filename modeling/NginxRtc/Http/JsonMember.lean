/-
  The member that `ngx_rtc_http_json_string` finds in a flat object.

  The extractor takes the first quote in the body that the key and another quote follow.  That may
  be a quote of a value: one that is the key, or ends in a quote and the key.  Then it fails on the
  comma behind it.

  `json_string_member`: it returns the value of a member named by the key exactly if the name is
  written without escapes and no quote before it is followed by the key and a quote.
-/
import Mathlib.Data.List.TakeWhile
import NginxRtc.Http.JsonString
import NginxRtc.Lib.Json.Flat

namespace NginxRtc

namespace JsonString
open Json.Flat

variable {key : Bytes} {outCap : ℕ}

/-! ## What the parts of the search find -/

theorem quoted_append (key t : Bytes) : Json.quoted key ++ t = 34 :: (key ++ 34 :: t) := by
  simp [Json.quoted]

/-- The search finds the first quoted key. -/
theorem findIn_some {s : Bytes} {r : Bytes × Bytes} (h : findIn key outCap s = some r) :
    ∃ a t, s = a ++ (Json.quoted key ++ t) ∧
      (∀ i < a.length, ¬Json.quoted key <+: s.drop i) ∧ fieldIn outCap t = some r := by
  induction s with
  | nil => exact nomatch h
  | cons c s ih =>
    rw [findIn] at h
    split at h
    · next hm =>
      obtain ⟨rfl, t, rfl⟩ := hm
      refine ⟨[], t, by simp [Json.quoted], fun i hi => absurd hi (Nat.not_lt_zero i), ?_⟩
      rwa [show key.length + 1 = (key ++ [34]).length by simp, List.drop_left] at h
    · next hm =>
      obtain ⟨a, t, rfl, hno, hf⟩ := ih h
      refine ⟨c :: a, t, rfl, fun i hi => ?_, hf⟩
      cases i with
      | zero =>
        intro hq
        obtain ⟨hc, hkey⟩ := List.cons_prefix_cons.1 hq
        exact hm ⟨hc.symm, hkey⟩
      | succ i => exact hno i (Nat.lt_of_succ_lt_succ hi)

theorem findIn_first {a t : Bytes}
    (h : ∀ i < a.length, ¬Json.quoted key <+: (a ++ (Json.quoted key ++ t)).drop i) :
    findIn key outCap (a ++ (Json.quoted key ++ t)) = fieldIn outCap t := by
  induction a with
  | nil =>
    rw [List.nil_append, quoted_append, findIn, if_pos ⟨rfl, t, by simp⟩]
    congr 1
    rw [show key ++ 34 :: t = (key ++ [34]) ++ t by simp]
    exact List.drop_left' (by simp)
  | cons c a ih =>
    have hne : ¬(c = 34 ∧ key ++ [34] <+: a ++ (Json.quoted key ++ t)) := by
      rintro ⟨rfl, hp⟩
      exact h 0 (Nat.succ_pos _) (List.cons_prefix_cons.2 ⟨rfl, hp⟩)
    rw [List.cons_append, findIn, if_neg hne]
    exact ih fun i hi => h (i + 1) (Nat.succ_lt_succ hi)

theorem fieldIn_eq {w u : Bytes} (hw : ∀ c ∈ w, Text.blank c = true)
    (hu : ∀ c ∈ u, Text.blank c = true) (s : Bytes) :
    fieldIn outCap (w ++ 58 :: (u ++ 34 :: s)) = valueIn outCap [] s := by
  have hcolon : ∀ c ∈ (58 :: (u ++ 34 :: s) : Bytes).head?, Text.blank c = false := by
    rintro c ⟨⟩
    rfl
  have hquote : ∀ c ∈ (34 :: s : Bytes).head?, Text.blank c = false := by
    rintro c ⟨⟩
    rfl
  rw [fieldIn, Text.dropWhile_run hw hcolon]
  simp only [ne_eq, not_true_eq_false, if_false, Text.dropWhile_run hu hquote]

theorem dropWhile_blank {s : Bytes} {c : UInt8} {t : Bytes}
    (h : s.dropWhile Text.blank = c :: t) : ∃ w, s = w ++ c :: t ∧ ∀ b ∈ w, Text.blank b = true := by
  refine ⟨s.takeWhile Text.blank, ?_, fun b hb => List.mem_takeWhile_imp hb⟩
  rw [← h, List.takeWhile_append_dropWhile]

theorem fieldIn_some {t : Bytes} {r : Bytes × Bytes} (h : fieldIn outCap t = some r) :
    ∃ w u s, (∀ c ∈ w, Text.blank c = true) ∧ (∀ c ∈ u, Text.blank c = true) ∧
      t = w ++ 58 :: (u ++ 34 :: s) ∧ valueIn outCap [] s = some r := by
  unfold fieldIn at h
  split at h
  · exact nomatch h
  · next c t' ht =>
    split at h
    · exact nomatch h
    · next hc =>
      split at h
      · exact nomatch h
      · next c' s hs =>
        split at h
        · exact nomatch h
        · next hc' =>
          obtain rfl := not_not.1 hc
          obtain rfl := not_not.1 hc'
          obtain ⟨w, rfl, hw⟩ := dropWhile_blank ht
          obtain ⟨u, rfl, hu⟩ := dropWhile_blank hs
          exact ⟨w, u, s, hw, hu, rfl, h⟩

theorem unescape_letter (e : Escape) : unescape e.letter = e.value := by
  cases e <;> rfl

/-- The value of a string as it is written. -/
theorem valueIn_raw (outCap : ℕ) (out : Bytes) (gs : List Glyph) (t : Bytes) :
    valueIn outCap out (raw gs ++ 34 :: t) =
      if gs = [] ∨ out.length + gs.length < outCap then some (out ++ value gs, t) else none := by
  induction gs generalizing out with
  | nil => simp [raw, value, valueIn_cons]
  | cons g gs ih =>
    have hnext : ∀ b, g.value = b → ¬outCap ≤ out.length + 1 →
        valueIn outCap (out ++ [b]) (raw gs ++ 34 :: t) =
          if g :: gs = [] ∨ out.length + (g :: gs).length < outCap then
            some (out ++ value (g :: gs), t) else none := by
      rintro b rfl hroom
      rw [ih]
      simp only [List.length_append, List.length_cons, List.length_nil, value, List.map_cons,
        List.append_assoc, List.cons_append, List.nil_append, reduceCtorEq, false_or]
      refine if_congr ?_ rfl rfl
      constructor
      · rintro (rfl | h)
        · simp only [List.length_nil]
          omega
        · omega
      · exact fun h => .inr (by omega)
    have hfull : outCap ≤ out.length + 1 →
        (if g :: gs = [] ∨ out.length + (g :: gs).length < outCap then
          some (out ++ value (g :: gs), t) else none) = none := by
      intro hfull
      rw [if_neg]
      simp only [List.length_cons, reduceCtorEq, false_or]
      omega
    cases g with
    | plain b =>
      rw [raw_cons, Glyph.raw, List.cons_append, List.nil_append, List.cons_append, valueIn_cons,
        if_neg b.2.1]
      split
      · next h => rw [hfull h]
      · next h =>
        rw [if_neg b.2.2]
        exact hnext _ rfl h
    | esc e =>
      simp only [raw_cons, Glyph.raw, List.cons_append, List.nil_append]
      rw [valueIn_cons, if_neg (by decide)]
      split
      · next h => rw [hfull h]
      · next h =>
        rw [if_pos rfl]
        exact hnext _ (unescape_letter e).symm h

/-- In what was read as a value every quote is behind a backslash. -/
theorem valueIn_some {out s : Bytes} {r : Bytes × Bytes} (h : valueIn outCap out s = some r) :
    ∃ i, s = i ++ 34 :: r.2 ∧ ∀ a b, i = a ++ 34 :: b → ∃ a', a = a' ++ [92] := by
  fun_induction valueIn outCap out s with
  | case1 | case3 | case4 => exact nomatch h
  | case2 out s =>
    cases h
    exact ⟨[], rfl, fun a b hab => absurd hab (by simp)⟩
  | case5 out _ e s _ ih =>
    obtain ⟨i, rfl, hi⟩ := ih h
    refine ⟨92 :: e :: i, rfl, fun a b hab => ?_⟩
    match a with
    | [] => exact absurd (List.cons.inj hab).1 (by decide)
    | [x] => exact ⟨[], by rw [(List.cons.inj hab).1.symm]; rfl⟩
    | x :: y :: a =>
      obtain ⟨a', rfl⟩ := hi a b (List.cons.inj (List.cons.inj hab).2).2
      exact ⟨x :: y :: a', rfl⟩
  | case6 out c s hquote _ _ ih =>
    obtain ⟨i, rfl, hi⟩ := ih h
    refine ⟨c :: i, rfl, fun a b hab => ?_⟩
    cases a with
    | nil => exact absurd (List.cons.inj hab).1 hquote
    | cons x a =>
      obtain ⟨a', rfl⟩ := hi a b (List.cons.inj hab).2
      exact ⟨x :: a', rfl⟩

/-! ## Where a value begins -/

/-- Two values that end at one quote, and are the same, begin at one quote, if what stands before
    that of the written one is no backslash. -/
theorem same_opening {x y i t : Bytes} {gs : List Glyph}
    (h : x ++ 34 :: i = y ++ 34 :: raw gs) (hy : ∀ z, y ≠ z ++ [92])
    (hi : ∀ a b, i = a ++ 34 :: b → ∃ a', a = a' ++ [92])
    (hv : valueIn outCap [] (i ++ 34 :: t) = some (value gs, t)) : x = y := by
  rcases List.append_eq_append_iff.1 h with ⟨a, rfl, ha⟩ | ⟨a, rfl, ha⟩
  · cases a with
    | nil => exact (List.append_nil x).symm
    | cons c a =>
      rw [List.cons_append] at ha
      obtain ⟨a', rfl⟩ := hi a _ (List.cons.inj ha).2
      exact absurd (List.append_assoc x (c :: a') [92]).symm (hy _)
  · cases a with
    | nil => exact List.append_nil y
    | cons c a =>
      -- the value would begin behind an escaped quote of the written one, and be shorter
      rw [List.cons_append] at ha
      obtain ⟨gs₁, gs₂, rfl, rfl⟩ := raw_quote (List.cons.inj ha).2
      rw [valueIn_raw] at hv
      split at hv
      · have hlen := congrArg List.length (Prod.mk.inj (Option.some.inj hv)).1
        simp [value] at hlen
        omega
      · exact nomatch hv

/-! ## A member -/

/-- At every capacity, and in every chain of buffers, the extractor returns the value of `m` if it
    fits with its terminator, with the reader behind the quote of that value, and else an error. -/
def Extracts (key : Bytes) (o : Object) (m : Member) (after : Bytes) : Prop :=
  ∀ (bufs : List Bytes) (outCap : ℕ), bufs.flatten = o.text → 0 < outCap →
    left (jsonString key outCap (.init (bufs.map some))) =
      if (value m.value).length < outCap then some (value m.value, after) else none

/-- Up to the name of the member no quote is followed by the key and a quote. -/
def NoneBefore (key : Bytes) (text before : Bytes) : Prop :=
  ∀ i < before.length, ¬Json.quoted key <+: text.drop i

instance (key text before : Bytes) : Decidable (NoneBefore key text before) :=
  inferInstanceAs (Decidable (∀ i < before.length, ¬_))

theorem jsonString_bufs (key : Bytes) (outCap : ℕ) (bufs : List Bytes) :
    left (jsonString key outCap (.init (bufs.map some))) = findIn key outCap bufs.flatten := by
  rw [jsonString_rest, ChainReader.rest_init, ChainReader.bytes_some]

variable {o : Object} {ms ns : List Member} {m : Member}

/-- The text up to the quote of the value. -/
theorem text_value (h : o.members = ms ++ m :: ns) :
    o.text = (o.before ms m ++ 34 :: raw m.name) ++
      34 :: ((m.beforeColon.1 ++ 58 :: m.afterColon.1) ++
        34 :: (raw m.value ++ 34 :: o.after m ns)) := by
  rw [o.text_eq h, Member.body]
  simp

theorem no_quote {w u : Blanks} : (w.1 ++ 58 :: u.1).count 34 = 0 := by
  have hblank : ∀ w : Blanks, w.1.count 34 = 0 := by
    intro w
    rw [List.count_eq_zero]
    exact fun hm => absurd (w.2 34 hm) (by decide)
  rw [List.count_append, List.count_cons, hblank, hblank]
  rfl

/-- What stands before the quote of a value does not end in a backslash. -/
theorem no_backslash (p : Bytes) (u : Blanks) (z : Bytes) : p ++ 58 :: u.1 ≠ z ++ [92] := by
  intro h
  have hlast : (p ++ 58 :: u.1).getLast? = some 92 := by rw [h]; simp
  rw [List.getLast?_append] at hlast
  cases hu : u.1.getLast? with
  | none =>
    rw [List.getLast?_eq_none_iff.1 hu] at hlast
    simp at hlast
  | some b =>
    have hb := u.2 b (List.mem_of_getLast? hu)
    rw [List.getLast?_cons, hu] at hlast
    obtain rfl := Option.some.inj hlast
    exact absurd hb (by decide)

/-- **The right member.**  The extractor returns the value of a member named by the key exactly if
    the name is written without escapes and no quote before it is followed by the key and a
    quote. -/
theorem json_string_member (key : Bytes) (o : Object) (ms ns : List Member) (m : Member)
    (hm : o.members = ms ++ m :: ns) (hkey : value m.name = key) :
    Extracts key o m (o.after m ns) ↔
      raw m.name = key ∧ NoneBefore key o.text (o.before ms m) := by
  have htext := text_value hm
  constructor
  · intro h
    have hfound := h [o.text] ((value m.value).length + 1) (List.append_nil _) (Nat.succ_pos _)
    rw [if_pos (Nat.lt_succ_self _), jsonString_bufs, List.flatten_singleton] at hfound
    obtain ⟨a, t, hat, hno, hfield⟩ := findIn_some hfound
    obtain ⟨w, u, s, hw, hu, rfl, hv⟩ := fieldIn_some hfield
    obtain ⟨i, rfl, hi⟩ := valueIn_some hv
    -- the value that was read is the one of the member
    have hends : ((a ++ 34 :: key) ++ 34 :: (w ++ 58 :: u)) ++ 34 :: i =
        ((o.before ms m ++ 34 :: raw m.name) ++ 34 :: (m.beforeColon.1 ++ 58 :: m.afterColon.1)) ++
          34 :: raw m.value := by
      refine (List.append_left_inj (34 :: o.after m ns)).1 ?_
      rw [quoted_append] at hat
      simpa using hat.symm.trans htext
    have hback : ∀ z, (o.before ms m ++ 34 :: raw m.name) ++
        34 :: (m.beforeColon.1 ++ 58 :: m.afterColon.1) ≠ z ++ [92] := by
      intro z hz
      refine no_backslash ((o.before ms m ++ 34 :: raw m.name) ++ 34 :: m.beforeColon.1)
        m.afterColon z ?_
      simpa using hz
    have hopen := same_opening hends hback hi hv
    -- its name ends where the key does, and has as many quotes
    have hquotes := no_quote (w := ⟨w, hw⟩) (u := ⟨u, hu⟩)
    obtain ⟨hname, -⟩ := split_count hopen (hquotes.trans no_quote.symm)
    obtain ⟨rfl, hraw⟩ := split_count hname (by rw [count_raw, hkey])
    exact ⟨hraw.symm, hno⟩
  · rintro ⟨hraw, hno⟩ bufs outCap hbufs hcap
    have hquoted : o.text = o.before ms m ++ (Json.quoted key ++
        (m.beforeColon.1 ++ 58 :: (m.afterColon.1 ++ 34 :: (raw m.value ++ 34 :: o.after m ns)))) := by
      rw [htext, hraw, quoted_append]
      simp
    unfold NoneBefore at hno
    rw [hquoted] at hno
    rw [jsonString_bufs, hbufs, hquoted, findIn_first hno,
      fieldIn_eq m.beforeColon.2 m.afterColon.2, valueIn_raw]
    refine if_congr ?_ rfl rfl
    rw [value, List.length_map, List.length_nil, Nat.zero_add]
    constructor
    · rintro (h | h)
      · rwa [h]
      · exact h
    · exact .inr

/-! ### A value equal to the key -/

/-- `"a"`, `"sdp"` and `"x"`. -/
def glyphsA : List Glyph := [.plain ⟨97, by decide⟩]
def glyphsSdp : List Glyph :=
  [.plain ⟨115, by decide⟩, .plain ⟨100, by decide⟩, .plain ⟨112, by decide⟩]
def glyphsX : List Glyph := [.plain ⟨120, by decide⟩]

def noBlanks : Blanks := ⟨[], fun _ h => nomatch h⟩

def member (name value : List Glyph) : Member :=
  ⟨noBlanks, name, noBlanks, noBlanks, value, noBlanks⟩

/-- An object whose only other member has another value, and one whose other value is the key. -/
def plainObject : Object := ⟨noBlanks, [member glyphsA glyphsX, member glyphsSdp glyphsX], noBlanks⟩
def shadowed : Object := ⟨noBlanks, [member glyphsA glyphsSdp, member glyphsSdp glyphsX], noBlanks⟩

theorem json_string_member_sample :
    Extracts (Text.ascii "sdp") plainObject (member glyphsSdp glyphsX)
      (plainObject.after (member glyphsSdp glyphsX) []) ↔
    raw glyphsSdp = Text.ascii "sdp" ∧ NoneBefore (Text.ascii "sdp") plainObject.text
      (plainObject.before [member glyphsA glyphsX] (member glyphsSdp glyphsX)) :=
  json_string_member _ plainObject [member glyphsA glyphsX] [] _ rfl rfl

/-- The extractor fails on the quoted key that is a value. -/
theorem json_string_shadowed :
    shadowed.text = Text.ascii "\x7b\"a\":\"sdp\",\"sdp\":\"x\"\x7d" ∧
    shadowed.members = [member glyphsA glyphsSdp] ++ member glyphsSdp glyphsX :: [] ∧
    value glyphsSdp = Text.ascii "sdp" ∧ value glyphsA ≠ Text.ascii "sdp" ∧
    value glyphsX = Text.ascii "x" ∧
    left (jsonString (Text.ascii "sdp") 64 (.init [some shadowed.text])) = none := by
  refine ⟨by decide, rfl, by decide, by decide, by decide, ?_⟩
  rw [jsonString_rest]
  decide

end JsonString

end NginxRtc
