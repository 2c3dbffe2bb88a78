/-
  Writing JSON texts without escapes.

  `Reads`: a text that is read back as a value, whatever delimits it; `reads_string`,
  `reads_decimal`, `reads_array` and `reads_object` put such texts together.  A `Written` is a value
  with its text, and `Written.Ok.isText` says that it is a document.
-/
import NginxRtc.Lib.Json.Read

namespace Json

/-! ## Texts that are read back -/

/-- Texts with commas between them. -/
def commas : List (List UInt8) → List UInt8
  | [] => []
  | t :: ts => t ++ ts.flatMap (44 :: ·)

def arrayText (ts : List (List UInt8)) : List UInt8 := 91 :: (commas ts ++ [93])

/-- A member of an object. -/
def memberText (m : List UInt8 × List UInt8) : List UInt8 := quoted m.1 ++ 58 :: m.2

def objectText (ms : List (List UInt8 × List UInt8)) : List UInt8 :=
  123 :: (commas (ms.map memberText) ++ [125])

/-- An object up to the bracket of the array under `k`, which is not its first member. -/
def openText (ms : List (List UInt8 × List UInt8)) (k : List UInt8) : List UInt8 :=
  123 :: (commas (ms.map memberText) ++ 44 :: (quoted k ++ [58, 91]))

/-- An object from the closing bracket of an array on. -/
def closeText (ms : List (List UInt8 × List UInt8)) : List UInt8 :=
  93 :: ((ms.map memberText).flatMap (44 :: ·) ++ [125])

theorem commas_append {ts : List (List UInt8)} (h : ts ≠ []) (us : List (List UInt8)) :
    commas (ts ++ us) = commas ts ++ us.flatMap (44 :: ·) := by
  obtain ⟨t, ts, rfl⟩ := List.exists_cons_of_ne_nil h
  rw [List.cons_append, commas, commas, List.flatMap_append, List.append_assoc]

theorem exists_commas_eq {t : List UInt8} {ts : List (List UInt8)} (h : t ∈ ts) :
    ∃ a b, commas ts = a ++ t ++ b := by
  obtain ⟨us, vs, rfl⟩ := List.append_of_mem h
  by_cases hnil : us = []
  · subst hnil
    exact ⟨[], vs.flatMap (44 :: ·), rfl⟩
  · refine ⟨commas us ++ [44], vs.flatMap (44 :: ·), ?_⟩
    rw [commas_append hnil, List.flatMap_cons]
    simp only [List.append_assoc, List.cons_append, List.nil_append]

theorem objectText_array {ms : List (List UInt8 × List UInt8)} (h : ms ≠ []) (k : List UInt8)
    (ts : List (List UInt8)) (ns : List (List UInt8 × List UInt8)) :
    objectText (ms ++ (k, arrayText ts) :: ns) = openText ms k ++ (commas ts ++ closeText ns) := by
  have hne : ms.map memberText ≠ [] := fun hnil => h (List.map_eq_nil_iff.1 hnil)
  rw [objectText, List.map_append, List.map_cons, commas_append hne, List.flatMap_cons, openText,
    closeText]
  simp only [memberText, arrayText, List.append_assoc, List.cons_append, List.nil_append]

/-- The text ends, or goes on with a comma or a closing bracket. -/
def Delimited (r : List UInt8) : Prop := ∀ c ∈ r.head?, c = 44 ∨ c = 93 ∨ c = 125

/-- The text `t` is read back as `v`, whatever delimits it. -/
def Reads (v : Value) (t : List UInt8) : Prop :=
  ∀ n r, t.length ≤ n → Delimited r → value n (t ++ r) = some (v, r)

theorem Delimited.cons {c : UInt8} (h : c = 44 ∨ c = 93 ∨ c = 125) (s : List UInt8) :
    Delimited (c :: s) := by
  intro d hd
  obtain rfl := Option.some.inj hd
  exact h

/-- **What is read is what was written**, at any depth. -/
theorem Reads.eq {v : Value} {t r : List UInt8} {n : ℕ} {x : Value × List UInt8} (h : Reads v t)
    (hr : Delimited r) (hx : value n (t ++ r) = some x) : x = (v, r) := by
  have hdeep := value_mono (Nat.le_max_left n t.length) hx
  rw [h _ r (Nat.le_max_right n t.length) hr] at hdeep
  exact (Option.some.inj hdeep).symm

theorem reads_string {s : List UInt8} (h : Unescaped s) :
    Reads (.string s) (quoted s) := by
  intro n r hn _
  cases n with
  | zero => exact absurd hn (by simp [quoted])
  | succ n =>
    rw [value, quoted, List.cons_append, skip_quote, List.append_assoc]
    dsimp only
    rw [if_pos rfl, List.singleton_append, string_of_ordinary h]
    rfl

/-- The first element of an array, and what its separator makes of the rest. -/
theorem elements_reads {v : Value} {t : List UInt8} (h : Reads v t) {n : ℕ} (hn : t.length ≤ n)
    {c : UInt8} (hc : c = 44 ∨ c = 93) (s : List UInt8) :
    elements (n + 1) (t ++ c :: s) =
      if c = 44 then (elements n s).map fun r => (v :: r.1, r.2) else some ([v], s) := by
  rw [elements, h n (c :: s) hn (.cons (by rcases hc with rfl | rfl <;> simp) s), Option.bind_some]
  rcases hc with rfl | rfl
  · rw [separator_comma]
    rfl
  · rw [separator_close (.inl rfl)]
    rfl

theorem members_reads {k : List UInt8} (hk : Unescaped k) {v : Value} {t : List UInt8}
    (h : Reads v t) {n : ℕ} (hn : t.length ≤ n) {c : UInt8} (hc : c = 44 ∨ c = 125)
    (s : List UInt8) :
    members (n + 1) (memberText (k, t) ++ c :: s) =
      if c = 44 then (members n s).map fun r => ((k, v) :: r.1, r.2) else some ([(k, v)], s) := by
  rw [members, memberText, List.append_assoc, List.cons_append, key_quoted hk, Option.bind_some,
    h n (c :: s) hn (.cons (by rcases hc with rfl | rfl <;> simp) s), Option.bind_some]
  rcases hc with rfl | rfl
  · rw [separator_comma]
    rfl
  · rw [separator_close (.inr rfl)]
    rfl

theorem literal_close (s : List UInt8) : literal (93 :: s) = none := rfl

/-- No value begins with a closing bracket. -/
theorem value_close {s : List UInt8} (h : (skip s).head? = some 93) (n : ℕ) : value n s = none := by
  obtain ⟨s', hs⟩ := List.head?_eq_some_iff.1 h
  cases n with
  | zero => rw [value]
  | succ n =>
    rw [value, hs]
    exact literal_close s'

theorem Reads.not_close {v : Value} {t : List UInt8} (h : Reads v t) {r : List UInt8}
    (hr : Delimited r) : (skip (t ++ r)).head? ≠ some 93 := by
  intro hc
  have hv := h t.length r (le_refl _) hr
  rw [value_close hc] at hv
  exact nomatch hv

theorem elements_commas {v : Value} {t : List UInt8} (h : Reads v t) {vs : List Value}
    {ts : List (List UInt8)} (hs : List.Forall₂ Reads vs ts) {n : ℕ}
    (hn : (commas (t :: ts)).length < n) (r : List UInt8) :
    elements n (commas (t :: ts) ++ 93 :: r) = some (v :: vs, r) := by
  induction hs generalizing v t n with
  | nil =>
    rw [commas, List.flatMap_nil, List.append_nil] at hn ⊢
    cases n with
    | zero => exact absurd hn (Nat.not_lt_zero _)
    | succ n =>
      rw [elements_reads h (Nat.le_of_lt_succ hn) (.inr rfl)]
      rfl
  | @cons w u vs ts hw hs ih =>
    have hsplit : commas (t :: u :: ts) = t ++ 44 :: commas (u :: ts) := by
      rw [commas, commas, List.flatMap_cons, List.cons_append]
    rw [hsplit] at hn ⊢
    rw [List.length_append, List.length_cons] at hn
    cases n with
    | zero => exact absurd hn (Nat.not_lt_zero _)
    | succ n =>
      rw [List.append_assoc, List.cons_append, elements_reads h (by omega) (.inl rfl), if_pos rfl,
        ih hw (by omega)]
      rfl

/-- **An array** of texts that are read back. -/
theorem reads_array {vs : List Value} {ts : List (List UInt8)} (hs : List.Forall₂ Reads vs ts) :
    Reads (.array vs) (arrayText ts) := by
  intro n r hn _
  cases n with
  | zero => exact absurd hn (by simp [arrayText])
  | succ n =>
    rw [arrayText, List.length_cons, List.length_append, List.length_singleton] at hn
    rw [value, arrayText, List.cons_append, skip_cons (by decide), List.append_assoc]
    dsimp only
    rw [if_neg (by decide), if_pos rfl, List.singleton_append]
    cases hs with
    | nil => rfl
    | @cons v t vs ts hv hs =>
      have hclose : (skip (commas (t :: ts) ++ 93 :: r)).head? ≠ some 93 := by
        rw [commas, List.append_assoc]
        refine hv.not_close ?_
        cases ts with
        | nil => exact .cons (.inr (.inl rfl)) r
        | cons u ts => exact .cons (.inl rfl) _
      rw [if_neg hclose, elements_commas hv hs (by omega)]
      rfl

/-- A member whose name needs no escape and whose value is read back. -/
structure ReadsMember (m : List UInt8 × Value) (w : List UInt8 × List UInt8) : Prop where
  name : m.1 = w.1
  ordinary : Unescaped m.1
  reads : Reads m.2 w.2

theorem length_memberText (k t : List UInt8) : t.length ≤ (memberText (k, t)).length := by
  rw [memberText, List.length_append, List.length_cons]
  exact Nat.le_add_left_of_le (Nat.le_succ _)

theorem members_commas {k : List UInt8} (hk : Unescaped k) {v : Value} {t : List UInt8}
    (h : Reads v t) {vs : List (List UInt8 × Value)} {ts : List (List UInt8 × List UInt8)}
    (hs : List.Forall₂ ReadsMember vs ts) {n : ℕ}
    (hn : (commas (((k, t) :: ts).map memberText)).length < n) (r : List UInt8) :
    members n (commas (((k, t) :: ts).map memberText) ++ 125 :: r) = some ((k, v) :: vs, r) := by
  have hlen := length_memberText k t
  induction hs generalizing k v t n with
  | nil =>
    rw [List.map_singleton, commas, List.flatMap_nil, List.append_nil] at hn ⊢
    cases n with
    | zero => exact absurd hn (Nat.not_lt_zero _)
    | succ n =>
      rw [members_reads hk h (by omega) (.inr rfl)]
      rfl
  | @cons w u vs ts hw hs ih =>
    obtain ⟨hname, hord, hread⟩ := hw
    have hsplit : commas (((k, t) :: u :: ts).map memberText) =
        memberText (k, t) ++ 44 :: commas ((u :: ts).map memberText) := by
      simp only [List.map_cons, commas, List.flatMap_cons, List.cons_append]
    rw [hsplit] at hn ⊢
    rw [List.length_append, List.length_cons] at hn
    cases n with
    | zero => exact absurd hn (Nat.not_lt_zero _)
    | succ n =>
      obtain ⟨k', v'⟩ := w
      obtain ⟨k'', t'⟩ := u
      obtain rfl : k' = k'' := hname
      dsimp only at hord hread
      rw [List.append_assoc, List.cons_append, members_reads hk h (by omega) (.inl rfl),
        if_pos rfl, ih hord hread (by omega)
          (length_memberText k' t')]
      rfl

/-- **An object** of texts that are read back, under names that need no escape. -/
theorem reads_object {vs : List (List UInt8 × Value)} {ts : List (List UInt8 × List UInt8)}
    (hs : List.Forall₂ ReadsMember vs ts) : Reads (.object vs) (objectText ts) := by
  intro n r hn _
  cases n with
  | zero => exact absurd hn (by simp [objectText])
  | succ n =>
    rw [objectText, List.length_cons, List.length_append, List.length_singleton] at hn
    rw [value, objectText, List.cons_append, skip_cons (by decide), List.append_assoc]
    dsimp only
    rw [if_neg (by decide), if_neg (by decide), if_pos rfl, List.singleton_append]
    cases hs with
    | nil => rfl
    | @cons m w vs ts hm hs =>
      obtain ⟨k, v⟩ := m
      obtain ⟨k', t⟩ := w
      obtain ⟨hname, hord, hread⟩ := hm
      obtain rfl : k = k' := hname
      dsimp only at hord hread
      have hquote : (skip (commas (((k, t) :: ts).map memberText) ++ 125 :: r)).head? ≠
          some 125 := by
        rw [List.map_cons, commas, memberText, quoted]
        simp only [List.cons_append]
        rw [skip_quote, List.head?_cons]
        decide
      rw [if_neg hquote, members_commas hord hread hs (by omega)]
      rfl

/-! ### Numbers -/

theorem Delimited.head {c : UInt8} {r : List UInt8} (h : Delimited (c :: r)) :
    c = 44 ∨ c = 93 ∨ c = 125 := h c rfl

theorem intPart_decimal (n : ℕ) {r : List UInt8} (hr : Delimited r) :
    intPart (Text.decimal n ++ r) = some (Text.decimal n, r) := by
  obtain rfl | hpos := Nat.eq_zero_or_pos n
  · rfl
  · obtain ⟨c, w, hw, hc⟩ := Text.decimal_head hpos
    have hdigit : ∀ d ∈ c :: w, Text.isDigit d = true := by
      rw [← hw]
      exact fun d hd => Text.isDigit_of_mem hd
    obtain ⟨hcd, hwd⟩ := List.forall_mem_cons.1 hdigit
    have hstop : ∀ d ∈ r.head?, Text.isDigit d = false := by
      intro d hd
      rcases hr d hd with rfl | rfl | rfl <;> decide
    rw [hw, List.cons_append, intPart, if_neg hc, if_pos hcd, Text.takeWhile_run hwd hstop,
      Text.dropWhile_run hwd hstop]

theorem fracPart_delimited (w : List UInt8) {r : List UInt8} (hr : Delimited r) :
    fracPart w r = some (w, r) := by
  cases r with
  | nil => rfl
  | cons c r =>
    rw [fracPart, if_neg]
    rcases hr.head with rfl | rfl | rfl <;> decide

theorem expPart_delimited (w : List UInt8) {r : List UInt8} (hr : Delimited r) :
    expPart w r = some (w, r) := by
  cases r with
  | nil => rfl
  | cons c r =>
    rw [expPart, if_neg]
    rcases hr.head with rfl | rfl | rfl <;> decide

theorem number_decimal (n : ℕ) {r : List UInt8} (hr : Delimited r) :
    number (Text.decimal n ++ r) = some (Text.decimal n, r) := by
  have hsign : (Text.decimal n ++ r).head? ≠ some 45 := by
    obtain ⟨c, w, hw⟩ := List.exists_cons_of_ne_nil (Text.decimal_ne_nil n)
    have hc : Text.isDigit c = true := Text.isDigit_of_mem (hw ▸ List.mem_cons_self)
    rw [hw, List.cons_append, List.head?_cons]
    rintro ⟨⟩
    exact absurd hc (by decide)
  simp only [number, if_neg hsign, List.length_nil, List.drop_zero, List.nil_append]
  rw [intPart_decimal n hr, Option.bind_some, fracPart_delimited _ hr, Option.bind_some,
    expPart_delimited _ hr]

theorem number_negative (n : ℕ) {r : List UInt8} (hr : Delimited r) :
    number (45 :: Text.decimal n ++ r) = some (45 :: Text.decimal n, r) := by
  simp only [number, List.cons_append, List.head?_cons, if_true, List.length_singleton,
    List.drop_succ_cons, List.drop_zero]
  rw [intPart_decimal n hr, Option.bind_some, List.nil_append, fracPart_delimited _ hr,
    Option.bind_some, expPart_delimited _ hr]

theorem reads_number {c : UInt8} {t : List UInt8} (hc : c = 45 ∨ Text.isDigit c = true)
    (h : ∀ r, Delimited r → number (c :: t ++ r) = some (c :: t, r)) :
    Reads (.number (c :: t)) (c :: t) := by
  have hother : isSpace c = false ∧ c ≠ 34 ∧ c ≠ 91 ∧ c ≠ 123 := by
    rcases hc with rfl | hc
    · decide
    · have hb := Text.isDigit_bounds hc
      refine ⟨?_, ?_, ?_, ?_⟩
      · rw [Bool.eq_false_iff]
        intro hs
        simp only [isSpace, Bool.or_eq_true, decide_eq_true_eq] at hs
        rcases hs with ((rfl | rfl) | rfl) | rfl <;> exact absurd hb (by decide)
      all_goals
        rintro rfl
        exact absurd hb (by decide)
  obtain ⟨hspace, hquote, hbracket, hbrace⟩ := hother
  intro n r hn hr
  cases n with
  | zero => exact absurd hn (Nat.not_succ_le_zero _)
  | succ n =>
    rw [value, List.cons_append, skip_cons hspace]
    dsimp only
    rw [if_neg hquote, if_neg hbracket, if_neg hbrace, if_pos hc, ← List.cons_append, h r hr]
    rfl

/-- **A decimal number** is read back. -/
theorem reads_decimal (n : ℕ) : Reads (.number (Text.decimal n)) (Text.decimal n) := by
  have hnum := fun r => @number_decimal n r
  obtain ⟨c, t, ht⟩ := List.exists_cons_of_ne_nil (Text.decimal_ne_nil n)
  have hc : Text.isDigit c = true := Text.isDigit_of_mem (ht ▸ List.mem_cons_self)
  rw [ht] at hnum ⊢
  exact reads_number (.inr hc) hnum

theorem reads_negative (n : ℕ) :
    Reads (.number (45 :: Text.decimal n)) (45 :: Text.decimal n) :=
  reads_number (.inl rfl) fun _ => number_negative n

/-! ## Values with their texts -/

/-- A value and a text it is written as, without escapes. -/
structure Written where
  value : Value
  text : List UInt8

namespace Written

def number (n : ℕ) : Written := ⟨.number (Text.decimal n), Text.decimal n⟩

def negative (n : ℕ) : Written := ⟨.number (45 :: Text.decimal n), 45 :: Text.decimal n⟩

def string (s : List UInt8) : Written := ⟨.string s, quoted s⟩

def array (ws : List Written) : Written := ⟨.array (ws.map value), arrayText (ws.map text)⟩

def object (ms : List (List UInt8 × Written)) : Written :=
  ⟨.object (ms.map fun m => (m.1, m.2.value)), objectText (ms.map fun m => (m.1, m.2.text))⟩

/-- The text is read back as the value. -/
structure Ok (w : Written) : Prop where
  reads : Reads w.value w.text
  utf8 : Utf8.Valid w.text

theorem utf8_decimal (n : ℕ) : Utf8.Valid (Text.decimal n) := by
  refine Utf8.valid_ascii fun c hc => ?_
  have hb := (Text.isDigit_bounds (Text.isDigit_of_mem hc)).2
  exact UInt8.lt_iff_toNat_lt.2 (lt_of_le_of_lt hb (by decide))

theorem utf8_cons {c : UInt8} (h : c < 0x80) {s : List UInt8} (hs : Utf8.Valid s) :
    Utf8.Valid (c :: s) :=
  (Utf8.valid_ascii (s := [c]) fun _ hb => List.mem_singleton.1 hb ▸ h).append hs

theorem ok_number (n : ℕ) : (number n).Ok := ⟨reads_decimal n, utf8_decimal n⟩

theorem ok_negative (n : ℕ) : (negative n).Ok :=
  ⟨reads_negative n, utf8_cons (by decide) (utf8_decimal n)⟩

theorem utf8_quoted {s : List UInt8} (h : Utf8.Valid s) : Utf8.Valid (quoted s) :=
  utf8_cons (by decide) (h.append (utf8_cons (by decide) Utf8.valid_nil))

theorem ok_string {s : List UInt8} (h : Plain s) : (string s).Ok :=
  ⟨reads_string h.unescaped, utf8_quoted h.utf8⟩

theorem utf8_commas {ts : List (List UInt8)} (h : ∀ t ∈ ts, Utf8.Valid t) :
    Utf8.Valid (commas ts) := by
  cases ts with
  | nil => exact Utf8.valid_nil
  | cons t ts =>
    obtain ⟨ht, hts⟩ := List.forall_mem_cons.1 h
    refine ht.append ?_
    induction ts with
    | nil => exact Utf8.valid_nil
    | cons u us ih =>
      obtain ⟨hu, hus⟩ := List.forall_mem_cons.1 hts
      exact (utf8_cons (by decide) hu).append
        (ih (List.forall_mem_cons.2 ⟨ht, hus⟩) hus)

theorem ok_array {ws : List Written} (h : ∀ w ∈ ws, w.Ok) : (array ws).Ok := by
  refine ⟨reads_array ?_, utf8_cons (by decide)
    ((utf8_commas ?_).append (utf8_cons (by decide) Utf8.valid_nil))⟩
  · rw [List.forall₂_map_left_iff, List.forall₂_map_right_iff, List.forall₂_same]
    exact fun w hw => (h w hw).reads
  · intro t ht
    obtain ⟨w, hw, rfl⟩ := List.mem_map.1 ht
    exact (h w hw).utf8

theorem ok_object {ms : List (List UInt8 × Written)} (h : ∀ m ∈ ms, Plain m.1 ∧ m.2.Ok) :
    (object ms).Ok := by
  refine ⟨reads_object ?_, utf8_cons (by decide)
    ((utf8_commas ?_).append (utf8_cons (by decide) Utf8.valid_nil))⟩
  · rw [List.forall₂_map_left_iff, List.forall₂_map_right_iff, List.forall₂_same]
    exact fun m hm => ⟨rfl, (h m hm).1.unescaped, (h m hm).2.reads⟩
  · intro t ht
    obtain ⟨m', hm', rfl⟩ := List.mem_map.1 ht
    obtain ⟨m, hm, rfl⟩ := List.mem_map.1 hm'
    exact (utf8_quoted (h m hm).1.utf8).append (utf8_cons (by decide) (h m hm).2.utf8)

/-- **A document** that is written so is a JSON text. -/
theorem Ok.isText {w : Written} (h : w.Ok) : IsText w.text w.value := by
  refine ⟨h.utf8, w.text.length, [], ?_, rfl⟩
  have hv := h.reads w.text.length [] (le_refl _) (fun c hc => nomatch hc)
  rwa [List.append_nil] at hv

/-! ### Objects that begin with a string -/

/-- The text is that of an object whose first member is `s` under `k`, written as it is, with
    another member behind it; it is in order if `s` is. -/
structure Names (k s : List UInt8) (w : Written) : Prop where
  text : ∃ t, w.text = 123 :: (quoted k ++ 58 :: 34 :: (s ++ 34 :: 44 :: 34 :: t))
  ok : Plain s → w.Ok

theorem names_object (k s : List UInt8) {m : List UInt8 × Written}
    {ms : List (List UInt8 × Written)}
    (h : Plain s → (object ((k, string s) :: m :: ms)).Ok) :
    Names k s (object ((k, string s) :: m :: ms)) := by
  refine ⟨⟨m.1 ++ 34 :: 58 :: (m.2.text ++
    (((ms.map fun m => (m.1, m.2.text)).map memberText).flatMap (44 :: ·) ++ [125])), ?_⟩, h⟩
  generalize hts : ms.map (fun m => (m.1, m.2.text)) = ts
  simp only [object, objectText, string, List.map_cons, commas, memberText, quoted,
    List.flatMap_cons, List.cons_append, List.append_assoc, List.nil_append, hts]

/-- A name is read back only if it needs no escape. -/
theorem Names.unescaped {k s : List UInt8} {w : Written} (h : Names k s w) (hk : Unescaped k)
    {x r : List UInt8} {n : ℕ} {v : Value} (hval : Json.value n (w.text ++ x) = some (v, r))
    (hname : v.members k = [.string s]) : Unescaped s := by
  obtain ⟨t, ht⟩ := h.text
  rw [ht] at hval
  simp only [List.cons_append, List.append_assoc] at hval
  obtain ⟨m, ms, hms, rfl⟩ := value_object (by rw [skip_quoted]; decide) hval
  obtain ⟨m', v', q, ns, hv', rfl, -⟩ := members_value hk hms
  obtain ⟨d, hd, rfl⟩ := value_string hv'
  simp only [Value.members, List.filter_cons, decide_true, if_true, List.map_cons] at hname
  obtain rfl := Value.string.inj (List.cons.inj hname).1
  exact ordinary_of_string hd

/-- **The names of an array of such objects**, or of the first ones, are read back only if none needs
    an escape. -/
theorem unescaped_of_elements {k : List UInt8} (hk : Unescaped k) {ss : List (List UInt8)}
    {ws : List Written} (h : List.Forall₂ (Names k) ss ws) (hutf8 : ∀ s ∈ ss, Utf8.Valid s)
    {n : ℕ} {vs : List Value} {r r' : List UInt8}
    (hread : elements n (commas (ws.map text) ++ 93 :: r) = some (vs, r'))
    {ns : List (List UInt8)} (hpre : ns <+: ss ∨ ss <+: ns)
    (hnames : vs.map (Value.members k) = ns.map fun s => [.string s]) :
    ∀ s ∈ ss, Unescaped s := by
  induction h generalizing n vs ns with
  | nil => exact fun s hs => nomatch hs
  | @cons s w ss ws hw hs ih =>
    obtain ⟨hvalid, hutf8⟩ := List.forall_mem_cons.1 hutf8
    obtain ⟨m, v, q, us, hval, rfl, hmore⟩ := elements_value hread
    cases ns with
    | nil => exact nomatch hnames
    | cons s₀ ns =>
    obtain ⟨rfl, htail⟩ : s = s₀ ∧ (ns <+: ss ∨ ss <+: ns) := by
      rcases hpre with hpre | hpre
      · exact ⟨(List.cons_prefix_cons.1 hpre).1.symm, .inl (List.cons_prefix_cons.1 hpre).2⟩
      · exact ⟨(List.cons_prefix_cons.1 hpre).1, .inr (List.cons_prefix_cons.1 hpre).2⟩
    obtain ⟨hhead, hrest⟩ := List.cons.inj hnames
    rw [List.map_cons, commas, List.append_assoc] at hval
    have hplain := hw.unescaped hk hval hhead
    refine List.forall_mem_cons.2 ⟨hplain, ?_⟩
    cases hs with
    | nil => exact fun s hs => nomatch hs
    | @cons s' w' ss ws hw' hs =>
      rw [List.map_cons, List.flatMap_cons, List.cons_append, List.cons_append,
        List.append_assoc] at hval
      obtain ⟨-, rfl⟩ :=
        Prod.mk.inj ((hw.ok ⟨hvalid, hplain⟩).reads.eq (.cons (.inl rfl) _) hval)
      have hnext := hmore _ rfl
      rw [← List.append_assoc] at hnext
      exact ih hutf8 hnext htail hrest

end Written

end Json
