/-
  Texts of bytes: lines, words and decimal numbers.

  A line ends in CR LF, CR or LF.  Words stand between blanks, that is spaces and tabs.

  `lines_unlines`: a text written line by line has these lines.  `words_cons`: the words of a text
  that begins with one.  `decimal_of_le`: a decimal number, digit by digit.
-/
import Mathlib.Data.List.Basic
import Mathlib.Data.UInt

namespace Text

/-- The bytes of an ASCII text. -/
def ascii (s : String) : List UInt8 := s.toList.map fun c => UInt8.ofNat c.toNat

/-- A byte that a text does not have. -/
def Avoids (b : UInt8) (s : List UInt8) : Prop := ∀ c ∈ s, c ≠ b

instance (b : UInt8) (s : List UInt8) : Decidable (Avoids b s) :=
  List.decidableBAll (fun c => c ≠ b) s

/-! ## Lines -/

/-- Put a byte in front of the first line. -/
def consLine (c : UInt8) : List (List UInt8) → List (List UInt8)
  | [] => [[c]]
  | l :: ls => (c :: l) :: ls

/-- The lines of a text, without their ends. -/
def lines : List UInt8 → List (List UInt8)
  | [] => []
  | 13 :: 10 :: s => [] :: lines s
  | 13 :: s => [] :: lines s
  | 10 :: s => [] :: lines s
  | c :: s => consLine c (lines s)

/-- No byte ends a line. -/
def OneLine (l : List UInt8) : Prop := ∀ c ∈ l, c ≠ 13 ∧ c ≠ 10

instance (l : List UInt8) : Decidable (OneLine l) :=
  List.decidableBAll (fun c => c ≠ 13 ∧ c ≠ 10) l

/-- Each line with its end. -/
def unlines (ls : List (List UInt8)) : List UInt8 := ls.flatMap (· ++ [13, 10])

theorem oneLine_append {l l' : List UInt8} : OneLine (l ++ l') ↔ OneLine l ∧ OneLine l' :=
  List.forall_mem_append

theorem oneLine_cons {c : UInt8} {l : List UInt8} :
    OneLine (c :: l) ↔ (c ≠ 13 ∧ c ≠ 10) ∧ OneLine l :=
  List.forall_mem_cons

theorem unlines_append (ls ls' : List (List UInt8)) :
    unlines (ls ++ ls') = unlines ls ++ unlines ls' := List.flatMap_append

theorem unlines_cons (l : List UInt8) (ls : List (List UInt8)) :
    unlines (l :: ls) = l ++ [13, 10] ++ unlines ls := List.flatMap_cons

theorem lines_cons {c : UInt8} (h : c ≠ 13 ∧ c ≠ 10) (s : List UInt8) :
    lines (c :: s) = consLine c (lines s) := by
  rw [lines]
  · exact fun _ h' _ => h.1 h'
  · exact h.1
  · exact h.2

/-- The first line of a text. -/
theorem lines_append {l : List UInt8} (h : OneLine l) (s : List UInt8) :
    lines (l ++ 13 :: 10 :: s) = l :: lines s := by
  induction l with
  | nil => rw [List.nil_append, lines]
  | cons c l ih =>
    obtain ⟨hc, hl⟩ := oneLine_cons.1 h
    rw [List.cons_append, lines_cons hc, ih hl, consLine]

/-- **A text written line by line.** -/
theorem lines_unlines {ls : List (List UInt8)} (h : ∀ l ∈ ls, OneLine l) :
    lines (unlines ls) = ls := by
  induction ls with
  | nil => rfl
  | cons l ls ih =>
    obtain ⟨hl, hls⟩ := List.forall_mem_cons.1 h
    rw [unlines_cons, List.append_assoc]
    exact (lines_append hl _).trans (congrArg (l :: ·) (ih hls))

theorem mem_consLine {c : UInt8} {l : List UInt8} {ls : List (List UInt8)}
    (h : l ∈ consLine c ls) : l ∈ ls ∨ l = [c] ∨ ∃ l' ∈ ls, l = c :: l' := by
  cases ls with
  | nil => exact .inr (.inl (List.mem_singleton.1 h))
  | cons l' ls =>
    rcases List.mem_cons.1 h with rfl | h
    · exact .inr (.inr ⟨l', List.mem_cons_self, rfl⟩)
    · exact .inl (List.mem_cons_of_mem _ h)

/-- The bytes of a line are bytes of the text, and none of them ends a line. -/
theorem of_mem_lines {s l : List UInt8} (h : l ∈ lines s) :
    ∀ c ∈ l, c ∈ s ∧ c ≠ 13 ∧ c ≠ 10 := by
  have hskip : ∀ (pre s : List UInt8),
      (∀ l ∈ lines s, ∀ c ∈ l, c ∈ s ∧ c ≠ 13 ∧ c ≠ 10) →
      ∀ l ∈ [] :: lines s, ∀ c ∈ l, c ∈ pre ++ s ∧ c ≠ 13 ∧ c ≠ 10 := by
    intro pre s ih l hl c hc
    rcases List.mem_cons.1 hl with rfl | hl
    · exact absurd hc List.not_mem_nil
    · exact ⟨List.mem_append_right _ (ih l hl c hc).1, (ih l hl c hc).2⟩
  induction s using lines.induct generalizing l with
  | case1 => exact absurd h List.not_mem_nil
  | case2 s ih => exact hskip [13, 10] s (fun l hl => ih hl) l (by rwa [lines] at h)
  | case3 s hne ih => exact hskip [13] s (fun l hl => ih hl) l (by rwa [lines] at h; exact hne)
  | case4 s ih => exact hskip [10] s (fun l hl => ih hl) l (by rwa [lines] at h)
  | case5 c s _ h13 h10 ih =>
    rw [lines_cons ⟨h13, h10⟩] at h
    intro d hd
    rcases mem_consLine h with h | rfl | ⟨l', hl', rfl⟩
    · exact ⟨List.mem_cons_of_mem _ (ih h d hd).1, (ih h d hd).2⟩
    · obtain rfl := List.mem_singleton.1 hd
      exact ⟨List.mem_cons_self, h13, h10⟩
    · rcases List.mem_cons.1 hd with rfl | hd
      · exact ⟨List.mem_cons_self, h13, h10⟩
      · exact ⟨List.mem_cons_of_mem _ (ih hl' d hd).1, (ih hl' d hd).2⟩

/-! ## Runs -/

/-- The bytes of `w` satisfy `p`, and the next one does not. -/
theorem takeWhile_run {p : UInt8 → Bool} {w s : List UInt8} (hw : ∀ c ∈ w, p c = true)
    (hs : ∀ c ∈ s.head?, p c = false) : (w ++ s).takeWhile p = w := by
  rw [List.takeWhile_append_of_pos hw]
  cases s with
  | nil => exact List.append_nil w
  | cons c s => rw [List.takeWhile_cons, hs c rfl, if_neg Bool.false_ne_true, List.append_nil]

theorem dropWhile_run {p : UInt8 → Bool} {w s : List UInt8} (hw : ∀ c ∈ w, p c = true)
    (hs : ∀ c ∈ s.head?, p c = false) : (w ++ s).dropWhile p = s := by
  rw [List.dropWhile_append_of_pos hw]
  cases s with
  | nil => rfl
  | cons c s => rw [List.dropWhile_cons, hs c rfl, if_neg Bool.false_ne_true]

/-! ## Words -/

def blank (c : UInt8) : Bool := c = 32 || c = 9

/-- Bytes without a blank, and at least one. -/
structure IsWord (w : List UInt8) : Prop where
  ne_nil : w ≠ []
  solid : ∀ c ∈ w, blank c = false

instance (w : List UInt8) : Decidable (IsWord w) :=
  have : Decidable (∀ c ∈ w, blank c = false) := List.decidableBAll (fun c => blank c = false) w
  decidable_of_iff (w ≠ [] ∧ ∀ c ∈ w, blank c = false) ⟨fun h => ⟨h.1, h.2⟩, fun h => ⟨h.1, h.2⟩⟩

/-- The words of a text. -/
def words (s : List UInt8) : List (List UInt8) := (s.splitOnP blank).filter (· ≠ [])

theorem words_blank {c : UInt8} (h : blank c = true) (s : List UInt8) :
    words (c :: s) = words s := by
  rw [words, List.splitOnP_cons_eq_if_modifyHead, if_pos h]
  rfl

theorem words_word {w : List UInt8} (h : IsWord w) : words w = [w] := by
  rw [words, List.splitOnP_eq_singleton h.solid, List.filter_cons,
    if_pos (decide_eq_true h.ne_nil)]
  rfl

/-- The first word of a text. -/
theorem words_cons {w : List UInt8} (h : IsWord w) {c : UInt8} (hc : blank c = true)
    (s : List UInt8) : words (w ++ c :: s) = w :: words s := by
  rw [words, List.splitOnP_append_cons_of_forall_mem h.solid c hc, List.filter_cons,
    if_pos (decide_eq_true h.ne_nil)]
  rfl

theorem of_mem_splitOnP {s w : List UInt8} (h : w ∈ s.splitOnP blank) :
    ∀ c ∈ w, c ∈ s ∧ blank c = false := by
  induction s generalizing w with
  | nil =>
    obtain rfl := List.mem_singleton.1 h
    exact fun c hc => absurd hc List.not_mem_nil
  | cons a s ih =>
    rw [List.splitOnP_cons_eq_if_modifyHead] at h
    intro c hc
    split at h
    · rcases List.mem_cons.1 h with rfl | h
      · exact absurd hc List.not_mem_nil
      · exact ⟨List.mem_cons_of_mem _ (ih h c hc).1, (ih h c hc).2⟩
    · cases hs : s.splitOnP blank with
      | nil => exact absurd hs (List.splitOnP_ne_nil _ _)
      | cons v vs =>
        rw [hs, List.modifyHead_cons] at h
        rw [hs] at ih
        rcases List.mem_cons.1 h with rfl | h
        · rcases List.mem_cons.1 hc with rfl | hc
          · exact ⟨List.mem_cons_self, by simpa using ‹¬blank c = true›⟩
          · have := ih List.mem_cons_self c hc
            exact ⟨List.mem_cons_of_mem _ this.1, this.2⟩
        · have := ih (List.mem_cons_of_mem _ h) c hc
          exact ⟨List.mem_cons_of_mem _ this.1, this.2⟩

/-- The words of a text are words, of its bytes. -/
theorem of_mem_words {s w : List UInt8} (h : w ∈ words s) : IsWord w ∧ ∀ c ∈ w, c ∈ s := by
  obtain ⟨hw, hne⟩ := List.mem_filter.1 h
  exact ⟨⟨of_decide_eq_true hne, fun c hc => (of_mem_splitOnP hw c hc).2⟩,
    fun c hc => (of_mem_splitOnP hw c hc).1⟩

/-! ## Decimal numbers -/

def digit (n : ℕ) : UInt8 := UInt8.ofNat (48 + n)

def isDigit (c : UInt8) : Bool := 48 ≤ c && c ≤ 57

def digitValue (c : UInt8) : ℕ := c.toNat - 48

/-- A number without leading zeros. -/
def decimal (n : ℕ) : List UInt8 := (Nat.toDigits 10 n).map fun c => UInt8.ofNat c.toNat

theorem ofNat_digitChar {n : ℕ} (h : n < 10) : UInt8.ofNat (Nat.digitChar n).toNat = digit n := by
  have hall : ∀ n < 10, UInt8.ofNat (Nat.digitChar n).toNat = digit n := by decide
  exact hall n h

theorem decimal_of_lt {n : ℕ} (h : n < 10) : decimal n = [digit n] := by
  rw [decimal, Nat.toDigits_of_lt_base h, List.map_singleton, ofNat_digitChar h]

theorem decimal_of_le {n : ℕ} (h : 10 ≤ n) :
    decimal n = decimal (n / 10) ++ [digit (n % 10)] := by
  rw [decimal, Nat.toDigits_of_base_le (by decide) h, List.map_append, List.map_singleton,
    ofNat_digitChar (Nat.mod_lt n (by decide))]
  rfl

theorem digit_spec {n : ℕ} (h : n < 10) : isDigit (digit n) = true ∧ digitValue (digit n) = n := by
  have hall : ∀ n < 10, isDigit (digit n) = true ∧ digitValue (digit n) = n := by decide
  exact hall n h

theorem isDigit_of_mem {n : ℕ} {c : UInt8} (h : c ∈ decimal n) : isDigit c = true := by
  induction n using Nat.strong_induction_on with
  | _ n ih =>
    rcases Nat.lt_or_ge n 10 with hn | hn
    · rw [decimal_of_lt hn] at h
      obtain rfl := List.mem_singleton.1 h
      exact (digit_spec hn).1
    · rw [decimal_of_le hn] at h
      rcases List.mem_append.1 h with h | h
      · exact ih (n / 10) (by omega) h
      · obtain rfl := List.mem_singleton.1 h
        exact (digit_spec (Nat.mod_lt n (by decide))).1

/-- A positive number does not begin with a zero. -/
theorem decimal_head {n : ℕ} (h : 0 < n) : ∃ c w, decimal n = c :: w ∧ c ≠ 48 := by
  induction n using Nat.strong_induction_on with
  | _ n ih =>
    rcases Nat.lt_or_ge n 10 with hn | hn
    · refine ⟨digit n, [], decimal_of_lt hn, ?_⟩
      have hall : ∀ n < 10, 0 < n → digit n ≠ 48 := by decide
      exact hall n hn h
    · obtain ⟨c, w, hw, hc⟩ := ih (n / 10) (by omega) (by omega)
      exact ⟨c, w ++ [digit (n % 10)], by rw [decimal_of_le hn, hw, List.cons_append], hc⟩

/-- A number below `10 ^ k` has at most `k` digits. -/
theorem length_decimal_le {n k : ℕ} (hk : 0 < k) (h : n < 10 ^ k) : (decimal n).length ≤ k := by
  induction k generalizing n with
  | zero => exact absurd hk (Nat.lt_irrefl 0)
  | succ k ih =>
    rcases Nat.lt_or_ge n 10 with hn | hn
    · rw [decimal_of_lt hn, List.length_singleton]
      exact hk
    · rw [decimal_of_le hn, List.length_append, List.length_singleton]
      rw [Nat.pow_succ] at h
      have hpos : 0 < k := by
        rcases Nat.eq_zero_or_pos k with rfl | hpos
        · omega
        · exact hpos
      exact Nat.succ_le_succ (ih hpos (by omega))

theorem decimal_ne_nil (n : ℕ) : decimal n ≠ [] := by
  rw [decimal, Ne, List.map_eq_nil_iff]
  exact Nat.toDigits_ne_nil

theorem isDigit_bounds {c : UInt8} (h : isDigit c = true) : 48 ≤ c.toNat ∧ c.toNat ≤ 57 := by
  simpa [isDigit, UInt8.le_iff_toNat_le] using h

theorem isWord_decimal (n : ℕ) : IsWord (decimal n) where
  ne_nil := decimal_ne_nil n
  solid := by
    intro c hc
    have := isDigit_bounds (isDigit_of_mem hc)
    simp only [blank, Bool.or_eq_false_iff, decide_eq_false_iff_not]
    constructor
    · rintro rfl
      exact absurd this.1 (by decide)
    · rintro rfl
      exact absurd this.1 (by decide)

end Text
