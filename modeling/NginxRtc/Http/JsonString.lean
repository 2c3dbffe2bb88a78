/-
  A string field of a request body (`ngx_rtc_chain_reader_t`, `ngx_rtc_http_json_string`).

  The body is a chain of buffers.  A field is looked for byte by byte, across the buffers; a failed
  match goes back to just behind the quote it began with.

  `ChainReader.get_rest`: a reader hands out the bytes that are left, one by one, whatever buffers
  they are in.  `JsonString.scan_rest`: what a search in them finds.
-/
import NginxRtc.Basic
import NginxRtc.Lib.Text

namespace NginxRtc

/-! ## The reader -/

/-- The links of the chain from the current one on, each with its buffer if it has one, and the
    position `p` in the current buffer. -/
structure ChainReader where
  cl : List (Option Bytes)
  p : ℕ

namespace ChainReader

/-- `ngx_rtc_chain_reader_init`. -/
def init (cl : List (Option Bytes)) : ChainReader := ⟨cl, 0⟩

/-- The loop of `ngx_rtc_chain_reader_get` from the link `cl` on. -/
def getFrom : List (Option Bytes) → ℕ → Option (UInt8 × ChainReader)
  | [], _ => none
  | none :: _, _ => none
  | some buf :: next, p =>
    match buf[p]? with
    | some c => some (c, ⟨some buf :: next, p + 1⟩)
    | none => getFrom next 0

/-- `ngx_rtc_chain_reader_get`: one byte across the chain. -/
def get (rd : ChainReader) : Option (UInt8 × ChainReader) := getFrom rd.cl rd.p

/-- The bytes of the buffers of a chain. -/
def bytes : List (Option Bytes) → Bytes
  | [] => []
  | none :: _ => []
  | some buf :: next => buf ++ bytes next

/-- The bytes that are left. -/
def rest (rd : ChainReader) : Bytes :=
  match rd.cl with
  | some buf :: next => buf.drop rd.p ++ bytes next
  | _ => []

theorem rest_init (cl : List (Option Bytes)) : (init cl).rest = bytes cl := by
  match cl with
  | [] => rfl
  | none :: _ => rfl
  | some _ :: _ => rfl

/-- **The reader** hands out the bytes that are left. -/
theorem get_rest (rd : ChainReader) :
    rd.get.map (fun r => (r.1, r.2.rest)) = rd.rest.head?.map fun c => (c, rd.rest.tail) := by
  obtain ⟨cl, p⟩ := rd
  rw [get]
  induction cl generalizing p with
  | nil => rfl
  | cons link next ih =>
    cases link with
    | none => rfl
    | some buf =>
      rw [getFrom]
      rcases Nat.lt_or_ge p buf.length with hp | hp
      · rw [List.getElem?_eq_getElem hp]
        simp only [rest, Option.map_some, List.drop_eq_getElem_cons hp, List.cons_append,
          List.head?_cons, List.tail_cons]
      · rw [List.getElem?_eq_none hp]
        have hrest : (⟨some buf :: next, p⟩ : ChainReader).rest = (init next).rest := by
          rw [rest_init]
          show buf.drop p ++ bytes next = bytes next
          rw [List.drop_of_length_le hp, List.nil_append]
        rw [hrest]
        exact ih 0

theorem get_none {rd : ChainReader} (h : rd.rest = []) : rd.get = none := by
  have hget := rd.get_rest
  rw [h] at hget
  exact Option.map_eq_none_iff.1 hget

theorem get_cons {rd : ChainReader} {c : UInt8} {s : Bytes} (h : rd.rest = c :: s) :
    ∃ rd', rd.get = some (c, rd') ∧ rd'.rest = s := by
  have hget := rd.get_rest
  rw [h] at hget
  obtain ⟨⟨c', rd'⟩, hrd, heq⟩ := Option.map_eq_some_iff.1 hget
  obtain ⟨rfl, hs⟩ := Prod.mk.inj heq
  exact ⟨rd', hrd, hs⟩

end ChainReader

/-! ## A field

The loops read a byte in every round, so that as many rounds as bytes are left are enough. -/

namespace JsonString

/-- Read up to a byte that satisfies `stop`. -/
def scan (stop : UInt8 → Bool) : ℕ → ChainReader → Option (UInt8 × ChainReader)
  | 0, _ => none
  | n + 1, rd => rd.get.bind fun r => if stop r.1 then some r else scan stop n r.2

/-- Read the bytes of `key`. -/
def accept : Bytes → ChainReader → Option ChainReader
  | [], rd => some rd
  | k :: key, rd => rd.get.bind fun r => if r.1 = k then accept key r.2 else none

/-- The next byte behind spaces and tabs. -/
def nextSolid (rd : ChainReader) : Option (UInt8 × ChainReader) :=
  scan (fun c => !Text.blank c) (rd.rest.length + 1) rd

def unescape (c : UInt8) : UInt8 :=
  if c = 110 then 10 else if c = 114 then 13 else if c = 116 then 9 else c

/-- The value up to its quote, behind `out`. -/
def readValue (outCap : ℕ) : ℕ → Bytes → ChainReader → Option (Bytes × ChainReader)
  | 0, _, _ => none
  | n + 1, out, rd => rd.get.bind fun r =>
    if r.1 = 34 then some (out, r.2)
    else if outCap ≤ out.length + 1 then none
    else if r.1 = 92 then r.2.get.bind fun e => readValue outCap n (out ++ [unescape e.1]) e.2
    else readValue outCap n (out ++ [r.1]) r.2

/-- What follows a field name. -/
def fieldValue (outCap : ℕ) (rd : ChainReader) : Option (Bytes × ChainReader) :=
  (nextSolid rd).bind fun r =>
    if r.1 ≠ 58 then none
    else (nextSolid r.2).bind fun r =>
      if r.1 ≠ 34 then none else readValue outCap (r.2.rest.length + 1) [] r.2

/-- The search for the field name. -/
def search (key : Bytes) (outCap : ℕ) : ℕ → ChainReader → Option (Bytes × ChainReader)
  | 0, _ => none
  | n + 1, rd => (scan (fun c => c = 34) (rd.rest.length + 1) rd).bind fun q =>
    -- a failed match leaves the reader at `q.2`, so that overlapping matches are found
    match accept (key ++ [34]) q.2 with
    | none => search key outCap n q.2
    | some rd => fieldValue outCap rd

/-- The loops end for want of bytes, not of rounds. -/
theorem scan_rest (stop : UInt8 → Bool) {n : ℕ} {rd : ChainReader} (h : rd.rest.length < n) :
    (scan stop n rd).map (fun r => (r.1, r.2.rest)) =
      (rd.rest.dropWhile fun c => !stop c).head?.map fun c =>
        (c, (rd.rest.dropWhile fun c => !stop c).tail) := by
  induction n generalizing rd with
  | zero => exact absurd h (Nat.not_lt_zero _)
  | succ n ih =>
    rw [scan]
    cases hrest : rd.rest with
    | nil => rw [ChainReader.get_none hrest, Option.bind_none, List.dropWhile_nil]; rfl
    | cons c s =>
      obtain ⟨rd', hget, rfl⟩ := ChainReader.get_cons hrest
      rw [hget, Option.bind_some, List.dropWhile_cons]
      rw [hrest, List.length_cons] at h
      cases hstop : stop c with
      | true => rfl
      | false => exact ih (Nat.lt_of_succ_lt_succ h)

end JsonString

/-- `ngx_rtc_http_json_string`: the value, unescaped, and the reader behind it. -/
def jsonString (key : Bytes) (outCap : ℕ) (rd : ChainReader) : Option (Bytes × ChainReader) :=
  JsonString.search key outCap (rd.rest.length + 1) rd

/-! ## The same on the bytes that are left -/

namespace JsonString

def valueIn (outCap : ℕ) : Bytes → Bytes → Option (Bytes × Bytes)
  | _, [] => none
  | out, c :: s =>
    if c = 34 then some (out, s)
    else if outCap ≤ out.length + 1 then none
    else if c = 92 then
      match s with
      | [] => none
      | e :: s => valueIn outCap (out ++ [unescape e]) s
    else valueIn outCap (out ++ [c]) s

theorem valueIn_cons (outCap : ℕ) (out : Bytes) (c : UInt8) (s : Bytes) :
    valueIn outCap out (c :: s) =
      if c = 34 then some (out, s)
      else if outCap ≤ out.length + 1 then none
      else if c = 92 then
        match s with
        | [] => none
        | e :: s => valueIn outCap (out ++ [unescape e]) s
      else valueIn outCap (out ++ [c]) s := by
  rw [valueIn.eq_def]
  rfl

def fieldIn (outCap : ℕ) (s : Bytes) : Option (Bytes × Bytes) :=
  match s.dropWhile Text.blank with
  | [] => none
  | c :: s =>
    if c ≠ 58 then none
    else
      match s.dropWhile Text.blank with
      | [] => none
      | c :: s => if c ≠ 34 then none else valueIn outCap [] s

/-- The field behind the first quote that the key and another quote follow. -/
def findIn (key : Bytes) (outCap : ℕ) : Bytes → Option (Bytes × Bytes)
  | [] => none
  | c :: s =>
    if c = 34 ∧ key ++ [34] <+: s then fieldIn outCap (s.drop (key.length + 1))
    else findIn key outCap s

/-- A result, with the bytes that are left for its reader. -/
def left {α : Type} (r : Option (α × ChainReader)) : Option (α × Bytes) :=
  r.map fun r => (r.1, r.2.rest)

theorem accept_rest (key : Bytes) (rd : ChainReader) :
    (accept key rd).map ChainReader.rest =
      if key <+: rd.rest then some (rd.rest.drop key.length) else none := by
  induction key generalizing rd with
  | nil => rw [if_pos (List.nil_prefix)]; rfl
  | cons k key ih =>
    rw [accept]
    cases hrest : rd.rest with
    | nil => rw [ChainReader.get_none hrest, if_neg (by simp)]; rfl
    | cons c s =>
      obtain ⟨rd', hget, rfl⟩ := ChainReader.get_cons hrest
      rw [hget, Option.bind_some]
      by_cases hc : c = k
      · subst hc
        simp only [if_true, ih, List.cons_prefix_cons, true_and, List.length_cons,
          List.drop_succ_cons]
      · rw [if_neg hc, if_neg fun h => hc (List.cons_prefix_cons.1 h).1.symm]
        rfl

theorem nextSolid_rest (rd : ChainReader) :
    left (nextSolid rd) = (rd.rest.dropWhile Text.blank).head?.map fun c =>
      (c, (rd.rest.dropWhile Text.blank).tail) := by
  have h := scan_rest (fun c => !Text.blank c) (Nat.lt_succ_self rd.rest.length)
  simp only [Bool.not_not] at h
  exact h

theorem readValue_rest (outCap : ℕ) {n : ℕ} (out : Bytes) {rd : ChainReader}
    (h : rd.rest.length < n) : left (readValue outCap n out rd) = valueIn outCap out rd.rest := by
  induction n generalizing out rd with
  | zero => exact absurd h (Nat.not_lt_zero _)
  | succ n ih =>
    rw [readValue]
    cases hrest : rd.rest with
    | nil => rw [ChainReader.get_none hrest, valueIn]; rfl
    | cons c s =>
      obtain ⟨rd', hget, rfl⟩ := ChainReader.get_cons hrest
      rw [hrest, List.length_cons] at h
      rw [hget, Option.bind_some, valueIn_cons]
      by_cases hquote : c = 34
      · simp only [hquote, if_true]
        rfl
      by_cases hfull : outCap ≤ out.length + 1
      · simp only [hquote, hfull, if_false, if_true]
        rfl
      by_cases hesc : c = 92
      · simp only [hfull, hesc, if_false, if_true]
        cases hrest' : rd'.rest with
        | nil => rw [ChainReader.get_none hrest']; rfl
        | cons e s =>
          obtain ⟨rd'', hget', rfl⟩ := ChainReader.get_cons hrest'
          rw [hrest', List.length_cons] at h
          have hlt : rd''.rest.length < n := by omega
          rw [hget', Option.bind_some]
          exact ih _ hlt
      · simp only [hquote, hfull, hesc, if_false]
        exact ih _ (by omega)

theorem fieldValue_rest (outCap : ℕ) (rd : ChainReader) :
    left (fieldValue outCap rd) = fieldIn outCap rd.rest := by
  have hcolon := nextSolid_rest rd
  unfold fieldValue fieldIn
  cases hs : rd.rest.dropWhile Text.blank with
  | nil =>
    rw [hs] at hcolon
    rw [Option.map_eq_none_iff.1 hcolon]
    rfl
  | cons c s =>
    rw [hs] at hcolon
    obtain ⟨⟨c', rd'⟩, hrd, heq⟩ := Option.map_eq_some_iff.1 hcolon
    obtain ⟨rfl, rfl⟩ := Prod.mk.inj heq
    rw [hrd, Option.bind_some]
    by_cases hne : c' ≠ 58
    · simp only [if_pos hne]
      rfl
    simp only [if_neg hne]
    have hquote := nextSolid_rest rd'
    cases hs' : rd'.rest.dropWhile Text.blank with
    | nil =>
      rw [hs'] at hquote
      rw [Option.map_eq_none_iff.1 hquote]
      rfl
    | cons c s =>
      rw [hs'] at hquote
      obtain ⟨⟨c'', rd''⟩, hrd', heq⟩ := Option.map_eq_some_iff.1 hquote
      obtain ⟨rfl, rfl⟩ := Prod.mk.inj heq
      rw [hrd', Option.bind_some]
      by_cases hne' : c'' ≠ 34
      · simp only [if_pos hne']
        rfl
      · simp only [if_neg hne']
        exact readValue_rest outCap [] (Nat.lt_succ_self _)

/-- The search begins at the next quote. -/
theorem findIn_quote (key : Bytes) (outCap : ℕ) (s : Bytes) :
    findIn key outCap s = findIn key outCap (s.dropWhile fun c => !(c = 34 : Bool)) := by
  induction s with
  | nil => rfl
  | cons c s ih =>
    by_cases hc : c = 34
    · rw [List.dropWhile_cons_of_neg (by simp [hc])]
    · rw [List.dropWhile_cons_of_pos (by simp [hc]), findIn, if_neg (fun h => hc h.1)]
      exact ih

theorem search_rest (key : Bytes) (outCap : ℕ) {n : ℕ} {rd : ChainReader}
    (h : rd.rest.length < n) : left (search key outCap n rd) = findIn key outCap rd.rest := by
  induction n generalizing rd with
  | zero => exact absurd h (Nat.not_lt_zero _)
  | succ n ih =>
    have hquote := scan_rest (fun c => c = 34) (Nat.lt_succ_self rd.rest.length)
    have hle := (List.dropWhile_suffix (l := rd.rest) fun c => !(c = 34 : Bool)).length_le
    rw [search, findIn_quote]
    cases hs : rd.rest.dropWhile fun c => !(c = 34 : Bool) with
    | nil =>
      rw [hs] at hquote
      rw [Option.map_eq_none_iff.1 hquote]
      rfl
    | cons c s =>
      rw [hs] at hquote hle
      rw [List.length_cons] at hle
      obtain ⟨⟨c', rd'⟩, hrd, heq⟩ := Option.map_eq_some_iff.1 hquote
      obtain ⟨rfl, rfl⟩ := Prod.mk.inj heq
      have hc : c' = 34 := by
        have hhead := List.head?_dropWhile_not (fun c : UInt8 => !(c = 34 : Bool)) rd.rest
        rw [hs] at hhead
        simpa using hhead
      have haccept := accept_rest (key ++ [34]) rd'
      rw [hrd, Option.bind_some, findIn]
      by_cases hkey : key ++ [34] <+: rd'.rest
      · rw [if_pos hkey] at haccept
        obtain ⟨rd'', hrd', hrest⟩ := Option.map_eq_some_iff.1 haccept
        rw [if_pos ⟨hc, hkey⟩, hrd']
        show left (fieldValue outCap rd'') = _
        rw [fieldValue_rest, hrest, List.length_append]
        rfl
      · rw [if_neg hkey] at haccept
        rw [if_neg fun h => hkey h.2, Option.map_eq_none_iff.1 haccept]
        exact ih (by omega)

/-- The extraction depends on the bytes that are left only. -/
theorem jsonString_rest (key : Bytes) (outCap : ℕ) (rd : ChainReader) :
    left (jsonString key outCap rd) = findIn key outCap rd.rest :=
  search_rest key outCap (Nat.lt_succ_self _)

end JsonString

namespace ChainReader

theorem bytes_some (bufs : List Bytes) : bytes (bufs.map some) = bufs.flatten := by
  induction bufs with
  | nil => rfl
  | cons buf bufs ih => rw [List.map_cons, bytes, ih, List.flatten_cons]

end ChainReader

/-- **Buffering does not matter.**  A body gives the same result in any chain of buffers as in one:
    the value, and the bytes that are left for the reader. -/
theorem json_string_buffers (bufs : List Bytes) (key : Bytes) (outCap : ℕ) :
    JsonString.left (jsonString key outCap (.init (bufs.map some))) =
      JsonString.left (jsonString key outCap (.init [some bufs.flatten])) := by
  have hone : ChainReader.bytes [some bufs.flatten] = bufs.flatten := List.append_nil _
  rw [JsonString.jsonString_rest, JsonString.jsonString_rest, ChainReader.rest_init,
    ChainReader.rest_init, ChainReader.bytes_some, hone]

end NginxRtc
