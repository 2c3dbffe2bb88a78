/-
  STUN binding requests (`ngx_rtc_stun_decode`, `ngx_rtc_stun_verify_request`).

  `readAttrs` is the walk of the decoder over the attributes of a datagram, each with the offset of
  its value; `apply` is what the decoder makes of one.  HMAC-SHA1 is a parameter: any function from
  a key and a text to twenty bytes.

  `decode_wellFormed`: what the fields of a decoded request look like.
-/
import Mathlib.Data.List.TakeWhile
import NginxRtc.Basic
import NginxRtc.Lib.Wire

namespace NginxRtc

/-- An HMAC-SHA1 value. -/
structure Digest where
  bytes : Bytes
  length_eq : bytes.length = 20

abbrev Hmac := Bytes → Bytes → Digest

/-- What a C string in a buffer with these bytes holds. -/
def cstr (b : Bytes) : Bytes := b.takeWhile (· ≠ 0)

namespace Stun

def magicCookie : UInt32 := 0x2112A442

/-- `NGX_RTC_STUN_UFRAG_MAX`. -/
def ufragMax : ℕ := 16

def headerLen : ℕ := 20

def bindingRequest : UInt16 := 0x0001
def bindingResponse : UInt16 := 0x0101

def attrUsername : UInt16 := 0x0006
def attrMessageIntegrity : UInt16 := 0x0008
def attrXorMappedAddr : UInt16 := 0x0020
def attrUseCandidate : UInt16 := 0x0025
def attrFingerprint : UInt16 := 0x8028
def attrIceControlled : UInt16 := 0x8029
def attrIceControlling : UInt16 := 0x802A

/-- `tmp` of `ngx_rtc_stun_verify_request`. -/
def verifyMax : ℕ := 2048

/-! ## Attributes -/

/-- An attribute, and the offset of its value in the datagram. -/
structure Attr where
  type : UInt16
  pos : ℕ
  value : Bytes
deriving DecidableEq

/-- The zeroes behind a value of `n` bytes. -/
def padding (n : ℕ) : ℕ := (4 - n % 4) % 4

/-- The attributes of the rest of a datagram, which starts at `pos`, for a number of rounds; `none`
    if one is longer than the datagram. -/
def readAttrs : ℕ → ℕ → Bytes → Option (List Attr)
  | n + 1, pos, t₀ :: t₁ :: l₀ :: l₁ :: rest =>
    let len := (Wire.word16 l₀ l₁).toNat
    if rest.length < len then none
    else
      (readAttrs n (pos + 4 + (len + padding len)) (rest.drop (len + padding len))).map
        (⟨Wire.word16 t₀ t₁, pos + 4, rest.take len⟩ :: ·)
  | _, _, _ => some []

theorem readAttrs_short {n pos : ℕ} {rest : Bytes} (h : rest.length < 4) :
    readAttrs n pos rest = some [] := by
  unfold readAttrs
  split
  · rw [List.length_cons, List.length_cons, List.length_cons, List.length_cons] at h
    omega
  · rfl

theorem exists_of_four_le {rest : Bytes} (h : 4 ≤ rest.length) :
    ∃ t₀ t₁ l₀ l₁ tail, rest = t₀ :: t₁ :: l₀ :: l₁ :: tail := by
  match rest, h with
  | t₀ :: t₁ :: l₀ :: l₁ :: tail, _ => exact ⟨t₀, t₁, l₀, l₁, tail, rfl⟩

/-- Every attribute takes four bytes or more, so as many rounds as bytes are enough. -/
theorem readAttrs_more {n pos : ℕ} {rest : Bytes} (h : rest.length < 4 * n + 4) :
    readAttrs (n + 1) pos rest = readAttrs n pos rest := by
  induction n generalizing pos rest with
  | zero => rw [readAttrs_short (by omega), readAttrs_short (by omega)]
  | succ n ih =>
    rcases Nat.lt_or_ge rest.length 4 with hs | hl
    · rw [readAttrs_short hs, readAttrs_short hs]
    · obtain ⟨t₀, t₁, l₀, l₁, tail, rfl⟩ := exists_of_four_le hl
      simp only [List.length_cons] at h
      rw [readAttrs, readAttrs]
      rw [ih (by rw [List.length_drop]; omega)]

theorem readAttrs_enough {n pos : ℕ} {rest : Bytes} (h : rest.length < 4 * n + 4) (k : ℕ) :
    readAttrs (n + k) pos rest = readAttrs n pos rest := by
  induction k with
  | zero => rfl
  | succ k ih => rw [← Nat.add_assoc, readAttrs_more (by omega), ih]

/-- A round of the walk. -/
theorem readAttrs_cons {n pos : ℕ} {rest : Bytes} {a : Attr} {as : List Attr}
    (h : readAttrs n pos rest = some (a :: as)) :
    ∃ m t₀ t₁ l₀ l₁ tail, n = m + 1 ∧ rest = t₀ :: t₁ :: l₀ :: l₁ :: tail ∧
      (Wire.word16 l₀ l₁).toNat = a.value.length ∧ a.value.length ≤ tail.length ∧
      a = ⟨Wire.word16 t₀ t₁, pos + 4, tail.take a.value.length⟩ ∧
      readAttrs m (pos + 4 + (a.value.length + padding a.value.length))
        (tail.drop (a.value.length + padding a.value.length)) = some as := by
  unfold readAttrs at h
  split at h
  · next m t₀ t₁ l₀ l₁ tail =>
    dsimp only at h
    split at h
    · exact nomatch h
    · next hl =>
      obtain ⟨as', has, he⟩ := Option.map_eq_some_iff.1 h
      obtain ⟨rfl, rfl⟩ := List.cons.inj he
      have hlen : (tail.take (Wire.word16 l₀ l₁).toNat).length = (Wire.word16 l₀ l₁).toNat := by
        rw [List.length_take]
        omega
      refine ⟨m, t₀, t₁, l₀, l₁, tail, rfl, rfl, hlen.symm, ?_, ?_, ?_⟩
      · simp only [hlen]
        omega
      · simp only [hlen]
      · simp only [hlen]
        exact has
  · exact nomatch h

/-- Every attribute lies in the rest of the datagram. -/
theorem readAttrs_placed {n pos : ℕ} {rest : Bytes} {as : List Attr}
    (h : readAttrs n pos rest = some as) :
    ∀ a ∈ as, pos + 4 ≤ a.pos ∧ a.pos + a.value.length ≤ pos + rest.length := by
  induction as generalizing n pos rest with
  | nil => exact fun _ ha => nomatch ha
  | cons b as ih =>
    obtain ⟨m, t₀, t₁, l₀, l₁, tail, rfl, rfl, -, hb, he, has⟩ := readAttrs_cons h
    have hp : b.pos = pos + 4 := congrArg Attr.pos he
    intro a ha
    simp only [List.length_cons]
    rcases List.mem_cons.1 ha with rfl | ha
    · omega
    · obtain ⟨h₁, h₂⟩ := ih has a ha
      rw [List.length_drop] at h₂
      omega

/-- An attribute ends before the next one starts. -/
theorem readAttrs_apart {n pos : ℕ} {rest : Bytes} {as : List Attr}
    (h : readAttrs n pos rest = some as) :
    as.Pairwise fun a b => a.pos + a.value.length + 4 ≤ b.pos := by
  induction as generalizing n pos rest with
  | nil => exact .nil
  | cons b as ih =>
    obtain ⟨m, t₀, t₁, l₀, l₁, tail, rfl, rfl, -, hb, he, has⟩ := readAttrs_cons h
    have hp : b.pos = pos + 4 := congrArg Attr.pos he
    refine .cons (fun a ha => ?_) (ih has)
    have := (readAttrs_placed has a ha).1
    omega

/-- The attributes in front of one are those of the bytes in front of it. -/
theorem readAttrs_take {n pos : ℕ} {rest : Bytes} {pre post : List Attr} {m : Attr}
    (h : readAttrs n pos rest = some (pre ++ m :: post)) :
    readAttrs n pos (rest.take (m.pos - 4 - pos)) = some pre := by
  induction pre generalizing n pos rest with
  | nil =>
    obtain ⟨k, t₀, t₁, l₀, l₁, tail, rfl, rfl, -, hb, he, has⟩ := readAttrs_cons h
    have hp : m.pos = pos + 4 := congrArg Attr.pos he
    rw [hp, show pos + 4 - 4 - pos = 0 by omega, List.take_zero]
    exact readAttrs_short (by decide)
  | cons b pre ih =>
    obtain ⟨k, t₀, t₁, l₀, l₁, tail, rfl, rfl, hlen, hb, he, has⟩ := readAttrs_cons h
    have hm := (readAttrs_placed has m (List.mem_append_right _ List.mem_cons_self)).1
    obtain ⟨j, hj⟩ : ∃ j, m.pos - 4 - pos = b.value.length + padding b.value.length + j + 4 :=
      ⟨m.pos - 4 - (pos + 4 + (b.value.length + padding b.value.length)), by omega⟩
    have hshort : b.value.length ≤
        (tail.take (b.value.length + padding b.value.length + j)).length := by
      rw [List.length_take]
      omega
    have hvalue : (tail.take (b.value.length + padding b.value.length + j)).take b.value.length =
        tail.take b.value.length := by
      rw [List.take_take, Nat.min_eq_left (by omega)]
    have hrest := ih has
    rw [show m.pos - 4 - (pos + 4 + (b.value.length + padding b.value.length)) = j by omega]
      at hrest
    rw [hj]
    simp only [List.take_succ_cons]
    rw [readAttrs, hlen, if_neg (by omega), List.drop_take, hvalue,
      show b.value.length + padding b.value.length + j -
        (b.value.length + padding b.value.length) = j by omega, hrest, Option.map_some, ← he]

/-! ## A decoded request -/

/-- `ngx_rtc_stun_t`; the offsets are there when the attribute is, and a ufrag is the bytes copied
    into its buffer. -/
structure Request where
  type : UInt16
  transactionId : Bytes
  hasUsername : Bool := false
  localUfrag : Bytes := []
  remoteUfrag : Bytes := []
  useCandidate : Bool := false
  iceControlled : Bool := false
  iceControlling : Bool := false
  messageIntegrity : Option UInt16 := none
  fingerprint : Option UInt16 := none
deriving DecidableEq

/-- The text before the first colon of a user name, and the bytes after it; a NUL ends the text. -/
def splitUser (user : Bytes) : Option (Bytes × Bytes) :=
  match user.dropWhile (fun c => c ≠ 58 && c ≠ 0) with
  | 58 :: remote =>
    some ((user.takeWhile fun c => c ≠ 58 && c ≠ 0).take ufragMax, remote.take ufragMax)
  | _ => none

/-- What the decoder makes of an attribute. -/
def apply (s : Request) (a : Attr) : Request :=
  if a.type = attrUsername then
    match splitUser (a.value.take (2 * ufragMax + 1)) with
    | some (localUfrag, remoteUfrag) => { s with hasUsername := true, localUfrag, remoteUfrag }
    | none => s
  else if a.type = attrUseCandidate then { s with useCandidate := true }
  else if a.type = attrIceControlled then { s with iceControlled := true }
  else if a.type = attrIceControlling then { s with iceControlling := true }
  else if a.type = attrMessageIntegrity then
    { s with messageIntegrity := some (UInt16.ofNat a.pos) }
  else if a.type = attrFingerprint then { s with fingerprint := some (UInt16.ofNat a.pos) }
  else s

theorem splitUser_isSome (user : Bytes) : (splitUser user).isSome ↔ 58 ∈ cstr user := by
  have hsplit : (splitUser user).isSome ↔
      ∃ r, user.dropWhile (fun c => c ≠ 58 && c ≠ 0) = 58 :: r := by
    unfold splitUser
    split
    · next r hr => exact ⟨fun _ => ⟨r, hr⟩, fun _ => rfl⟩
    · next hr => exact ⟨fun h => (nomatch h), fun ⟨r, h⟩ => (hr r h).elim⟩
  rw [hsplit]
  clear hsplit
  induction user with
  | nil => simp [cstr]
  | cons c user ih =>
    rw [cstr, List.takeWhile_cons, List.dropWhile_cons]
    by_cases h₀ : c = 0
    · subst h₀
      simp
    · by_cases h₁ : c = 58
      · subst h₁
        simp
      · have hcolon : 58 ∈ c :: cstr user ↔ 58 ∈ cstr user := by
          simp [Ne.symm h₁]
        rw [if_pos (by simp [h₀, h₁]), if_pos (by simp [h₀])]
        exact ih.trans hcolon.symm

/-- The attributes of a datagram. -/
def attrs (data : Bytes) : Option (List Attr) :=
  readAttrs data.length headerLen (data.drop headerLen)

/-- The request before its attributes are read. -/
def header (data : Bytes) : Request :=
  { type := Wire.word16 (data.getD 0 0) (data.getD 1 0), transactionId := (data.drop 8).take 12 }

/-- `ngx_rtc_stun_decode`; `none` is -1. -/
def decode (data : Bytes) : Option Request :=
  if data.length < headerLen then none
  else if headerLen + (Wire.word16 (data.getD 2 0) (data.getD 3 0)).toNat ≠ data.length then none
  else
    (attrs data).map fun as => as.foldl apply (header data)

theorem decode_eq_some {data : Bytes} {s : Request} : decode data = some s ↔
    headerLen ≤ data.length ∧
      headerLen + (Wire.word16 (data.getD 2 0) (data.getD 3 0)).toNat = data.length ∧
      ∃ as, attrs data = some as ∧ as.foldl apply (header data) = s := by
  unfold decode
  by_cases h₁ : data.length < headerLen
  · rw [if_pos h₁]
    exact ⟨fun h => (nomatch h), fun h => absurd h.1 (by omega)⟩
  · rw [if_neg h₁]
    by_cases h₂ : headerLen + (Wire.word16 (data.getD 2 0) (data.getD 3 0)).toNat = data.length
    · rw [if_neg (not_not.2 h₂), Option.map_eq_some_iff]
      exact ⟨fun h => ⟨by omega, h₂, h⟩, fun h => h.2.2⟩
    · rw [if_pos h₂]
      exact ⟨fun h => (nomatch h), fun h => absurd h.2.1 h₂⟩

/-! ### The fields of a decoded request -/

/-- A local ufrag of at most 16 characters without a colon, a remote one of at most 16 bytes. -/
structure Request.WellFormed (s : Request) : Prop where
  transactionId : s.transactionId.length = 12
  localLen : s.localUfrag.length ≤ ufragMax
  localText : ∀ c ∈ s.localUfrag, c ≠ 58 ∧ c ≠ 0
  remoteLen : s.remoteUfrag.length ≤ ufragMax

theorem splitUser_wellFormed {user l r : Bytes} (h : splitUser user = some (l, r)) :
    l.length ≤ ufragMax ∧ (∀ c ∈ l, c ≠ 58 ∧ c ≠ 0) ∧ r.length ≤ ufragMax := by
  unfold splitUser at h
  split at h
  · obtain ⟨rfl, rfl⟩ := Prod.mk.inj (Option.some.inj h)
    refine ⟨List.length_take_le .., fun c hc => ?_, List.length_take_le ..⟩
    have := List.mem_takeWhile_imp (List.mem_of_mem_take hc)
    simpa using this
  · exact nomatch h

theorem Request.WellFormed.apply {s : Request} (h : s.WellFormed) (a : Attr) :
    (Stun.apply s a).WellFormed := by
  obtain ⟨ht, hl, hc, hr⟩ := h
  unfold Stun.apply
  split_ifs
  · split
    · next hs =>
      obtain ⟨hl, hc, hr⟩ := splitUser_wellFormed hs
      exact ⟨ht, hl, hc, hr⟩
    · exact ⟨ht, hl, hc, hr⟩
  all_goals exact ⟨ht, hl, hc, hr⟩

theorem Request.WellFormed.foldl {s : Request} (h : s.WellFormed) (as : List Attr) :
    (as.foldl Stun.apply s).WellFormed := by
  induction as generalizing s with
  | nil => exact h
  | cons a as ih => exact ih (h.apply a)

theorem decode_wellFormed {data : Bytes} {s : Request} (h : decode data = some s) :
    s.WellFormed := by
  obtain ⟨hlen, -, as, -, rfl⟩ := decode_eq_some.1 h
  refine Request.WellFormed.foldl
    ⟨?_, Nat.zero_le _, fun _ hc => absurd hc List.not_mem_nil, Nat.zero_le _⟩ as
  rw [header, List.length_take, List.length_drop]
  have : headerLen = 20 := rfl
  omega

/-- The text the HMAC is computed over: the datagram up to the attribute whose value is at `off`,
    with `off` for the length. -/
def covered (data : Bytes) (off : UInt16) : Bytes :=
  (data.take 2 ++ Wire.wr16 off ++ data.drop 4).take (off.toNat - 4)

/-- `ngx_rtc_stun_verify_request`. -/
def verifyRequest (hmac : Hmac) (s : Request) (data pwd : Bytes) : Bool :=
  match s.messageIntegrity with
  | none => false
  | some off =>
    if verifyMax < data.length ∨ data.length < off.toNat + 20 ∨ off.toNat < 4 then false
    else (data.drop off.toNat).take 20 = (hmac (cstr pwd) (covered data off)).bytes

end Stun
end NginxRtc
