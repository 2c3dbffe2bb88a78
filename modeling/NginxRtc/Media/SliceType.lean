/-
  The slice type of an H.264 slice (`ngx_rtc_h264_is_b_frame` in `ngx_rtc_rtp.c`).

  A cursor counts bits in 32 bits.  A read answers with a value and the moved cursor, or with the
  code of the source; `none` is a read of a byte past the buffer.

  `readUe_code`: an Exp-Golomb code is read back wherever it stands.  `isBFrame_slice`: what the
  parser makes of a slice.
-/
import NginxRtc.Lib.ExpGolomb
import NginxRtc.Media.Packetize

namespace NginxRtc

/-! ## Reading bits -/

/-- A read: past the buffer, refused, or a value and the cursor behind it. -/
abbrev BitRead (β : Type) := Option (Except ℤ (β × UInt32))

/-- One read after another; the first one that is refused ends it. -/
def BitRead.andThen {β γ : Type} (x : BitRead β) (f : β → UInt32 → BitRead γ) : BitRead γ :=
  match x with
  | none => none
  | some (.error e) => some (.error e)
  | some (.ok (v, pos)) => f v pos

section
variable (data : Bytes) (bitLen : UInt32)

/-- `ngx_rtc_h264_read_bit`. -/
def readBit (pos : UInt32) : BitRead UInt8 :=
  if bitLen ≤ pos then some (.error rtcErrParse)
  else
    data[(pos >>> 3).toNat]?.map fun b =>
      .ok ((b >>> (7 - (pos &&& 7)).toUInt8) &&& 1, pos + 1)

/-- The first loop of `ngx_rtc_h264_read_ue`: the zeros before the first one.  After `room` more of
    them `leading` has passed 31. -/
def readZeros : (room : ℕ) → (leading pos : UInt32) → BitRead UInt32
  | 0, _, _ => some (.error rtcErrParse)
  | room + 1, leading, pos =>
    (readBit data bitLen pos).andThen fun b pos =>
      if b = 1 then some (.ok (leading, pos)) else readZeros room (leading + 1) pos

/-- The second loop: `left` bits are still to come, the next one shifted by `left - 1`. -/
def readSuffix : (left : ℕ) → (value pos : UInt32) → BitRead UInt32
  | 0, value, pos => some (.ok (value, pos))
  | left + 1, value, pos =>
    (readBit data bitLen pos).andThen fun b pos =>
      readSuffix left (value + (b.toUInt32 <<< UInt32.ofNat left)) pos

/-- `ngx_rtc_h264_read_ue`. -/
def readUe (pos : UInt32) : BitRead UInt32 :=
  (readZeros data bitLen 32 0 pos).andThen fun leading pos =>
    readSuffix data bitLen leading.toNat (((1 : UInt32) <<< leading) - 1) pos

end

def naluNonIdr : UInt8 := 1
def naluDataPartitionA : UInt8 := 2
def naluDataPartitionB : UInt8 := 3
def naluDataPartitionC : UInt8 := 4

/-- `ngx_rtc_h264_is_b_frame`; a null pointer comes with no bytes. -/
def isBFrame (nalu : Bytes) (len : UInt32) : Option ℤ :=
  match nalu with
  | [] => some rtcErrInvalid
  | header :: _ =>
    let nalType := H264.typeOf header
    if len = 0 then some rtcErrInvalid
    else if nalType ≠ naluNonIdr ∧ nalType ≠ naluDataPartitionA ∧ nalType ≠ naluDataPartitionB ∧
        nalType ≠ naluDataPartitionC then some 0
    else if len < 2 then some 0
    else
      let bitLen := len * 8
      match (readUe nalu bitLen 8).andThen fun _ pos => readUe nalu bitLen pos with
      | none => none
      | some (.error _) => some 0
      | some (.ok (sliceType, _)) => some (if sliceType = 1 ∨ sliceType = 6 then 1 else 0)

/-! ## Bits ahead -/

section
variable {data : Bytes} {bitLen : UInt32}

/-- The bits between the cursor and the limit. -/
def ahead (data : Bytes) (bitLen pos : UInt32) : List Bool :=
  ((Bits.ofBytes data).take bitLen.toNat).drop pos.toNat

/-- Nothing ahead: the read is refused. -/
theorem readBit_nil (hlen : bitLen.toNat ≤ 8 * data.length) {pos : UInt32}
    (h : ahead data bitLen pos = []) : readBit data bitLen pos = some (.error rtcErrParse) := by
  rw [ahead, List.drop_eq_nil_iff, List.length_take, Bits.length_ofBytes] at h
  rw [readBit, if_pos]
  rw [UInt32.le_iff_toNat_le]
  omega

/-- The shift and the mask of the source take the bit out of its byte. -/
theorem bit_eq (b : UInt8) (pos : UInt32) :
    (b >>> (7 - (pos &&& 7)).toUInt8) &&& 1 =
      if b.toNat.testBit (7 - pos.toNat % 8) then 1 else 0 := by
  have hand : (pos &&& 7).toNat = pos.toNat % 8 := by
    rw [UInt32.toNat_and]
    exact Nat.and_two_pow_sub_one_eq_mod pos.toNat 3
  have hshift : (7 - (pos &&& 7)).toUInt8.toNat = 7 - pos.toNat % 8 := by
    have hle : pos &&& 7 ≤ 7 := by
      rw [UInt32.le_iff_toNat_le, hand]
      exact Nat.le_of_lt_succ (Nat.mod_lt _ (by decide))
    rw [UInt32.toNat_toUInt8, UInt32.toNat_sub_of_le _ _ hle, hand]
    exact Nat.mod_eq_of_lt (by simp; omega)
  have hbit := Nat.toNat_testBit b.toNat (7 - pos.toNat % 8)
  refine UInt8.toNat_inj.1 ?_
  rw [UInt8.toNat_and, UInt8.toNat_shiftRight, hshift, Nat.mod_eq_of_lt (by omega : _ < 8),
    Nat.shiftRight_eq_div_pow]
  refine (Nat.and_one_is_mod _).trans (hbit.symm.trans ?_)
  cases b.toNat.testBit (7 - pos.toNat % 8) <;> rfl

/-- The bit ahead is read, and the cursor moves past it. -/
theorem readBit_cons {pos : UInt32} {b : Bool} {bs : List Bool}
    (h : ahead data bitLen pos = b :: bs) :
    readBit data bitLen pos = some (.ok (if b then 1 else 0, pos + 1)) ∧
      (pos + 1).toNat = pos.toNat + 1 ∧ ahead data bitLen (pos + 1) = bs := by
  have hget : ((Bits.ofBytes data).take bitLen.toNat)[pos.toNat]? = some b := by
    rw [← List.head?_drop, ← ahead, h]
    rfl
  have hpos : pos.toNat < bitLen.toNat := by
    by_contra hge
    rw [List.getElem?_take_eq_none (by omega)] at hget
    cases hget
  have hnext : (pos + 1).toNat = pos.toNat + 1 := by
    have hlt := bitLen.toNat_lt
    rw [UInt32.toNat_add]
    exact Nat.mod_eq_of_lt (by simp; omega)
  rw [List.getElem?_take_of_lt hpos, Bits.getElem?_ofBytes, Option.map_eq_some_iff] at hget
  obtain ⟨byte, hbyte, hb⟩ := hget
  refine ⟨?_, hnext, ?_⟩
  · have hidx : (pos >>> 3).toNat = pos.toNat / 8 := by
      rw [UInt32.toNat_shiftRight]
      exact Nat.shiftRight_eq_div_pow _ _
    have hin : ¬ bitLen ≤ pos := by
      rw [UInt32.le_iff_toNat_le]
      omega
    rw [readBit, if_neg hin, hidx, hbyte, ← hb, ← bit_eq]
    rfl
  · rw [ahead, hnext, ← List.drop_drop, ← ahead, h]
    rfl

/-! ## Reading codes -/

theorem readZeros_run (k : ℕ) {room : ℕ} (hroom : k < room) {n pos : UInt32} {bs : List Bool}
    (h : ahead data bitLen pos = List.replicate k false ++ true :: bs) :
    ∃ pos', readZeros data bitLen room n pos =
        some (.ok (n + UInt32.ofNat k, pos')) ∧
      pos'.toNat = pos.toNat + k + 1 ∧ ahead data bitLen pos' = bs := by
  induction k generalizing room n pos with
  | zero =>
    obtain ⟨room, rfl⟩ := Nat.exists_eq_add_of_lt hroom
    obtain ⟨hread, hpos, hnext⟩ := readBit_cons h
    refine ⟨pos + 1, ?_, hpos, hnext⟩
    rw [readZeros, hread]
    simp [BitRead.andThen]
  | succ k ih =>
    obtain ⟨room, rfl⟩ : ∃ r, room = r + 1 := ⟨room - 1, by omega⟩
    rw [List.replicate_succ, List.cons_append] at h
    obtain ⟨hread, hpos, hnext⟩ := readBit_cons h
    obtain ⟨pos', hrun, hpos', hrest⟩ := ih (n := n + 1) (Nat.lt_of_succ_lt_succ hroom) hnext
    refine ⟨pos', ?_, by omega, hrest⟩
    have hcount : n + 1 + UInt32.ofNat k = n + UInt32.ofNat (k + 1) := by
      rw [UInt32.ofNat_add, UInt32.add_assoc, UInt32.add_comm 1]
      rfl
    rw [readZeros, hread, ← hcount, ← hrun]
    simp [BitRead.andThen]

/-- Zeros up to the limit. -/
theorem readZeros_end (hlen : bitLen.toNat ≤ 8 * data.length) (room : ℕ) (k : ℕ)
    {n pos : UInt32} (h : ahead data bitLen pos = List.replicate k false) :
    readZeros data bitLen room n pos = some (.error rtcErrParse) := by
  induction room generalizing k n pos with
  | zero => rfl
  | succ room ih =>
    rw [readZeros]
    cases k with
    | zero => rw [readBit_nil hlen h]; rfl
    | succ k =>
      rw [List.replicate_succ] at h
      obtain ⟨hread, -, hnext⟩ := readBit_cons h
      rw [hread, ← ih k hnext (n := n + 1)]
      simp [BitRead.andThen]

theorem toNat_ofNat_lt {k : ℕ} (hk : k < 32) : (UInt32.ofNat k).toNat = k := by
  rw [UInt32.toNat_ofNat']
  omega

theorem shift_toNat (b : Bool) {k : ℕ} (hk : k < 32) :
    ((if b then (1 : UInt8) else 0).toUInt32 <<< UInt32.ofNat k).toNat = b.toNat * 2 ^ k := by
  have hlt : 2 ^ k < 2 ^ 32 := Nat.pow_lt_pow_right (by decide) hk
  rw [UInt32.toNat_shiftLeft, toNat_ofNat_lt hk, Nat.mod_eq_of_lt hk, Nat.shiftLeft_eq]
  cases b
  · simp
  · simpa using Nat.mod_eq_of_lt hlt

/-- The suffix bits are added to the value. -/
theorem readSuffix_bits {l : List Bool} (hl : l.length < 32) {v pos : UInt32}
    (hv : v.toNat + Bits.value l < 2 ^ 32) {bs : List Bool}
    (h : ahead data bitLen pos = l ++ bs) :
    ∃ v' pos', readSuffix data bitLen l.length v pos = some (.ok (v', pos')) ∧
      v'.toNat = v.toNat + Bits.value l ∧ pos'.toNat = pos.toNat + l.length ∧
      ahead data bitLen pos' = bs := by
  induction l generalizing v pos with
  | nil => exact ⟨v, pos, rfl, rfl, rfl, h⟩
  | cons b l ih =>
    rw [List.length_cons] at hl
    rw [Bits.value] at hv ⊢
    obtain ⟨hread, hpos, hnext⟩ := readBit_cons h
    have hshift := shift_toNat b (k := l.length) (by omega)
    have hadd : (v + (if b then (1 : UInt8) else 0).toUInt32 <<< UInt32.ofNat l.length).toNat =
        v.toNat + b.toNat * 2 ^ l.length := by
      rw [UInt32.toNat_add, hshift]
      exact Nat.mod_eq_of_lt (by omega)
    obtain ⟨v', pos', hrun, hv', hpos', hrest⟩ := ih (by omega) (by rw [hadd]; omega) hnext
    refine ⟨v', pos', ?_, by omega, by rw [List.length_cons]; omega, hrest⟩
    rw [List.length_cons, readSuffix, hread]
    exact hrun

/-- Too few bits for the suffix. -/
theorem readSuffix_end (hlen : bitLen.toNat ≤ 8 * data.length) {l : List Bool} {left : ℕ}
    (hl : l.length < left) {v pos : UInt32} (h : ahead data bitLen pos = l) :
    readSuffix data bitLen left v pos = some (.error rtcErrParse) := by
  induction l generalizing left v pos with
  | nil =>
    obtain ⟨left, rfl⟩ : ∃ k, left = k + 1 := ⟨left - 1, by omega⟩
    rw [readSuffix, readBit_nil hlen h]
    rfl
  | cons b l ih =>
    rw [List.length_cons] at hl
    obtain ⟨left, rfl⟩ : ∃ k, left = k + 1 := ⟨left - 1, by omega⟩
    obtain ⟨hread, -, hnext⟩ := readBit_cons h
    rw [readSuffix, hread]
    exact ih (by omega) hnext

theorem smallest_toNat {k : ℕ} (hk : k < 32) :
    (((1 : UInt32) <<< UInt32.ofNat k) - 1).toNat = 2 ^ k - 1 := by
  have hlt : 2 ^ k < 2 ^ 32 := Nat.pow_lt_pow_right (by decide) hk
  have hone : ((1 : UInt32) <<< UInt32.ofNat k).toNat = 2 ^ k := by
    simpa using shift_toNat true hk
  have hle : (1 : UInt32) ≤ (1 : UInt32) <<< UInt32.ofNat k := by
    rw [UInt32.le_iff_toNat_le, hone]
    exact Nat.one_le_two_pow
  rw [UInt32.toNat_sub_of_le _ _ hle, hone]
  rfl

/-- After the zeros and the first one, the suffix is what is left to read. -/
theorem readUe_run {k : ℕ} (hk : k < 32) {pos : UInt32} {bs : List Bool}
    (h : ahead data bitLen pos = List.replicate k false ++ true :: bs) :
    ∃ pos₁, readUe data bitLen pos =
        readSuffix data bitLen k (((1 : UInt32) <<< UInt32.ofNat k) - 1) pos₁ ∧
      pos₁.toNat = pos.toNat + k + 1 ∧ ahead data bitLen pos₁ = bs := by
  obtain ⟨pos₁, hzeros, hpos₁, hrest⟩ := readZeros_run (n := 0) _ hk h
  refine ⟨pos₁, ?_, hpos₁, hrest⟩
  rw [readUe, hzeros]
  simp only [BitRead.andThen, UInt32.zero_add, toNat_ofNat_lt hk]

/-- **An Exp-Golomb code is read back**, wherever it stands, and the cursor moves past it. -/
theorem readUe_code {n : ℕ} (hn : n < 2 ^ 32 - 1) {pos : UInt32} {bs : List Bool}
    (h : ahead data bitLen pos = ExpGolomb.code n ++ bs) :
    ∃ v pos', readUe data bitLen pos = some (.ok (v, pos')) ∧ v.toNat = n ∧
      pos'.toNat = pos.toNat + (ExpGolomb.code n).length ∧ ahead data bitLen pos' = bs := by
  have horder : ExpGolomb.order n < 32 := ExpGolomb.order_lt (by omega)
  have hvalue := ExpGolomb.value_suffix n
  have hsmall := smallest_toNat horder
  rw [ExpGolomb.code, List.append_assoc, List.cons_append] at h
  obtain ⟨pos₁, hrun, hpos₁, hrest₁⟩ := readUe_run horder h
  obtain ⟨v, pos', hsuffix, hv, hpos', hrest⟩ := readSuffix_bits (l := ExpGolomb.suffix n)
    (v := ((1 : UInt32) <<< UInt32.ofNat (ExpGolomb.order n)) - 1) (by simpa using horder)
    (by omega) hrest₁
  rw [ExpGolomb.length_suffix] at hsuffix hpos'
  refine ⟨v, pos', hrun.trans hsuffix, by omega, ?_, hrest⟩
  rw [ExpGolomb.length_code]
  omega

/-- A code cut short is refused. -/
theorem readUe_short (hlen : bitLen.toNat ≤ 8 * data.length) {n m : ℕ} (hn : n < 2 ^ 32 - 1)
    (hm : m < (ExpGolomb.code n).length) {pos : UInt32}
    (h : ahead data bitLen pos = (ExpGolomb.code n).take m) :
    readUe data bitLen pos = some (.error rtcErrParse) := by
  have horder : ExpGolomb.order n < 32 := ExpGolomb.order_lt (by omega)
  rw [ExpGolomb.length_code] at hm
  rw [ExpGolomb.code, List.take_append, List.take_replicate, List.length_replicate] at h
  rcases Nat.lt_or_ge (ExpGolomb.order n) m with hlt | hge
  · -- all the zeros and the first one are there, but not the whole suffix
    obtain ⟨j, rfl⟩ : ∃ j, m = ExpGolomb.order n + (j + 1) := ⟨m - ExpGolomb.order n - 1, by omega⟩
    rw [Nat.min_eq_right (by omega), Nat.add_sub_cancel_left, List.take_succ_cons] at h
    obtain ⟨pos₁, hrun, -, hrest₁⟩ := readUe_run horder h
    rw [hrun]
    refine readSuffix_end hlen ?_ hrest₁
    rw [List.length_take, ExpGolomb.length_suffix]
    omega
  · rw [Nat.min_eq_left hge, Nat.sub_eq_zero_of_le hge, List.take_zero, List.append_nil] at h
    rw [readUe, readZeros_end hlen 32 m h]
    rfl

/-! ## Reads inside the buffer -/

theorem BitRead.andThen_some {β γ : Type} {x : BitRead β} {f : β → UInt32 → BitRead γ}
    (hx : ∃ r, x = some r) (hf : ∀ v pos, ∃ r, f v pos = some r) : ∃ r, x.andThen f = some r := by
  obtain ⟨r, rfl⟩ := hx
  rcases r with e | ⟨v, pos⟩
  · exact ⟨_, rfl⟩
  · exact hf v pos

theorem readBit_some (hlen : bitLen.toNat ≤ 8 * data.length) (pos : UInt32) :
    ∃ r, readBit data bitLen pos = some r := by
  cases h : ahead data bitLen pos with
  | nil => exact ⟨_, readBit_nil hlen h⟩
  | cons b bs => exact ⟨_, (readBit_cons h).1⟩

theorem readZeros_some (hlen : bitLen.toNat ≤ 8 * data.length) (room : ℕ) (n pos : UInt32) :
    ∃ r, readZeros data bitLen room n pos = some r := by
  induction room generalizing n pos with
  | zero => exact ⟨_, rfl⟩
  | succ room ih =>
    refine BitRead.andThen_some (readBit_some hlen pos) fun b pos => ?_
    split
    · exact ⟨_, rfl⟩
    · exact ih (n + 1) pos

theorem readSuffix_some (hlen : bitLen.toNat ≤ 8 * data.length) (left : ℕ) (v pos : UInt32) :
    ∃ r, readSuffix data bitLen left v pos = some r := by
  induction left generalizing v pos with
  | zero => exact ⟨_, rfl⟩
  | succ left ih => exact BitRead.andThen_some (readBit_some hlen pos) fun b pos => ih _ pos

theorem readUe_some (hlen : bitLen.toNat ≤ 8 * data.length) (pos : UInt32) :
    ∃ r, readUe data bitLen pos = some r :=
  BitRead.andThen_some (readZeros_some hlen 32 0 pos) fun n pos => readSuffix_some hlen n.toNat _ pos

end

/-! ## Slices -/

/-- A slice of type 1 or 2 with the numbers its header starts with.  The codes follow the first byte
    as they are: no emulation prevention byte stands among them. -/
structure IsSlice (nalu : Bytes) (firstMb sliceType : ℕ) : Prop where
  type : H264.typeOf (nalu.getD 0 0) = naluNonIdr ∨ H264.typeOf (nalu.getD 0 0) = naluDataPartitionA
  firstMb_lt : firstMb < 2 ^ 32 - 1
  sliceType_lt : sliceType < 2 ^ 32 - 1
  codes : ∃ bs, (Bits.ofBytes nalu).drop 8 = ExpGolomb.code firstMb ++ (ExpGolomb.code sliceType ++ bs)

/-- Where the slice type ends, in bits from the start. -/
def sliceTypeEnd (firstMb sliceType : ℕ) : ℕ :=
  8 + (ExpGolomb.code firstMb).length + (ExpGolomb.code sliceType).length

variable {nalu : Bytes} {len : UInt32}

theorem bitLen_le (hlen : nalu.length = len.toNat) : (len * 8).toNat ≤ 8 * nalu.length := by
  rw [UInt32.toNat_mul, hlen]
  exact (Nat.mod_le _ _).trans (Nat.le_of_eq (Nat.mul_comm _ _))

theorem bitLen_of_lt (hlen : nalu.length = len.toNat) (h : len.toNat < 2 ^ 29) :
    (len * 8).toNat = 8 * nalu.length := by
  rw [UInt32.toNat_mul, hlen]
  exact (Nat.mod_eq_of_lt (by simp; omega)).trans (Nat.mul_comm _ _)

/-- The two reads at the start of a slice. -/
theorem readHeader_slice {f t : ℕ} (h : IsSlice nalu f t) (hlen : nalu.length = len.toNat) :
    if sliceTypeEnd f t ≤ (len * 8).toNat then
      ∃ v pos, (readUe nalu (len * 8) 8).andThen (fun _ pos => readUe nalu (len * 8) pos) =
        some (.ok (v, pos)) ∧ v.toNat = t
    else (readUe nalu (len * 8) 8).andThen (fun _ pos => readUe nalu (len * 8) pos) =
      some (.error rtcErrParse) := by
  obtain ⟨bs, hbs⟩ := h.codes
  have hle := bitLen_le hlen
  have hahead : ahead nalu (len * 8) 8 =
      (ExpGolomb.code f ++ (ExpGolomb.code t ++ bs)).take ((len * 8).toNat - 8) := by
    rw [ahead, List.drop_take, ← hbs]
    rfl
  rw [List.take_append] at hahead
  have hpos : 0 < (ExpGolomb.code f).length := by rw [ExpGolomb.length_code]; omega
  rcases Nat.lt_or_ge ((len * 8).toNat - 8) (ExpGolomb.code f).length with hshort | hlong
  · rw [if_neg (by rw [sliceTypeEnd]; omega)]
    rw [Nat.sub_eq_zero_of_le hshort.le, List.take_zero, List.append_nil] at hahead
    rw [readUe_short hle h.firstMb_lt hshort hahead]
    rfl
  · rw [List.take_of_length_le hlong, List.take_append] at hahead
    obtain ⟨v₁, pos₁, hfirst, -, hpos₁, hrest⟩ := readUe_code h.firstMb_lt hahead
    rw [hfirst, BitRead.andThen]
    split
    · next hend =>
      rw [sliceTypeEnd] at hend
      rw [List.take_of_length_le (by omega)] at hrest
      obtain ⟨v, pos, hsecond, hv, -, -⟩ := readUe_code h.sliceType_lt hrest
      exact ⟨v, pos, hsecond, hv⟩
    · next hend =>
      rw [sliceTypeEnd] at hend
      have hcut : (len * 8).toNat - 8 - (ExpGolomb.code f).length < (ExpGolomb.code t).length := by
        rw [ExpGolomb.length_code t] at hend ⊢
        omega
      rw [Nat.sub_eq_zero_of_le hcut.le, List.take_zero, List.append_nil] at hrest
      exact readUe_short hle h.sliceType_lt hcut hrest

/-- What the parser makes of a slice: a B slice is found unless the bit count, reduced modulo 2^32,
    ends before the slice type does. -/
theorem isBFrame_slice {f t : ℕ} (h : IsSlice nalu f t) (hlen : nalu.length = len.toNat) :
    isBFrame nalu len =
      some (if sliceTypeEnd f t ≤ (len * 8).toNat ∧ (t = 1 ∨ t = 6) then 1 else 0) := by
  have hread := readHeader_slice h hlen
  have htwo : 2 ≤ nalu.length := by
    obtain ⟨bs, hbs⟩ := h.codes
    have hcount := congrArg List.length hbs
    rw [List.length_drop, Bits.length_ofBytes, List.length_append, ExpGolomb.length_code] at hcount
    omega
  have hzero : len ≠ 0 := fun h0 => by
    rw [hlen, h0] at htwo
    exact absurd htwo (by decide)
  have hlt : ¬ len < 2 := by
    rw [UInt32.lt_iff_toNat_lt, ← hlen]
    exact Nat.not_lt.2 htwo
  have htype := h.type
  cases nalu with
  | nil => simp at htwo
  | cons header rest =>
    rw [List.getD_cons_zero] at htype
    have hslice : ¬ (H264.typeOf header ≠ naluNonIdr ∧ H264.typeOf header ≠ naluDataPartitionA ∧
        H264.typeOf header ≠ naluDataPartitionB ∧ H264.typeOf header ≠ naluDataPartitionC) := by
      rintro ⟨h1, h2, -, -⟩
      exact htype.elim h1 h2
    simp only [isBFrame, if_neg hzero, if_neg hslice, if_neg hlt]
    by_cases hend : sliceTypeEnd f t ≤ (len * 8).toNat
    · rw [if_pos hend] at hread
      obtain ⟨v, pos, hv, hval⟩ := hread
      have h1 : v = 1 ↔ t = 1 := by rw [← hval, ← UInt32.toNat_inj]; rfl
      have h6 : v = 6 ↔ t = 6 := by rw [← hval, ← UInt32.toNat_inj]; rfl
      simp only [hv, hend, true_and, h1, h6]
    · rw [if_neg hend] at hread
      simp only [hread, hend, false_and, if_false]

theorem isBFrame_iff {f t : ℕ} (h : IsSlice nalu f t) (hlen : nalu.length = len.toNat) :
    isBFrame nalu len = some 1 ↔ sliceTypeEnd f t ≤ (len * 8).toNat ∧ (t = 1 ∨ t = 6) := by
  rw [isBFrame_slice h hlen]
  split
  · next hb => exact iff_of_true rfl hb
  · next hb => exact iff_of_false (by decide) hb

/-- No read goes past the NAL unit, whatever bytes it is made of. -/
theorem isBFrame_some (hlen : nalu.length = len.toNat) : ∃ r, isBFrame nalu len = some r := by
  have hle := bitLen_le hlen
  obtain ⟨r, hr⟩ := BitRead.andThen_some (readUe_some hle 8) fun _ pos => readUe_some hle pos
  unfold isBFrame
  cases nalu with
  | nil => exact ⟨_, rfl⟩
  | cons header rest =>
    simp only [hr]
    split
    · exact ⟨_, rfl⟩
    · split
      · exact ⟨_, rfl⟩
      · split
        · exact ⟨_, rfl⟩
        · cases r <;> exact ⟨_, rfl⟩

/-- **Slice types are parsed exactly** as long as the bit count holds the header: a code anywhere in
    a buffer is read back, a slice is a B slice exactly if it says so unless it says so behind the
    wrapped bit count, which takes 2^29 bytes, and no read goes past the NAL unit. -/
theorem slice_type_exact (nalu : Bytes) (len : UInt32) (hlen : nalu.length = len.toNat) :
    (∀ (data : Bytes) bitLen pos n bs, n < 2 ^ 32 - 1 →
      ahead data bitLen pos = ExpGolomb.code n ++ bs →
      ∃ v pos', readUe data bitLen pos = some (.ok (v, pos')) ∧ v.toNat = n ∧
        pos'.toNat = pos.toNat + (ExpGolomb.code n).length) ∧
    (∀ f t, IsSlice nalu f t →
      ((isBFrame nalu len = some 1 ↔ t = 1 ∨ t = 6) ↔
        (t = 1 ∨ t = 6 → sliceTypeEnd f t ≤ (len * 8).toNat))) ∧
    (∀ f t, IsSlice nalu f t → len.toNat < 2 ^ 29 → (isBFrame nalu len = some 1 ↔ t = 1 ∨ t = 6)) ∧
    (len.toNat < 2 ^ 29 → isBFrame nalu len ≠ none) := by
  refine ⟨fun data bitLen pos n bs hn h => ?_, fun f t h => ?_, fun f t h hlt => ?_, fun _ => ?_⟩
  · obtain ⟨v, pos', hread, hv, hpos', -⟩ := readUe_code hn h
    exact ⟨v, pos', hread, hv, hpos'⟩
  · rw [isBFrame_iff h hlen]
    tauto
  · have hend : sliceTypeEnd f t ≤ (len * 8).toNat := by
      obtain ⟨bs, hbs⟩ := h.codes
      have hcount := congrArg List.length hbs
      rw [List.length_drop, Bits.length_ofBytes, List.length_append, List.length_append] at hcount
      rw [bitLen_of_lt hlen hlt, sliceTypeEnd]
      have hpos := ExpGolomb.length_code f
      omega
    rw [isBFrame_iff h hlen]
    exact and_iff_right hend
  · obtain ⟨r, hr⟩ := isBFrame_some hlen
    rw [hr]
    exact Option.some_ne_none r

/-- A B slice of macroblock 1 in two bytes. -/
theorem slice_type_sample : isBFrame [0x41, 0x48] 2 = some 1 :=
  ((slice_type_exact [0x41, 0x48] 2 rfl).2.2.1 1 1
    ⟨by decide, by decide, by decide, [false, false], by decide⟩ (by decide)).2 (.inl rfl)

/-- A B slice of macroblock 0, with `n` bytes behind its header. -/
def longSlice (n : ℕ) : Bytes := 0x41 :: 0xa0 :: List.replicate n 0

theorem longSlice_isSlice (n : ℕ) : IsSlice (longSlice n) 0 1 where
  type := .inl (by rw [longSlice, List.getD_cons_zero]; decide)
  firstMb_lt := by decide
  sliceType_lt := by decide
  codes := ⟨[false, false, false, false] ++ Bits.ofBytes (List.replicate n 0), rfl⟩

theorem longSlice_length (n : ℕ) : (longSlice n).length = n + 2 := by
  rw [longSlice, List.length_cons, List.length_cons, List.length_replicate]

/-- At 2^29 bytes the bit count wraps to zero. -/
theorem longSlice_wraps {n : ℕ} (h : n + 2 = 2 ^ 29) : isBFrame (longSlice n) 536870912 = some 0 := by
  have hlen : (longSlice n).length = (536870912 : UInt32).toNat := (longSlice_length n).trans h
  rw [isBFrame_slice (longSlice_isSlice n) hlen]
  decide

/-- **A B slice of 2^29 bytes is passed on.** -/
theorem slice_type_wraps : IsSlice (longSlice (2 ^ 29 - 2)) 0 1 ∧
    (longSlice (2 ^ 29 - 2)).length = (536870912 : UInt32).toNat ∧
    ¬ isBFrame (longSlice (2 ^ 29 - 2)) 536870912 = some 1 := by
  refine ⟨longSlice_isSlice _, longSlice_length _, ?_⟩
  rw [longSlice_wraps (by decide)]
  decide

end NginxRtc
