/-
  H.264 NAL units into RTP packets (`ngx_rtc_rtp.c`).

  The packetizers hand each packet to a callback and count the sequence number up; they stop when
  the callback fails.  The callback is a parameter here, with the state it works on.

  `h264Packetize_eq`: what a NAL unit is sent as.  `feed_naluItems`: a receiver puts it together
  again.  `feed_stapPayload`: the same for an aggregation packet.
-/
import NginxRtc.Basic
import NginxRtc.Lib.Rtp

namespace NginxRtc

/-! ## Results -/

def rtcOk : ℤ := 0
def rtcErrInvalid : ℤ := -1
def rtcErrTooSmall : ℤ := -2
def rtcErrTooLarge : ℤ := -3
def rtcErrParse : ℤ := -4

def h264Mtu : ℕ := 1200

/-- `ngx_rtc_rtp_emit_fn`: takes one packet and answers with a code. -/
abbrev RtpEmit (σ : Type) := σ → Bytes → σ × ℤ

/-- What a packetizer leaves: the callback's state, the next sequence number and its own code. -/
structure Sent (σ : Type) where
  st : σ
  seq : UInt16
  rc : ℤ

/-! ## The fixed header -/

/-- `ngx_rtc_rtp_header_t`. -/
structure RtpHeader where
  versionCc : UInt8
  markerPt : UInt8
  seq : UInt16
  timestamp : UInt32
  ssrc : UInt32

/-- `ngx_rtc_rtp_header_write`, into a buffer of `cap` bytes. -/
def rtpHeaderWrite (hdr : RtpHeader) (cap : ℕ) : Except ℤ Bytes :=
  if cap < rtpHeaderSize then .error rtcErrTooSmall
  else .ok
    [hdr.versionCc, hdr.markerPt,
      (hdr.seq >>> 8 &&& 0xff).toUInt8, (hdr.seq &&& 0xff).toUInt8,
      (hdr.timestamp >>> 24 &&& 0xff).toUInt8, (hdr.timestamp >>> 16 &&& 0xff).toUInt8,
      (hdr.timestamp >>> 8 &&& 0xff).toUInt8, (hdr.timestamp &&& 0xff).toUInt8,
      (hdr.ssrc >>> 24 &&& 0xff).toUInt8, (hdr.ssrc >>> 16 &&& 0xff).toUInt8,
      (hdr.ssrc >>> 8 &&& 0xff).toUInt8, (hdr.ssrc &&& 0xff).toUInt8]

/-- What all packets of a stream share, and the marker. -/
structure Stamp where
  timestamp : UInt32
  ssrc : UInt32
  payloadType : UInt8

/-- `ngx_rtc_rtp_build_header`. -/
def rtpBuildHeader (k : Stamp) (seq : UInt16) (marker : Bool) : Bytes :=
  match rtpHeaderWrite
    { versionCc := 0x80
      markerPt := if marker then k.payloadType &&& 0x7f ||| 0x80 else k.payloadType &&& 0x7f
      seq := seq
      timestamp := k.timestamp
      ssrc := k.ssrc } rtpHeaderSize with
  | .ok bytes => bytes
  | .error _ => []

/-! ## NAL units -/

def naluIdr : UInt8 := 5

/-- `ngx_rtc_h264_nalu_type`; an empty unit is of the reserved type 0. -/
def h264NaluType : Bytes → UInt8
  | [] => 0
  | b :: _ => b &&& 0x1f

/-- `ngx_rtc_h264_timestamp_from_ms`. -/
def h264TimestampFromMs (ms : UInt32) : UInt32 := (ms.toUInt64 * 90000 / 1000).toUInt32

/-- `ngx_rtc_h264_read_bit`: the bit at `pos`, and the position after it. -/
def h264ReadBit (data : Bytes) (bitLen pos : ℕ) : Except ℤ (UInt8 × ℕ) :=
  if bitLen ≤ pos then .error rtcErrParse
  else .ok ((data.getD (pos >>> 3) 0 >>> UInt8.ofNat (7 - pos % 8)) &&& 1, pos + 1)

/-- The zero bits of an Exp-Golomb code, up to the 1 that ends them. -/
def h264Leading (data : Bytes) (bitLen : ℕ) : ℕ → ℕ → Except ℤ (ℕ × ℕ)
  | 0, _ => .error rtcErrParse
  | room + 1, pos =>
    match h264ReadBit data bitLen pos with
    | .error r => .error r
    | .ok (b, pos') =>
      if b = 1 then .ok (0, pos')
      else
        match h264Leading data bitLen room pos' with
        | .error r => .error r
        | .ok (n, pos'') => .ok (n + 1, pos'')

/-- The `n` bits after them, added to `value` from the most significant one on. -/
def h264Suffix (data : Bytes) (bitLen : ℕ) : ℕ → ℕ → UInt32 → Except ℤ (UInt32 × ℕ)
  | 0, pos, value => .ok (value, pos)
  | n + 1, pos, value =>
    match h264ReadBit data bitLen pos with
    | .error r => .error r
    | .ok (b, pos') => h264Suffix data bitLen n pos' (value + b.toUInt32 <<< UInt32.ofNat n)

/-- `ngx_rtc_h264_read_ue`: an Exp-Golomb number of at most 31 leading zeros. -/
def h264ReadUe (data : Bytes) (bitLen pos : ℕ) : Except ℤ (UInt32 × ℕ) :=
  match h264Leading data bitLen 32 pos with
  | .error r => .error r
  | .ok (leading, pos') =>
    h264Suffix data bitLen leading pos' ((1 : UInt32) <<< UInt32.ofNat leading - 1)

/-- `ngx_rtc_h264_is_b_frame`. -/
def h264IsBFrame (nalu : Bytes) : ℤ :=
  match nalu with
  | [] => rtcErrInvalid
  | b :: _ =>
    if ¬ (b &&& 0x1f = 1 ∨ b &&& 0x1f = 2 ∨ b &&& 0x1f = 3 ∨ b &&& 0x1f = 4) then 0
    else if nalu.length < 2 then 0
    else
      match h264ReadUe nalu (nalu.length * 8 % 2 ^ 32) 8 with
      | .error _ => 0
      | .ok (_, pos) =>
        match h264ReadUe nalu (nalu.length * 8 % 2 ^ 32) pos with
        | .error _ => 0
        | .ok (sliceType, _) => if sliceType = 1 ∨ sliceType = 6 then 1 else 0

/-! ## Packetizers -/

section Packetizers
variable {σ : Type} (emit : RtpEmit σ) (k : Stamp)

/-- Hand over one packet. -/
def sendRtp (packet : Bytes) (st : σ) (seq : UInt16) : Sent σ :=
  ⟨(emit st packet).1, seq + 1, (emit st packet).2⟩

/-- `ngx_rtc_h264_packetize_single`, with a scratch buffer of `cap` bytes. -/
def h264PacketizeSingle (nalu : Bytes) (marker : Bool) (cap : ℕ) (st : σ) (seq : UInt16) : Sent σ :=
  if nalu = [] then ⟨st, seq, rtcErrInvalid⟩
  else if cap < rtpHeaderSize + nalu.length then ⟨st, seq, rtcErrTooSmall⟩
  else sendRtp emit (rtpBuildHeader k seq marker ++ nalu) st seq

/-- The header of a fragment. -/
def fuHeader (nalType : UInt8) (first last : Bool) : UInt8 :=
  (if first then nalType ||| 0x80 else nalType) ||| (if last then 0x40 else 0)

/-- The loop of `ngx_rtc_h264_packetize_fu_a`, with `num` fragments to go. -/
def fuLoop (nalType indicator : UInt8) (mtu : ℕ) (marker : Bool) (cap : ℕ) :
    (num : ℕ) → (first : Bool) → (p : Bytes) → σ → UInt16 → Sent σ
  | 0, _, _, st, seq => ⟨st, seq, rtcOk⟩
  | num + 1, first, p, st, seq =>
    if cap < rtpHeaderSize + 2 + min p.length mtu then ⟨st, seq, rtcErrTooSmall⟩
    else
      let r := sendRtp emit (rtpBuildHeader k seq (marker && num = 0) ++
        indicator :: fuHeader nalType first (num = 0) :: p.take mtu) st seq
      if r.rc ≠ 0 then r
      else fuLoop nalType indicator mtu marker cap num false (p.drop mtu) r.st r.seq

/-- `ngx_rtc_h264_packetize_fu_a`. -/
def h264PacketizeFuA (nalu : Bytes) (mtu : ℕ) (marker : Bool) (cap : ℕ) (st : σ) (seq : UInt16) :
    Sent σ :=
  match nalu with
  | b :: p =>
    if p = [] ∨ mtu = 0 then ⟨st, seq, rtcErrInvalid⟩
    else
      fuLoop emit k (b &&& 0x1f) (b &&& 0xe0 ||| 28) mtu marker cap (1 + (p.length - 1) / mtu) true
        p st seq
  | [] => ⟨st, seq, rtcErrInvalid⟩

/-- The payload length of an aggregation packet as far as it is within bounds. -/
def stapLength : ℕ → List Bytes → Option ℕ
  | len, [] => some len
  | len, n :: ns =>
    if 0xffff < n.length then none
    else if h264Mtu < len + (2 + n.length) then none
    else stapLength (len + (2 + n.length)) ns

/-- The units of an aggregation packet, each after its size. -/
def stapUnits (nalus : List Bytes) : Bytes :=
  nalus.flatMap fun n =>
    (UInt32.ofNat n.length >>> 8 &&& 0xff).toUInt8 :: (UInt32.ofNat n.length &&& 0xff).toUInt8 :: n

/-- `ngx_rtc_h264_packetize_stap_a`. -/
def h264PacketizeStapA (nalus : List Bytes) (cap : ℕ) (st : σ) (seq : UInt16) : Sent σ :=
  match nalus with
  | [] => ⟨st, seq, rtcErrInvalid⟩
  | n :: _ =>
    match stapLength 1 nalus with
    | none => ⟨st, seq, rtcErrTooLarge⟩
    | some len =>
      if cap < rtpHeaderSize + len then ⟨st, seq, rtcErrTooSmall⟩
      else
        sendRtp emit (rtpBuildHeader k seq false ++
          (n.getD 0 0 &&& 0xe0 ||| 24) :: stapUnits nalus) st seq

/-- `ngx_rtc_h264_packetize`. -/
def h264Packetize (nalu : Bytes) (marker : Bool) (cap : ℕ) (st : σ) (seq : UInt16) : Sent σ :=
  if nalu = [] then ⟨st, seq, rtcErrInvalid⟩
  else if nalu.length ≤ h264Mtu then h264PacketizeSingle emit k nalu marker cap st seq
  else h264PacketizeFuA emit k nalu h264Mtu marker cap st seq

end Packetizers

/-! ## The header as a receiver reads it -/

theorem rtpBuildHeader_eq (k : Stamp) (seq : UInt16) (m : Bool) :
    ∃ b : UInt8, rtpBuildHeader k seq m =
      [0x80, b, (seq >>> 8 &&& 0xff).toUInt8, (seq &&& 0xff).toUInt8,
        (k.timestamp >>> 24 &&& 0xff).toUInt8, (k.timestamp >>> 16 &&& 0xff).toUInt8,
        (k.timestamp >>> 8 &&& 0xff).toUInt8, (k.timestamp &&& 0xff).toUInt8,
        (k.ssrc >>> 24 &&& 0xff).toUInt8, (k.ssrc >>> 16 &&& 0xff).toUInt8,
        (k.ssrc >>> 8 &&& 0xff).toUInt8, (k.ssrc &&& 0xff).toUInt8] ∧
      decide (b &&& 0x80 ≠ 0) = m := by
  refine ⟨if m then k.payloadType &&& 0x7f ||| 0x80 else k.payloadType &&& 0x7f, rfl, ?_⟩
  generalize k.payloadType = t
  revert t
  cases m <;> exact UInt8.forall_of_bitVec (by decide +kernel)

theorem toNat_and_ff (x : ℕ) : x &&& 255 = x % 256 := Nat.and_two_pow_sub_one_eq_mod x 8

theorem ofBytes_seq (x : UInt16) :
    Rtp.ofBytes [(x >>> 8 &&& 0xff).toUInt8, (x &&& 0xff).toUInt8] = x.toNat := by
  have hx := x.toNat_lt
  rw [Rtp.ofBytes_two]
  simp only [UInt16.toNat_toUInt8, UInt16.toNat_and, UInt16.toNat_shiftRight,
    Nat.shiftRight_eq_div_pow, UInt16.reduceToNat, toNat_and_ff, Nat.reduceMod,
    Nat.reducePow]
  omega

theorem ofBytes_word (x : UInt32) :
    Rtp.ofBytes [(x >>> 24 &&& 0xff).toUInt8, (x >>> 16 &&& 0xff).toUInt8,
      (x >>> 8 &&& 0xff).toUInt8, (x &&& 0xff).toUInt8] = x.toNat := by
  have hx := x.toNat_lt
  rw [Rtp.ofBytes_four]
  simp only [UInt32.toNat_toUInt8, UInt32.toNat_and, UInt32.toNat_shiftRight,
    Nat.shiftRight_eq_div_pow, UInt32.reduceToNat, toNat_and_ff, Nat.reduceMod,
    Nat.reducePow]
  omega

section Header
variable (k : Stamp) (seq : UInt16) (m : Bool) (p : Bytes)

theorem payload_build : Rtp.payload (rtpBuildHeader k seq m ++ p) = p := by
  obtain ⟨b, he, -⟩ := rtpBuildHeader_eq k seq m
  rw [he]
  rfl

theorem marker_build : Rtp.marker (rtpBuildHeader k seq m ++ p) = m := by
  obtain ⟨b, he, hm⟩ := rtpBuildHeader_eq k seq m
  rw [he]
  exact hm

theorem seq_build : Rtp.seq (rtpBuildHeader k seq m ++ p) = seq := by
  obtain ⟨b, he, -⟩ := rtpBuildHeader_eq k seq m
  rw [he]
  exact (congrArg UInt16.ofNat (ofBytes_seq seq)).trans UInt16.ofNat_toNat

theorem timestamp_build : Rtp.timestamp (rtpBuildHeader k seq m ++ p) = k.timestamp := by
  obtain ⟨b, he, -⟩ := rtpBuildHeader_eq k seq m
  rw [he]
  exact (congrArg UInt32.ofNat (ofBytes_word k.timestamp)).trans UInt32.ofNat_toNat

end Header

/-! ## What is sent -/

/-- The packets of payloads, each with its marker, from the sequence number `seq` on. -/
def stampAll (k : Stamp) : UInt16 → List (Bool × Bytes) → List Bytes
  | _, [] => []
  | seq, x :: xs => (rtpBuildHeader k seq x.1 ++ x.2) :: stampAll k (seq + 1) xs

/-- The callback never fails. -/
def RtpEmit.Succeeds {σ : Type} (emit : RtpEmit σ) : Prop := ∀ st p, (emit st p).2 = rtcOk

/-- All packets of `xs` handed over. -/
def sendAll {σ : Type} (emit : RtpEmit σ) (k : Stamp) (xs : List (Bool × Bytes)) (st : σ)
    (seq : UInt16) : Sent σ :=
  ⟨(stampAll k seq xs).foldl (fun st p => (emit st p).1) st, seq + UInt16.ofNat xs.length, rtcOk⟩

/-- The fragments of a NAL unit. -/
def fuItems (nalType indicator : UInt8) (mtu : ℕ) (marker : Bool) :
    (num : ℕ) → (first : Bool) → (p : Bytes) → List (Bool × Bytes)
  | 0, _, _ => []
  | num + 1, first, p =>
    (marker && num = 0, indicator :: fuHeader nalType first (num = 0) :: p.take mtu) ::
      fuItems nalType indicator mtu marker num false (p.drop mtu)

theorem length_fuItems (nalType indicator : UInt8) (mtu : ℕ) (marker : Bool) (num : ℕ)
    (first : Bool) (p : Bytes) : (fuItems nalType indicator mtu marker num first p).length = num := by
  induction num generalizing first p with
  | zero => rfl
  | succ num ih => rw [fuItems, List.length_cons, ih]

/-- The payloads of a NAL unit; the last one carries the marker. -/
def naluItems (nalu : Bytes) (marker : Bool) : List (Bool × Bytes) :=
  if nalu.length ≤ h264Mtu then [(marker, nalu)]
  else fuItems (h264NaluType nalu) (nalu.headD 0 &&& 0xe0 ||| 28) h264Mtu marker
    (1 + (nalu.length - 2) / h264Mtu) true nalu.tail

/-- The payload of an aggregation packet. -/
def stapPayload (nalus : List Bytes) : Bytes :=
  ((nalus.headD []).getD 0 0 &&& 0xe0 ||| 24) :: stapUnits nalus

theorem stampAll_append (k : Stamp) (seq : UInt16) (xs ys : List (Bool × Bytes)) :
    stampAll k seq (xs ++ ys) =
      stampAll k seq xs ++ stampAll k (seq + UInt16.ofNat xs.length) ys := by
  induction xs generalizing seq with
  | nil => simp [stampAll]
  | cons x xs ih =>
    simp only [List.cons_append, stampAll, ih, List.length_cons, Rtp.seq_succ]

section Spec
variable {σ : Type} {emit : RtpEmit σ} (k : Stamp)

theorem sendAll_append (xs ys : List (Bool × Bytes)) (st : σ) (seq : UInt16) :
    sendAll emit k (xs ++ ys) st seq =
      sendAll emit k ys (sendAll emit k xs st seq).st (sendAll emit k xs st seq).seq := by
  simp only [sendAll, stampAll_append, List.foldl_append, List.length_append, UInt16.ofNat_add,
    UInt16.add_assoc]

theorem sendRtp_eq (he : emit.Succeeds) (m : Bool) (p : Bytes) (st : σ) (seq : UInt16) :
    sendRtp emit (rtpBuildHeader k seq m ++ p) st seq = sendAll emit k [(m, p)] st seq := by
  simp only [sendRtp, sendAll, stampAll, List.foldl_cons, List.foldl_nil, List.length_singleton,
    he st]
  rfl

theorem fuLoop_eq (he : emit.Succeeds) (nalType indicator : UInt8) {mtu cap : ℕ}
    (hcap : rtpHeaderSize + 2 + mtu ≤ cap) (marker : Bool) (num : ℕ) (first : Bool) (p : Bytes)
    (st : σ) (seq : UInt16) :
    fuLoop emit k nalType indicator mtu marker cap num first p st seq =
      sendAll emit k (fuItems nalType indicator mtu marker num first p) st seq := by
  induction num generalizing first p st seq with
  | zero => simp [fuLoop, fuItems, sendAll, stampAll]
  | succ num ih =>
    have hfit : ¬ cap < rtpHeaderSize + 2 + min p.length mtu := by omega
    rw [fuLoop, if_neg hfit, sendRtp_eq k he]
    simp only [ih, ne_eq]
    rw [if_neg (by simp [sendAll, rtcOk])]
    exact (sendAll_append k [_] (fuItems nalType indicator mtu marker num false (p.drop mtu)) st
      seq).symm

/-- **What a NAL unit is sent as**, when the scratch buffer has room for a packet. -/
theorem h264Packetize_eq (he : emit.Succeeds) {nalu : Bytes} (hn : nalu ≠ []) {cap : ℕ}
    (hcap : rtpHeaderSize + 2 + h264Mtu ≤ cap) (marker : Bool) (st : σ) (seq : UInt16) :
    h264Packetize emit k nalu marker cap st seq =
      sendAll emit k (naluItems nalu marker) st seq := by
  rw [h264Packetize, if_neg hn, naluItems]
  split_ifs with hmtu
  · rw [h264PacketizeSingle, if_neg hn, if_neg (by omega), sendRtp_eq k he]
  · cases nalu with
    | nil => exact absurd rfl hn
    | cons b p =>
      have hp : p ≠ [] := by
        rintro rfl
        simp [h264Mtu] at hmtu
      rw [h264PacketizeFuA, if_neg (by simp [hp, h264Mtu]), fuLoop_eq k he _ _ hcap]
      rfl

/-- An aggregation packet within the bounds is sent as one payload. -/
theorem h264PacketizeStapA_eq (he : emit.Succeeds) {nalus : List Bytes} (hn : nalus ≠ []) {len : ℕ}
    (hlen : stapLength 1 nalus = some len) {cap : ℕ} (hcap : rtpHeaderSize + len ≤ cap) (st : σ)
    (seq : UInt16) :
    h264PacketizeStapA emit k nalus cap st seq =
      sendAll emit k [(false, stapPayload nalus)] st seq := by
  cases nalus with
  | nil => exact absurd rfl hn
  | cons n ns =>
    simp only [h264PacketizeStapA, hlen]
    rw [if_neg (by omega), sendRtp_eq k he]
    rfl

end Spec

/-! ## What a receiver makes of it -/

theorem typeOf_fuIndicator (b : UInt8) : H264.typeOf (b &&& 0xe0 ||| 28) = H264.fuA := by
  revert b
  exact UInt8.forall_of_bitVec (by decide +kernel)

theorem typeOf_stapHeader (b : UInt8) : H264.typeOf (b &&& 0xe0 ||| 24) = H264.stapA := by
  revert b
  exact UInt8.forall_of_bitVec (by decide +kernel)

/-- The start and the end bit of a fragment are those asked for. -/
theorem fuHeader_bits (b : UInt8) (first last : Bool) :
    (fuHeader (b &&& 0x1f) first last &&& 0x80 ≠ 0 ↔ first = true) ∧
      (fuHeader (b &&& 0x1f) first last &&& 0x40 ≠ 0 ↔ last = true) := by
  revert b
  cases first <;> cases last <;> exact UInt8.forall_of_bitVec (by decide +kernel)

/-- The header of the NAL unit is put together again from a first fragment. -/
theorem startOf_fuHeader (b : UInt8) (last : Bool) (body : Bytes) :
    H264.startOf (b &&& 0xe0 ||| 28) (fuHeader (b &&& 0x1f) true last) body = b :: body := by
  have hb : ((b &&& 0xe0 ||| 28) &&& 0xe0 ||| fuHeader (b &&& 0x1f) true last &&& 0x1f) = b := by
    revert b
    cases last <;> exact UInt8.forall_of_bitVec (by decide +kernel)
  rw [H264.startOf, hb]

/-- The fragments after the first one complete the NAL unit. -/
theorem feed_fuItems (b : UInt8) {mtu : ℕ} (marker : Bool) (num : ℕ) (acc p : Bytes)
    (hnum : p.length ≤ (num + 1) * mtu) :
    H264.feed (some acc) ((fuItems (b &&& 0x1f) (b &&& 0xe0 ||| 28) mtu marker (num + 1) false
      p).map Prod.snd) = (none, [acc ++ p]) := by
  induction num generalizing acc p with
  | zero =>
    have htake : p.take mtu = p := List.take_of_length_le (by omega)
    simp only [fuItems, List.map_cons, List.map_nil, htake]
    rw [H264.feed_fuA _ (typeOf_fuIndicator b)]
    simp [(fuHeader_bits b false _).1, (fuHeader_bits b false _).2]
  | succ num ih =>
    have hdrop : (p.drop mtu).length ≤ (num + 1) * mtu := by
      rw [List.length_drop]
      rw [Nat.succ_mul] at hnum
      omega
    rw [fuItems, List.map_cons, ← List.singleton_append, H264.feed_append,
      H264.feed_fuA _ (typeOf_fuIndicator b)]
    simp only [(fuHeader_bits b false _).1, (fuHeader_bits b false _).2, decide_eq_true_eq,
      Bool.false_eq_true, if_false, Nat.add_eq_zero_iff, Nat.one_ne_zero, and_false,
      Option.map_some, List.nil_append]
    rw [ih (acc ++ p.take mtu) (p.drop mtu) hdrop, List.append_assoc, List.take_append_drop]

/-- **The fragments of a NAL unit** put it together again, whatever was kept before. -/
theorem feed_fuItems_first (kept : Option H264.Nalu) (b : UInt8) {mtu : ℕ} (marker : Bool)
    (num : ℕ) (p : Bytes) (hnum : p.length ≤ (num + 1) * mtu) :
    H264.feed kept ((fuItems (b &&& 0x1f) (b &&& 0xe0 ||| 28) mtu marker (num + 1) true p).map
      Prod.snd) = (none, [b :: p]) := by
  rw [fuItems, List.map_cons, ← List.singleton_append, H264.feed_append,
    H264.feed_fuA _ (typeOf_fuIndicator b)]
  simp only [(fuHeader_bits b true _).1, (fuHeader_bits b true _).2, startOf_fuHeader, if_true,
    decide_eq_true_eq]
  cases num with
  | zero =>
    have htake : p.take mtu = p := List.take_of_length_le (by omega)
    simp [fuItems, H264.feed, htake]
  | succ num =>
    have hdrop : (p.drop mtu).length ≤ (num + 1) * mtu := by
      rw [List.length_drop]
      rw [Nat.succ_mul] at hnum
      omega
    simp only [Nat.add_eq_zero_iff, Nat.one_ne_zero, and_false, if_false, List.nil_append]
    rw [feed_fuItems b marker num (b :: p.take mtu) (p.drop mtu) hdrop, List.cons_append,
      List.take_append_drop]

/-- The NAL unit can be sent as it is: it is long enough to be fragmented, or of a type that a
    payload of its own may have. -/
def Sendable (nalu : Bytes) : Prop := h264Mtu < nalu.length ∨ H264.isPlain nalu = true

theorem h264NaluType_cons (b : UInt8) (p : Bytes) : h264NaluType (b :: p) = H264.typeOf b := rfl

/-- A long NAL unit is sent in fragments. -/
theorem naluItems_long {b : UInt8} {p : Bytes} (h : h264Mtu < (b :: p).length) (marker : Bool) :
    ∃ num, p.length ≤ (num + 1) * h264Mtu ∧ naluItems (b :: p) marker =
      fuItems (b &&& 0x1f) (b &&& 0xe0 ||| 28) h264Mtu marker (num + 1) true p := by
  refine ⟨(p.length - 1) / h264Mtu, ?_, ?_⟩
  · simp only [h264Mtu] at h ⊢
    omega
  · rw [naluItems, if_neg (by omega), Nat.add_comm 1]
    rfl

/-- **A receiver puts the NAL unit together again**, whatever it kept before. -/
theorem feed_naluItems (kept : Option H264.Nalu) {nalu : Bytes} (hn : nalu ≠ [])
    (hs : Sendable nalu) (marker : Bool) :
    H264.feed kept ((naluItems nalu marker).map Prod.snd) = (none, [nalu]) := by
  cases nalu with
  | nil => exact absurd rfl hn
  | cons b p =>
    by_cases hl : h264Mtu < (b :: p).length
    · obtain ⟨num, hnum, he⟩ := naluItems_long hl marker
      rw [he, feed_fuItems_first kept b marker num p hnum]
    · rw [naluItems, if_pos (not_lt.1 hl)]
      exact H264.feed_single kept (hs.resolve_left hl)

/-- Whatever its type, a receiver makes no more of a NAL unit than its bytes, and less if it cannot
    be sent as it is. -/
theorem size_feed_naluItems (kept : Option H264.Nalu) {nalu : Bytes} (hn : nalu ≠ [])
    (marker : Bool) :
    H264.size (H264.feed kept ((naluItems nalu marker).map Prod.snd)).2 +
        H264.size (H264.feed kept ((naluItems nalu marker).map Prod.snd)).1.toList ≤
      H264.size kept.toList + nalu.length ∧
    (¬ Sendable nalu → H264.size (H264.feed kept ((naluItems nalu marker).map Prod.snd)).2 +
        H264.size (H264.feed kept ((naluItems nalu marker).map Prod.snd)).1.toList <
      H264.size kept.toList + nalu.length) := by
  by_cases hl : h264Mtu < nalu.length
  · rw [feed_naluItems kept hn (.inl hl)]
    refine ⟨?_, fun h => absurd (.inl hl) h⟩
    simp [H264.size]
  · have h := H264.size_receive_le kept hn
    rw [naluItems, if_pos (not_lt.1 hl)]
    simp only [List.map_cons, List.map_nil, H264.feed, List.append_nil]
    refine ⟨by omega, fun hs => ?_⟩
    have hplain : H264.isPlain nalu = false := by
      rw [Bool.eq_false_iff]
      exact fun hp => hs (.inr hp)
    simp only [hplain, Bool.false_eq_true, if_false] at h
    omega

/-! ## Markers and starts -/

theorem markers_fuItems (nalType indicator : UInt8) (mtu : ℕ) (marker : Bool) (num : ℕ)
    (first : Bool) (p : Bytes) :
    (fuItems nalType indicator mtu marker (num + 1) first p).map Prod.fst =
      List.replicate num false ++ [marker] := by
  induction num generalizing first p with
  | zero => simp [fuItems]
  | succ num ih =>
    rw [fuItems, List.map_cons, ih, List.replicate_succ, List.cons_append]
    simp

/-- **The marker** rides the last packet of the NAL unit, and no other. -/
theorem markers_naluItems {nalu : Bytes} (hn : nalu ≠ []) (marker : Bool) :
    ∃ num, (naluItems nalu marker).map Prod.fst = List.replicate num false ++ [marker] := by
  cases nalu with
  | nil => exact absurd rfl hn
  | cons b p =>
    by_cases hl : h264Mtu < (b :: p).length
    · obtain ⟨num, -, he⟩ := naluItems_long hl marker
      exact ⟨num, by rw [he, markers_fuItems]⟩
    · exact ⟨0, by rw [naluItems, if_pos (not_lt.1 hl)]; rfl⟩

theorem plainType_fuA : H264.plainType H264.fuA = false := by decide

theorem startsType_fuHeader (t b : UInt8) (first last : Bool) (body : Bytes) :
    H264.startsType t ((b &&& 0xe0 ||| 28) :: fuHeader (b &&& 0x1f) first last :: body) =
      (first && decide (H264.typeOf b = t)) := by
  have htype : fuHeader (b &&& 0x1f) first last &&& 0x1f = H264.typeOf b := by
    revert b
    cases first <;> cases last <;> exact UInt8.forall_of_bitVec (by decide +kernel)
  simp only [H264.startsType, typeOf_fuIndicator, plainType_fuA, Bool.false_eq_true, if_false,
    if_true, List.head?_cons, Option.any_some, (fuHeader_bits b first last).1, htype,
    Bool.decide_and, Bool.decide_eq_true]

theorem startsType_fuItems (t b : UInt8) (mtu : ℕ) (marker : Bool) (num : ℕ) (p : Bytes) :
    ∀ x ∈ fuItems (b &&& 0x1f) (b &&& 0xe0 ||| 28) mtu marker num false p,
      H264.startsType t x.2 = false := by
  induction num generalizing p with
  | zero => exact fun x hx => nomatch hx
  | succ num ih =>
    intro x hx
    rcases List.mem_cons.1 hx with rfl | hx
    · rw [startsType_fuHeader, Bool.false_and]
    · exact ih _ x hx

/-- Only the first payload starts the NAL unit. -/
theorem startsType_naluItems {nalu : Bytes} (hn : nalu ≠ []) (hs : Sendable nalu) (t : UInt8)
    (marker : Bool) :
    ∃ x xs, naluItems nalu marker = x :: xs ∧
      (H264.startsType t x.2 = true ↔ h264NaluType nalu = t) ∧
        ∀ y ∈ xs, H264.startsType t y.2 = false := by
  cases nalu with
  | nil => exact absurd rfl hn
  | cons b p =>
    by_cases hl : h264Mtu < (b :: p).length
    · obtain ⟨num, -, he⟩ := naluItems_long hl marker
      refine ⟨_, _, he, ?_, startsType_fuItems t b h264Mtu marker num _⟩
      rw [startsType_fuHeader, h264NaluType_cons, Bool.true_and, decide_eq_true_eq]
    · refine ⟨(marker, b :: p), [], ?_, ?_, fun y hy => nomatch hy⟩
      · rw [naluItems, if_pos (not_lt.1 hl)]
      have hplain : H264.plainType (H264.typeOf b) = true := hs.resolve_left hl
      simp only [H264.startsType, hplain, if_true, decide_eq_true_eq, h264NaluType_cons]

/-! ## Aggregation packets -/

theorem ofBytes_size {n : Bytes} (h : n.length < 2 ^ 16) :
    Rtp.ofBytes [(UInt32.ofNat n.length >>> 8 &&& 0xff).toUInt8,
      (UInt32.ofNat n.length &&& 0xff).toUInt8] = n.length := by
  rw [Rtp.ofBytes_two]
  simp only [UInt32.toNat_toUInt8, UInt32.toNat_and, UInt32.toNat_shiftRight, UInt32.toNat_ofNat',
    Nat.shiftRight_eq_div_pow, UInt32.reduceToNat, toNat_and_ff, Nat.reduceMod, Nat.reducePow]
  simp only [Nat.reducePow] at h
  omega

/-- **The units of an aggregation packet** are read back. -/
theorem aggregated_stapUnits {nalus : List Bytes} (h : ∀ n ∈ nalus, n.length < 2 ^ 16) :
    H264.aggregated (stapUnits nalus) = nalus := by
  induction nalus with
  | nil => simp [stapUnits, H264.aggregated]
  | cons n ns ih =>
    rw [stapUnits, List.flatMap_cons]
    simp only [List.cons_append]
    rw [H264.aggregated_append (ofBytes_size (h n List.mem_cons_self))]
    exact congrArg (n :: ·) (ih fun m hm => h m (List.mem_cons_of_mem n hm))

theorem feed_stapPayload (kept : Option H264.Nalu) {nalus : List Bytes}
    (h : ∀ n ∈ nalus, n.length < 2 ^ 16) :
    H264.feed kept [stapPayload nalus] = (none, nalus) := by
  rw [stapPayload, H264.feed_stapA kept (typeOf_stapHeader _), aggregated_stapUnits h]

end NginxRtc
