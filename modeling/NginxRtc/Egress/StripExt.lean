/-
  Header normalisation (`ngx_rtc_rtp_strip_header_ext`), and the extension that a send stamps.

  What the strip accepts are the packets of `Rtp.Packet`; it leaves their plain form in place.  A
  send puts its extension behind the fixed header of such a plain packet, so stripping what it
  stamped gives the packet back.

  `strip_normalises`: the strip on any bytes, and on what a send stamped.
-/
import NginxRtc.Lib.Rtp
import NginxRtc.Egress.Send

namespace NginxRtc

def rtpExtension : UInt8 := 0x10
def rtpCsrcMask : UInt8 := 0x0f

/-- `NGX_RTC_OK` and `NGX_RTC_ERR_PARSE`. -/
def rtpOk : ℤ := 0
def rtpErrParse : ℤ := -4

/-- `memmove(b + dst, b + src, n)`. -/
def memmove (b : Bytes) (dst src n : ℕ) : Bytes :=
  b.take dst ++ (b.drop src).take n ++ b.drop (dst + n)

/-- Where the payload begins, unless the header runs past the packet. -/
def headerEnd (rtp : Bytes) (len : ℕ) : Option ℕ :=
  if len < rtpHeaderSize then none
  else
    let hdr := rtpHeaderSize + 4 * (rtp.getD 0 0 &&& rtpCsrcMask).toNat
    if rtp.getD 0 0 &&& rtpExtension ≠ 0 then
      if len < hdr + 4 then none
      else within (hdr + (4 + 4 *
        (Wire.word16 (rtp.getD (hdr + 2) 0) (rtp.getD (hdr + 3) 0)).toNat))
    else within hdr
where
  within (hdr : ℕ) : Option ℕ := if len < hdr then none else some hdr

/-- `ngx_rtc_rtp_strip_header_ext` on the first `len` bytes of a buffer: its result, the buffer
    after it and the new length. -/
def stripHeaderExt (rtp : Bytes) (len : ℕ) : ℤ × Bytes × ℕ :=
  match headerEnd rtp len with
  | none => (rtpErrParse, rtp, len)
  | some hdr =>
    let r :=
      if hdr ≠ rtpHeaderSize then
        (memmove rtp rtpHeaderSize hdr (len - hdr), rtpHeaderSize + (len - hdr))
      else (rtp, len)
    (rtpOk, r.1.modifyHead (· &&& ~~~(rtpCsrcMask ||| rtpExtension)), r.2)

/-! ## What the strip accepts -/

theorem getD_drop (b : Bytes) (i k : ℕ) : (b.drop i).getD k 0 = b.getD (i + k) 0 := by
  rw [List.getD_eq_getElem?_getD, List.getElem?_drop, ← List.getD_eq_getElem?_getD]

theorem getD_append {b : Bytes} {i : ℕ} (h : i < b.length) (c : Bytes) :
    (b ++ c).getD i 0 = b.getD i 0 := by
  rw [List.getD_eq_getElem?_getD, List.getElem?_append_left h, ← List.getD_eq_getElem?_getD]

/-- The length field of an extension. -/
theorem word16_extension : ∀ {e : Bytes}, 4 ≤ e.length →
    (Wire.word16 (e.getD 2 0) (e.getD 3 0)).toNat = Rtp.ofBytes ((e.drop 2).take 2)
  | _ :: _ :: x :: y :: _, _ => by
    refine (Wire.word16_toNat x y).trans ?_
    rw [Nat.mul_comm]
    exact (Rtp.ofBytes_two x y).symm

theorem headerEnd_packet (p : Rtp.Packet) (spare : Bytes) :
    headerEnd (p.bytes ++ spare) p.bytes.length = some p.headerBytes := by
  have hlen := p.length_bytes
  have hext := p.extension_length
  have hfirst : (p.bytes ++ spare).getD 0 0 = p.first := rfl
  have hdrop : (p.bytes ++ spare).drop (12 + p.csrcs.length) =
      p.extension ++ (p.payload ++ spare) := by
    have hpre : (p.first :: (p.fixed ++ p.csrcs)).length = 12 + p.csrcs.length := by
      simp only [List.length_cons, List.length_append, p.fixed_length]
      omega
    have hsplit : p.bytes ++ spare =
        (p.first :: (p.fixed ++ p.csrcs)) ++ (p.extension ++ (p.payload ++ spare)) := by
      simp [Rtp.Packet.bytes]
    rw [hsplit]
    exact List.drop_left' hpre
  have hcsrc : rtpHeaderSize + 4 * (p.first &&& rtpCsrcMask).toNat = 12 + p.csrcs.length :=
    congrArg (12 + ·) p.csrcs_length.symm
  unfold Rtp.Packet.headerBytes at hlen ⊢
  unfold headerEnd
  simp only [hfirst, hcsrc]
  rw [if_neg (by simp only [rtpHeaderSize]; omega)]
  by_cases hx : p.first &&& rtpExtension = 0
  · have hnone : p.extension.length = 0 := hext.trans (if_pos hx)
    rw [if_neg (not_not.2 hx), headerEnd.within, if_neg (by omega), hnone, Nat.add_zero]
  · replace hext := hext.trans (if_neg hx)
    have hword : ∀ k, k < 4 → (p.bytes ++ spare).getD (12 + p.csrcs.length + k) 0 =
        p.extension.getD k 0 := by
      intro k hk
      rw [← getD_drop, hdrop, getD_append (by omega)]
    rw [if_pos hx, if_neg (by omega), hword 2 (by decide), hword 3 (by decide),
      word16_extension (by omega), ← hext, headerEnd.within, if_neg (by omega)]

theorem take_drop_append (b : Bytes) (i k : ℕ) : (b.drop i).take k ++ b.drop (i + k) = b.drop i := by
  rw [← List.drop_drop, List.take_append_drop]

theorem within_some {len hdr k : ℕ} (h : headerEnd.within len hdr = some k) : hdr = k ∧ k ≤ len := by
  unfold headerEnd.within at h
  split at h
  · exact nomatch h
  · cases h
    exact ⟨rfl, Nat.le_of_not_lt ‹_›⟩

/-- What the strip takes is a packet. -/
theorem packet_of_headerEnd {b spare : Bytes} {hdr : ℕ}
    (h : headerEnd (b ++ spare) b.length = some hdr) : ∃ p : Rtp.Packet, p.bytes = b := by
  unfold headerEnd at h
  split at h
  · exact nomatch h
  · next hlen =>
    have h12 : 12 ≤ b.length := Nat.le_of_not_lt hlen
    set n := 4 * (b.getD 0 0 &&& rtpCsrcMask).toNat with hn
    have hfirst : (b ++ spare).getD 0 0 = b.getD 0 0 := getD_append (by omega) _
    simp only [hfirst, rtpHeaderSize, ← hn] at h
    -- the parts of the packet, with an extension of `m` bytes
    have hparts : ∀ m, 12 + n + m ≤ b.length →
        m = (if b.getD 0 0 &&& 0x10 = 0 then 0 else
          4 + 4 * Rtp.ofBytes ((((b.drop (12 + n)).take m).drop 2).take 2)) →
        ∃ p : Rtp.Packet, p.bytes = b := by
      intro m hm hext
      refine ⟨⟨b.getD 0 0, (b.drop 1).take 11, (b.drop 12).take n, (b.drop (12 + n)).take m,
        b.drop (12 + n + m), ?_, ?_, ?_⟩, ?_⟩
      · rw [List.length_take, List.length_drop]
        omega
      · rw [List.length_take, List.length_drop]
        exact (Nat.min_eq_left (by omega)).trans hn
      · rw [List.length_take, List.length_drop, Nat.min_eq_left (by omega)]
        exact hext
      · simp only [Rtp.Packet.bytes, List.append_assoc]
        rw [take_drop_append, take_drop_append, take_drop_append b 1 11]
        cases b with
        | nil => exact absurd h12 (by decide)
        | cons x t => rfl
    split at h
    · next hx =>
      split at h
      · exact nomatch h
      · next hroom =>
        obtain ⟨rfl, hle⟩ := within_some h
        refine hparts _ hle (Eq.trans ?_ (if_neg hx).symm)
        set e := (b.drop (12 + n)).take (4 + 4 *
          (Wire.word16 ((b ++ spare).getD (12 + n + 2) 0)
            ((b ++ spare).getD (12 + n + 3) 0)).toNat) with he
        have hword : ∀ k, k < 4 → (b ++ spare).getD (12 + n + k) 0 = e.getD k 0 := by
          intro k hk
          rw [getD_append (by omega), ← getD_drop, he, List.getD_eq_getElem?_getD,
            List.getD_eq_getElem?_getD, List.getElem?_take_of_lt (by omega)]
        have hfour : 4 ≤ e.length := by
          rw [he, List.length_take, List.length_drop]
          omega
        rw [← word16_extension hfour, ← hword 2 (by decide), ← hword 3 (by decide)]
    · next hx =>
      obtain ⟨rfl, hle⟩ := within_some h
      exact hparts 0 hle (if_pos (not_not.1 hx)).symm

/-! ## The strip -/

/-- The strip leaves the plain packet, and what lies behind the packet alone. -/
theorem strip_packet (p : Rtp.Packet) (spare : Bytes) :
    ∃ old, stripHeaderExt (p.bytes ++ spare) p.bytes.length =
        (rtpOk, p.plain.bytes ++ (old ++ spare), p.plain.bytes.length) ∧
      p.plain.bytes.length + old.length = p.bytes.length := by
  have hlen := p.length_bytes
  have hplain : p.plain.bytes.length = rtpHeaderSize + p.payload.length := by
    rw [p.bytes_plain, List.length_cons, List.length_append, p.fixed_length, rtpHeaderSize]
    omega
  have hmask : ~~~(rtpCsrcMask ||| rtpExtension) = 0xe0 := rfl
  simp only [stripHeaderExt, headerEnd_packet, hmask]
  by_cases hhdr : p.headerBytes = rtpHeaderSize
  · -- nothing to move
    have hnone : p.csrcs = [] ∧ p.extension = [] := by
      unfold Rtp.Packet.headerBytes rtpHeaderSize at hhdr
      exact ⟨List.eq_nil_of_length_eq_zero (by omega), List.eq_nil_of_length_eq_zero (by omega)⟩
    refine ⟨[], ?_, ?_⟩
    · rw [if_neg (not_not.2 hhdr), hlen, hhdr, hplain, p.bytes_plain, Rtp.Packet.bytes, hnone.1,
        hnone.2]
      simp
    · rw [hlen, hhdr, hplain]
      rfl
  · have hmoved : p.bytes.length - p.headerBytes = p.payload.length := by omega
    have htwelve : (p.bytes ++ spare).take rtpHeaderSize = p.first :: p.fixed := by
      rw [show p.bytes ++ spare = (p.first :: p.fixed) ++
        (p.csrcs ++ p.extension ++ p.payload ++ spare) by simp [Rtp.Packet.bytes]]
      exact List.take_left' (congrArg (· + 1) p.fixed_length)
    have hpayload : (p.bytes ++ spare).drop p.headerBytes = p.payload ++ spare := by
      have hpre : (p.first :: (p.fixed ++ p.csrcs ++ p.extension)).length = p.headerBytes := by
        simp only [List.length_cons, List.length_append, p.fixed_length, Rtp.Packet.headerBytes]
        omega
      rw [show p.bytes ++ spare = (p.first :: (p.fixed ++ p.csrcs ++ p.extension)) ++
        (p.payload ++ spare) by simp [Rtp.Packet.bytes]]
      exact List.drop_left' hpre
    have hge : rtpHeaderSize ≤ p.headerBytes := by
      unfold rtpHeaderSize Rtp.Packet.headerBytes
      omega
    refine ⟨p.bytes.drop (rtpHeaderSize + p.payload.length), ?_, ?_⟩
    · rw [if_pos hhdr, hmoved, memmove, htwelve, hpayload, List.take_left' rfl, p.bytes_plain,
        List.drop_append_of_le_length (by omega), ← p.bytes_plain, hplain, p.bytes_plain]
      simp
    · rw [hplain, List.length_drop]
      omega

/-! ## A stamped packet -/

/-- A packet without sources and extension. -/
structure FixedHeader (rtp : Bytes) : Prop where
  length : rtpHeaderSize ≤ rtp.length
  head : rtp.getD 0 0 &&& 0x1f = 0

theorem plain_bits : ∀ b : UInt8, b &&& 0x1f = 0 → b &&& 0x0f = 0 ∧ b &&& 0x10 = 0 ∧
    b &&& 0xe0 = b ∧ (b ||| 0x10) &&& 0x0f = 0 ∧ (b ||| 0x10) &&& 0x10 ≠ 0 ∧
    (b ||| 0x10) &&& 0xe0 = b :=
  UInt8.forall_of_bitVec (by decide)

theorem FixedHeader.split {rtp : Bytes} (h : FixedHeader rtp) :
    ∃ b t, rtp = b :: t ∧ 11 ≤ t.length ∧ b &&& 0x1f = 0 := by
  cases rtp with
  | nil => exact absurd h.length (by decide)
  | cons b t => exact ⟨b, t, rfl, Nat.le_of_succ_le_succ h.length, h.head⟩

theorem packet_of_fixed {rtp : Bytes} (h : FixedHeader rtp) :
    ∃ p : Rtp.Packet, p.bytes = rtp ∧ p.plain.bytes = rtp := by
  obtain ⟨b, t, rfl, ht, hhead⟩ := h.split
  obtain ⟨hcc, hx, hkeep, -⟩ := plain_bits b hhead
  refine ⟨⟨b, t.take 11, [], [], t.drop 11, ?_, ?_, ?_⟩, ?_, ?_⟩
  · rw [List.length_take, Nat.min_eq_left ht]
  · rw [hcc]
    rfl
  · rw [if_pos hx]
    rfl
  · simp [Rtp.Packet.bytes]
  · simp [Rtp.Packet.bytes_plain, hkeep]

/-- The extension stands between the fixed header and the payload. -/
theorem packet_withTwcc {rtp : Bytes} (h : FixedHeader rtp) (ext : UInt8) (seq : UInt16) :
    ∃ p : Rtp.Packet, p.bytes = withTwcc ext seq rtp ∧ p.plain.bytes = rtp := by
  obtain ⟨b, t, rfl, ht, hhead⟩ := h.split
  obtain ⟨-, -, -, hcc, hx, hkeep⟩ := plain_bits b hhead
  refine ⟨⟨b ||| 0x10, t.take 11, [], twccExtension ext seq, t.drop 11, ?_, ?_, ?_⟩, ?_, ?_⟩
  · rw [List.length_take, Nat.min_eq_left ht]
  · rw [hcc]
    rfl
  · rw [if_neg hx]
    rfl
  · simp [Rtp.Packet.bytes, withTwcc, rtpHeaderSize]
  · simp [Rtp.Packet.bytes_plain, hkeep]

/-- The payload type is rewritten in the fixed header, which the extension follows. -/
theorem rewritePt_withTwcc (pt ext : UInt8) (seq : UInt16) {rtp : Bytes}
    (h : rtpHeaderSize ≤ rtp.length) :
    rewritePt pt (withTwcc ext seq rtp) = withTwcc ext seq (rewritePt pt rtp) := by
  unfold rewritePt
  split
  · rfl
  · match rtp, h with
    | x :: y :: t, _ => rfl

theorem FixedHeader.rewritePt {rtp : Bytes} (h : FixedHeader rtp) (pt : UInt8) :
    FixedHeader (rewritePt pt rtp) where
  length := by
    rw [length_rewritePt]
    exact h.length
  head := by
    rw [getD_rewritePt _ _ (by decide)]
    exact h.head

/-- What a send makes of a packet is the packet of its payload type, stamped or not. -/
theorem packet_plaintext (s : Setup) (seq : UInt16) {rtp : Bytes} (h : FixedHeader rtp) :
    ∃ p : Rtp.Packet, p.bytes = s.plaintext seq rtp ∧
      p.plain.bytes = rewritePt (s.resolve rtp).1 rtp := by
  unfold Setup.plaintext
  split
  · rw [rewritePt_withTwcc _ _ _ h.length]
    exact packet_withTwcc (h.rewritePt _) _ _
  · exact packet_of_fixed (h.rewritePt _)

/-! ## Normalisation -/

/-- The strip of the first `len` bytes: what is no packet is refused and left alone; a packet
    becomes its plain form in place, what lies behind it stays, and a second strip does nothing. -/
def Normalises (rtp : Bytes) (len : ℕ) : Prop :=
  ((¬∃ p : Rtp.Packet, p.bytes = rtp.take len) ∧
    stripHeaderExt rtp len = (rtpErrParse, rtp, len)) ∨
  ∃ (p : Rtp.Packet) (rtp' : Bytes), p.bytes = rtp.take len ∧
    stripHeaderExt rtp len = (rtpOk, rtp', p.plain.bytes.length) ∧
    rtp'.take p.plain.bytes.length = p.plain.bytes ∧
    rtp'.drop len = rtp.drop len ∧
    stripHeaderExt rtp' p.plain.bytes.length = (rtpOk, rtp', p.plain.bytes.length)

/-- `rtp'` is `rtp` with the payload type `pt`, if that is not 0. -/
structure Retyped (pt : UInt8) (rtp rtp' : Bytes) : Prop where
  others : ∀ i, i ≠ 1 → rtp'[i]? = rtp[i]?
  marker : rtp'.getD 1 0 &&& 0x80 = rtp.getD 1 0 &&& 0x80
  type : rtp'.getD 1 0 &&& 0x7f = (if pt = 0 then rtp.getD 1 0 else pt) &&& 0x7f

/-- What a send makes of `rtp`, stripped, is `rtp` with the payload type of the session. -/
def GivesBack (s : Setup) (seq : UInt16) (rtp : Bytes) : Prop :=
  ∃ buf, stripHeaderExt (s.plaintext seq rtp) (s.plaintext seq rtp).length =
    (rtpOk, buf, rtp.length) ∧ Retyped (s.resolve rtp).1 rtp (buf.take rtp.length)

theorem normalises (b spare : Bytes) : Normalises (b ++ spare) b.length := by
  rw [Normalises, List.take_left' rfl, List.drop_left' rfl]
  cases hend : headerEnd (b ++ spare) b.length with
  | none =>
    refine .inl ⟨?_, by simp only [stripHeaderExt, hend]⟩
    rintro ⟨p, rfl⟩
    rw [headerEnd_packet] at hend
    exact nomatch hend
  | some hdr =>
    obtain ⟨p, rfl⟩ := packet_of_headerEnd hend
    obtain ⟨old, hstrip, hlen⟩ := strip_packet p spare
    obtain ⟨none, hagain, hnone⟩ := strip_packet p.plain (old ++ spare)
    rw [p.plain_plain] at hagain hnone
    obtain rfl : none = [] := List.eq_nil_of_length_eq_zero (by omega)
    refine .inr ⟨p, _, rfl, hstrip, List.take_left' rfl, ?_, hagain⟩
    rw [← List.append_assoc]
    exact List.drop_left' (by rw [List.length_append, hlen])

theorem or_and (x y z : UInt8) : (x ||| y) &&& z = (x &&& z) ||| (y &&& z) :=
  UInt8.toBitVec_inj.1 BitVec.and_or_distrib_right

theorem rewritePt_retyped (pt : UInt8) {rtp : Bytes} (h : rtpHeaderSize ≤ rtp.length) :
    Retyped pt rtp (rewritePt pt rtp) := by
  have hbits : ∀ b pt : UInt8, ((b &&& 0x80) ||| (pt &&& 0x7f)) &&& 0x80 = b &&& 0x80 ∧
      ((b &&& 0x80) ||| (pt &&& 0x7f)) &&& 0x7f = pt &&& 0x7f := by
    intro b pt
    simp only [or_and, UInt8.and_assoc]
    exact ⟨(congrArg (_ ||| ·) UInt8.and_zero).trans UInt8.or_zero,
      (congrArg (· ||| _) UInt8.and_zero).trans UInt8.zero_or⟩
  unfold rewritePt
  split
  · exact ⟨fun _ _ => rfl, rfl, by rw [if_pos ‹_›]⟩
  · next hpt =>
    have hone : (rtp.set 1 ((rtp.getD 1 0 &&& 0x80) ||| (pt &&& 0x7f))).getD 1 0 =
        (rtp.getD 1 0 &&& 0x80) ||| (pt &&& 0x7f) := by
      match rtp, h with
      | _ :: _ :: _, _ => rfl
    refine ⟨fun i hi => List.getElem?_set_ne (Ne.symm hi), ?_, ?_⟩
    · rw [hone]
      exact (hbits _ _).1
    · rw [hone, if_neg hpt]
      exact (hbits _ _).2

/-- **Normalisation and stamping.**  The strip takes exactly the RTP packets and leaves their plain
    form; and it takes away what a send stamped on a plain packet. -/
theorem strip_normalises :
    (∀ (rtp : Bytes) (len : ℕ), len ≤ rtp.length → Normalises rtp len) ∧
    (∀ (s : Setup) (seq : UInt16) (rtp : Bytes), FixedHeader rtp → GivesBack s seq rtp) := by
  constructor
  · intro rtp len h
    have hn := normalises (rtp.take len) (rtp.drop len)
    rwa [List.take_append_drop, List.length_take, Nat.min_eq_left h] at hn
  · intro s seq rtp h
    obtain ⟨p, hp, hplain⟩ := packet_plaintext s seq h
    obtain ⟨old, hstrip, -⟩ := strip_packet p []
    rw [List.append_nil, hp, hplain, length_rewritePt] at hstrip
    refine ⟨_, hstrip, ?_⟩
    rw [List.take_left' (length_rewritePt _ _)]
    exact rewritePt_retyped _ h.length

/-- A packet with two sources and an extension of one word, and one that a session stamps. -/
theorem strip_normalises_sample :
    Normalises ([0x92, 111] ++ List.replicate 18 7 ++ [0xbe, 0xde, 0, 1] ++ List.replicate 8 9) 32 ∧
    GivesBack ⟨true, true, some (1, 2), 102, 111, 3, 3⟩ 5
      [0x80, 0xe0, 0, 1, 0, 0, 0, 0, 0, 0, 0, 1, 0x65] :=
  ⟨strip_normalises.1 _ _ (by decide), strip_normalises.2 _ _ _ ⟨by decide, by decide⟩⟩

end NginxRtc
