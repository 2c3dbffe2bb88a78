/-
  Whose datagram it is (`ngx_rtc_stream_handler`).

  STUN, DTLS, RTCP and RTP share one UDP port.  The handler tells them apart by the magic cookie of
  STUN, then by the first byte, then by the byte where RTCP has its packet type and RTP the marker and
  the payload type.

  `datagrams_sorted`: what becomes of the packets of each protocol, and which of them are taken for
  another's.
-/
import NginxRtc.Media.Packetize
import NginxRtc.Rtcp.Encode
import NginxRtc.Stun.Response

namespace NginxRtc

/-- The handlers `ngx_rtc_stream_handler` chooses from. -/
inductive DatagramKind where
  | stun
  | dtls
  | rtcp
  | srtp
deriving DecidableEq

/-- The choice; an empty datagram is dropped. -/
def datagramKind (data : Bytes) : Option DatagramKind :=
  if data.length < 1 then none
  else if 20 ≤ data.length ∧ data.getD 4 0 = 0x21 ∧ data.getD 5 0 = 0x12 ∧ data.getD 6 0 = 0xA4 ∧
      data.getD 7 0 = 0x42 then some .stun
  else if 20 ≤ data.getD 0 0 ∧ data.getD 0 0 ≤ 63 then some .dtls
  else if 2 ≤ data.length ∧ data.getD 0 0 &&& 0xc0 = 0x80 ∧ 200 ≤ data.getD 1 0 ∧
      data.getD 1 0 ≤ 207 then some .rtcp
  else some .srtp

namespace DatagramKind

/-- Without the cookie, the first two bytes decide. -/
def ofHead (b₀ b₁ : UInt8) : DatagramKind :=
  if 20 ≤ b₀ ∧ b₀ ≤ 63 then .dtls
  else if b₀ &&& 0xc0 = 0x80 ∧ 200 ≤ b₁ ∧ b₁ ≤ 207 then .rtcp
  else .srtp

/-- With it, they do not count in a datagram of 20 bytes. -/
def sorted (b₀ b₁ : UInt8) (word : UInt32) (len : ℕ) : DatagramKind :=
  if word = Stun.magicCookie ∧ 20 ≤ len then .stun else ofHead b₀ b₁

theorem ofHead_dtls {b₀ : UInt8} (b₁ : UInt8) (h : 20 ≤ b₀ ∧ b₀ ≤ 63) : ofHead b₀ b₁ = .dtls := if_pos h

end DatagramKind

theorem word32_eq_cookie {a b c d : UInt8} :
    Wire.word32 a b c d = Stun.magicCookie ↔ a = 0x21 ∧ b = 0x12 ∧ c = 0xA4 ∧ d = 0x42 := by
  constructor
  · intro h
    have hnat := congrArg UInt32.toNat h
    rw [Wire.word32_toNat] at hnat
    have ha := a.toNat_lt
    have hb := b.toNat_lt
    have hc := c.toNat_lt
    have hd := d.toNat_lt
    simp only [Stun.magicCookie, UInt32.reduceToNat] at hnat
    refine ⟨UInt8.toNat_inj.1 ?_, UInt8.toNat_inj.1 ?_, UInt8.toNat_inj.1 ?_, UInt8.toNat_inj.1 ?_⟩ <;>
      simp only [UInt8.reduceToNat] <;> omega
  · rintro ⟨rfl, rfl, rfl, rfl⟩
    rfl

/-- A datagram of eight bytes and more is sorted by its first two bytes and its second word. -/
theorem datagramKind_word (b₀ b₁ b₂ b₃ a b c d : UInt8) (rest : Bytes) :
    datagramKind (b₀ :: b₁ :: b₂ :: b₃ :: a :: b :: c :: d :: rest) =
      some (.sorted b₀ b₁ (Wire.word32 a b c d) (8 + rest.length)) := by
  have hlen : (b₀ :: b₁ :: b₂ :: b₃ :: a :: b :: c :: d :: rest).length = 8 + rest.length := by
    simp only [List.length_cons]
    omega
  have hsorted : DatagramKind.sorted b₀ b₁ (Wire.word32 a b c d) (8 + rest.length) =
      if 20 ≤ 8 + rest.length ∧ a = 0x21 ∧ b = 0x12 ∧ c = 0xA4 ∧ d = 0x42 then .stun
      else .ofHead b₀ b₁ := if_congr (by rw [word32_eq_cookie, and_comm]) rfl rfl
  have hrtcp : (2 ≤ 8 + rest.length ∧ b₀ &&& 0xc0 = 0x80 ∧ 200 ≤ b₁ ∧ b₁ ≤ 207) ↔
      b₀ &&& 0xc0 = 0x80 ∧ 200 ≤ b₁ ∧ b₁ ≤ 207 := and_iff_right (by omega)
  simp only [datagramKind, hsorted, hlen, List.getD_cons_zero, List.getD_cons_succ]
  rw [if_neg (by omega), apply_ite some]
  refine if_congr Iff.rfl rfl ?_
  rw [DatagramKind.ofHead, if_congr hrtcp rfl rfl, apply_ite some, apply_ite some]

/-! ## The formats -/

/-- An RTP packet may have the second byte of an RTCP packet. -/
theorem ofHead_rtp (pt : UInt8) (m : Bool) :
    DatagramKind.ofHead 0x80 (if m then pt &&& 0x7f ||| 0x80 else pt &&& 0x7f) =
      if m ∧ 72 ≤ pt &&& 0x7f ∧ pt &&& 0x7f ≤ 79 then .rtcp else .srtp := by
  revert pt
  cases m <;> exact UInt8.forall_of_bitVec (by decide +kernel)

theorem ofHead_rtcp (fmt : UInt8) {type : UInt8} (h : 200 ≤ type ∧ type ≤ 207) :
    DatagramKind.ofHead (0x80 ||| (fmt &&& 0x1f)) type = .rtcp := by
  have hfirst : ∀ fmt : UInt8, ¬ (20 ≤ 0x80 ||| (fmt &&& 0x1f) ∧ 0x80 ||| (fmt &&& 0x1f) ≤ 63) ∧
      (0x80 ||| (fmt &&& 0x1f)) &&& 0xc0 = 0x80 := UInt8.forall_of_bitVec (by decide +kernel)
  rw [DatagramKind.ofHead, if_neg (hfirst fmt).1, if_pos ⟨(hfirst fmt).2, h⟩]

theorem toUInt8_and_ff (x : UInt32) : (x &&& 0xff).toUInt8 = x.toUInt8 := by
  rw [UInt32.toUInt8_and]
  exact UInt8.and_neg_one

theorem datagramKind_rtp (k : Stamp) (seq : UInt16) (m : Bool) (rest : Bytes) :
    datagramKind (rtpBuildHeader k seq m ++ rest) =
      some (if k.timestamp = Stun.magicCookie ∧ 8 ≤ rest.length then .stun
        else if m ∧ 72 ≤ k.payloadType &&& 0x7f ∧ k.payloadType &&& 0x7f ≤ 79 then .rtcp
        else .srtp) := by
  refine (datagramKind_word _ _ _ _ _ _ _ _ _).trans ?_
  simp only [toUInt8_and_ff, Wire.word32_bytes, DatagramKind.sorted, ofHead_rtp]
  refine congrArg some (if_congr (and_congr_right fun _ => ?_) rfl rfl)
  show 20 ≤ 8 + (rest.length + 4) ↔ 8 ≤ rest.length
  omega

namespace Rtcp

def Item.type : Item → UInt8
  | .sr _ => typeSr
  | .sdes _ _ => typeSdes
  | .pli _ _ => typePsfb

def Item.ssrc : Item → UInt32
  | .sr s => s.ssrc
  | .sdes ssrc _ => ssrc
  | .pli sender _ => sender

theorem Item.head_encode (now : UInt64) {cap : ℕ} {item : Item} {pkt : Bytes}
    (h : item.encode now cap = .ok pkt) :
    ∃ fmt l₀ l₁ body, pkt = (0x80 ||| (fmt &&& 0x1f)) :: item.type :: l₀ :: l₁ ::
      (Wire.wr32 item.ssrc ++ body) := by
  cases item with
  | sr s =>
    by_cases hcap : cap < s.total
    · cases (if_pos hcap).symm.trans h
    · cases (if_neg hcap).symm.trans h
      exact ⟨s.fmt, _, _, _, rfl⟩
  | sdes ssrc cname =>
    simp only [Item.encode, encodeSdes] at h
    split_ifs at h
    cases h
    exact ⟨1, _, _, _, rfl⟩
  | pli sender media =>
    simp only [Item.encode, encodePli] at h
    split_ifs at h
    cases h
    exact ⟨fmtPli, _, _, _, rfl⟩

theorem prefix_encodeAll {now : UInt64} {tmp cap : ℕ} {items : List Item} {compound out : Bytes}
    (h : encodeAll now tmp cap items compound = .ok out) : compound <+: out := by
  induction items generalizing compound with
  | nil =>
    cases h
    exact List.prefix_rfl
  | cons item items ih =>
    simp only [encodeAll] at h
    split at h
    · cases h
    · split at h
      · cases h
      next happ =>
        rw [compoundAppend] at happ
        split_ifs at happ
        cases happ
        exact (List.prefix_append _ _).trans (ih h)

/-- The first packet of a compound packet stands at its start. -/
theorem head_encodeAll {now : UInt64} {tmp cap : ℕ} {item : Item} {items : List Item} {out : Bytes}
    (h : encodeAll now tmp cap (item :: items) [] = .ok out) :
    ∃ fmt l₀ l₁ body, out = (0x80 ||| (fmt &&& 0x1f)) :: item.type :: l₀ :: l₁ ::
      (Wire.wr32 item.ssrc ++ body) := by
  simp only [encodeAll] at h
  split at h
  · cases h
  next pkt hpkt =>
    obtain ⟨fmt, l₀, l₁, body, rfl⟩ := Item.head_encode now hpkt
    split at h
    · cases h
    next happ =>
      rw [compoundAppend] at happ
      split_ifs at happ
      cases happ
      obtain ⟨tail, rfl⟩ := prefix_encodeAll h
      exact ⟨fmt, l₀, l₁, body ++ tail, rfl⟩

end Rtcp

theorem Rtcp.Item.type_bounds (item : Item) : 200 ≤ item.type ∧ item.type ≤ 207 := by
  cases item with
  | sr => exact (show 200 ≤ typeSr ∧ typeSr ≤ 207 by decide)
  | sdes => exact (show 200 ≤ typeSdes ∧ typeSdes ≤ 207 by decide)
  | pli => exact (show 200 ≤ typePsfb ∧ typePsfb ≤ 207 by decide)

/-- Encryption leaves the first eight bytes as they are. -/
theorem datagramKind_rtcp {now : UInt64} {tmp cap : ℕ} {item : Rtcp.Item} {items : List Rtcp.Item}
    {out : Bytes} (h : Rtcp.encodeAll now tmp cap (item :: items) [] = .ok out) (rest : Bytes) :
    datagramKind (out.take 8 ++ rest) =
      some (if item.ssrc = Stun.magicCookie ∧ 12 ≤ rest.length then .stun else .rtcp) := by
  obtain ⟨fmt, l₀, l₁, body, rfl⟩ := Rtcp.head_encodeAll h
  refine (datagramKind_word _ _ _ _ _ _ _ _ _).trans ?_
  simp only [Wire.word32_bytes, DatagramKind.sorted, ofHead_rtcp fmt item.type_bounds]
  refine congrArg some (if_congr (and_congr_right fun _ => ?_) rfl rfl)
  show 20 ≤ 8 + rest.length ↔ 12 ≤ rest.length
  omega

theorem datagramKind_stun (type length : UInt16) {body : Bytes} (h : 12 ≤ body.length) :
    datagramKind (Wire.wr16 type ++ Wire.wr16 length ++ Wire.wr32 Stun.magicCookie ++ body) =
      some .stun :=
  (datagramKind_word _ _ _ _ _ _ _ _ body).trans (congrArg some (if_pos ⟨rfl, by omega⟩))

/-- The second word of a DTLS record is the low byte of its epoch and the high bytes of its number. -/
theorem datagramKind_dtls {type : UInt8} (h : 20 ≤ type ∧ type ≤ 63) (v₀ v₁ e₀ e₁ s₀ s₁ s₂ : UInt8)
    {rest : Bytes} : datagramKind (type :: v₀ :: v₁ :: e₀ :: e₁ :: s₀ :: s₁ :: s₂ :: rest) =
      some (if Wire.word32 e₁ s₀ s₁ s₂ = Stun.magicCookie ∧ 12 ≤ rest.length then .stun else .dtls) := by
  rw [datagramKind_word, DatagramKind.sorted, DatagramKind.ofHead_dtls v₀ h]
  refine congrArg some (if_congr (and_congr_right fun _ => ?_) rfl rfl)
  omega

/-- **Datagrams are sorted by their protocol.**  An RTP packet reaches the SRTP handler unless its
    timestamp is the cookie, or its marker stands before a payload type from 72 to 79; an RTCP packet
    unless its first SSRC is the cookie; a STUN message always; a DTLS record unless its epoch and
    number hold the cookie. -/
theorem datagrams_sorted :
    (∀ (k : Stamp) (seq : UInt16) (m : Bool) (rest : Bytes),
      datagramKind (rtpBuildHeader k seq m ++ rest) =
        some (if k.timestamp = Stun.magicCookie ∧ 8 ≤ rest.length then .stun
          else if m ∧ 72 ≤ k.payloadType &&& 0x7f ∧ k.payloadType &&& 0x7f ≤ 79 then .rtcp
          else .srtp)) ∧
    (∀ (now : UInt64) (tmp cap : ℕ) (item : Rtcp.Item) (items : List Rtcp.Item) (out rest : Bytes),
      Rtcp.encodeAll now tmp cap (item :: items) [] = .ok out →
        datagramKind (out.take 8 ++ rest) =
          some (if item.ssrc = Stun.magicCookie ∧ 12 ≤ rest.length then .stun else .rtcp)) ∧
    (∀ (type length : UInt16) (body : Bytes), 12 ≤ body.length →
      datagramKind (Wire.wr16 type ++ Wire.wr16 length ++ Wire.wr32 Stun.magicCookie ++ body) =
        some .stun) ∧
    ∀ (type v₀ v₁ e₀ e₁ s₀ s₁ s₂ : UInt8) (rest : Bytes), 20 ≤ type ∧ type ≤ 63 →
      datagramKind (type :: v₀ :: v₁ :: e₀ :: e₁ :: s₀ :: s₁ :: s₂ :: rest) =
        some (if Wire.word32 e₁ s₀ s₁ s₂ = Stun.magicCookie ∧ 12 ≤ rest.length then .stun
          else .dtls) :=
  ⟨datagramKind_rtp, fun _ _ _ _ _ _ rest h => datagramKind_rtcp h rest,
    fun type length _ h => datagramKind_stun type length h,
    fun _ v₀ v₁ e₀ e₁ s₀ s₁ s₂ _ h => datagramKind_dtls h v₀ v₁ e₀ e₁ s₀ s₁ s₂⟩

end NginxRtc
