/-
  The binding response (`ngx_rtc_stun_encode_binding_response`).

  The encoder writes USERNAME, XOR-MAPPED-ADDRESS, MESSAGE-INTEGRITY and FINGERPRINT behind a header
  whose length it patches three times: to end with MESSAGE-INTEGRITY for the HMAC, with FINGERPRINT
  for the CRC, and to the total.

  `readAttrs_wrAttr`: the walk of the decoder takes back one written attribute, whatever follows.
  `response_roundtrip`: the decoder and the verifier accept the response and find the request's
  fields, the CRC and the address in it.
-/
import Mathlib.Data.List.TakeWhile
import Mathlib.Logic.Function.Iterate
import NginxRtc.Stun.Message

namespace NginxRtc.Stun

/-! ## CRC-32 -/

/-- A bit of `ngx_rtc_crc32`. -/
def crcBit (crc : UInt32) : UInt32 := (crc >>> 1) ^^^ (0xEDB88320 &&& (0 - (crc &&& 1)))

/-- `ngx_rtc_crc32`. -/
def crc32 (data : Bytes) : UInt32 :=
  data.foldl (fun crc b => crcBit^[8] (crc ^^^ b.toUInt32)) 0xFFFFFFFF ^^^ 0xFFFFFFFF

/-- `NGX_RTC_STUN_FINGERPRINT_XOR`. -/
def fingerprintXor : UInt32 := 0x5354554E

/-! ## The encoder -/

/-- An attribute and the zeroes behind its value. -/
def wrAttr (type : UInt16) (value : Bytes) : Bytes :=
  Wire.wr16 type ++ Wire.wr16 (UInt16.ofNat value.length) ++ value ++
    List.replicate (padding value.length) 0

/-- The header of a response, with a length field of `length`. -/
def responseHeader (req : Request) (length : ℕ) : Bytes :=
  Wire.wr16 bindingResponse ++ Wire.wr16 (UInt16.ofNat length) ++ Wire.wr32 magicCookie ++
    req.transactionId

/-- `username`: what `snprintf` leaves in a buffer of 128 bytes. -/
def username (req : Request) : Bytes :=
  (cstr req.localUfrag ++ 58 :: cstr req.remoteUfrag).take 127

/-- The value of XOR-MAPPED-ADDRESS. -/
def xorMapped (addr : UInt32) (port : UInt16) : Bytes :=
  0 :: 1 :: (Wire.wr16 (port ^^^ (magicCookie >>> 16).toUInt16) ++ Wire.wr32 (addr ^^^ magicCookie))

/-- The attributes the HMAC is computed over. -/
def mapped (req : Request) (addr : UInt32) (port : UInt16) : Bytes :=
  wrAttr attrUsername (username req) ++ wrAttr attrXorMappedAddr (xorMapped addr port)

/-- The attributes the CRC is computed over. -/
def signed (hmac : Hmac) (req : Request) (pwd : Bytes) (addr : UInt32) (port : UInt16) : Bytes :=
  let mapped := mapped req addr port
  mapped ++ wrAttr attrMessageIntegrity
    (hmac (cstr pwd) (responseHeader req (mapped.length + 24) ++ mapped)).bytes

/-- The value of FINGERPRINT. -/
def fingerprint (hmac : Hmac) (req : Request) (pwd : Bytes) (addr : UInt32) (port : UInt16) :
    UInt32 :=
  let signed := signed hmac req pwd addr port
  crc32 (responseHeader req (signed.length + 8) ++ signed) ^^^ fingerprintXor

/-- The attributes of the response. -/
def finished (hmac : Hmac) (req : Request) (pwd : Bytes) (addr : UInt32) (port : UInt16) : Bytes :=
  signed hmac req pwd addr port ++
    wrAttr attrFingerprint (Wire.wr32 (fingerprint hmac req pwd addr port))

/-- `ngx_rtc_stun_encode_binding_response`; `none` is -1. -/
def encodeBindingResponse (hmac : Hmac) (req : Request) (pwd : Bytes) (addr : UInt32)
    (port : UInt16) (outLen : ℕ) : Option Bytes :=
  if outLen < 128 ∨ req.hasUsername = false then none
  else if outLen - headerLen < 4 + (username req).length + padding (username req).length then none
  else if outLen - (headerLen + (wrAttr attrUsername (username req)).length) < 12 then none
  else if outLen - (headerLen + (mapped req addr port).length) < 4 + 20 then none
  else if outLen - (headerLen + (signed hmac req pwd addr port).length) < 8 then none
  else
    some (responseHeader req (finished hmac req pwd addr port).length ++
      finished hmac req pwd addr port)

/-- What a peer takes from the value of an XOR-MAPPED-ADDRESS. -/
def unxor (value : Bytes) : Option (UInt32 × UInt16) := do
  let port ← Wire.rd16 value 2
  let addr ← Wire.rd32 value 4
  if value[1]? = some 1 then some (addr ^^^ magicCookie, port ^^^ (magicCookie >>> 16).toUInt16)
  else none

/-! ## Written attributes -/

theorem length_wrAttr (type : UInt16) (value : Bytes) :
    (wrAttr type value).length = 4 + (value.length + padding value.length) := by
  simp only [wrAttr, List.length_append, Wire.length_wr16, List.length_replicate]
  omega

theorem drop_wrAttr (type : UInt16) (value rest : Bytes) : (wrAttr type value ++ rest).drop 4 =
    value ++ (List.replicate (padding value.length) 0 ++ rest) := by
  rw [wrAttr, List.append_assoc, List.append_assoc]
  rfl

theorem length_xorMapped (addr : UInt32) (port : UInt16) : (xorMapped addr port).length = 8 := rfl

theorem unxor_xorMapped (addr : UInt32) (port : UInt16) :
    unxor (xorMapped addr port) = some (addr, port) := by
  have hp : Wire.rd16 (xorMapped addr port) 2 = some (port ^^^ (magicCookie >>> 16).toUInt16) :=
    congrArg some (Wire.word16_bytes _)
  have ha : Wire.rd32 (xorMapped addr port) 4 = some (addr ^^^ magicCookie) :=
    congrArg some (Wire.word32_bytes _)
  have hf : (xorMapped addr port)[1]? = some 1 := rfl
  rw [unxor, hp, ha]
  simp only [Option.bind_eq_bind, Option.bind_some]
  rw [if_pos hf, UInt32.xor_assoc, UInt32.xor_self, UInt32.xor_zero, UInt16.xor_assoc,
    UInt16.xor_self, UInt16.xor_zero]

/-- The walk takes a written attribute back, whatever follows it. -/
theorem readAttrs_wrAttr (n pos : ℕ) (type : UInt16) {value : Bytes} (h : value.length < 65536)
    (rest : Bytes) : readAttrs (n + 1) pos (wrAttr type value ++ rest) =
      (readAttrs n (pos + (wrAttr type value).length) rest).map
        (⟨type, pos + 4, value⟩ :: ·) := by
  have hlen : (Wire.word16 ((UInt16.ofNat value.length) >>> 8).toUInt8
      (UInt16.ofNat value.length).toUInt8).toNat = value.length := by
    rw [Wire.word16_bytes, UInt16.toNat_ofNat', Nat.mod_eq_of_lt h]
  have hbytes : wrAttr type value ++ rest = (type >>> 8).toUInt8 :: type.toUInt8 ::
      (UInt16.ofNat value.length >>> 8).toUInt8 :: (UInt16.ofNat value.length).toUInt8 ::
        ((value ++ List.replicate (padding value.length) 0) ++ rest) := by
    simp only [wrAttr, Wire.wr16, List.append_assoc, List.cons_append, List.nil_append]
  have hpad : (value ++ List.replicate (padding value.length) (0 : UInt8)).length =
      value.length + padding value.length := by
    rw [List.length_append, List.length_replicate]
  rw [hbytes, readAttrs, hlen, if_neg (by rw [List.length_append, hpad]; omega), ← hpad,
    List.drop_left, hpad, length_wrAttr, Wire.word16_bytes, List.append_assoc, List.take_left,
    Nat.add_assoc]

/-! ## The response is read back -/

variable {hmac : Hmac} {req : Request} {pwd : Bytes} {addr : UInt32} {port : UInt16}

theorem length_responseHeader (h : req.WellFormed) (n : ℕ) :
    (responseHeader req n).length = headerLen := by
  simp only [responseHeader, List.length_append, Wire.length_wr16, Wire.length_wr32,
    h.transactionId]
  rfl

theorem length_mapped (req : Request) (addr : UInt32) (port : UInt16) :
    (mapped req addr port).length =
      4 + ((username req).length + padding (username req).length) + 12 := by
  rw [mapped, List.length_append, length_wrAttr, length_wrAttr, length_xorMapped]
  rfl

theorem length_signed (hmac : Hmac) (req : Request) (pwd : Bytes) (addr : UInt32) (port : UInt16) :
    (signed hmac req pwd addr port).length = (mapped req addr port).length + 24 := by
  simp only [signed, List.length_append, length_wrAttr, Digest.length_eq]
  rfl

theorem length_finished (hmac : Hmac) (req : Request) (pwd : Bytes) (addr : UInt32)
    (port : UInt16) : (finished hmac req pwd addr port).length =
      (signed hmac req pwd addr port).length + 8 := by
  rw [finished, List.length_append, length_wrAttr, Wire.length_wr32]
  rfl

/-- A decoded user name is echoed in full. -/
theorem username_eq (h : req.WellFormed) :
    username req = req.localUfrag ++ 58 :: cstr req.remoteUfrag ∧ (username req).length ≤ 33 := by
  have hl : cstr req.localUfrag = req.localUfrag := by
    rw [cstr, List.takeWhile_eq_self_iff]
    exact fun c hc => decide_eq_true (h.localText c hc).2
  have hlen : (req.localUfrag ++ 58 :: cstr req.remoteUfrag).length ≤ 33 := by
    have h₁ := h.localLen
    have h₂ := h.remoteLen
    have h₃ : (cstr req.remoteUfrag).length ≤ req.remoteUfrag.length :=
      (List.takeWhile_prefix _).length_le
    have h₄ : ufragMax = 16 := rfl
    rw [List.length_append, List.length_cons]
    omega
  have he : username req = req.localUfrag ++ 58 :: cstr req.remoteUfrag := by
    rw [username, hl, List.take_of_length_le (by omega)]
  exact ⟨he, he ▸ hlen⟩

theorem length_mapped_le (h : req.WellFormed) : (mapped req addr port).length ≤ 52 := by
  have hu := (username_eq h).2
  have hp : padding (username req).length ≤ 3 := by unfold padding; omega
  rw [length_mapped]
  omega

theorem splitUser_username (h : req.WellFormed) :
    splitUser ((username req).take (2 * ufragMax + 1)) =
      some (req.localUfrag, cstr req.remoteUfrag) := by
  obtain ⟨he, hlen⟩ := username_eq h
  have hl : ∀ c ∈ req.localUfrag, (decide (c ≠ 58) && decide (c ≠ 0)) = true := fun c hc => by
    simpa using h.localText c hc
  have hr : (cstr req.remoteUfrag).length ≤ ufragMax :=
    ((List.takeWhile_prefix _).length_le).trans h.remoteLen
  rw [List.take_of_length_le (show _ ≤ 2 * ufragMax + 1 from hlen), he, splitUser,
    List.dropWhile_append_of_pos hl, List.takeWhile_append_of_pos hl]
  simp [List.take_of_length_le h.localLen, List.take_of_length_le hr]

theorem encode_eq_some {outLen : ℕ} {out : Bytes} (h : req.WellFormed)
    (he : encodeBindingResponse hmac req pwd addr port outLen = some out) :
    out = responseHeader req (finished hmac req pwd addr port).length ++
        finished hmac req pwd addr port ∧
      out.length = headerLen + (finished hmac req pwd addr port).length ∧ out.length ≤ outLen := by
  unfold encodeBindingResponse at he
  split_ifs at he with h₁ h₂ h₃ h₄ h₅
  obtain rfl := Option.some.inj he
  have hlen := length_responseHeader h (finished hmac req pwd addr port).length
  rw [List.length_append, hlen]
  refine ⟨rfl, rfl, ?_⟩
  rw [length_finished]
  omega

/-! ### Its attributes -/

/-- The attributes of the response, with their places. -/
def responseAttrs (hmac : Hmac) (req : Request) (pwd : Bytes) (addr : UInt32) (port : UInt16) :
    List Attr :=
  let mapped := mapped req addr port
  [⟨attrUsername, headerLen + 4, username req⟩,
    ⟨attrXorMappedAddr, headerLen + (wrAttr attrUsername (username req)).length + 4,
      xorMapped addr port⟩,
    ⟨attrMessageIntegrity, headerLen + mapped.length + 4,
      (hmac (cstr pwd) (responseHeader req (mapped.length + 24) ++ mapped)).bytes⟩,
    ⟨attrFingerprint, headerLen + (signed hmac req pwd addr port).length + 4,
      Wire.wr32 (fingerprint hmac req pwd addr port)⟩]

theorem readAttrs_finished (h : req.WellFormed) (n : ℕ) :
    readAttrs (n + 4) headerLen (finished hmac req pwd addr port) =
      some (responseAttrs hmac req pwd addr port) := by
  have hu : (username req).length < 65536 := by
    have := (username_eq h).2
    omega
  have hx : (xorMapped addr port).length < 65536 := by rw [length_xorMapped]; decide
  have hm (d : Digest) : d.bytes.length < 65536 := by rw [d.length_eq]; decide
  have hf (v : UInt32) : (Wire.wr32 v).length < 65536 := by rw [Wire.length_wr32]; decide
  have hsplit : finished hmac req pwd addr port = wrAttr attrUsername (username req) ++
      (wrAttr attrXorMappedAddr (xorMapped addr port) ++
        (wrAttr attrMessageIntegrity (hmac (cstr pwd)
            (responseHeader req ((mapped req addr port).length + 24) ++
              mapped req addr port)).bytes ++
          (wrAttr attrFingerprint (Wire.wr32 (fingerprint hmac req pwd addr port)) ++ []))) := by
    simp only [finished, signed, mapped, List.append_assoc, List.append_nil]
  have hmapped : headerLen + (wrAttr attrUsername (username req)).length +
      (wrAttr attrXorMappedAddr (xorMapped addr port)).length =
        headerLen + (mapped req addr port).length := by
    rw [mapped, List.length_append, Nat.add_assoc]
  have hsigned : headerLen + (mapped req addr port).length + (wrAttr attrMessageIntegrity
      (hmac (cstr pwd) (responseHeader req ((mapped req addr port).length + 24) ++
        mapped req addr port)).bytes).length =
        headerLen + (signed hmac req pwd addr port).length := by
    rw [signed, List.length_append, Nat.add_assoc]
  rw [hsplit, readAttrs_wrAttr _ _ _ hu, readAttrs_wrAttr _ _ _ hx, hmapped,
    readAttrs_wrAttr _ _ _ (hm _), hsigned, readAttrs_wrAttr _ _ _ (hf _),
    readAttrs_short (by decide)]
  rfl

/-- What the decoder makes of the response. -/
def decoded (hmac : Hmac) (req : Request) (pwd : Bytes) (addr : UInt32) (port : UInt16) :
    Request :=
  { type := bindingResponse, transactionId := req.transactionId, hasUsername := true,
    localUfrag := req.localUfrag, remoteUfrag := cstr req.remoteUfrag,
    messageIntegrity := some (UInt16.ofNat (headerLen + (mapped req addr port).length + 4)),
    fingerprint :=
      some (UInt16.ofNat (headerLen + (signed hmac req pwd addr port).length + 4)) }

theorem foldl_responseAttrs (h : req.WellFormed) :
    (responseAttrs hmac req pwd addr port).foldl apply
      { type := bindingResponse, transactionId := req.transactionId } =
        decoded hmac req pwd addr port := by
  have hu (s : Request) (pos : ℕ) : apply s ⟨attrUsername, pos, username req⟩ =
      { s with hasUsername := true, localUfrag := req.localUfrag,
               remoteUfrag := cstr req.remoteUfrag } := by
    rw [apply, if_pos rfl, splitUser_username h]
  simp only [responseAttrs, List.foldl_cons, List.foldl_nil, hu]
  rfl

variable {outLen : ℕ} {out : Bytes}

theorem attrs_response (h : req.WellFormed)
    (he : encodeBindingResponse hmac req pwd addr port outLen = some out) :
    attrs out = some (responseAttrs hmac req pwd addr port) := by
  obtain ⟨rfl, hlen, -⟩ := encode_eq_some h he
  have hdrop := length_responseHeader h (finished hmac req pwd addr port).length
  rw [attrs, hlen, ← hdrop, List.drop_left, hdrop,
    show headerLen + (finished hmac req pwd addr port).length =
      16 + (finished hmac req pwd addr port).length + 4 by rw [show headerLen = 20 from rfl]; omega,
    readAttrs_finished h]

theorem decode_response (h : req.WellFormed)
    (he : encodeBindingResponse hmac req pwd addr port outLen = some out) :
    Wire.rd16 out 2 = some (UInt16.ofNat (finished hmac req pwd addr port).length) ∧
      decode out = some (decoded hmac req pwd addr port) := by
  have has := attrs_response h he
  obtain ⟨rfl, hlen, -⟩ := encode_eq_some h he
  set n := (finished hmac req pwd addr port).length with hn
  have hsmall : n < 65536 := by
    have hm : (mapped req addr port).length ≤ 52 := length_mapped_le h
    rw [hn, length_finished, length_signed]
    omega
  have hfield : Wire.word16 ((responseHeader req n ++ finished hmac req pwd addr port).getD 2 0)
      ((responseHeader req n ++ finished hmac req pwd addr port).getD 3 0) = UInt16.ofNat n :=
    Wire.word16_bytes _
  have hheader : header (responseHeader req n ++ finished hmac req pwd addr port) =
      { type := bindingResponse, transactionId := req.transactionId } := by
    have hd : (responseHeader req n ++ finished hmac req pwd addr port).drop 8 =
      req.transactionId ++ finished hmac req pwd addr port := rfl
    have ht : Wire.word16
        ((responseHeader req n ++ finished hmac req pwd addr port).getD 0 0)
        ((responseHeader req n ++ finished hmac req pwd addr port).getD 1 0) = bindingResponse :=
      Wire.word16_bytes bindingResponse
    rw [header, hd, ht, ← h.transactionId, List.take_left]
  refine ⟨congrArg some (Wire.word16_bytes _), decode_eq_some.2 ⟨by omega, ?_, _, has, ?_⟩⟩
  · rw [hfield, UInt16.toNat_ofNat', Nat.mod_eq_of_lt hsmall, hlen]
  · rw [hheader, foldl_responseAttrs h]

/-! ### What its integrity and its CRC are computed over -/

theorem covered_response (h : req.WellFormed) :
    covered (responseHeader req (finished hmac req pwd addr port).length ++
        finished hmac req pwd addr port)
      (UInt16.ofNat (headerLen + (mapped req addr port).length + 4)) =
      responseHeader req ((mapped req addr port).length + 24) ++ mapped req addr port := by
  have hle : (mapped req addr port).length ≤ 52 := length_mapped_le h
  set m := (mapped req addr port).length with hm
  have hhead : headerLen = 20 := rfl
  have hoff : (UInt16.ofNat (headerLen + m + 4)).toNat = headerLen + m + 4 :=
    UInt16.toNat_ofNat_of_lt' (show _ < 65536 by omega)
  have hpatched : (responseHeader req (finished hmac req pwd addr port).length ++
        finished hmac req pwd addr port).take 2 ++
      Wire.wr16 (UInt16.ofNat (headerLen + m + 4)) ++
      (responseHeader req (finished hmac req pwd addr port).length ++
        finished hmac req pwd addr port).drop 4 =
      responseHeader req (m + 24) ++ finished hmac req pwd addr port := by
    rw [show headerLen + m + 4 = m + 24 by omega]
    rfl
  have hlen := length_responseHeader h (m + 24)
  rw [covered, hoff, hpatched, finished, signed, List.append_assoc, ← List.append_assoc,
    show headerLen + m + 4 - 4 = (responseHeader req (m + 24) ++ mapped req addr port).length by
      rw [List.length_append, hlen]; omega, List.take_left]

theorem verify_response (h : req.WellFormed)
    (he : encodeBindingResponse hmac req pwd addr port outLen = some out) :
    verifyRequest hmac (decoded hmac req pwd addr port) out pwd = true := by
  obtain ⟨rfl, hlen, -⟩ := encode_eq_some h he
  have hhead : headerLen = 20 := rfl
  have hmax : verifyMax = 2048 := rfl
  have hm : (mapped req addr port).length ≤ 52 := length_mapped_le h
  have hf := length_finished hmac req pwd addr port
  have hs := length_signed hmac req pwd addr port
  have hoff : (UInt16.ofNat (headerLen + (mapped req addr port).length + 4)).toNat =
      headerLen + (mapped req addr port).length + 4 :=
    UInt16.toNat_ofNat_of_lt' (show _ < 65536 by omega)
  have hmac20 : ((responseHeader req (finished hmac req pwd addr port).length ++
      finished hmac req pwd addr port).drop (headerLen + (mapped req addr port).length + 4)).take 20 =
      (hmac (cstr pwd) (responseHeader req ((mapped req addr port).length + 24) ++
        mapped req addr port)).bytes := by
    have hh := length_responseHeader h (finished hmac req pwd addr port).length
    rw [Nat.add_assoc, ← hh, List.drop_length_add_append, finished, signed, List.append_assoc,
      List.drop_length_add_append, drop_wrAttr]
    have hd := (hmac (cstr pwd) (responseHeader req ((mapped req addr port).length + 24) ++
      mapped req addr port)).length_eq
    conv_lhs => rw [← hd]
    exact List.take_left
  rw [verifyRequest, decoded]
  simp only [hoff]
  rw [if_neg (by omega), hmac20, covered_response h]
  exact decide_eq_true rfl

theorem fingerprint_response (h : req.WellFormed)
    (he : encodeBindingResponse hmac req pwd addr port outLen = some out) :
    ∃ off, (decoded hmac req pwd addr port).fingerprint = some off ∧ off.toNat + 4 = out.length ∧
      Wire.rd32 out off.toNat = some (crc32 (out.take (off.toNat - 4)) ^^^ fingerprintXor) := by
  obtain ⟨rfl, hlen, -⟩ := encode_eq_some h he
  have hhead : headerLen = 20 := rfl
  set n := (signed hmac req pwd addr port).length with hn
  have hf : (finished hmac req pwd addr port).length = n + 8 := length_finished hmac req pwd addr port
  have hs : n = _ := length_signed hmac req pwd addr port
  have hm : (mapped req addr port).length ≤ 52 := length_mapped_le h
  have hoff : (UInt16.ofNat (headerLen + n + 4)).toNat = headerLen + n + 4 :=
    UInt16.toNat_ofNat_of_lt' (show _ < 65536 by omega)
  have hh := length_responseHeader h (n + 8)
  refine ⟨_, rfl, by rw [hoff]; omega, ?_⟩
  rw [hoff, hf, show headerLen + n + 4 - 4 = (responseHeader req (n + 8) ++
    signed hmac req pwd addr port).length by rw [List.length_append, hh]; rfl, finished,
    ← List.append_assoc, List.take_left]
  have hdrop : ((responseHeader req (n + 8) ++ signed hmac req pwd addr port) ++
      wrAttr attrFingerprint (Wire.wr32 (fingerprint hmac req pwd addr port))).drop
        (headerLen + n + 4) = Wire.wr32 (fingerprint hmac req pwd addr port) := by
    rw [show headerLen + n + 4 = (responseHeader req (n + 8) ++
      signed hmac req pwd addr port).length + 4 by rw [List.length_append, hh],
      List.drop_length_add_append, ← List.append_nil (wrAttr _ _), drop_wrAttr,
      Wire.length_wr32]
    exact List.append_nil _
  have hread := Wire.rd32_drop ((responseHeader req (n + 8) ++ signed hmac req pwd addr port) ++
      wrAttr attrFingerprint (Wire.wr32 (fingerprint hmac req pwd addr port))) (headerLen + n + 4) 0
  rw [hdrop, Nat.add_zero] at hread
  rw [← hread]
  exact congrArg some (Wire.word32_bytes _)

/-- **The response round trip.**  A response is no longer than its buffer, its length field is its
    size less the header, the decoder finds the request's transaction and user name in it, the
    verifier accepts it, its FINGERPRINT is the CRC of what precedes it, and a peer finds its address
    in it. -/
theorem response_roundtrip {data : Bytes} (hd : decode data = some req)
    (he : encodeBindingResponse hmac req pwd addr port outLen = some out) :
    out.length ≤ outLen ∧
    (∃ n, Wire.rd16 out 2 = some n ∧ n.toNat = out.length - headerLen) ∧
    ∃ s, decode out = some s ∧ s.type = bindingResponse ∧ s.transactionId = req.transactionId ∧
      s.hasUsername = true ∧ cstr s.localUfrag = cstr req.localUfrag ∧
      cstr s.remoteUfrag = cstr req.remoteUfrag ∧
      verifyRequest hmac s out pwd = true ∧
      (∃ off, s.fingerprint = some off ∧ off.toNat + 4 = out.length ∧
        Wire.rd32 out off.toNat = some (crc32 (out.take (off.toNat - 4)) ^^^ fingerprintXor)) ∧
      ∃ as, attrs out = some as ∧
        (as.filter (·.type = attrXorMappedAddr)).map (unxor ·.value) = [some (addr, port)] := by
  have h := decode_wellFormed hd
  obtain ⟨hread, hdec⟩ := decode_response h he
  obtain ⟨-, hlen, hle⟩ := encode_eq_some h he
  have hm : (mapped req addr port).length ≤ 52 := length_mapped_le h
  have hf := length_finished hmac req pwd addr port
  have hs := length_signed hmac req pwd addr port
  have hn : (UInt16.ofNat (finished hmac req pwd addr port).length).toNat =
      (finished hmac req pwd addr port).length :=
    UInt16.toNat_ofNat_of_lt' (show _ < 65536 by omega)
  have hstr : cstr (cstr req.remoteUfrag) = cstr req.remoteUfrag :=
    List.takeWhile_idem ..
  refine ⟨hle, ⟨_, hread, by rw [hn]; omega⟩, _, hdec, rfl, rfl, rfl, rfl, hstr,
    verify_response h he, fingerprint_response h he, _, attrs_response h he, ?_⟩
  calc _ = [unxor (xorMapped addr port)] := rfl
    _ = [some (addr, port)] := by rw [unxor_xorMapped]

/-- A binding request of `ab:cd`, and its response's HMAC-SHA1 under the password `pw`. -/
def ping : Bytes :=
  Wire.wr16 bindingRequest ++ Wire.wr16 12 ++ Wire.wr32 magicCookie ++
    [1, 2, 3, 4, 5, 6, 7, 8, 9, 10, 11, 12] ++ wrAttr attrUsername [97, 98, 58, 99, 100]

def pingRequest : Request :=
  { type := bindingRequest, transactionId := [1, 2, 3, 4, 5, 6, 7, 8, 9, 10, 11, 12],
    hasUsername := true, localUfrag := [97, 98], remoteUfrag := [99, 100] }

def pongMac : Digest :=
  ⟨[15, 164, 8, 36, 212, 215, 30, 112, 147, 186, 180, 53, 54, 44, 231, 191, 108, 144, 195, 106], rfl⟩

theorem response_roundtrip_ping :
    decode ping = some pingRequest ∧
    ∃ out, encodeBindingResponse (fun _ _ => pongMac) pingRequest [112, 119] 0x7F000001 4660 128 =
        some out ∧
      out.length ≤ 128 ∧
      ∃ s, decode out = some s ∧ verifyRequest (fun _ _ => pongMac) s out [112, 119] = true := by
  have hd : decode ping = some pingRequest := by decide +kernel
  refine ⟨hd, _, rfl, ?_⟩
  obtain ⟨hle, -, s, hs, -, -, -, -, -, hv, -⟩ := @response_roundtrip (fun _ _ => pongMac)
    pingRequest [112, 119] 0x7F000001 4660 128 _ ping hd rfl
  exact ⟨hle, s, hs, hv⟩

end NginxRtc.Stun
