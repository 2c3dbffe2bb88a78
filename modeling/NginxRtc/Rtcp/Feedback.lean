/-
  What a parse reads out of the two feedback packets the send path reacts to: the packets a generic
  NACK asks for, and the rate of a receiver estimate (REMB).

  `parse_nack`: of the entries in the packet, the first 128 are kept.  `parse_remb`: the rate is
  kept in 32 bits.
-/
import NginxRtc.Rtcp.Bounds

namespace NginxRtc

namespace Rtcp

variable {b : Bytes} {pkt : Pkt} {n : ℕ}

/-- The packet has been filled in as far as its header goes. -/
structure Headed (b : Bytes) (pkt : Pkt) : Prop where
  type : pkt.type = typeOf b
  fmt : pkt.fmt = fmtOf b
  remb : pkt.remb = none
  twccLost : pkt.twccLost = 0
  twccReceived : pkt.twccReceived = 0

/-- What a parse hands to the `switch` over the packet type. -/
theorem parse_body (h : parse b = some (.ok (pkt, n))) :
    ∃ pkt₀ : Pkt, Headed b pkt₀ ∧ totalOf b ≤ b.length ∧
      parseBody b (totalOf b) pkt₀ = some (.ok pkt) := by
  unfold parse at h
  split at h
  · exact nomatch h
  next hlen =>
  obtain ⟨x₀, h₀, h₁, hw, -, hf⟩ := header_some (b := b) (by omega)
  have htot : ((lengthOf b).toNat + 1) * 4 = totalOf b := rfl
  simp only [h₀, h₁, hw, Option.bind_eq_bind, Option.bind_some, htot] at h
  split at h
  · exact nomatch h
  next hbig =>
  split at h
  · exact nomatch h
  obtain ⟨ssrc, -, h⟩ := Option.bind_eq_some_iff.1 h
  obtain ⟨r, hr, hres⟩ := Option.bind_eq_some_iff.1 h
  refine ⟨_, ⟨rfl, hf.symm, rfl, rfl, rfl⟩, Nat.le_of_not_lt hbig, hr.trans ?_⟩
  cases r with
  | error e => exact nomatch hres
  | ok p =>
    obtain ⟨rfl, -⟩ := Prod.mk.inj (Except.ok.inj (Option.some.inj hres))
    rfl

/-! ## Generic NACK -/

/-- The entries of a generic NACK, as many as the packet has room for. -/
def nackList (b : Bytes) : Option (List (UInt16 × UInt16)) :=
  nackEntries b ((totalOf b - 12) / 4) 12

/-- A loop that reads fewer entries reads the first ones. -/
theorem nackEntries_take {k m p : ℕ} {es : List (UInt16 × UInt16)}
    (h : nackEntries b k p = some es) : nackEntries b (min k m) p = some (es.take m) := by
  induction k generalizing m p es with
  | zero =>
    obtain rfl : [] = es := Option.some.inj h
    rw [Nat.zero_min, List.take_nil]
    rfl
  | succ k ih =>
    cases m with
    | zero => rfl
    | succ m =>
      rw [nackEntries] at h
      obtain ⟨pid, hpid, h⟩ := Option.bind_eq_some_iff.1 h
      obtain ⟨blp, hblp, h⟩ := Option.bind_eq_some_iff.1 h
      obtain ⟨rest, hrest, h⟩ := Option.bind_eq_some_iff.1 h
      obtain rfl := Option.some.inj h
      rw [Nat.succ_min_succ, nackEntries, hpid, hblp]
      simp only [Option.bind_eq_bind, Option.bind_some, ih hrest, List.take_succ_cons]

/-- **A parsed NACK** carries the media SSRC and the first entries of the packet. -/
theorem parse_nack (htype : typeOf b = typeRtpfb) (hfmt : fmtOf b = fmtNack)
    (h : parse b = some (.ok (pkt, n))) :
    pkt.type = typeRtpfb ∧ pkt.fmt = fmtNack ∧
      ∃ es, nackList b = some es ∧ pkt.nack = es.take maxNackEntries := by
  obtain ⟨pkt₀, ⟨ht, hf, -, -, -⟩, hlen, hbody⟩ := parse_body h
  rw [htype] at ht
  rw [hfmt] at hf
  have hpart : parseBody b (totalOf b) pkt₀ = parseRtpfb b (totalOf b) pkt₀ := by
    simp only [parseBody, ht]
    rfl
  rw [hpart, parseRtpfb] at hbody
  split at hbody
  · exact nomatch hbody
  next h12 =>
  obtain ⟨ssrc, -, hbody⟩ := Option.bind_eq_some_iff.1 hbody
  obtain ⟨es, hes⟩ := nackEntries_some (b := b) (n := (totalOf b - 12) / 4) (p := 12) (by omega)
  rw [if_pos hf, nackEntries_take hes] at hbody
  obtain rfl := Except.ok.inj (Option.some.inj hbody)
  exact ⟨ht, hf, es, hes, rfl⟩

/-! ### Expansion -/

/-- The packet `PID + 1 + j` is asked for, too. -/
def blpBit (blp : UInt16) (j : ℕ) : Bool := blp &&& ((1 : UInt16) <<< UInt16.ofNat j) ≠ 0

/-- Write one more number to an output that has room for `cap`; an error comes with what was
    written. -/
def putSeq (cap : ℕ) (out : List UInt16) (seq : UInt16) :
    Except (CodecErr × List UInt16) (List UInt16) :=
  if cap ≤ out.length then .error (.tooSmall, out) else .ok (out ++ [seq])

/-- One entry of the loop of `ngx_rtc_rtcp_nack_expand`. -/
def expandEntry (cap : ℕ) (out : List UInt16) (entry : UInt16 × UInt16) :
    Except (CodecErr × List UInt16) (List UInt16) := do
  let out ← putSeq cap out entry.1
  (List.range 16).foldlM
    (fun out j =>
      if blpBit entry.2 j then putSeq cap out (entry.1 + UInt16.ofNat j + 1) else pure out) out

/-- `ngx_rtc_rtcp_nack_expand`. -/
def nackExpand (pkt : Pkt) (cap : ℕ) : Except (CodecErr × List UInt16) (List UInt16) :=
  pkt.nack.foldlM (expandEntry cap) []

/-- The packets an entry asks for: the PID, then the bits of the BLP from the lowest on. -/
def entrySeqs (entry : UInt16 × UInt16) : List UInt16 :=
  entry.1 :: ((List.range 16).filter (blpBit entry.2)).map fun j => entry.1 + UInt16.ofNat j + 1

/-- The packets the entries ask for, in the listed order. -/
def requested (es : List (UInt16 × UInt16)) : List UInt16 := es.flatMap entrySeqs

theorem expandEntry_eq (cap : ℕ) (out : List UInt16) (entry : UInt16 × UInt16) :
    expandEntry cap out entry = (entrySeqs entry).foldlM (putSeq cap) out := by
  rw [entrySeqs, List.foldlM_cons]
  simp only [List.foldlM_map, List.foldlM_filter]
  rfl

/-- The loop writes one number after the other. -/
theorem foldlM_putSeq (cap : ℕ) (seqs out : List UInt16) (h : out.length ≤ cap) :
    seqs.foldlM (putSeq cap) out =
      if out.length + seqs.length ≤ cap then .ok (out ++ seqs)
      else .error (.tooSmall, (out ++ seqs).take cap) := by
  induction seqs generalizing out with
  | nil => simp [h, pure, Except.pure]
  | cons seq seqs ih =>
    rw [List.foldlM_cons, putSeq]
    by_cases hfull : cap ≤ out.length
    · have hlen : out.length = cap := Nat.le_antisymm h hfull
      rw [if_pos hfull, if_neg (by rw [List.length_cons]; omega),
        List.take_append_of_le_length (by omega), List.take_of_length_le (by omega)]
      rfl
    · have hrest := ih (out ++ [seq]) (by rw [List.length_append, List.length_singleton]; omega)
      rw [List.length_append, List.length_singleton, List.append_assoc, List.singleton_append,
        Nat.add_assoc, Nat.add_comm 1] at hrest
      rw [if_neg hfull, List.length_cons]
      exact hrest

theorem foldlM_expandEntry (cap : ℕ) (es : List (UInt16 × UInt16)) (out : List UInt16) :
    es.foldlM (expandEntry cap) out = (requested es).foldlM (putSeq cap) out := by
  induction es generalizing out with
  | nil => rfl
  | cons e es ih =>
    rw [List.foldlM_cons, requested, List.flatMap_cons, List.foldlM_append, expandEntry_eq]
    exact congrArg _ (funext ih)

/-- **An expansion** lists the packets the kept entries ask for, if there is room for all of
    them. -/
theorem nackExpand_eq (pkt : Pkt) (cap : ℕ) :
    nackExpand pkt cap =
      if (requested pkt.nack).length ≤ cap then .ok (requested pkt.nack)
      else .error (.tooSmall, (requested pkt.nack).take cap) := by
  rw [nackExpand, foldlM_expandEntry, foldlM_putSeq _ _ _ (Nat.zero_le _)]
  simp only [List.length_nil, Nat.zero_add, List.nil_append]

/-- Each entry asks for a packet at least. -/
theorem length_le_requested (es : List (UInt16 × UInt16)) : es.length ≤ (requested es).length := by
  induction es with
  | nil => exact Nat.zero_le _
  | cons e es ih =>
    have hone : 1 ≤ (entrySeqs e).length := by
      rw [entrySeqs, List.length_cons]
      omega
    rw [requested, List.flatMap_cons, List.length_append, List.length_cons]
    rw [requested] at ih
    omega

/-- Up to the number of entries, the kept ones ask for the same packets as all of them. -/
theorem take_requested (es : List (UInt16 × UInt16)) {k n : ℕ} (h : n ≤ k) :
    (requested (es.take k)).take n = (requested es).take n := by
  rcases Nat.lt_or_ge k es.length with hlt | hge
  · have hlen := length_le_requested (es.take k)
    rw [List.length_take, Nat.min_eq_left (Nat.le_of_lt hlt)] at hlen
    have hsplit : requested es = requested (es.take k) ++ requested (es.drop k) := by
      rw [requested, requested, requested, ← List.flatMap_append, List.take_append_drop]
    rw [hsplit, List.take_append_of_le_length (Nat.le_trans h hlen)]
  · rw [List.take_of_length_le hge]

/-! ## Receiver estimates -/

/-- The word of a REMB packet that holds its exponent and its mantissa. -/
def rembWord (b : Bytes) : UInt32 :=
  Wire.word32 (b.getD 16 0) (b.getD 17 0) (b.getD 18 0) (b.getD 19 0)

def rembExponent (b : Bytes) : ℕ := ((rembWord b >>> 18) &&& 0x3f).toNat

def rembMantissa (b : Bytes) : ℕ := (rembWord b &&& 0x3ffff).toNat

/-- The rate a REMB packet signals, in bits per second. -/
def rembRate (b : Bytes) : ℕ := rembMantissa b * 2 ^ rembExponent b

/-- A product with a power of two, computed in 64 bits and cut to 32. -/
theorem toNat_mul_shift (m e : UInt32) (he : e.toNat < 64) :
    (m.toUInt64 * ((1 : UInt64) <<< e.toUInt64)).toUInt32.toNat =
      m.toNat * 2 ^ e.toNat % 2 ^ 32 := by
  have hpow : 2 ^ e.toNat < 2 ^ 64 := Nat.pow_lt_pow_right Nat.one_lt_two he
  have hshift : ((1 : UInt64) <<< e.toUInt64).toNat = 2 ^ e.toNat := by
    rw [UInt64.toNat_shiftLeft, UInt32.toNat_toUInt64, Nat.mod_eq_of_lt he, UInt64.toNat_one,
      Nat.one_shiftLeft, Nat.mod_eq_of_lt hpow]
  rw [UInt64.toNat_toUInt32, UInt64.toNat_mul, hshift, UInt32.toNat_toUInt64,
    Nat.mod_mod_of_dvd _ (Nat.pow_dvd_pow 2 (by decide : 32 ≤ 64))]

theorem rembExponent_lt (b : Bytes) : rembExponent b < 64 := by
  rw [rembExponent, UInt32.toNat_and]
  exact Nat.lt_succ_of_le Nat.and_le_right

theorem rd32_rembWord {word : UInt32} (h : Wire.rd32 b 16 = some word) : word = rembWord b := by
  unfold Wire.rd32 at h
  split at h
  · next x y z t hx hy hz ht =>
    obtain rfl := Option.some.inj h
    simp only [rembWord, List.getD_eq_getElem?_getD, hx, hy, hz, ht, Option.getD_some]
  · exact nomatch h

/-- **A parsed REMB** carries the rate of the packet, cut to 32 bits. -/
theorem parse_remb {bps : UInt32} {ssrcs : List UInt32} (htype : typeOf b = typePsfb)
    (hfmt : fmtOf b = fmtRemb) (h : parse b = some (.ok (pkt, n)))
    (hremb : pkt.remb = some (bps, ssrcs)) : bps.toNat = rembRate b % 2 ^ 32 := by
  obtain ⟨pkt₀, ⟨ht, hf, hnone, -, -⟩, -, hbody⟩ := parse_body h
  rw [htype] at ht
  rw [hfmt] at hf
  have hpart : parseBody b (totalOf b) pkt₀ = parsePsfb b (totalOf b) pkt₀ := by
    simp only [parseBody, ht]
    rfl
  rw [hpart, parsePsfb] at hbody
  split at hbody
  · exact nomatch hbody
  obtain ⟨ssrc, -, hbody⟩ := Option.bind_eq_some_iff.1 hbody
  rw [if_pos hf, parseRemb] at hbody
  split at hbody
  · obtain rfl := Except.ok.inj (Option.some.inj hbody)
    exact nomatch hnone.symm.trans hremb
  obtain ⟨magic, -, hbody⟩ := Option.bind_eq_some_iff.1 hbody
  split at hbody
  · obtain rfl := Except.ok.inj (Option.some.inj hbody)
    exact nomatch hnone.symm.trans hremb
  split at hbody
  · exact nomatch hbody
  obtain ⟨word, hword, hbody⟩ := Option.bind_eq_some_iff.1 hbody
  obtain rfl := rd32_rembWord hword
  dsimp only at hbody
  split at hbody
  · exact nomatch hbody
  obtain ⟨list, -, hbody⟩ := Option.bind_eq_some_iff.1 hbody
  obtain rfl := Except.ok.inj (Option.some.inj hbody)
  obtain ⟨rfl, -⟩ := Prod.mk.inj (Option.some.inj hremb)
  exact toNat_mul_shift _ _ (rembExponent_lt b)

end Rtcp

end NginxRtc
