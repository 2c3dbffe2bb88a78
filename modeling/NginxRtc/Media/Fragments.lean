/-
  One NAL unit through `ngx_rtc_h264_packetize` and back.

  `packetize_round_trip_iff`: the packets are small enough, numbered in sequence and marked on the
  last one, a receiver makes the NAL unit of them, and a long NAL unit is properly fragmented,
  exactly if the NAL unit may be sent and is not of the one length whose only fragment is both the
  first and the last.
-/
import NginxRtc.Media.Packetize

namespace H264

/-! ## Fragmented NAL units -/

/-- The start bit of a fragment. -/
def startBit (p : List UInt8) : Bool := p.getD 1 0 &&& 0x80 ≠ 0

/-- The end bit of a fragment. -/
def endBit (p : List UInt8) : Bool := p.getD 1 0 &&& 0x40 ≠ 0

/-- The payloads are the fragments of a NAL unit: at least two, the start bit on the first only, the
    end bit on the last only, and no fragment with both. -/
structure Fragmented (ps : List (List UInt8)) : Prop where
  fragment : ∀ p ∈ ps, p.head?.map typeOf = some fuA
  two : 2 ≤ ps.length
  starts : ps.map startBit = true :: List.replicate (ps.length - 1) false
  ends : ps.map endBit = List.replicate (ps.length - 1) false ++ [true]
  exclusive : ∀ p ∈ ps, ¬ (startBit p = true ∧ endBit p = true)

end H264

namespace NginxRtc

/-! ## The packets handed over -/

/-- The callback with a record of the packets it was given. -/
def RtpEmit.recording {σ : Type} (emit : RtpEmit σ) : RtpEmit (σ × List Bytes) := fun s p =>
  (((emit s.1 p).1, s.2 ++ [p]), (emit s.1 p).2)

/-- The packets `ngx_rtc_h264_packetize` hands to its callback. -/
def h264Packets {σ : Type} (emit : RtpEmit σ) (k : Stamp) (nalu : Bytes) (marker : Bool) (cap : ℕ)
    (st : σ) (seq : UInt16) : List Bytes :=
  (h264Packetize emit.recording k nalu marker cap (st, []) seq).st.2

theorem RtpEmit.Succeeds.recording {σ : Type} {emit : RtpEmit σ} (h : emit.Succeeds) :
    emit.recording.Succeeds := fun s p => h s.1 p

theorem foldl_recording {σ : Type} (emit : RtpEmit σ) (ps : List Bytes) (s : σ × List Bytes) :
    (ps.foldl (fun s p => (emit.recording s p).1) s).2 = s.2 ++ ps := by
  induction ps generalizing s with
  | nil => exact (List.append_nil _).symm
  | cons p ps ih =>
    rw [List.foldl_cons, ih, RtpEmit.recording, List.append_assoc]
    rfl

/-- **The packets of a NAL unit.** -/
theorem h264Packets_eq {σ : Type} {emit : RtpEmit σ} (he : emit.Succeeds) (k : Stamp) {nalu : Bytes}
    (hn : nalu ≠ []) {cap : ℕ} (hcap : rtpHeaderSize + 2 + h264Mtu ≤ cap) (marker : Bool) (st : σ)
    (seq : UInt16) :
    h264Packets emit k nalu marker cap st seq = stampAll k seq (naluItems nalu marker) := by
  rw [h264Packets, h264Packetize_eq k he.recording hn hcap]
  exact foldl_recording emit _ _

section Stamped
variable (k : Stamp) (seq : UInt16) (xs : List (Bool × Bytes))

theorem payloads_stampAll : (stampAll k seq xs).map Rtp.payload = xs.map Prod.snd := by
  induction xs generalizing seq with
  | nil => rfl
  | cons x xs ih => rw [stampAll, List.map_cons, payload_build, ih, List.map_cons]

theorem markers_stampAll : (stampAll k seq xs).map Rtp.marker = xs.map Prod.fst := by
  induction xs generalizing seq with
  | nil => rfl
  | cons x xs ih => rw [stampAll, List.map_cons, marker_build, ih, List.map_cons]

theorem length_stampAll : (stampAll k seq xs).length = xs.length := by
  have h := congrArg List.length (payloads_stampAll k seq xs)
  rwa [List.length_map, List.length_map] at h

theorem seqs_stampAll :
    (stampAll k seq xs).map Rtp.seq =
      (List.range xs.length).map fun i => seq + UInt16.ofNat i := by
  induction xs generalizing seq with
  | nil => rfl
  | cons x xs ih =>
    rw [stampAll, List.map_cons, seq_build, ih, List.length_cons, Rtp.seqs_succ]

end Stamped

theorem length_build (k : Stamp) (seq : UInt16) (m : Bool) (p : Bytes) :
    (rtpBuildHeader k seq m ++ p).length = rtpHeaderSize + p.length := by
  obtain ⟨b, he, -⟩ := rtpBuildHeader_eq k seq m
  rw [he, List.length_append]
  rfl

theorem length_le_stampAll {n : ℕ} (k : Stamp) (seq : UInt16) {xs : List (Bool × Bytes)}
    (h : ∀ x ∈ xs, x.2.length ≤ n) : ∀ p ∈ stampAll k seq xs, p.length ≤ rtpHeaderSize + n := by
  induction xs generalizing seq with
  | nil => exact fun p hp => nomatch hp
  | cons x xs ih =>
    intro p hp
    rcases List.mem_cons.1 hp with rfl | hp
    · rw [length_build]
      exact Nat.add_le_add_left (h x List.mem_cons_self) _
    · exact ih (seq + 1) (fun y hy => h y (List.mem_cons_of_mem x hy)) p hp

/-! ## The fragments -/

section Fragments
variable (b : UInt8) (mtu : ℕ) (marker : Bool)

theorem length_le_fuItems (nalType indicator : UInt8) (num : ℕ) (first : Bool) (p : Bytes) :
    ∀ x ∈ fuItems nalType indicator mtu marker num first p, x.2.length ≤ 2 + mtu := by
  induction num generalizing first p with
  | zero => exact fun x hx => nomatch hx
  | succ num ih =>
    intro x hx
    rcases List.mem_cons.1 hx with rfl | hx
    · simp only [List.length_cons, List.length_take]
      omega
    · exact ih _ _ x hx

theorem startBit_fuHeader (first last : Bool) (ind : UInt8) (body : Bytes) :
    H264.startBit (ind :: fuHeader (b &&& 0x1f) first last :: body) = first :=
  Bool.eq_iff_iff.2 (decide_eq_true_iff.trans (fuHeader_bits b first last).1)

theorem endBit_fuHeader (first last : Bool) (ind : UInt8) (body : Bytes) :
    H264.endBit (ind :: fuHeader (b &&& 0x1f) first last :: body) = last :=
  Bool.eq_iff_iff.2 (decide_eq_true_iff.trans (fuHeader_bits b first last).2)

/-- The payloads of the fragments. -/
def fuPayloads (num : ℕ) (first : Bool) (p : Bytes) : List Bytes :=
  (fuItems (b &&& 0x1f) (b &&& 0xe0 ||| 28) mtu marker num first p).map Prod.snd

theorem fuPayloads_succ (num : ℕ) (first : Bool) (p : Bytes) :
    fuPayloads b mtu marker (num + 1) first p =
      ((b &&& 0xe0 ||| 28) :: fuHeader (b &&& 0x1f) first (num = 0) :: p.take mtu) ::
        fuPayloads b mtu marker num false (p.drop mtu) := rfl

theorem fragment_fuPayloads (num : ℕ) (first : Bool) (p : Bytes) :
    ∀ x ∈ fuPayloads b mtu marker num first p, x.head?.map H264.typeOf = some H264.fuA := by
  induction num generalizing first p with
  | zero => exact fun x hx => nomatch hx
  | succ num ih =>
    rw [fuPayloads_succ]
    intro x hx
    rcases List.mem_cons.1 hx with rfl | hx
    · exact congrArg some (typeOf_fuIndicator b)
    · exact ih _ _ x hx

theorem starts_fuPayloads (num : ℕ) (p : Bytes) :
    (fuPayloads b mtu marker num false p).map H264.startBit = List.replicate num false := by
  induction num generalizing p with
  | zero => rfl
  | succ num ih =>
    rw [fuPayloads_succ, List.map_cons, startBit_fuHeader, ih, List.replicate_succ]

theorem ends_fuPayloads (num : ℕ) (first : Bool) (p : Bytes) :
    (fuPayloads b mtu marker (num + 1) first p).map H264.endBit =
      List.replicate num false ++ [true] := by
  induction num generalizing first p with
  | zero =>
    rw [fuPayloads_succ, List.map_cons, endBit_fuHeader]
    rfl
  | succ num ih =>
    rw [fuPayloads_succ, List.map_cons, endBit_fuHeader, ih, List.replicate_succ]
    rfl

/-- **Two fragments or more** are a fragmented NAL unit, and one alone is not. -/
theorem fragmented_fuPayloads (num : ℕ) (p : Bytes) :
    H264.Fragmented (fuPayloads b mtu marker (num + 1) true p) ↔ num ≠ 0 := by
  have hlen : (fuPayloads b mtu marker (num + 1) true p).length = num + 1 := by
    rw [fuPayloads, List.length_map, length_fuItems]
  constructor
  · intro h
    have htwo := h.two
    omega
  · intro hnum
    refine ⟨fragment_fuPayloads b mtu marker (num + 1) true p, by omega, ?_, ?_, ?_⟩
    · rw [hlen, fuPayloads_succ, List.map_cons, startBit_fuHeader, starts_fuPayloads]
      rfl
    · rw [hlen, ends_fuPayloads]
      rfl
    · rw [fuPayloads_succ]
      rintro x hx ⟨hstart, hend⟩
      rcases List.mem_cons.1 hx with rfl | hx
      · rw [endBit_fuHeader, decide_eq_true_eq] at hend
        exact hnum hend
      · have hmem := List.mem_map_of_mem (f := H264.startBit) hx
        rw [starts_fuPayloads] at hmem
        exact nomatch hstart.symm.trans (List.eq_of_mem_replicate hmem)

end Fragments

/-! ## The round trip -/

/-- What a NAL unit should be sent as: packets of at most 1214 bytes, numbered in sequence, the
    marker on the last only and as requested, of which a receiver makes the NAL unit; if it is longer
    than the MTU, properly fragmented. -/
structure RoundTrip (nalu : Bytes) (marker : Bool) (seq : UInt16) (ps : List Bytes) : Prop where
  bounded : ∀ p ∈ ps, p.length ≤ 1214
  numbered : ps.map Rtp.seq = (List.range ps.length).map fun i => seq + UInt16.ofNat i
  marked : ps.map Rtp.marker = List.replicate (ps.length - 1) false ++ [marker]
  restored : ∀ kept, H264.feed kept (ps.map Rtp.payload) = (none, [nalu])
  fragmented : h264Mtu < nalu.length → H264.Fragmented (ps.map Rtp.payload)

theorem length_le_naluItems (nalu : Bytes) (marker : Bool) :
    ∀ x ∈ naluItems nalu marker, x.2.length ≤ 2 + h264Mtu := by
  unfold naluItems
  split_ifs with hmtu
  · intro x hx
    rw [List.mem_singleton.1 hx]
    exact Nat.le_add_left_of_le hmtu
  · exact length_le_fuItems _ _ _ _ _ _ _

/-- A long NAL unit is properly fragmented unless its only fragment would be as long as the MTU. -/
theorem fragmented_naluItems {nalu : Bytes} (h : h264Mtu < nalu.length) (marker : Bool) :
    H264.Fragmented ((naluItems nalu marker).map Prod.snd) ↔ nalu.length ≠ h264Mtu + 1 := by
  cases nalu with
  | nil => exact nomatch h
  | cons b p =>
    have he : naluItems (b :: p) marker =
        fuItems (b &&& 0x1f) (b &&& 0xe0 ||| 28) h264Mtu marker
          ((p.length - 1) / h264Mtu + 1) true p := by
      rw [naluItems, if_neg (Nat.not_le.2 h), Nat.add_comm 1]
      rfl
    rw [he]
    refine (fragmented_fuPayloads b h264Mtu marker _ p).trans (not_congr ?_)
    rw [List.length_cons] at h ⊢
    simp only [h264Mtu] at h ⊢
    omega

/-- **A NAL unit makes the round trip** exactly if it may be sent and is not one byte longer than
    the MTU. -/
theorem packetize_round_trip_iff {σ : Type} {emit : RtpEmit σ} (he : emit.Succeeds) (k : Stamp)
    {nalu : Bytes} (hn : nalu ≠ []) {cap : ℕ} (hcap : 1214 ≤ cap) (marker : Bool) (st : σ)
    (seq : UInt16) :
    RoundTrip nalu marker seq (h264Packets emit k nalu marker cap st seq) ↔
      nalu.length ≠ h264Mtu + 1 ∧ Sendable nalu := by
  rw [h264Packets_eq he k hn hcap]
  have hpayload := payloads_stampAll k seq (naluItems nalu marker)
  constructor
  · intro h
    have hsend : Sendable nalu := by
      by_contra hs
      have hless := (size_feed_naluItems none hn marker).2 hs
      have hback := h.restored none
      rw [hpayload] at hback
      rw [hback] at hless
      simp [H264.size] at hless
    refine ⟨fun hlen => ?_, hsend⟩
    have hlong : h264Mtu < nalu.length := by omega
    have hfrag := h.fragmented hlong
    rw [hpayload, fragmented_naluItems hlong] at hfrag
    exact hfrag hlen
  · rintro ⟨hlen, hsend⟩
    refine ⟨length_le_stampAll k seq (length_le_naluItems nalu marker), ?_, ?_, ?_, ?_⟩
    · rw [seqs_stampAll, length_stampAll]
    · obtain ⟨num, hnum⟩ := markers_naluItems hn marker
      have hcount := congrArg List.length hnum
      rw [List.length_map, List.length_append, List.length_replicate, List.length_singleton]
        at hcount
      rw [markers_stampAll, hnum, length_stampAll, hcount, Nat.add_sub_cancel]
    · intro kept
      rw [hpayload]
      exact feed_naluItems kept hn hsend marker
    · intro hlong
      rw [hpayload, fragmented_naluItems hlong]
      exact hlen

/-- A callback that takes every packet. -/
def takeAll : RtpEmit Unit := fun _ _ => ((), rtcOk)

/-- An IDR slice of `n + 1` bytes. -/
def idrOf (n : ℕ) : Bytes := 0x65 :: List.replicate n 0

theorem packetize_round_trip_iff_short :
    RoundTrip (idrOf 4) true 7 (h264Packets takeAll ⟨90000, 1, 102⟩ (idrOf 4) true 1214 () 7) ↔
      (idrOf 4).length ≠ h264Mtu + 1 ∧ Sendable (idrOf 4) :=
  packetize_round_trip_iff (fun _ _ => rfl) _ (List.cons_ne_nil _ _) (le_refl _) _ _ _

/-- **One byte too many**: 1201 bytes are sent as a single fragment with both bits set. -/
theorem packetize_single_fragment :
    ¬ RoundTrip (idrOf 1200) true 7
        (h264Packets takeAll ⟨90000, 1, 102⟩ (idrOf 1200) true 1214 () 7) ∧
      ((h264Packets takeAll ⟨90000, 1, 102⟩ (idrOf 1200) true 1214 () 7).map fun p =>
        (H264.startBit (Rtp.payload p), H264.endBit (Rtp.payload p))) = [(true, true)] := by
  refine ⟨fun h => ?_, by decide +kernel⟩
  have htwo := (h.fragmented (by decide +kernel)).two
  rw [List.length_map] at htwo
  revert htwo
  decide +kernel

end NginxRtc
