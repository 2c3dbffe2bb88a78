/-
  H.264 over RTMP into RTP (`ngx_rtmp_rtc_bridge_module.c`): the AVC sequence header, and the NAL
  units of one tag.

  A tag is split at its length prefixes into a table of at most sixteen NAL units; B-frame slices
  are dropped, the parameter sets are sent ahead of an IDR slice, and the last NAL unit of the
  table carries the marker.

  `avcHeader_record`: a sequence header makes its parameter sets known.  `splitNalus_avcc`: the
  table holds the first NAL units of the tag.  `rtmpRtcVideo_eq`: what a tag is sent as.
-/
import NginxRtc.Lib.Wire
import NginxRtc.Media.Packetize

namespace NginxRtc

def paramSetMax : ℕ := 256
def maxNalus : ℕ := 16
def videoScratch : ℕ := 1500

/-- An SPS or PPS as the source keeps it; with no bytes it is not known. -/
structure ParamSet where
  bytes : Bytes
  fits : bytes.length < paramSetMax

namespace ParamSet

def unknown : ParamSet := ⟨[], by decide⟩

def known (s : ParamSet) : Prop := s.bytes ≠ []

instance (s : ParamSet) : Decidable s.known := inferInstanceAs (Decidable (s.bytes ≠ []))

/-- Keep the first set that fits. -/
def keep (s : ParamSet) (set : Bytes) : ParamSet :=
  if s.bytes = [] then
    if h : set.length < paramSetMax then ⟨set, h⟩ else s
  else s

end ParamSet

/-- Of an `ngx_rtc_source_t`, what the video path from RTMP reads and writes. -/
structure VideoTrack where
  sps : ParamSet
  pps : ParamSet
  videoSeq : UInt16
  videoTs : UInt32
  lastVideoRtmpMs : UInt32
  videoSsrc : UInt32
  videoPt : UInt8

/-! ## The AVC sequence header -/

/-- One list of parameter sets, each after its size: the set kept, and what follows unless the list
    runs past the end. -/
def readSets : ℕ → Bytes → ParamSet → ParamSet × Option Bytes
  | n + 1, hi :: lo :: p, s =>
    if p.length < (hi.toNat <<< 8 ||| lo.toNat) then (s, none)
    else
      readSets n (p.drop (hi.toNat <<< 8 ||| lo.toNat))
        (s.keep (p.take (hi.toNat <<< 8 ||| lo.toNat)))
  | _, p, s => (s, some p)

/-- `ngx_rtmp_rtc_parse_avc_header`. -/
def VideoTrack.parseAvcHeader (t : VideoTrack) (data : Bytes) : VideoTrack :=
  if data.length < 6 then t
  else
    match readSets (data.getD 5 0 &&& 0x1f).toNat (data.drop 6) t.sps with
    | (sps, some (n :: p)) => { t with sps, pps := (readSets n.toNat p t.pps).1 }
    | (sps, _) => { t with sps }

/-- An AVC sequence header in `ngx_rtmp_rtc_av`: the stream starts afresh. -/
def VideoTrack.avcHeader (t : VideoTrack) (data : Bytes) : VideoTrack :=
  ({ t with
    sps := ParamSet.unknown
    pps := ParamSet.unknown
    videoSeq := 0
    videoTs := 0 }).parseAvcHeader data

/-- A parameter set after its size. -/
def sized (set : Bytes) : Bytes := UInt8.ofNat (set.length / 256) :: UInt8.ofNat set.length :: set

theorem readSets_zero (p : Bytes) (s : ParamSet) : readSets 0 p s = (s, some p) := by
  simp [readSets]

theorem readSets_sized (n : ℕ) {set : Bytes} (hset : set.length < paramSetMax) (p : Bytes)
    (s : ParamSet) : readSets (n + 1) (sized set ++ p) s = readSets n p (s.keep set) := by
  simp only [paramSetMax] at hset
  have hhi : (UInt8.ofNat (set.length / 256)).toNat = 0 := by
    rw [UInt8.toNat_ofNat', Nat.div_eq_of_lt hset, Nat.zero_mod]
  have hlo : (UInt8.ofNat set.length).toNat = set.length := by
    rw [UInt8.toNat_ofNat', Nat.mod_eq_of_lt hset]
  have hlen : (0 <<< 8 ||| set.length) = set.length := by simp
  rw [sized, List.cons_append, List.cons_append, readSets, hhi, hlo, hlen, if_neg (by simp),
    List.drop_left, List.take_left]

/-- A sequence header with one SPS and one PPS, after five bytes that are not read. -/
def avcRecord (version profile compat level size : UInt8) (sps pps : Bytes) : Bytes :=
  [version, profile, compat, level, size, 0xe1] ++ sized sps ++ 1 :: sized pps

/-- **A sequence header** with one SPS and one PPS that fit makes them known. -/
theorem avcHeader_record (t : VideoTrack) (version profile compat level size : UInt8)
    {sps pps : Bytes} (hsps : sps.length < paramSetMax) (hpps : pps.length < paramSetMax) :
    (t.avcHeader (avcRecord version profile compat level size sps pps)).sps.bytes = sps ∧
      (t.avcHeader (avcRecord version profile compat level size sps pps)).pps.bytes = pps := by
  have hkeep : ∀ {set : Bytes} (h : set.length < paramSetMax),
      ParamSet.unknown.keep set = ⟨set, h⟩ := by
    intro set h
    simp [ParamSet.keep, ParamSet.unknown, h]
  have hread := readSets_sized 0 hsps (1 :: sized pps) ParamSet.unknown
  have hread' := readSets_sized 0 hpps [] ParamSet.unknown
  rw [List.append_nil, readSets_zero, hkeep hpps] at hread'
  rw [readSets_zero, hkeep hsps] at hread
  have hone : ((0xe1 : UInt8) &&& 0x1f).toNat = 1 := by decide
  simp only [VideoTrack.avcHeader, VideoTrack.parseAvcHeader, avcRecord, List.cons_append,
    List.nil_append, List.getD_cons_succ, List.getD_cons_zero, List.drop_succ_cons, List.drop_zero, hone]
  rw [hread, if_neg (by simp)]
  exact ⟨rfl, congrArg (fun r => r.1.bytes) hread'⟩

/-! ## The NAL units of a tag -/

/-- The table of NAL units, with room for `room`: units after four bytes of length, as far as they
    are complete. -/
def splitNalus : (room : ℕ) → Bytes → List Bytes
  | room + 1, a :: b :: c :: d :: data =>
    if data.length < (a.toUInt32 <<< 24 ||| b.toUInt32 <<< 16 ||| c.toUInt32 <<< 8 |||
        d.toUInt32).toNat then []
    else
      data.take (a.toUInt32 <<< 24 ||| b.toUInt32 <<< 16 ||| c.toUInt32 <<< 8 |||
          d.toUInt32).toNat ::
        splitNalus room (data.drop (a.toUInt32 <<< 24 ||| b.toUInt32 <<< 16 ||| c.toUInt32 <<< 8 |||
          d.toUInt32).toNat)
  | _, _ => []

section Video
variable {σ : Type}

/-- `ngx_rtmp_rtc_emit`, told whether the packet opens a GOP. -/
abbrev VideoEmit (σ : Type) := σ → Bool → Bytes → σ × ℤ

variable (emit : VideoEmit σ)

/-- The SPS and the PPS in one packet, ahead of an IDR slice. -/
def announce (t : VideoTrack) (k : Stamp) (nalu : Bytes) (st : σ) (seq : UInt16) : σ × UInt16 :=
  if h264NaluType nalu = naluIdr ∧ t.sps.known ∧ t.pps.known then
    ((h264PacketizeStapA (fun st => emit st true) k [t.sps.bytes, t.pps.bytes] videoScratch st
        seq).st,
      (h264PacketizeStapA (fun st => emit st true) k [t.sps.bytes, t.pps.bytes] videoScratch st
        seq).seq)
  else (st, seq)

/-- The loop over the table; it ends at the first NAL unit that cannot be sent. -/
def videoLoop (t : VideoTrack) (k : Stamp) : List Bytes → σ → UInt16 → σ × UInt16
  | [], st, seq => (st, seq)
  | n :: ns, st, seq =>
    if h264IsBFrame n = 1 then videoLoop t k ns st seq
    else
      let a := announce emit t k n st seq
      let r := h264Packetize (fun st => emit st false) k n ns.isEmpty videoScratch a.1 a.2
      if r.rc ≠ rtcOk then (r.st, r.seq) else videoLoop t k ns r.st r.seq

/-- `ngx_rtmp_rtc_video`, for the tag body `data` stamped `ms`. -/
def rtmpRtcVideo (t : VideoTrack) (ms : UInt32) (data : Bytes) (st : σ) : σ × VideoTrack :=
  match splitNalus maxNalus data with
  | [] => (st, t)
  | n :: ns =>
    let r := videoLoop emit t ⟨h264TimestampFromMs ms, t.videoSsrc, t.videoPt⟩ (n :: ns) st
      t.videoSeq
    (r.1, { t with
      videoSeq := r.2
      videoTs := h264TimestampFromMs ms
      lastVideoRtmpMs := ms })

end Video

/-! ## Tags -/

/-- The length prefix of a NAL unit. -/
def avccLength (n : ℕ) : Bytes :=
  [UInt8.ofNat (n / 2 ^ 24), UInt8.ofNat (n / 2 ^ 16), UInt8.ofNat (n / 2 ^ 8), UInt8.ofNat n]

/-- The body of a tag with these NAL units. -/
def avcc (nalus : List Bytes) : Bytes := nalus.flatMap fun n => avccLength n.length ++ n

theorem toNat_length {n : ℕ} (hn : n < 2 ^ 32) :
    ((UInt8.ofNat (n / 2 ^ 24)).toUInt32 <<< 24 ||| (UInt8.ofNat (n / 2 ^ 16)).toUInt32 <<< 16 |||
      (UInt8.ofNat (n / 2 ^ 8)).toUInt32 <<< 8 ||| (UInt8.ofNat n).toUInt32).toNat = n := by
  refine (Wire.word32_toNat _ _ _ _).trans ?_
  simp only [UInt8.toNat_ofNat', Nat.reducePow] at hn ⊢
  omega

/-- **The table holds the first NAL units of the tag.** -/
theorem splitNalus_avcc (room : ℕ) {nalus : List Bytes} (h : ∀ n ∈ nalus, n.length < 2 ^ 32) :
    splitNalus room (avcc nalus) = nalus.take room := by
  induction nalus generalizing room with
  | nil => cases room <;> simp [avcc, splitNalus]
  | cons n ns ih =>
    cases room with
    | zero => simp [splitNalus]
    | succ room =>
      have hlen := toNat_length (h n List.mem_cons_self)
      have htail : avcc (n :: ns) = avccLength n.length ++ (n ++ avcc ns) := by
        simp only [avcc, List.flatMap_cons, List.append_assoc]
      rw [htail, avccLength]
      simp only [List.cons_append, List.nil_append, splitNalus, hlen, List.take_left,
        List.drop_left]
      rw [if_neg (by simp), ih room fun m hm => h m (List.mem_cons_of_mem n hm),
        List.take_succ_cons]

/-! ## What a tag is sent as -/

/-- A payload on its way: whether it opens a GOP, its marker, and its bytes. -/
abbrev VideoItem := Bool × Bool × Bytes

/-- The packets of payloads from the sequence number `seq` on. -/
def stampVideo (k : Stamp) : UInt16 → List VideoItem → List (Bool × Bytes)
  | _, [] => []
  | seq, x :: xs => (x.1, rtpBuildHeader k seq x.2.1 ++ x.2.2) :: stampVideo k (seq + 1) xs

section Items
variable (t : VideoTrack)

def announceItems (nalu : Bytes) : List VideoItem :=
  if h264NaluType nalu = naluIdr ∧ t.sps.known ∧ t.pps.known then
    [(true, false, stapPayload [t.sps.bytes, t.pps.bytes])]
  else []

/-- The payloads of the table. -/
def videoItems : List Bytes → List VideoItem
  | [] => []
  | n :: ns =>
    if h264IsBFrame n = 1 then videoItems ns
    else if n = [] then []
    else announceItems t n ++ (naluItems n ns.isEmpty).map (fun x => (false, x)) ++ videoItems ns

end Items

theorem stampVideo_append (k : Stamp) (seq : UInt16) (xs ys : List VideoItem) :
    stampVideo k seq (xs ++ ys) =
      stampVideo k seq xs ++ stampVideo k (seq + UInt16.ofNat xs.length) ys := by
  induction xs generalizing seq with
  | nil => simp [stampVideo]
  | cons x xs ih =>
    simp only [List.cons_append, stampVideo, ih, List.length_cons, Rtp.seq_succ]

theorem stampVideo_map (k : Stamp) (seq : UInt16) (gop : Bool) (xs : List (Bool × Bytes)) :
    stampVideo k seq (xs.map fun x => (gop, x)) = (stampAll k seq xs).map fun p => (gop, p) := by
  induction xs generalizing seq with
  | nil => rfl
  | cons x xs ih => simp only [List.map_cons, stampVideo, stampAll, ih]

section Sends
variable {σ : Type} {emit : VideoEmit σ}

/-- The callback never fails. -/
def VideoEmit.Succeeds (emit : VideoEmit σ) : Prop := ∀ st gop p, (emit st gop p).2 = rtcOk

/-- All packets handed over. -/
def handOver (emit : VideoEmit σ) (ps : List (Bool × Bytes)) (st : σ) : σ :=
  ps.foldl (fun st p => (emit st p.1 p.2).1) st

theorem handOver_append (ps qs : List (Bool × Bytes)) (st : σ) :
    handOver emit (ps ++ qs) st = handOver emit qs (handOver emit ps st) := List.foldl_append

/-- Packets of one NAL unit go through the callback with one GOP flag. -/
theorem sendAll_video (k : Stamp) (gop : Bool) (xs : List (Bool × Bytes)) (st : σ) (seq : UInt16) :
    sendAll (fun st => emit st gop) k xs st seq =
      ⟨handOver emit (stampVideo k seq (xs.map fun x => (gop, x))) st,
        seq + UInt16.ofNat xs.length, rtcOk⟩ := by
  rw [sendAll, stampVideo_map, handOver, List.foldl_map]

theorem stapLength_params (t : VideoTrack) :
    ∃ len, stapLength 1 [t.sps.bytes, t.pps.bytes] = some len ∧
      rtpHeaderSize + len ≤ videoScratch := by
  have hs := t.sps.fits
  have hp := t.pps.fits
  simp only [paramSetMax] at hs hp
  have hmtu : h264Mtu = 1200 := rfl
  refine ⟨1 + (2 + t.sps.bytes.length) + (2 + t.pps.bytes.length), ?_, ?_⟩
  · rw [stapLength, if_neg (by omega), if_neg (by omega), stapLength, if_neg (by omega),
      if_neg (by omega), stapLength]
  · simp only [rtpHeaderSize, videoScratch]
    omega

theorem announce_eq (he : emit.Succeeds) (t : VideoTrack) (k : Stamp) (nalu : Bytes) (st : σ)
    (seq : UInt16) :
    announce emit t k nalu st seq =
      (handOver emit (stampVideo k seq (announceItems t nalu)) st,
        seq + UInt16.ofNat (announceItems t nalu).length) := by
  unfold announce announceItems
  split_ifs
  · obtain ⟨len, hlen, hcap⟩ := stapLength_params t
    rw [h264PacketizeStapA_eq k (fun st p => he st true p) (by simp) hlen hcap, sendAll_video]
    rfl
  · simp [stampVideo, handOver]

/-- **What the table is sent as**, when the callback never fails. -/
theorem videoLoop_eq (he : emit.Succeeds) (t : VideoTrack) (k : Stamp) (ns : List Bytes) (st : σ)
    (seq : UInt16) :
    videoLoop emit t k ns st seq = (handOver emit (stampVideo k seq (videoItems t ns)) st,
      seq + UInt16.ofNat (videoItems t ns).length) := by
  induction ns generalizing st seq with
  | nil => simp [videoLoop, videoItems, stampVideo, handOver]
  | cons n ns ih =>
    unfold videoLoop videoItems
    split_ifs with hb hn
    · exact ih st seq
    · subst hn
      simp [announce_eq he, announceItems, h264NaluType, naluIdr, h264Packetize, rtcErrInvalid,
        rtcOk, stampVideo, handOver]
    · simp only [announce_eq he]
      rw [h264Packetize_eq k (fun st p => he st false p) hn (by decide), sendAll_video]
      simp only [ne_eq, not_true_eq_false, if_false, ih, stampVideo_append, handOver_append,
        List.length_append, List.length_map, UInt16.ofNat_add, UInt16.add_assoc]

/-- **What a tag is sent as**, when the callback never fails. -/
theorem rtmpRtcVideo_eq (he : emit.Succeeds) (t : VideoTrack) (ms : UInt32) (data : Bytes)
    (st : σ) :
    (rtmpRtcVideo emit t ms data st).1 =
      handOver emit (stampVideo ⟨h264TimestampFromMs ms, t.videoSsrc, t.videoPt⟩ t.videoSeq
        (videoItems t (splitNalus maxNalus data))) st := by
  unfold rtmpRtcVideo
  cases splitNalus maxNalus data with
  | nil => rfl
  | cons n ns => simp only [videoLoop_eq he]

end Sends

/-! ## The packets -/

/-- The callback that never fails and keeps the packets. -/
def record (ps : List (Bool × Bytes)) (gop : Bool) (p : Bytes) : List (Bool × Bytes) × ℤ :=
  (ps ++ [(gop, p)], rtcOk)

theorem record_succeeds : VideoEmit.Succeeds record := fun _ _ _ => rfl

theorem handOver_record (ps qs : List (Bool × Bytes)) : handOver record qs ps = ps ++ qs := by
  induction qs generalizing ps with
  | nil => exact (List.append_nil ps).symm
  | cons q qs ih => exact (ih _).trans (by simp [record])

/-- The packets of a tag, in the order in which they are handed over. -/
def tagPackets (t : VideoTrack) (ms : UInt32) (data : Bytes) : List (Bool × Bytes) :=
  (rtmpRtcVideo record t ms data []).1

theorem tagPackets_eq (t : VideoTrack) (ms : UInt32) (data : Bytes) :
    tagPackets t ms data = stampVideo ⟨h264TimestampFromMs ms, t.videoSsrc, t.videoPt⟩ t.videoSeq
      (videoItems t (splitNalus maxNalus data)) := by
  rw [tagPackets, rtmpRtcVideo_eq record_succeeds, handOver_record, List.nil_append]

section Stamped
variable (k : Stamp) (seq : UInt16) (xs : List VideoItem)

theorem getElem?_stampVideo (i : ℕ) :
    (stampVideo k seq xs)[i]? =
      xs[i]?.map fun x => (x.1, rtpBuildHeader k (seq + UInt16.ofNat i) x.2.1 ++ x.2.2) := by
  induction xs generalizing seq i with
  | nil => rfl
  | cons x xs ih =>
    cases i with
    | zero => simp [stampVideo]
    | succ i =>
      simp only [stampVideo, List.getElem?_cons_succ, ih, Rtp.seq_succ]

theorem length_stampVideo : (stampVideo k seq xs).length = xs.length := by
  induction xs generalizing seq with
  | nil => rfl
  | cons x xs ih => simp only [stampVideo, List.length_cons, ih]

theorem payloads_stampVideo :
    ((stampVideo k seq xs).map Prod.snd).map Rtp.payload = xs.map fun x => x.2.2 := by
  induction xs generalizing seq with
  | nil => rfl
  | cons x xs ih => simp only [stampVideo, List.map_cons, ih, payload_build]

/-- A packet and the payload it was made of. -/
theorem packet_stampVideo {i : ℕ} {p : Bytes}
    (h : ((stampVideo k seq xs).map Prod.snd)[i]? = some p) :
    ∃ x, xs[i]? = some x ∧ p = rtpBuildHeader k (seq + UInt16.ofNat i) x.2.1 ++ x.2.2 := by
  rw [List.getElem?_map, getElem?_stampVideo] at h
  cases hx : xs[i]? with
  | none => simp [hx] at h
  | some x =>
    refine ⟨x, rfl, ?_⟩
    simpa [hx] using h.symm

end Stamped

end NginxRtc
