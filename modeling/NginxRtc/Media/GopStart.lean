/-
  Which video packets are marked as the start of a GOP, on the RTMP path (`ngx_rtmp_rtc_video`) and
  on the WHIP path (`ngx_rtc_stream_on_srtp`).

  The RTMP path marks the aggregation packet it sends ahead of each IDR slice; the WHIP path marks
  every aggregation packet it receives.

  `gopStart_iff`: when the marked packets are the first packets of the IDR access units.
-/
import NginxRtc.Media.AccessUnit
import NginxRtc.Media.Jitter

namespace NginxRtc

/-! ## Marks of an access unit -/

/-- Of the packets of an access unit the first is marked if the unit has an IDR slice, and no
    other. -/
structure MarksUnit (idr : Prop) (marks : List Bool) : Prop where
  first : ∀ j m, marks[j]? = some m → (m = true ↔ j = 0 ∧ idr)
  some : idr → marks ≠ []

/-- A NAL unit that is an IDR slice. -/
def IsIdr (nalu : Bytes) : Prop := h264NaluType nalu = naluIdr

instance (nalu : Bytes) : Decidable (IsIdr nalu) :=
  inferInstanceAs (Decidable (h264NaluType nalu = naluIdr))

/-- The NAL units of an access unit hold an IDR slice. -/
def HasIdr (nalus : List Bytes) : Prop := ∃ n ∈ nalus, IsIdr n

instance (nalus : List Bytes) : Decidable (HasIdr nalus) :=
  inferInstanceAs (Decidable (∃ n ∈ nalus, IsIdr n))

/-! ## Tags -/

section Rtmp

/-- The packets of the tags of a publish, tag by tag. -/
def tagsPackets (t : VideoTrack) : List (UInt32 × List Bytes) → List (List (Bool × Bytes))
  | [] => []
  | tag :: tags =>
    tagPackets t tag.1 (avcc tag.2) ::
      tagsPackets (rtmpRtcVideo record t tag.1 (avcc tag.2) []).2 tags

/-- The NAL units of a table that are sent. -/
def sentNalus (ns : List Bytes) : List Bytes :=
  (ns.takeWhile (· ≠ [])).filter (h264IsBFrame · ≠ 1)

/-- If the tag has an IDR slice, the first NAL unit that is sent of it is one, and no other is. -/
def OpensOnce (nalus : List Bytes) : Prop :=
  HasIdr nalus → ∃ n ns, sentNalus (nalus.take maxNalus) = n :: ns ∧ IsIdr n ∧ ¬ HasIdr ns

/-- How many packets a NAL unit takes. -/
def naluPackets (nalu : Bytes) : ℕ :=
  if nalu.length ≤ h264Mtu then 1 else 1 + (nalu.length - 2) / h264Mtu

theorem length_naluItems (nalu : Bytes) (marker : Bool) :
    (naluItems nalu marker).length = naluPackets nalu := by
  unfold naluItems naluPackets
  split_ifs
  · rfl
  · exact length_fuItems ..

/-- The marks of a NAL unit that is sent: those of its parameter sets and of its own packets. -/
def naluMarks (nalu : Bytes) : List Bool :=
  (if IsIdr nalu then [true] else []) ++ List.replicate (naluPackets nalu) false

theorem marks_stampVideo (k : Stamp) (seq : UInt16) (xs : List VideoItem) :
    (stampVideo k seq xs).map Prod.fst = xs.map Prod.fst := by
  induction xs generalizing seq with
  | nil => rfl
  | cons x xs ih => rw [stampVideo, List.map_cons, List.map_cons, ih]

variable {t : VideoTrack}

/-- **The marks of a table.** -/
theorem marks_videoItems (hsps : t.sps.known) (hpps : t.pps.known) (ns : List Bytes) :
    (videoItems t ns).map Prod.fst = (sentNalus ns).flatMap naluMarks := by
  induction ns with
  | nil => rfl
  | cons n ns ih =>
    rw [videoItems, sentNalus, List.takeWhile_cons]
    by_cases hn : n = []
    · subst hn
      rfl
    · rw [if_pos (decide_eq_true hn), List.filter_cons, if_neg hn]
      by_cases hb : h264IsBFrame n = 1
      · rw [if_pos hb, if_neg (by simp [hb])]
        exact ih
      · have hown : ((naluItems n ns.isEmpty).map fun x => (false, x)).map Prod.fst =
            List.replicate (naluPackets n) false := by
          rw [List.map_map, ← length_naluItems n ns.isEmpty]
          exact List.map_const' ..
        have hsets : (announceItems t n).map Prod.fst = if IsIdr n then [true] else [] := by
          by_cases hi : IsIdr n
          · rw [announceItems, if_pos ⟨hi, hsps, hpps⟩, if_pos hi]
            rfl
          · rw [announceItems, if_neg fun h => hi h.1, if_neg hi]
            rfl
        rw [if_neg hb, if_pos (by simp [hb]), List.flatMap_cons, List.map_append, List.map_append,
          hown, hsets, ih, naluMarks]
        rfl

theorem naluPackets_pos (nalu : Bytes) : 0 < naluPackets nalu := by
  unfold naluPackets
  split_ifs
  · exact Nat.one_pos
  · exact Nat.add_pos_left Nat.one_pos _

/-- Without an IDR slice nothing is marked. -/
theorem eq_false_of_not_hasIdr {ns : List Bytes} (h : ¬ HasIdr ns) :
    ∀ m ∈ ns.flatMap naluMarks, m = false := by
  intro m hm
  obtain ⟨n, hn, hmn⟩ := List.mem_flatMap.1 hm
  have hno : ¬ IsIdr n := fun hi => h ⟨n, hn, hi⟩
  rw [naluMarks, if_neg hno, List.nil_append] at hmn
  exact List.eq_of_mem_replicate hmn

theorem true_mem_of_hasIdr {ns : List Bytes} (h : HasIdr ns) : true ∈ ns.flatMap naluMarks := by
  obtain ⟨n, hn, hi⟩ := h
  refine List.mem_flatMap.2 ⟨n, hn, ?_⟩
  rw [naluMarks, if_pos hi]
  exact List.mem_cons_self

/-- Marks with at most the first one set. -/
theorem marksUnit_cons {m : Bool} {ms : List Bool} :
    MarksUnit True (m :: ms) ↔ m = true ∧ ∀ x ∈ ms, x = false := by
  constructor
  · intro h
    refine ⟨(h.first 0 m rfl).2 ⟨rfl, trivial⟩, fun x hx => ?_⟩
    obtain ⟨j, hj⟩ := List.mem_iff_getElem?.1 hx
    exact Bool.eq_false_iff.2 fun ht => absurd ((h.first (j + 1) x hj).1 ht).1 (by omega)
  · rintro ⟨rfl, h⟩
    refine ⟨fun j x hj => ?_, fun _ => List.cons_ne_nil _ _⟩
    cases j with
    | zero => exact iff_of_true (Option.some.inj hj).symm ⟨rfl, trivial⟩
    | succ j =>
      have := h x (List.mem_of_getElem? hj)
      exact iff_of_false (by simp [this]) fun hj => absurd hj.1 (by omega)

/-- When the marks of sent NAL units are those of an IDR access unit. -/
theorem marksUnit_sent (ns : List Bytes) : MarksUnit True (ns.flatMap naluMarks) ↔
    ∃ n rest, ns = n :: rest ∧ IsIdr n ∧ ¬ HasIdr rest := by
  cases ns with
  | nil =>
    refine iff_of_false (fun h => h.some trivial rfl) ?_
    rintro ⟨n, rest, h, -⟩
    exact nomatch h
  | cons n rest =>
    have hex : (∃ n' rest', n :: rest = n' :: rest' ∧ IsIdr n' ∧ ¬ HasIdr rest') ↔
        IsIdr n ∧ ¬ HasIdr rest := by
      constructor
      · rintro ⟨n', rest', he, h⟩
        obtain ⟨rfl, rfl⟩ := List.cons.inj he
        exact h
      · exact fun h => ⟨n, rest, rfl, h⟩
    rw [hex, List.flatMap_cons, naluMarks]
    by_cases hi : IsIdr n
    · rw [if_pos hi, List.append_assoc, List.singleton_append, marksUnit_cons]
      constructor
      · intro h
        refine ⟨hi, fun hr => ?_⟩
        exact absurd (h.2 true (List.mem_append_right _ (true_mem_of_hasIdr hr))) (by decide)
      · rintro ⟨-, hr⟩
        refine ⟨rfl, fun x hx => ?_⟩
        rcases List.mem_append.1 hx with hx | hx
        · exact List.eq_of_mem_replicate hx
        · exact eq_false_of_not_hasIdr hr x hx
    · obtain ⟨k, hk⟩ := Nat.exists_eq_add_one_of_ne_zero (naluPackets_pos n).ne'
      rw [if_neg hi, hk, List.replicate_succ, List.nil_append, List.cons_append, marksUnit_cons]
      exact iff_of_false (fun h => nomatch h.1) fun h => hi h.1

theorem marksUnit_tag (hsps : t.sps.known) (hpps : t.pps.known) (ms : UInt32) {nalus : List Bytes}
    (hlen : ∀ n ∈ nalus, n.length < 2 ^ 32) :
    MarksUnit (HasIdr nalus) ((tagPackets t ms (avcc nalus)).map Prod.fst) ↔ OpensOnce nalus := by
  have hmarks : (tagPackets t ms (avcc nalus)).map Prod.fst =
      (sentNalus (nalus.take maxNalus)).flatMap naluMarks := by
    rw [tagPackets_eq, splitNalus_avcc maxNalus hlen, ← marks_videoItems hsps hpps,
      marks_stampVideo]
  rw [hmarks]
  by_cases h : HasIdr nalus
  · rw [OpensOnce, eq_true h, forall_const, marksUnit_sent]
  · have hsent : ¬ HasIdr (sentNalus (nalus.take maxNalus)) := fun ⟨n, hn, hi⟩ =>
      h ⟨n, List.mem_of_mem_take ((List.takeWhile_prefix _).subset (List.mem_of_mem_filter hn)), hi⟩
    refine iff_of_true ⟨fun j m hj => ?_, fun hi => absurd hi h⟩ fun hi => absurd hi h
    have := eq_false_of_not_hasIdr hsent m (List.mem_of_getElem? hj)
    exact iff_of_false (by simp [this]) fun hi => h hi.2

theorem forall₂_tags (hsps : t.sps.known) (hpps : t.pps.known) {tags : List (UInt32 × List Bytes)}
    (hlen : ∀ tag ∈ tags, ∀ n ∈ tag.2, n.length < 2 ^ 32) :
    List.Forall₂ (fun tag ps => MarksUnit (HasIdr tag.2) (ps.map Prod.fst)) tags
        (tagsPackets t tags) ↔ ∀ tag ∈ tags, OpensOnce tag.2 := by
  induction tags generalizing t with
  | nil => exact iff_of_true .nil fun _ h => nomatch h
  | cons tag tags ih =>
    have hset : (rtmpRtcVideo record t tag.1 (avcc tag.2) []).2.sps = t.sps ∧
        (rtmpRtcVideo record t tag.1 (avcc tag.2) []).2.pps = t.pps := by
      unfold rtmpRtcVideo
      split <;> exact ⟨rfl, rfl⟩
    rw [tagsPackets, List.forall₂_cons, List.forall_mem_cons,
      marksUnit_tag hsps hpps tag.1 (hlen tag List.mem_cons_self),
      ih (by rw [hset.1]; exact hsps) (by rw [hset.2]; exact hpps)
        fun tag' h => hlen tag' (List.mem_cons_of_mem _ h)]

end Rtmp

/-! ## Arrivals -/

/-- The flag `ngx_rtc_stream_on_srtp` pushes a video packet with. -/
def srtpGopStart (rtp : Bytes) : UInt8 :=
  if rtpHeaderSize < rtp.length ∧ rtp.getD rtpHeaderSize 0 &&& 0x1f = 24 then 1 else 0

/-- A packet of a stream of access units on its arrival: its unit, its place there, its bytes with
    the header normalised, and the time. -/
structure Arrival where
  unit : ℕ
  index : ℕ
  rtp : Bytes
  now : UInt32

namespace Arrival

def Of (units : List (List Bytes)) (a : Arrival) : Prop :=
  ∃ packets, units[a.unit]? = some packets ∧ packets[a.index]? = some a.rtp

def push (a : Arrival) : JitterPush Arrival :=
  ⟨⟨a, a.rtp.length, srtpGopStart a.rtp⟩, Rtp.seq a.rtp, a.now⟩

end Arrival

/-- The NAL units that the packets of an access unit carry. -/
def unitNalus (packets : List Bytes) : List Bytes := H264.depacketize (packets.map Rtp.payload)

/-- The packet is the first of an access unit with an IDR slice. -/
def Arrival.Opens (units : List (List Bytes)) (a : Arrival) : Prop :=
  a.index = 0 ∧ ∃ packets, units[a.unit]? = some packets ∧ HasIdr (unitNalus packets)

/-- Whatever arrives of a stream, in any order, the buffer hands on a packet marked exactly if it is
    the first of an IDR access unit. -/
def MarksStream (units : List (List Bytes)) : Prop :=
  ∀ (j : Jitter Arrival) (arrivals : List Arrival), (∀ a ∈ arrivals, a.Of units) →
    ∃ u, (Uplink.start j.reset).run (arrivals.map Arrival.push) = some u ∧
      ∀ e ∈ u.emitted, e.2.isGopStart ≠ 0 ↔ e.2.data.Opens units

/-- Of the packets of an access unit that fit the buffer, the aggregation packets are the first one
    of a unit with an IDR slice, and no other. -/
def StapOpens (packets : List Bytes) : Prop :=
  ∀ k rtp, packets[k]? = some rtp → 0 < rtp.length → rtp.length ≤ jitterPktMax →
    (srtpGopStart rtp ≠ 0 ↔ k = 0 ∧ HasIdr (unitNalus packets))

theorem fits_push (a : Arrival) :
    Uplink.fits a.push = true ↔ 0 < a.rtp.length ∧ a.rtp.length ≤ jitterPktMax := by
  rw [Uplink.fits, decide_eq_true_iff, Nat.pos_iff_ne_zero]
  rfl

/-- What a run hands on has arrived, fits, and has the flag it was pushed with. -/
theorem emitted_arrival (j : Jitter Arrival) (arrivals : List Arrival) :
    ∃ u, (Uplink.start j.reset).run (arrivals.map Arrival.push) = some u ∧
      ∀ e ∈ u.emitted, e.2.data ∈ arrivals ∧ Uplink.fits e.2.data.push = true ∧
        (e.2.isGopStart ≠ 0 ↔ srtpGopStart e.2.data.rtp ≠ 0) := by
  obtain ⟨u, hu, hd⟩ := reset_run j ((arrivals.map Arrival.push).filter Uplink.fits)
  rw [Uplink.run_filter] at hu
  refine ⟨_, hu, fun e he => ?_⟩
  obtain ⟨⟨k, p⟩, hp, rfl⟩ := List.mem_map.1 he
  have hin := hd.emitted _ hp
  obtain ⟨hmem, hfits⟩ := List.mem_filter.1 (List.mem_of_getElem? hin.pushed)
  obtain ⟨a, ha, hpush⟩ := List.mem_map.1 hmem
  have hdata : p.data.2.pkt.data = a := by rw [← hpush]; rfl
  have hflag : p.data.2.pkt.isGopStart = srtpGopStart a.rtp := by rw [← hpush]; rfl
  show p.data.2.pkt.data ∈ arrivals ∧ Uplink.fits p.data.2.pkt.data.push = true ∧
    (p.isGopStart ≠ 0 ↔ srtpGopStart p.data.2.pkt.data.rtp ≠ 0)
  have hgop : p.isGopStart = srtpGopStart a.rtp ∨
      p.isGopStart = if srtpGopStart a.rtp = 0 then 0 else 1 := hflag ▸ hin.gop
  rw [hdata]
  refine ⟨ha, by rw [hpush]; exact hfits, ?_⟩
  rcases hgop with hg | hg
  · rw [hg]
  · rw [hg]
    split_ifs with h0
    · exact iff_of_false (by decide) (not_not.2 h0)
    · exact iff_of_true (by decide) h0

/-- The first packet that arrives after a reset is handed on. -/
theorem emitted_first (j : Jitter Arrival) {a : Arrival} (h : Uplink.fits a.push = true) :
    ∃ u, (Uplink.start j.reset).run [a.push] = some u ∧ ∃ e ∈ u.emitted, e.2 = a.push.pkt := by
  obtain ⟨hpos, hmax⟩ := (fits_push a).1 h
  have hl : ¬ (a.push.pkt.len = 0 ∨ jitterPktMax < a.push.pkt.len) := by
    show ¬ (a.rtp.length = 0 ∨ jitterPktMax < a.rtp.length)
    omega
  obtain ⟨u, hu, -⟩ := emitted_arrival j [a]
  refine ⟨u, hu, ?_⟩
  have hrun : (Uplink.start j.reset).push a.push = some u := by
    rw [← hu]
    exact (Uplink.run_append _ [] a.push).symm
  -- after a reset the buffer waits for whatever comes
  have hseq : a.push.seq = (j.reset.anchored a.push.seq).nextSeq := rfl
  have hpush : j.reset.push a.push.pkt a.push.seq a.push.now =
      (j.reset.anchored a.push.seq).inOrder a.push.pkt a.push.now := by
    rw [Jitter.push, if_neg hl, Jitter.push.pushOn, if_pos hseq]
  obtain ⟨r, hr, rfl⟩ := Option.map_eq_some_iff.1 hrun
  obtain ⟨out, hout⟩ := Jitter.inOrder_cons (hpush.symm.trans hr)
  refine ⟨_, List.mem_append_right _ (List.mem_map_of_mem ?_), rfl⟩
  rw [hout]
  exact List.mem_cons_self

/-- A buffer with nothing in it. -/
def freshUplink : Jitter Arrival where
  slots := fun _ => none
  nextSeq := 0
  pending := 0
  initialized := false
  gapTs := 0
  gapTimeoutMs := 0
  nCached := 0
  nSkipped := 0
  nStale := 0
  nReanchor := 0

/-- **Both ingest paths.**  On the RTMP path the packets of every tag are marked as they should be if
    and only if of every tag that has an IDR slice the first NAL unit sent is one and no other is.
    On the WHIP path, whatever arrives in whatever order, the packets handed on are marked as they
    should be if and only if the aggregation packets of the stream are the first packets of its
    IDR access units. -/
theorem gopStart_iff {t : VideoTrack} (hsps : t.sps.known) (hpps : t.pps.known)
    {tags : List (UInt32 × List Bytes)}
    (hlen : ∀ tag ∈ tags, ∀ n ∈ tag.2, n.length < 2 ^ 32) (units : List (List Bytes)) :
    (List.Forall₂ (fun tag ps => MarksUnit (HasIdr tag.2) (ps.map Prod.fst)) tags
        (tagsPackets t tags) ↔ ∀ tag ∈ tags, OpensOnce tag.2) ∧
    (MarksStream units ↔ ∀ packets ∈ units, StapOpens packets) := by
  refine ⟨forall₂_tags hsps hpps hlen, fun h packets hp k rtp hk hpos hmax => ?_,
    fun h j as has => ?_⟩
  · obtain ⟨i, hi⟩ := List.mem_iff_getElem?.1 hp
    set a : Arrival := ⟨i, k, rtp, 0⟩ with ha
    have hof : ∀ b ∈ [a], b.Of units := fun b hb => by
      rw [List.mem_singleton.1 hb]
      exact ⟨packets, hi, hk⟩
    obtain ⟨u, hu, hmarks⟩ := h freshUplink [a] hof
    obtain ⟨u', hu', e, he, hea⟩ := emitted_first freshUplink ((fits_push a).2 ⟨hpos, hmax⟩)
    obtain rfl := Option.some.inj (hu.symm.trans hu')
    have := hmarks e he
    rw [hea] at this
    refine this.trans ⟨?_, ?_⟩
    · rintro ⟨h0, packets', hi', hidr⟩
      obtain rfl := Option.some.inj (hi.symm.trans hi')
      exact ⟨h0, hidr⟩
    · exact fun ⟨h0, hidr⟩ => ⟨h0, packets, hi, hidr⟩
  · obtain ⟨u, hu, he⟩ := emitted_arrival j as
    refine ⟨u, hu, fun e hmem => ?_⟩
    obtain ⟨hin, hfits, hflag⟩ := he e hmem
    obtain ⟨packets, hi, hk⟩ := has _ hin
    obtain ⟨hpos, hmax⟩ := (fits_push _).1 hfits
    rw [hflag, h packets (List.mem_of_getElem? hi) _ _ hk hpos hmax]
    constructor
    · exact fun ⟨h0, hidr⟩ => ⟨h0, packets, hi, hidr⟩
    · rintro ⟨h0, packets', hi', hidr⟩
      obtain rfl := Option.some.inj (hi.symm.trans hi')
      exact ⟨h0, hidr⟩

/-! ## Units that are marked as they should be, and some that are not -/

/-- A NAL unit in an RTP packet of its own, or NAL units in an aggregation packet. -/
def sampleRtp (payload : Bytes) : Bytes := [0x80, 0x60, 0, 1, 0, 0, 0, 0, 0, 0, 0, 7] ++ payload

/-- The parameter sets in one packet, then the IDR slice. -/
def aggregatedUnit : List Bytes :=
  [sampleRtp [0x78, 0, 2, 0x67, 0x42, 0, 2, 0x68, 0xce], sampleRtp [0x65, 0x88]]

/-- The parameter sets and the IDR slice, each in a packet of its own. -/
def singleUnit : List Bytes :=
  [sampleRtp [0x67, 0x42], sampleRtp [0x68, 0xce], sampleRtp [0x65, 0x88]]

theorem stapOpens_aggregated : StapOpens aggregatedUnit := by
  intro k rtp hk _ _
  match k with
  | 0 =>
    cases hk
    decide +kernel
  | 1 =>
    cases hk
    decide +kernel
  | k + 2 => exact nomatch hk

/-- A tag with nothing but an IDR slice. -/
def idrTags : List (UInt32 × List Bytes) := [(40, [[0x65, 0x88, 0x84]])]

theorem opensOnce_idrTags : ∀ tag ∈ idrTags, OpensOnce tag.2 := by
  intro tag ht _
  have hnone : ¬ HasIdr [] := fun ⟨_, hn, _⟩ => List.not_mem_nil hn
  cases List.mem_singleton.1 ht
  exact ⟨[0x65, 0x88, 0x84], [], by decide, by decide, hnone⟩

theorem gopStart_iff_sample :
    List.Forall₂ (fun tag ps => MarksUnit (HasIdr tag.2) (ps.map Prod.fst)) idrTags
        (tagsPackets sampleVideo idrTags) ∧ MarksStream [aggregatedUnit] := by
  have hlen : ∀ tag ∈ idrTags, ∀ n ∈ tag.2, n.length < 2 ^ 32 := by decide
  have hsps : sampleVideo.sps.known := by decide
  have hpps : sampleVideo.pps.known := by decide
  have h := gopStart_iff hsps hpps hlen [aggregatedUnit]
  refine ⟨h.1.2 opensOnce_idrTags, h.2.2 fun packets hp => ?_⟩
  rw [List.mem_singleton.1 hp]
  exact stapOpens_aggregated

/-- A tag with an access unit delimiter ahead of the IDR slice, and a unit of single NAL units. -/
theorem keyframe_unmarked :
    sampleVideo.sps.known ∧ sampleVideo.pps.known ∧
      ¬ List.Forall₂ (fun tag ps => MarksUnit (HasIdr tag.2) (ps.map Prod.fst))
        [(40, sampleUnit)] (tagsPackets sampleVideo [(40, sampleUnit)]) ∧
      ¬ MarksStream [singleUnit] := by
  refine ⟨by decide, by decide, fun h => ?_, fun h => ?_⟩
  · have hfirst := (List.forall₂_cons.1 h).1.first 0 false (by decide +kernel)
    exact absurd (hfirst.2 (by decide +kernel)) (by decide)
  · set a : Arrival := ⟨0, 0, sampleRtp [0x67, 0x42], 0⟩ with ha
    have hof : ∀ b ∈ [a], b.Of [singleUnit] := fun b hb => by
      rw [List.mem_singleton.1 hb]
      exact ⟨singleUnit, rfl, rfl⟩
    obtain ⟨u, hu, hmarks⟩ := h freshUplink [a] hof
    obtain ⟨u', hu', e, he, hea⟩ := emitted_first freshUplink (a := a) (by decide)
    obtain rfl := Option.some.inj (hu.symm.trans hu')
    have hmark := hmarks e he
    rw [hea] at hmark
    exact absurd (hmark.2 ⟨rfl, singleUnit, rfl, by decide +kernel⟩) (by decide)

end NginxRtc
