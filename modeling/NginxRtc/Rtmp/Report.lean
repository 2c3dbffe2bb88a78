/-
  Sender reports (`ngx_rtmp_rtc_bridge_module.c`): what every viewer is told of the video it gets,
  and who is told.

  A source counts the video packets it sends out and the octets of their payloads; an AVC sequence
  header starts the count afresh.  `Account` follows a source with the packets themselves.

  `report_tells`: a report sent at any time says how many packets went out since the last sequence
  header, and how many octets they carried.  `reports_once`: one tick of the timer sends one report to
  every connected subscriber whose session is ready, over the links of the queues.
-/
import NginxRtc.Lib.Text
import NginxRtc.Media.Fragments
import NginxRtc.Media.Video
import NginxRtc.Rtcp.Encode
import NginxRtc.Worker.Lifetime

namespace NginxRtc

open Rtcp

/-! ## What is counted -/

/-- `video_pkts`, `video_octets`. -/
structure VideoCount where
  pkts : UInt32
  octets : UInt32

/-- One packet of so many octets. -/
def VideoCount.add (c : VideoCount) (octets : ℕ) : VideoCount :=
  ⟨c.pkts + 1, c.octets + UInt32.ofNat octets⟩

/-- The counters in `ngx_rtmp_rtc_emit`. -/
def rtmpRtcEmit : VideoEmit VideoCount := fun c _ rtp =>
  (c.add (if rtpHeaderSize ≤ rtp.length then rtp.length - rtpHeaderSize else rtp.length), rtcOk)

/-- The counters in `ngx_rtc_stream_whip_emit`; a packet without payload counts with its header. -/
def streamWhipEmit (c : VideoCount) (rtp : Bytes) : VideoCount := c.add (rtpOctets rtp)

/-- Of an `ngx_rtc_source_t`, what a sender report is made of. -/
structure VideoSource where
  t : VideoTrack
  count : VideoCount

/-- What comes in for a source: an AVC sequence header, cut short if it is none, the NAL units of a
    tag, a packet of a WHIP publisher, the SSRC and payload type of the shared source. -/
inductive VideoInput where
  | header (record : Option Bytes)
  | nalus (ms : UInt32) (data : Bytes)
  | whip (rtp : Bytes)
  | identity (ssrc : UInt32) (pt : UInt8)

namespace VideoSource

/-- A source as it is created. -/
def fresh (ssrc : UInt32) (pt : UInt8) : VideoSource :=
  ⟨⟨.unknown, .unknown, 0, 0, 0, ssrc, pt⟩, ⟨0, 0⟩⟩

def step (s : VideoSource) : VideoInput → VideoSource
  | .header record => ⟨s.t.avcHeader (record.getD []), ⟨0, 0⟩⟩
  | .nalus ms data =>
    let r := rtmpRtcVideo rtmpRtcEmit s.t ms data s.count
    ⟨r.2, r.1⟩
  | .whip rtp => { s with count := streamWhipEmit s.count rtp }
  | .identity ssrc pt => { s with t := { s.t with videoSsrc := ssrc, videoPt := pt } }

end VideoSource

/-! ## The report -/

/-- `NGX_RTC_RTCP_MAX_PACKET`. -/
def rtcpMaxPacket : ℕ := 1500

/-- Append an encoded packet, if it could be encoded; `none` is the early return. -/
def reportAppend (pkt : Except CodecErr Bytes) (compound : Bytes) : Option Bytes :=
  match pkt with
  | .error _ => some compound
  | .ok sub => (compoundAppend compound rtcpMaxPacket sub).toOption

/-- `ngx_rtmp_rtc_send_sr_sdes` up to the encryption; `now` is the wall clock. -/
def VideoSource.srSdes (s : VideoSource) (now : UInt64) : Option Bytes := do
  let sr : Sr := ⟨s.t.videoSsrc, 0, s.t.videoTs, s.count.pkts, s.count.octets, none⟩
  let compound ← reportAppend (encodeSr now sr rtcpMaxPacket) []
  let compound ← reportAppend (encodeSdes sr.ssrc (Text.ascii "ngx-rtc") rtcpMaxPacket) compound
  if compound.length = 0 then none else some compound

/-! ## What has gone out -/

/-- A source, the packets it sent out since the last sequence header, how many of them came over WHIP
    without a payload, and the time of the last tag that had a NAL unit. -/
structure Account where
  s : VideoSource
  sent : List Bytes
  bare : ℕ
  clock : Option UInt32

namespace Account

def fresh (ssrc : UInt32) (pt : UInt8) : Account := ⟨.fresh ssrc pt, [], 0, none⟩

def step (a : Account) (i : VideoInput) : Account :=
  match i with
  | .header _ => ⟨a.s.step i, [], 0, none⟩
  | .nalus ms data =>
    { s := a.s.step i
      sent := a.sent ++ (tagPackets a.s.t ms data).map Prod.snd
      bare := a.bare
      clock := if splitNalus maxNalus data = [] then a.clock else some ms }
  | .whip rtp =>
    { a with
      s := a.s.step i
      sent := a.sent ++ [rtp]
      bare := if rtp.length = rtpHeaderSize then a.bare + 1 else a.bare }
  | .identity _ _ => { a with s := a.s.step i }

end Account

/-- The octets of the payloads. -/
def payloadOctets (ps : List Bytes) : ℕ := (ps.map fun p => (Rtp.payload p).length).sum

theorem payloadOctets_append (ps qs : List Bytes) :
    payloadOctets (ps ++ qs) = payloadOctets ps + payloadOctets qs := by
  rw [payloadOctets, List.map_append, List.sum_append, payloadOctets, payloadOctets]

theorem length_payload (p : Bytes) : (Rtp.payload p).length = p.length - rtpHeaderSize :=
  List.length_drop

/-- The counters after packets with a header. -/
theorem handOver_rtmpRtcEmit (ps : List (Bool × Bytes)) (h : ∀ p ∈ ps, rtpHeaderSize ≤ p.2.length)
    (c : VideoCount) :
    handOver rtmpRtcEmit ps c =
      ⟨c.pkts + UInt32.ofNat ps.length, c.octets + UInt32.ofNat (payloadOctets (ps.map Prod.snd))⟩ := by
  induction ps generalizing c with
  | nil =>
    show c = ⟨c.pkts + 0, c.octets + 0⟩
    rw [UInt32.add_zero, UInt32.add_zero]
  | cons p ps ih =>
    have hp : (rtmpRtcEmit c p.1 p.2).1 = c.add (Rtp.payload p.2).length := by
      rw [rtmpRtcEmit, if_pos (h p List.mem_cons_self), length_payload]
    show handOver rtmpRtcEmit ps (rtmpRtcEmit c p.1 p.2).1 = _
    rw [hp, ih (fun q hq => h q (List.mem_cons_of_mem p hq)), VideoCount.add]
    simp only [List.length_cons, List.map_cons, payloadOctets, List.sum_cons, UInt32.ofNat_add,
      UInt32.add_assoc]
    rw [UInt32.add_comm (UInt32.ofNat ps.length)]
    rfl

/-- Every packet made of a tag has its header. -/
theorem headed_tagPackets (t : VideoTrack) (ms : UInt32) (data : Bytes) :
    ∀ p ∈ tagPackets t ms data, rtpHeaderSize ≤ p.2.length := by
  intro p hp
  rw [tagPackets_eq] at hp
  obtain ⟨i, hi⟩ := List.mem_iff_getElem?.1 (List.mem_map_of_mem hp (f := Prod.snd))
  obtain ⟨x, -, hx⟩ := packet_stampVideo _ _ _ hi
  rw [hx, length_build]
  exact Nat.le_add_right _ _

/-- A sequence header starts the timestamps afresh. -/
theorem videoTs_avcHeader (t : VideoTrack) (data : Bytes) : (t.avcHeader data).videoTs = 0 := by
  unfold VideoTrack.avcHeader VideoTrack.parseAvcHeader
  split_ifs
  · rfl
  · split <;> rfl

theorem videoTs_rtmpRtcVideo {σ : Type} (emit : VideoEmit σ) (t : VideoTrack) (ms : UInt32)
    (data : Bytes) (st : σ) :
    (rtmpRtcVideo emit t ms data st).2.videoTs =
      if splitNalus maxNalus data = [] then t.videoTs else h264TimestampFromMs ms := by
  unfold rtmpRtcVideo
  cases splitNalus maxNalus data with
  | nil => exact (if_pos rfl).symm
  | cons n ns => exact (if_neg (List.cons_ne_nil n ns)).symm

/-- What the WHIP path hands on has an RTP header. -/
def VideoInput.Headed : VideoInput → Prop
  | .whip rtp => rtpHeaderSize ≤ rtp.length
  | _ => True

namespace Account

/-- The source has counted what it sent. -/
structure Tallies (a : Account) : Prop where
  pkts : a.s.count.pkts = UInt32.ofNat a.sent.length
  octets : a.s.count.octets = UInt32.ofNat (payloadOctets a.sent + rtpHeaderSize * a.bare)
  ts : a.s.t.videoTs = a.clock.elim 0 h264TimestampFromMs

theorem Tallies.step {a : Account} (h : a.Tallies) {i : VideoInput} (hi : i.Headed) :
    (a.step i).Tallies := by
  cases i with
  | header record => exact ⟨rfl, rfl, videoTs_avcHeader _ _⟩
  | nalus ms data =>
    have hcount : (a.step (.nalus ms data)).s.count =
        ⟨a.s.count.pkts + UInt32.ofNat (tagPackets a.s.t ms data).length,
          a.s.count.octets + UInt32.ofNat (payloadOctets ((tagPackets a.s.t ms data).map Prod.snd))⟩ := by
      rw [← handOver_rtmpRtcEmit _ (headed_tagPackets a.s.t ms data), tagPackets_eq]
      exact rtmpRtcVideo_eq (fun _ _ _ => rfl) a.s.t ms data a.s.count
    refine ⟨?_, ?_, ?_⟩
    · rw [hcount]
      simp only [Account.step, h.pkts, List.length_append, List.length_map, UInt32.ofNat_add]
    · rw [hcount]
      simp only [Account.step, h.octets, payloadOctets_append]
      rw [← UInt32.ofNat_add]
      congr 1
      omega
    · refine (videoTs_rtmpRtcVideo rtmpRtcEmit a.s.t ms data a.s.count).trans ?_
      simp only [Account.step, h.ts]
      split_ifs <;> rfl
  | whip rtp =>
    have hi : rtpHeaderSize ≤ rtp.length := hi
    refine ⟨?_, ?_, h.ts⟩
    · show a.s.count.pkts + 1 = _
      simp only [Account.step, h.pkts, List.length_append, List.length_singleton, UInt32.ofNat_add]
      rfl
    · show a.s.count.octets + _ = _
      simp only [Account.step, h.octets, payloadOctets_append]
      rw [← UInt32.ofNat_add]
      congr 1
      simp only [rtpOctets, payloadOctets, List.map_cons, List.map_nil, List.sum_cons, List.sum_nil,
        length_payload]
      -- a packet that is all header is counted with it
      rcases Nat.eq_or_lt_of_le hi with he | hlt
      · rw [if_neg (by omega), if_pos he.symm, Nat.mul_succ]
        omega
      · rw [if_pos hlt, if_neg (by omega)]
        omega
  | identity ssrc pt => exact ⟨h.pkts, h.octets, h.ts⟩

theorem tallies_run (ssrc : UInt32) (pt : UInt8) {is : List VideoInput} (his : ∀ i ∈ is, i.Headed) :
    (Lts.run Account.step (.fresh ssrc pt) is).Tallies := by
  have hstart : (fresh ssrc pt).Tallies := ⟨rfl, rfl, rfl⟩
  generalize fresh ssrc pt = a at hstart ⊢
  induction is generalizing a with
  | nil => exact hstart
  | cons i is ih =>
    exact ih (fun j hj => his j (List.mem_cons_of_mem i hj)) _ (hstart.step (his i List.mem_cons_self))

end Account

/-! ## What a report says -/

/-- The packets of a report. -/
def VideoSource.reportItems (s : VideoSource) (now : UInt64) : List Item :=
  [.sr ⟨s.t.videoSsrc, now, s.t.videoTs, s.count.pkts, s.count.octets, none⟩,
    .sdes s.t.videoSsrc (Text.ascii "ngx-rtc")]

/-- What goes out are the two packets, one after the other. -/
theorem srSdes_eq (s : VideoSource) {now : UInt64} {out : Bytes} (hne : out ≠ [])
    (h : encodeAll now rtcpMaxPacket rtcpMaxPacket (s.reportItems now) [] = .ok out) :
    s.srSdes now = some out := by
  have hsr : encodeSr now ⟨s.t.videoSsrc, 0, s.t.videoTs, s.count.pkts, s.count.octets, none⟩
      rtcpMaxPacket =
        encodeSr now ⟨s.t.videoSsrc, now, s.t.videoTs, s.count.pkts, s.count.octets, none⟩
          rtcpMaxPacket := by
    simp only [encodeSr, Sr.total, Sr.fmt, if_true, ite_self]
  simp only [VideoSource.reportItems, encodeAll, Item.encode] at h
  rw [VideoSource.srSdes]
  simp only [hsr]
  split at h
  · cases h
  next sr hsrOk =>
    split at h
    · cases h
    next c₁ hc₁ =>
      split at h
      · cases h
      next sdes hsdesOk =>
        split at h
        · cases h
        next c₂ hc₂ =>
          cases h
          simp only [hsrOk, hsdesOk, reportAppend, hc₁, Except.toOption, Option.bind_eq_bind,
            Option.bind_some, hc₂]
          exact if_neg fun hlen => hne (List.length_eq_zero_iff.1 hlen)

/-- **A sender report tells what was sent.**  Whatever came in for a source, a report sent then fits in
    48 bytes and is read back as a sender report and a name; it counts the packets sent since the last
    sequence header and the octets they carried, a WHIP packet without payload being counted with its
    header, and has the time of the last tag with a NAL unit. -/
theorem report_tells (ssrc : UInt32) (pt : UInt8) {is : List VideoInput} (his : ∀ i ∈ is, i.Headed)
    {a : Account} (ha : Lts.run Account.step (.fresh ssrc pt) is = a) {now : UInt64} (hnow : now ≠ 0) :
    ∃ out, a.s.srSdes now = some out ∧ out.length = 48 ∧
      ∀ (σ : Type) (f : σ → Pkt → σ) (x : σ), decode (fun x p => (none, f x p)) out x =
        .done none (f (f x (Item.sr
          { ssrc := a.s.t.videoSsrc
            ntp := now
            rtpTs := a.clock.elim 0 h264TimestampFromMs
            packetCount := UInt32.ofNat a.sent.length
            octetCount := UInt32.ofNat (payloadOctets a.sent + rtpHeaderSize * a.bare)
            rb := none }).pkt) (Item.sdes a.s.t.videoSsrc (Text.ascii "ngx-rtc")).pkt) := by
  have ht : a.Tallies := ha ▸ Account.tallies_run ssrc pt his
  have hencodable : ∀ item ∈ a.s.reportItems now, item.Encodable := by
    intro item hitem
    rcases List.mem_cons.1 hitem with rfl | hitem
    · exact ⟨hnow, fun _ hrb => by cases hrb⟩
    · rw [List.mem_singleton.1 hitem]
      exact ⟨by decide, show Text.Avoids 0 (Text.ascii "ngx-rtc") by decide⟩
  have hsize : ∀ item ∈ a.s.reportItems now, item.size ≤ rtcpMaxPacket := by
    intro item hitem
    rcases List.mem_cons.1 hitem with rfl | hitem
    · show 28 ≤ 1500
      decide
    · rw [List.mem_singleton.1 hitem]
      show 20 ≤ 1500
      decide
  obtain ⟨out, hout, hlen, -, -, hwalk⟩ := encodeAll_append now [] hencodable hsize
    (show _ + 48 ≤ rtcpMaxPacket by decide)
  have hlen48 : out.length = 48 := hlen
  refine ⟨out, srSdes_eq a.s (fun he => by rw [he] at hlen48; cases hlen48) hout, hlen48, fun σ f x => ?_⟩
  rw [← ht.pkts, ← ht.octets, ← ht.ts]
  refine hwalk σ f x _ ?_
  rw [hlen48]
  show 2 ≤ (48 + 3) / 4
  decide

/-- A tag with one NAL unit, and a packet without payload over WHIP. -/
def reportInputs : List VideoInput :=
  [.header none, .nalus 40 (avccLength 2 ++ [0x65, 0]), .whip (List.replicate 12 0)]

theorem report_tells_sample :
    ∃ out, (Lts.run Account.step (.fresh 7 102) reportInputs).s.srSdes 5 = some out ∧ out.length = 48 ∧
      ∀ (σ : Type) (f : σ → Pkt → σ) (x : σ), decode (fun x p => (none, f x p)) out x =
        .done none (f (f x (Item.sr
          { ssrc := (Lts.run Account.step (.fresh 7 102) reportInputs).s.t.videoSsrc
            ntp := 5
            rtpTs := (Lts.run Account.step (.fresh 7 102) reportInputs).clock.elim 0 h264TimestampFromMs
            packetCount := UInt32.ofNat (Lts.run Account.step (.fresh 7 102) reportInputs).sent.length
            octetCount := UInt32.ofNat
              (payloadOctets (Lts.run Account.step (.fresh 7 102) reportInputs).sent + rtpHeaderSize *
                (Lts.run Account.step (.fresh 7 102) reportInputs).bare)
            rb := none }).pkt)
          (Item.sdes (Lts.run Account.step (.fresh 7 102) reportInputs).s.t.videoSsrc
            (Text.ascii "ngx-rtc")).pkt) :=
  report_tells 7 102 (by simp [reportInputs, VideoInput.Headed, rtpHeaderSize]) rfl (by decide)

/-! ## Who gets one -/

/-- The session a node of a subscriber queue belongs to. -/
def SubNode.session : SubNode → Option ℕ
  | .subQueue b => some b
  | .subscribers _ => none

/-- The loop over `ngx_rtc_source_first_subscriber` and `ngx_rtc_source_next_subscriber`, for `n`
    rounds. -/
def Core.walkSubscribers (c : Core) (n a : ℕ) : List ℕ :=
  (c.links.walk (.subscribers a) n (c.links.first (.subscribers a))).filterMap SubNode.session

/-- A report is sent to the session: it has a connection and its handshake is done. -/
def Worker.reportable (w : Worker) (b : ℕ) : Bool :=
  (w.sessions.get b).any fun s => s.conn.isSome && s.fsm.isReady

/-- `ngx_rtmp_rtc_rtcp_timer`, with `n` rounds for each queue: the sources and the sessions reports are
    sent for. -/
def rtmpRtcRtcpTimer (c : Core) (w : Worker) (n : ℕ) : List (ℕ × ℕ) :=
  w.sources.cells.flatMap fun p =>
    if p.2.videoSsrc = 0 then []
    else ((c.walkSubscribers n p.1).filter w.reportable).map fun b => (p.1, b)

namespace Core

variable {c : Core} {w : Worker}

theorem Models.subscriber_isSome (h : c.Models w) {a b : ℕ} (hb : b ∈ w.queueOf a) :
    (w.sessions.get b).isSome := by
  obtain ⟨s, hs, -⟩ := h.ok.listed a b hb
  rw [h.session] at hs
  rw [← Option.isSome_map, hs]
  rfl

/-- A walk over the links meets the subscribers of the source. -/
theorem Models.walkSubscribers (h : c.Models w) {a : ℕ} {src : Source} (hsrc : w.sources.get a = some src)
    {n : ℕ} (hn : w.sessions.cells.length ≤ n) : c.walkSubscribers n a = src.subscribers := by
  have hq : w.queueOf a = src.subscribers := by
    rw [Worker.queueOf, hsrc]
    rfl
  -- no queue is longer than there are sessions
  have hlen : (w.queueOf a).length ≤ w.sessions.addrs.length :=
    ((h.ok.nodup a).subperm fun b hb => Pool.mem_addrs_iff.2 (h.subscriber_isSome hb)).length_le
  rw [Pool.addrs, List.length_map] at hlen
  have hqueue := h.ok.queue a (by rw [h.isSome_source, hsrc]; rfl)
  rw [Core.walkSubscribers, QueueMem.walk_queue hqueue (by rw [List.length_map]; omega), ← hq,
    List.filterMap_map]
  exact List.filterMap_some

theorem Models.mem_rtmpRtcRtcpTimer (h : c.Models w) {n : ℕ} (hn : w.sessions.cells.length ≤ n)
    {a b : ℕ} :
    (a, b) ∈ rtmpRtcRtcpTimer c w n ↔ ∃ src, w.sources.get a = some src ∧ src.videoSsrc ≠ 0 ∧
      b ∈ src.subscribers ∧ w.reportable b = true := by
  rw [rtmpRtcRtcpTimer, List.mem_flatMap]
  constructor
  · rintro ⟨⟨a', src⟩, hp, hm⟩
    have hsrc := Pool.mem_cells_iff.1 hp
    split_ifs at hm with h0
    · exact absurd hm List.not_mem_nil
    · obtain ⟨b', hb', he⟩ := List.mem_map.1 hm
      cases he
      rw [h.walkSubscribers hsrc hn, List.mem_filter] at hb'
      exact ⟨src, hsrc, h0, hb'⟩
  · rintro ⟨src, hsrc, h0, hb⟩
    refine ⟨(a, src), Pool.mem_cells_iff.2 hsrc, ?_⟩
    rw [if_neg h0, h.walkSubscribers hsrc hn]
    exact List.mem_map.2 ⟨b, List.mem_filter.2 hb, rfl⟩

/-- No session is met twice, on one queue or on two. -/
theorem Models.nodup_rtmpRtcRtcpTimer (h : c.Models w) {n : ℕ} (hn : w.sessions.cells.length ≤ n) :
    ((rtmpRtcRtcpTimer c w n).map Prod.snd).Nodup := by
  have hpair : (rtmpRtcRtcpTimer c w n).Nodup := by
    refine List.nodup_flatMap.2 ⟨fun p hp => ?_, ?_⟩
    · split_ifs
      · exact List.nodup_nil
      · rw [h.walkSubscribers (Pool.mem_cells_iff.1 hp) hn]
        have hq : w.queueOf p.1 = p.2.subscribers := by
          rw [Worker.queueOf, Pool.mem_cells_iff.1 hp]
          rfl
        exact ((hq ▸ h.ok.nodup p.1).filter _).map fun _ _ he => (Prod.mk.inj he).2
    · refine (List.pairwise_map.1 w.sources.nodup).imp fun {p p'} hne => ?_
      refine List.disjoint_left.2 fun x hx hx' => hne ?_
      dsimp only at hx hx'
      split_ifs at hx hx'
      · exact absurd hx List.not_mem_nil
      · exact absurd hx List.not_mem_nil
      · exact absurd hx' List.not_mem_nil
      · obtain ⟨b, -, rfl⟩ := List.mem_map.1 hx
        obtain ⟨b', -, he⟩ := List.mem_map.1 hx'
        exact (Prod.mk.inj he).1.symm
  refine hpair.map_on fun x hx y hy he => ?_
  obtain ⟨a, b⟩ := x
  obtain ⟨a', b'⟩ := y
  obtain rfl : b = b' := he
  obtain ⟨src, hsrc, -, hb, -⟩ := (h.mem_rtmpRtcRtcpTimer hn).1 hx
  obtain ⟨src', hsrc', -, hb', -⟩ := (h.mem_rtmpRtcRtcpTimer hn).1 hy
  have hq : ∀ {a : ℕ} {src : Source}, w.sources.get a = some src → w.queueOf a = src.subscribers :=
    fun hs => by rw [Worker.queueOf, hs]; rfl
  rw [h.ok.one a a' b (hq hsrc ▸ hb) (hq hsrc' ▸ hb')]

end Core

/-- **One report each.**  In every state a worker reaches, over the links its queues have in memory, a
    tick of the timer sends one report to each connected and ready subscriber of a source with an
    SSRC, that of the source it subscribes to, and none to anybody else. -/
theorem reports_once (slot : ℕ) (sh : Option ShmCtx) (es : List ProcEvent) :
    let w := (Lts.run Proc.step (Proc.init slot sh) es).w
    ∃ c : Core, c.Models w ∧ ∀ n, w.sessions.cells.length ≤ n →
      ((rtmpRtcRtcpTimer c w n).map Prod.snd).Nodup ∧
      ∀ a b, (a, b) ∈ rtmpRtcRtcpTimer c w n ↔ ∃ src s, w.sources.get a = some src ∧
        w.sessions.get b = some s ∧ src.videoSsrc ≠ 0 ∧ b ∈ src.subscribers ∧ s.source = some a ∧
        s.conn.isSome ∧ s.fsm = .srtpReady := by
  intro w
  obtain ⟨ops, -, h⟩ := Proc.traced_run (Proc.init slot sh) es Core.init (Core.models_init slot)
  refine ⟨_, h, fun n hn => ⟨h.nodup_rtmpRtcRtcpTimer hn, fun a b => ?_⟩⟩
  rw [h.mem_rtmpRtcRtcpTimer hn]
  constructor
  · rintro ⟨src, hsrc, h0, hb, hr⟩
    have hq : b ∈ w.queueOf a := by
      rw [Worker.queueOf, hsrc]
      exact hb
    obtain ⟨s, hs, hs'⟩ := (Option.any_eq_true _ _).1 hr
    rw [Bool.and_eq_true, SessionState.isReady, decide_eq_true_eq] at hs'
    exact ⟨src, s, hsrc, hs, h0, hb, (h.member a b s hq hs).1, hs'⟩
  · rintro ⟨src, s, hsrc, hs, h0, hb, -, hconn, hready⟩
    refine ⟨src, hsrc, h0, hb, ?_⟩
    rw [Worker.reportable, hs, Option.any_some, hconn, hready]
    rfl

end NginxRtc
