/-
  Sound from RTMP (`ngx_rtmp_rtc_audio`, `ngx_rtmp_rtc_audio_frame`): AAC tags to Opus packets.

  A sequence header starts an episode with an audio worker of its own, after the thread of the one
  before has ended.  A raw frame first drains what the thread has finished, one Opus frame at a time,
  and is then pushed; between the turns of the drain the thread goes on.  The timestamps are those of
  the Opus clock, set once to the time of the first raw frame.

  `audio_timeline`: in every interleaving the packets of an episode carry the drained frames, one 960
  samples after the other from the time of the first raw frame, with consecutive sequence numbers; a
  frame that was lost before leaves no gap, so all later ones are early by its 960 samples.
-/
import NginxRtc.Audio.Worker
import NginxRtc.Media.Packetize
import NginxRtc.Rtmp.Message

namespace NginxRtc

/-- `ngx_rtc_opus_timestamp_from_ms`. -/
def opusTimestampFromMs (ms : UInt32) : UInt32 := (ms.toUInt64 * 48000 / 1000).toUInt32

/-- The scratch buffer of `ngx_rtmp_rtc_audio_frame`. -/
def audioScratch : ℕ := 1500

/-- `ngx_rtc_opus_packetize`: an Opus frame is packetized as a NAL unit of its own is. -/
def opusPacketize {σ : Type} (emit : RtpEmit σ) (k : Stamp) (opus : Bytes) (marker : Bool) (cap : ℕ)
    (st : σ) (seq : UInt16) : Sent σ := h264PacketizeSingle emit k opus marker cap st seq

/-- Of an `ngx_rtc_source_t`, what the audio path from RTMP reads and writes. -/
structure AudioTrack where
  audioSeq : UInt16
  audioTs : UInt32
  audioTsValid : Bool
  lastAudioRtmpMs : UInt32
  audioPkts : UInt32
  audioOctets : UInt32
  audioSsrc : UInt32
  audioPt : UInt8
  audioAsc : Bytes
  audioNoctxWarned : Bool

/-- The answers to the calls of `ngx_rtc_audio_worker_create`. -/
structure Creation (α : Type) where
  a : Option α
  callocIn : Bool
  callocOut : Bool
  pthreads : Bool

def Creation.worker {α : Type} (c : Creation α) : Option (AudioWorker α) :=
  AudioWorker.create c.a c.callocIn c.callocOut c.pthreads

/-- What the nginx worker is in the middle of: nothing, the drain ahead of a push, or the join of the
    thread, ahead of the next worker if there is to be one. -/
inductive Busy (α : Type) where
  | idle
  | draining (aac : Bytes)
  | joining (next : Option (Creation α))

/-- A source, its audio worker with what has gone through it, and of the present episode the frames
    drained, the packets sent, the time of the first raw frame, the raw frames that found no worker
    and the errors reported for want of one. -/
structure AudioPath (α : Type) where
  t : AudioTrack
  ctx : Option (AudioRun α)
  busy : Busy α
  heard : List Bytes
  sent : List Bytes
  origin : Option UInt32
  unheard : ℕ
  reports : ℕ

namespace AudioPath

variable {α : Type}

/-- A source as it is created, and whose streams have these identifiers. -/
def fresh (ssrc : UInt32) (pt : UInt8) : AudioPath α :=
  ⟨⟨0, 0, false, 0, 0, 0, ssrc, pt, [], false⟩, none, .idle, [], [], none, 0, 0⟩

/-- `ngx_rtmp_rtc_emit` of an audio packet. -/
def emit (s : AudioPath α) (rtp : Bytes) : AudioPath α × ℤ :=
  ({ s with
    t := { s.t with
      audioPkts := s.t.audioPkts + 1
      audioOctets := s.t.audioOctets + UInt32.ofNat
        (if rtpHeaderSize ≤ rtp.length then rtp.length - rtpHeaderSize else rtp.length) }
    sent := s.sent ++ [rtp] }, rtcOk)

/-- `ngx_rtmp_rtc_audio_frame`. -/
def audioFrame (s : AudioPath α) (opus : Bytes) : AudioPath α :=
  let r := opusPacketize emit ⟨s.t.audioTs, s.t.audioSsrc, s.t.audioPt⟩ opus true audioScratch
    { s with
      t := { s.t with audioTs := s.t.audioTs + UInt32.ofNat opusFrameSize }
      heard := s.heard ++ [opus] } s.t.audioSeq
  { r.st with t := { r.st.t with audioSeq := r.seq } }

/-- A new episode, with the worker that is created for it. -/
def begin (s : AudioPath α) (c : Creation α) : AudioPath α :=
  { s with
    t := { s.t with
      audioSeq := 0
      audioTs := 0
      audioTsValid := false
      audioPkts := 0
      audioOctets := 0
      audioNoctxWarned := c.worker.isNone }
    ctx := c.worker.map AudioRun.start
    busy := .idle
    heard := []
    sent := []
    origin := none
    unheard := 0
    reports := if c.worker.isNone then 1 else 0 }

/-- After the join the worker is gone, and the next one is created if there is to be one. -/
def joined (s : AudioPath α) : Option (Creation α) → AudioPath α
  | some c => s.begin c
  | none => { s with ctx := none, busy := .idle }

/-- The first section of `ngx_rtc_audio_worker_destroy`. -/
def destroy (s : AudioPath α) (r : AudioRun α) (next : Option (Creation α)) : AudioPath α :=
  { s with ctx := some { r with w := r.w.requestStop }, busy := .joining next }

/-- `ngx_rtmp_rtc_audio` behind the claim, up to the first turn of a drain; `c` answers if a worker is
    to be created. -/
def message (s : AudioPath α) (tag : Tag) (ms : UInt32) (c : Creation α) : AudioPath α :=
  match tag with
  | .aacHeader asc =>
    let s := { s with t := { s.t with audioAsc := asc } }
    match s.ctx with
    | none => s.begin c
    | some r => s.destroy r (some c)
  | .aacFrame aac =>
    match s.ctx with
    | none =>
      { s with
        t := { s.t with audioNoctxWarned := true }
        unheard := s.unheard + 1
        reports := if s.t.audioNoctxWarned then s.reports else s.reports + 1 }
    | some _ =>
      { s with
        t := { s.t with
          lastAudioRtmpMs := ms
          audioTs := if s.t.audioTsValid then s.t.audioTs else opusTimestampFromMs ms
          audioTsValid := true }
        origin := if s.t.audioTsValid then s.origin else some ms
        busy := .draining aac }
  | _ => s

/-- What happens next: a message of the publisher, with the identifiers it brings from the registry;
    the nginx worker goes on with what it is in the middle of; the thread goes on, or wakes; the
    publisher disconnects. -/
inductive Event (α : Type) where
  | message (tag : Tag) (ms ssrc : UInt32) (pt : UInt8) (c : Creation α)
  | turn
  | thread
  | wake
  | disconnect

section Step
variable (host : HostWord) (transcode : α → Bytes → α × List Bytes)

/-- The worker's own steps. -/
def within (s : AudioPath α) (e : AudioEvent) : Option (AudioPath α) :=
  match s.ctx with
  | none => some s
  | some r => (AudioRun.step host transcode (some r) e).map fun r => { s with ctx := some r }

/-- The nginx worker goes on: a turn of the drain, and the push when there is no frame; the end of the
    join, once the thread has ended. -/
def turn (s : AudioPath α) : Option (AudioPath α) :=
  match s.busy, s.ctx with
  | .draining aac, some r =>
    (r.w.drain host).bind fun p =>
      match p.1 with
      | some opus =>
        some { s.audioFrame opus with ctx := some { r with w := p.2, drained := r.drained ++ [opus] } }
      | none =>
        (({ s with ctx := some { r with w := p.2 } } : AudioPath α).within host transcode
          (.push aac)).map fun s => { s with busy := .idle }
  | .joining next, some r => some (if r.w.thread = .exited then s.joined next else s)
  | _, _ => some s

/-- One event; a message or a disconnect comes to an nginx worker that is not in the middle of
    something. -/
def step (s : Option (AudioPath α)) (e : Event α) : Option (AudioPath α) :=
  s.bind fun s =>
  match e with
  | .message tag ms ssrc pt c =>
    match s.busy with
    | .idle =>
      some (({ s with t := { s.t with audioSsrc := ssrc, audioPt := pt } } : AudioPath α).message tag ms c)
    | _ => some s
  | .turn => s.turn host transcode
  | .thread => s.within host transcode .thread
  | .wake => s.within host transcode .wake
  | .disconnect =>
    match s.busy, s.ctx with
    | .idle, some r => some (s.destroy r none)
    | _, _ => some s

end Step

end AudioPath

/-! ## Stamps -/

/-- An Opus frame that becomes a packet. -/
def fitsRtp (opus : Bytes) : Bool := opus ≠ [] && rtpHeaderSize + opus.length ≤ audioScratch

/-- The timestamp, sequence number and payload of the packets for some Opus frames; a frame that does
    not fit has its time, but no packet. -/
def timeline : UInt32 → UInt16 → List Bytes → List (UInt32 × UInt16 × Bytes)
  | _, _, [] => []
  | ts, seq, opus :: os =>
    if fitsRtp opus then (ts, seq, opus) :: timeline (ts + UInt32.ofNat opusFrameSize) (seq + 1) os
    else timeline (ts + UInt32.ofNat opusFrameSize) seq os

theorem timeline_snoc (ts : UInt32) (seq : UInt16) (os : List Bytes) (opus : Bytes) :
    timeline ts seq (os ++ [opus]) = timeline ts seq os ++
      if fitsRtp opus then
        [(ts + UInt32.ofNat (opusFrameSize * os.length), seq + UInt16.ofNat (timeline ts seq os).length,
          opus)]
      else [] := by
  induction os generalizing ts seq with
  | nil => simp [timeline]
  | cons o os ih =>
    have hts : ts + UInt32.ofNat opusFrameSize + UInt32.ofNat (opusFrameSize * os.length) =
        ts + UInt32.ofNat (opusFrameSize * (o :: os).length) := by
      rw [UInt32.add_assoc, ← UInt32.ofNat_add, List.length_cons, Nat.mul_succ, Nat.add_comm]
    have hseq : ∀ n, seq + 1 + UInt16.ofNat n = seq + UInt16.ofNat (n + 1) := fun n => by
      rw [UInt16.add_assoc, Nat.add_comm n, UInt16.ofNat_add]
      rfl
    rw [List.cons_append, timeline, timeline]
    split_ifs with hfits hopus hopus
    · rw [ih, if_pos hopus, hts, hseq]
      rfl
    · rw [ih, if_neg hopus, List.cons_append]
    · rw [ih, if_pos hopus, hts]
    · rw [ih, if_neg hopus]

/-- What a receiver reads in a packet. -/
def readPacket (rtp : Bytes) : UInt32 × UInt16 × Bytes :=
  (Rtp.timestamp rtp, Rtp.seq rtp, Rtp.payload rtp)

theorem readPacket_build (k : Stamp) (seq : UInt16) (m : Bool) (p : Bytes) :
    readPacket (rtpBuildHeader k seq m ++ p) = (k.timestamp, seq, p) := by
  rw [readPacket, timestamp_build, seq_build, payload_build]

namespace AudioPath

variable {α : Type}

/-- **One Opus frame**: its packet, if it becomes one, and its time. -/
theorem audioFrame_eq (s : AudioPath α) (opus : Bytes) :
    s.audioFrame opus = { s with
      t := { s.t with
        audioTs := s.t.audioTs + UInt32.ofNat opusFrameSize
        audioSeq := if fitsRtp opus then s.t.audioSeq + 1 else s.t.audioSeq
        audioPkts := if fitsRtp opus then s.t.audioPkts + 1 else s.t.audioPkts
        audioOctets :=
          if fitsRtp opus then s.t.audioOctets + UInt32.ofNat opus.length else s.t.audioOctets }
      heard := s.heard ++ [opus]
      sent := s.sent ++
        if fitsRtp opus then
          [rtpBuildHeader ⟨s.t.audioTs, s.t.audioSsrc, s.t.audioPt⟩ s.t.audioSeq true ++ opus]
        else [] } := by
  rw [audioFrame, opusPacketize, h264PacketizeSingle]
  by_cases hempty : opus = []
  · simp [hempty, fitsRtp]
  · by_cases hlong : audioScratch < rtpHeaderSize + opus.length
    · have hno : fitsRtp opus = false := by
        rw [fitsRtp, Bool.and_eq_false_iff]
        exact .inr (decide_eq_false (Nat.not_le.2 hlong))
      simp [hempty, hlong, hno]
    · have hyes : fitsRtp opus = true := by
        rw [fitsRtp, Bool.and_eq_true]
        exact ⟨decide_eq_true hempty, decide_eq_true (Nat.le_of_not_lt hlong)⟩
      obtain ⟨b, hheader, -⟩ :=
        rtpBuildHeader_eq ⟨s.t.audioTs, s.t.audioSsrc, s.t.audioPt⟩ s.t.audioSeq true
      have hlen : (rtpBuildHeader ⟨s.t.audioTs, s.t.audioSsrc, s.t.audioPt⟩ s.t.audioSeq true ++
          opus).length = rtpHeaderSize + opus.length := by
        rw [List.length_append, hheader]
        rfl
      simp only [hempty, hlong, hyes, if_false, if_true, sendRtp, emit, hlen, Nat.le_add_right,
        Nat.add_sub_cancel_left]

/-! ## An episode -/

section Invariant
variable (host : HostWord) (transcode : α → Bytes → α × List Bytes)

/-- The packets of the episode are those of the drained frames, one Opus frame after the other from the
    time of the first raw frame on, and the counters count them; the worker is exact; the lack of a
    worker is reported once. -/
structure Timed (s : AudioPath α) : Prop where
  exact : ∀ r ∈ s.ctx, (∃ a, r.Exact host transcode a) ∧ r.drained = s.heard
  valid : s.t.audioTsValid = s.origin.isSome
  unseeded : s.origin = none → s.heard = [] ∧ s.sent = []
  draining : ∀ aac, s.busy = .draining aac → s.origin.isSome
  joining : ∀ next, s.busy = .joining next → ∃ r ∈ s.ctx, r.w.stop = true
  stamped : ∀ ms ∈ s.origin, s.sent.map readPacket = timeline (opusTimestampFromMs ms) 0 s.heard
  clock : ∀ ms ∈ s.origin,
    s.t.audioTs = opusTimestampFromMs ms + UInt32.ofNat (opusFrameSize * s.heard.length)
  marked : ∀ p ∈ s.sent, Rtp.marker p = true
  seq : s.t.audioSeq = UInt16.ofNat s.sent.length
  pkts : s.t.audioPkts = UInt32.ofNat s.sent.length
  octets : s.t.audioOctets = UInt32.ofNat (s.sent.map fun p => (Rtp.payload p).length).sum
  reports : s.reports = if s.t.audioNoctxWarned then 1 else 0
  unheard : s.unheard ≠ 0 → s.t.audioNoctxWarned = true

variable {host transcode} {s : AudioPath α}

theorem Timed.fresh (ssrc : UInt32) (pt : UInt8) : Timed host transcode (fresh ssrc pt : AudioPath α) where
  exact := nofun
  valid := rfl
  unseeded _ := ⟨rfl, rfl⟩
  draining := nofun
  joining := nofun
  stamped := nofun
  clock := nofun
  marked := nofun
  seq := rfl
  pkts := rfl
  octets := rfl
  reports := rfl
  unheard h := absurd rfl h

namespace Timed

/-- Nothing but the worker changes, which is exact and has delivered what it had. -/
theorem work (h : Timed host transcode s) {r r' : AudioRun α} {a : α} (hctx : s.ctx = some r)
    (hexact : r'.Exact host transcode a) (hdrained : r'.drained = r.drained)
    (hstop : r.w.stop = true → r'.w.stop = true) :
    Timed host transcode { s with ctx := some r' } :=
  { h with
    exact := fun r₀ hr₀ => by
      obtain rfl := Option.some.inj hr₀
      exact ⟨⟨a, hexact⟩, hdrained.trans (h.exact r hctx).2⟩
    joining := fun next hnext => by
      obtain ⟨r₀, hr₀, hstop₀⟩ := h.joining next hnext
      obtain rfl := Option.some.inj (hctx.symm.trans hr₀)
      exact ⟨r', rfl, hstop hstop₀⟩ }

/-- A new episode. -/
theorem begin (s : AudioPath α) (c : Creation α) : Timed host transcode (s.begin c) where
  exact r hr := by
    obtain ⟨w, hw, rfl⟩ := Option.map_eq_some_iff.1 hr
    refine ⟨?_, rfl⟩
    rw [Creation.worker] at hw
    cases ha : c.a with
    | none => rw [ha] at hw; exact nomatch hw
    | some a => rw [ha] at hw; exact ⟨a, .start hw⟩
  valid := rfl
  unseeded _ := ⟨rfl, rfl⟩
  draining := nofun
  joining := nofun
  stamped := nofun
  clock := nofun
  marked := nofun
  seq := rfl
  pkts := rfl
  octets := rfl
  reports := rfl
  unheard hne := absurd rfl hne

/-- A frame comes out of the ring. -/
theorem audioFrame (h : Timed host transcode s) {r r' : AudioRun α} {a : α} {opus : Bytes}
    (hctx : s.ctx = some r) {ms : UInt32} (hms : s.origin = some ms)
    (hexact : r'.Exact host transcode a) (hdrained : r'.drained = r.drained ++ [opus])
    (hstop : r.w.stop = true → r'.w.stop = true) :
    Timed host transcode { s.audioFrame opus with ctx := some r' } := by
  have hclock := h.clock ms hms
  have hstamped := h.stamped ms hms
  have hlen : s.sent.length = (timeline (opusTimestampFromMs ms) 0 s.heard).length := by
    rw [← hstamped, List.length_map]
  rw [audioFrame_eq]
  refine
    { h with
      exact := ?_, unseeded := fun hnone => absurd (hms.symm.trans hnone) nofun, joining := ?_
      stamped := ?_, clock := ?_, marked := ?_, seq := ?_, pkts := ?_, octets := ?_ }
  · intro r₀ hr₀
    obtain rfl := Option.some.inj hr₀
    exact ⟨⟨a, hexact⟩, hdrained.trans (congrArg (· ++ [opus]) (h.exact r hctx).2)⟩
  · intro next hnext
    obtain ⟨r₀, hr₀, hstop₀⟩ := h.joining next hnext
    obtain rfl := Option.some.inj (hctx.symm.trans hr₀)
    exact ⟨r', rfl, hstop hstop₀⟩
  · intro ms' hms'
    obtain rfl := Option.some.inj (hms.symm.trans hms')
    rw [timeline_snoc, List.map_append, hstamped, ← hlen, ← hclock]
    split_ifs
    · rw [List.map_singleton, readPacket_build, h.seq, UInt16.zero_add]
    · rfl
  · intro ms' hms'
    obtain rfl := Option.some.inj (hms.symm.trans hms')
    show s.t.audioTs + _ = _
    rw [hclock, List.length_append, List.length_singleton, Nat.mul_succ, UInt32.ofNat_add,
      UInt32.add_assoc]
  · intro p hp
    rcases List.mem_append.1 hp with hp | hp
    · exact h.marked p hp
    · split_ifs at hp
      · rw [List.mem_singleton.1 hp, marker_build]
      · exact nomatch hp
  · dsimp only
    split_ifs
    · rw [h.seq, List.length_append, UInt16.ofNat_add]
      rfl
    · rw [h.seq, List.append_nil]
  · dsimp only
    split_ifs
    · rw [h.pkts, List.length_append, UInt32.ofNat_add]
      rfl
    · rw [h.pkts, List.append_nil]
  · dsimp only
    split_ifs
    · rw [h.octets, List.map_append, List.sum_append, UInt32.ofNat_add, List.map_singleton,
        List.sum_singleton, payload_build]
    · rw [h.octets, List.append_nil]

/-- A section of the worker that is not a drain. -/
theorem within (h : Timed host transcode s) {e : AudioEvent} (he : e ≠ .drain) :
    ∃ s', s.within host transcode e = some s' ∧ Timed host transcode s' := by
  rw [AudioPath.within]
  cases hctx : s.ctx with
  | none => exact ⟨s, rfl, h⟩
  | some r =>
    obtain ⟨⟨a, hexact⟩, -⟩ := h.exact r hctx
    obtain ⟨r', hstep, hexact'⟩ := hexact.step e
    obtain ⟨hdrained, hstop⟩ := AudioRun.step_keeps he hstep
    refine ⟨{ s with ctx := some r' }, ?_, h.work hctx hexact' hdrained hstop⟩
    show Option.map _ (AudioRun.step host transcode (some r) e) = _
    rw [hstep]
    rfl

/-- The nginx worker goes on. -/
theorem turn (h : Timed host transcode s) :
    ∃ s', s.turn host transcode = some s' ∧ Timed host transcode s' := by
  rw [AudioPath.turn]
  split
  · next aac r hbusy hctx =>
    obtain ⟨⟨a, hexact⟩, -⟩ := h.exact r hctx
    obtain ⟨r', hstep, hexact'⟩ := hexact.step .drain
    obtain ⟨⟨opus, w⟩, hdrain, rfl⟩ := Option.map_eq_some_iff.1 hstep
    obtain ⟨v, -, hv⟩ := Option.map_eq_some_iff.1 hdrain
    have hstop : w.stop = r.w.stop := (congrArg (fun p => p.2.stop) hv).symm
    rw [hdrain, Option.bind_some]
    cases opus with
    | some opus =>
      obtain ⟨ms, hms⟩ := Option.isSome_iff_exists.1 (h.draining aac hbusy)
      exact ⟨_, rfl, h.audioFrame hctx hms hexact' rfl fun hr => hstop.trans hr⟩
    | none =>
      have hworked : Timed host transcode { s with ctx := some { r with w := w } } :=
        h.work hctx (by simpa using hexact') rfl fun hr => hstop.trans hr
      obtain ⟨s', hs', htimed⟩ := hworked.within (e := .push aac) nofun
      exact ⟨{ s' with busy := .idle }, by rw [hs']; rfl, { htimed with draining := nofun, joining := nofun }⟩
  · next next r hbusy hctx =>
    split_ifs
    · cases next with
      | some c => exact ⟨_, rfl, .begin s c⟩
      | none => exact ⟨_, rfl, { h with exact := nofun, draining := nofun, joining := nofun }⟩
    · exact ⟨s, rfl, h⟩
  · exact ⟨s, rfl, h⟩

/-- The end of the worker is asked for. -/
theorem destroy (h : Timed host transcode s) {r : AudioRun α} (hctx : s.ctx = some r)
    (next : Option (Creation α)) : Timed host transcode (s.destroy r next) := by
  obtain ⟨⟨a, hexact⟩, -⟩ := h.exact r hctx
  obtain ⟨r', hstep, hexact'⟩ := hexact.step .stop
  obtain ⟨hdrained, hstop⟩ := AudioRun.step_keeps (e := .stop) nofun hstep
  obtain rfl := Option.some.inj hstep
  exact
    { h.work hctx hexact' hdrained hstop with
      draining := nofun
      joining := fun _ _ => ⟨_, rfl, rfl⟩ }

theorem message (h : Timed host transcode s) (tag : Tag) (ms : UInt32) (c : Creation α) :
    Timed host transcode (s.message tag ms c) := by
  cases tag with
  | aacHeader asc =>
    rw [AudioPath.message]
    dsimp only
    split
    · exact .begin _ c
    · next r hctx =>
      have hkept : Timed host transcode { s with t := { s.t with audioAsc := asc } } := { h with }
      exact hkept.destroy hctx (some c)
  | aacFrame aac =>
    rw [AudioPath.message]
    split
    · next hctx =>
      exact
        { h with
          reports := by
            dsimp only
            rw [h.reports]
            cases s.t.audioNoctxWarned <;> rfl
          unheard := fun _ => rfl }
    · next r hctx =>
      cases hvalid : s.t.audioTsValid with
      | true =>
        have hseeded : s.origin.isSome := h.valid.symm.trans hvalid
        exact
          { h with
            valid := hseeded.symm
            draining := fun _ _ => hseeded
            joining := nofun
            clock := h.clock }
      | false =>
        have hnone : s.origin = none := Option.not_isSome_iff_eq_none.1 (by rw [← h.valid, hvalid]; nofun)
        obtain ⟨hheard, hsent⟩ := h.unseeded hnone
        exact
          { h with
            valid := rfl
            unseeded := nofun
            draining := fun _ _ => rfl
            joining := nofun
            stamped := fun ms' _ => by
              show s.sent.map readPacket = timeline _ _ s.heard
              rw [hheard, hsent]
              rfl
            clock := fun ms' hms' => by
              obtain rfl := Option.some.inj hms'
              show _ = _ + UInt32.ofNat (opusFrameSize * s.heard.length)
              rw [hheard]
              simp }
  | avcHeader record => exact h
  | avcNalus data => exact h
  | aacRejected => exact h
  | other => exact h

theorem step (h : Timed host transcode s) (e : Event α) :
    ∃ s', AudioPath.step host transcode (some s) e = some s' ∧ Timed host transcode s' := by
  cases e with
  | message tag ms ssrc pt c =>
    have hsynced : Timed host transcode { s with t := { s.t with audioSsrc := ssrc, audioPt := pt } } :=
      { h with }
    cases hbusy : s.busy with
    | idle =>
      exact ⟨_, by simp only [AudioPath.step, Option.bind_some, hbusy], hsynced.message tag ms c⟩
    | draining aac => exact ⟨s, by simp only [AudioPath.step, Option.bind_some, hbusy], h⟩
    | joining next => exact ⟨s, by simp only [AudioPath.step, Option.bind_some, hbusy], h⟩
  | turn => exact h.turn
  | thread => exact h.within nofun
  | wake => exact h.within nofun
  | disconnect =>
    show ∃ s', (match s.busy, s.ctx with
      | .idle, some r => some (s.destroy r none)
      | _, _ => some s) = some s' ∧ _
    split
    · next r _ hctx => exact ⟨_, rfl, h.destroy hctx none⟩
    · exact ⟨s, rfl, h⟩

end Timed

variable (host transcode) in
/-- **The clock of the sound**, in every interleaving of messages, turns of the nginx worker, sections of
    the thread and wakeups, from a new source on: no step is without a result; the packets of the
    episode are those of the frames drained, 960 samples after one another; and the clock is behind
    the frames the transcoder gave by those that wait in the output ring or were lost. -/
theorem audio_timeline (ssrc : UInt32) (pt : UInt8) (es : List (Event α)) :
    Lts.Visits (AudioPath.step host transcode)
      (fun s => ∃ p, s = some p ∧ p.Timed host transcode ∧
        ∀ r ∈ p.ctx, ∀ ms ∈ p.origin, ∃ waiting,
          r.queued = p.heard ++ waiting ∧
          p.t.audioTs + UInt32.ofNat (opusFrameSize * (waiting.length + r.lost)) =
            opusTimestampFromMs ms +
              UInt32.ofNat (opusFrameSize * (r.handed.filter AudioWorker.emittable).length))
      (some (fresh ssrc pt)) es := by
  have hsound : Lts.Visits (AudioPath.step host transcode)
      (fun s => ∃ p, s = some p ∧ p.Timed host transcode) (some (fresh ssrc pt)) es := by
    refine Lts.visits_of_step (fun s e hs _ => ?_) ⟨_, rfl, .fresh ssrc pt⟩ (Lts.along_true _ es)
    obtain ⟨p, rfl, hp⟩ := hs
    exact hp.step e
  refine hsound.mono fun s hs => ?_
  obtain ⟨p, rfl, hp⟩ := hs
  refine ⟨p, rfl, hp, fun r hr ms hms => ?_⟩
  obtain ⟨⟨a, hexact⟩, hdrained⟩ := hp.exact r hr
  obtain ⟨waiting, -, hqueued⟩ := hexact.output
  rw [hdrained] at hqueued
  refine ⟨waiting, hqueued, ?_⟩
  rw [hp.clock ms hms, UInt32.add_assoc, ← UInt32.ofNat_add, ← hexact.lost, hqueued, List.length_append,
    ← Nat.mul_add, Nat.add_assoc]

theorem Timed.sound (h : Timed host transcode s) (es : List (Event α)) :
    ∃ s', Lts.run (AudioPath.step host transcode) (some s) es = some s' ∧ Timed host transcode s' :=
  Lts.run_of_step (P := fun s => ∃ p, s = some p ∧ p.Timed host transcode) (fun s e hs _ => by
    obtain ⟨p, rfl, hp⟩ := hs
    exact hp.step e) ⟨s, rfl, h⟩ (Lts.along_true _ es)

theorem turn_joined {r : AudioRun α} {next : Option (Creation α)} (hctx : s.ctx = some r)
    (hbusy : s.busy = .joining next) (hexited : r.w.thread = .exited) :
    s.turn host transcode = some (s.joined next) := by
  simp only [AudioPath.turn, hbusy, hctx, if_pos hexited]

/-- The thread's own sections leave the rest as it is. -/
theorem Timed.turns (h : Timed host transcode s) {r r' : AudioRun α} (hctx : s.ctx = some r) (n : ℕ)
    (hturns : r.turns host transcode n = some r') :
    Lts.run (AudioPath.step host transcode) (some s) (List.replicate n .thread) =
      some { s with ctx := some r' } := by
  induction n generalizing s r with
  | zero =>
    obtain rfl := Option.some.inj hturns
    rw [← hctx]
    rfl
  | succ n ih =>
    obtain ⟨⟨a, hexact⟩, -⟩ := h.exact r hctx
    obtain ⟨r₁, hstep, hexact₁⟩ := hexact.step .thread
    obtain ⟨hdrained, hstop⟩ := AudioRun.step_keeps (e := .thread) nofun hstep
    have hturn : AudioPath.step host transcode (some s) .thread = some { s with ctx := some r₁ } := by
      show s.within host transcode .thread = _
      rw [AudioPath.within, hctx]
      show Option.map _ (AudioRun.step host transcode (some r) .thread) = _
      rw [hstep]
      rfl
    rw [AudioRun.turns, List.replicate_succ, Lts.run_cons, hstep] at hturns
    rw [List.replicate_succ, Lts.run_cons, hturn]
    exact ih (h.work hctx hexact₁ hdrained hstop) rfl hturns

variable (host transcode) in
/-- **A join ends.**  While the nginx worker waits for the thread of an audio worker, sections of that
    thread alone bring it to its end, and the nginx worker goes on. -/
theorem audio_join_ends (ssrc : UInt32) (pt : UInt8) (es : List (Event α)) {p : AudioPath α}
    (hrun : Lts.run (AudioPath.step host transcode) (some (fresh ssrc pt)) es = some p)
    {next : Option (Creation α)} (hbusy : p.busy = .joining next) :
    ∃ n p', Lts.run (AudioPath.step host transcode) (some p) (List.replicate n .thread ++ [.turn]) =
        some p' ∧
      p'.busy = .idle ∧ p'.ctx = next.bind fun c => c.worker.map AudioRun.start := by
  obtain ⟨q, hq, hp⟩ := (Timed.fresh ssrc pt : Timed host transcode (fresh ssrc pt : AudioPath α)).sound es
  obtain rfl : p = q := Option.some.inj (hrun.symm.trans hq)
  obtain ⟨r, hctx, -⟩ := hp.joining next hbusy
  obtain ⟨⟨a, hexact⟩, -⟩ := hp.exact r hctx
  obtain ⟨n, r', hturns, ⟨-, hidle⟩, -⟩ := hexact.settles
  have hafter := hp.turns hctx n hturns
  obtain ⟨q', hq', hp'⟩ := hp.sound (List.replicate n .thread)
  obtain rfl := Option.some.inj (hafter.symm.trans hq')
  obtain ⟨r₀, hr₀, hstop⟩ := hp'.joining next hbusy
  obtain rfl : r' = r₀ := Option.some.inj hr₀
  have hexited : r'.w.thread = .exited := by
    rcases hidle with ⟨-, hnostop, -⟩ | ⟨hexited, -⟩
    · exact nomatch hnostop.symm.trans hstop
    · exact hexited
  have hturn : ({ p with ctx := some r' } : AudioPath α).turn host transcode =
      some (({ p with ctx := some r' } : AudioPath α).joined next) := turn_joined rfl hbusy hexited
  refine ⟨n, ({ p with ctx := some r' } : AudioPath α).joined next, ?_, ?_, ?_⟩
  · rw [Lts.run_append, hafter, Lts.run_cons, Lts.run_nil]
    exact hturn
  · cases next <;> rfl
  · cases next <;> rfl

end Invariant

/-- A publisher that disconnects after its sequence header. -/
theorem audio_join_ends_sample :
    ∃ p, Lts.run (AudioPath.step .little fun _ aac => ((), [aac])) (some (fresh 1 payloadTypeOpus))
        [.message (.aacHeader [0x11, 0x90]) 0 1 payloadTypeOpus ⟨some (), true, true, true⟩, .disconnect] =
          some p ∧
      ∃ n p', Lts.run (AudioPath.step .little fun _ aac => ((), [aac])) (some p)
          (List.replicate n .thread ++ [.turn]) = some p' ∧ p'.busy = .idle ∧ p'.ctx = none :=
  ⟨_, rfl, audio_join_ends .little (fun _ aac => ((), [aac])) 1 payloadTypeOpus
    [.message (.aacHeader [0x11, 0x90]) 0 1 payloadTypeOpus ⟨some (), true, true, true⟩, .disconnect]
    rfl rfl⟩

end AudioPath

end NginxRtc
