/-
  The in-process GOP ring of a source (`ngx_rtc_rtp_ring_t`), and how a viewer is served from it or
  from the shared retransmit ring (`ngx_rtc_stream_retransmit`, `ngx_rtc_stream_replay_gop`).

  Both rings are caches of the packets pushed last.  `marked_of_reachable`, `ringsMarked`: whatever
  was pushed and reset, `gop_start` is the index of the last GOP start that is still cached.

  `replayGop_keyframe_iff`: a replay starts at the keyframe or reports that it served nothing,
  exactly when the ring it is served from holds a GOP start next to its other packets and its
  window does not straddle the wrap of the head.
-/
import NginxRtc.Shm.Replay

namespace NginxRtc

/-- `NGX_RTC_MAX_RTP_PKT`. -/
def maxRtpPkt : ℕ := 1214

/-- `sizeof(ngx_rtc_rtp_cache_slot_t)`. -/
def rtpSlotSize : ℕ := 1218

/-- `ngx_rtc_rtp_ring_t`; `none` until its slots are allocated. -/
abbrev RtpRing := Option (CacheRing 32 RetransmitSlot)

namespace RtpRing

/-- What `ngx_rtc_rtp_ring_reserve` allocates. -/
def zeroed (cap : BitVec 32) (h : ∃ k < 32, cap.toNat = 2 ^ k) : CacheRing 32 RetransmitSlot where
  head := 0#32
  count := 0#32
  mark := 0#32
  cap := cap
  slots := List.replicate cap.toNat RetransmitSlot.zero
  pow := h
  lenEq := List.length_replicate
  fill := Nat.zero_le _

/-- A word with a single bit is a power of two. -/
theorem pow_of_and {cap : BitVec 32} (h : cap ≠ 0#32 ∧ cap &&& (cap - 1#32) = 0#32) :
    ∃ k < 32, cap.toNat = 2 ^ k := by
  have h0 : cap.toNat ≠ 0 := fun hz => h.1 (BitVec.eq_of_toNat_eq hz)
  have h1 : 1#32 ≤ cap := by
    rw [BitVec.le_def]
    exact Nat.one_le_iff_ne_zero.2 h0
  have hand : cap.toNat &&& (cap.toNat - 1) = 0 := by
    have hb := congrArg BitVec.toNat h.2
    rwa [BitVec.toNat_and, BitVec.toNat_sub_of_le h1] at hb
  obtain ⟨k, hk⟩ := (Nat.and_sub_one_eq_zero_iff_isPowerOfTwo h0).1 hand
  refine ⟨k, ?_, hk⟩
  have hlt := cap.isLt
  rw [hk] at hlt
  exact (Nat.pow_lt_pow_iff_right Nat.one_lt_two).1 hlt

/-- `ngx_rtc_rtp_ring_reserve`; `none` is 0.  The quotient of the overflow check is cut to 32
    bits. -/
def reserve (ring : RtpRing) (alloc : Bool) (cap : BitVec 32) :
    Option (CacheRing 32 RetransmitSlot) :=
  if h : cap ≠ 0#32 ∧ cap &&& (cap - 1#32) = 0#32 then
    match ring with
    | some r => some r
    | none =>
      if BitVec.ofNat 32 ((2 ^ 64 - 1) / rtpSlotSize) < cap then none
      else if alloc then some (zeroed cap (pow_of_and h))
      else none
  else none

/-- `ngx_rtc_rtp_ring_push`; `slots` is the configured `gop_ring_slots`. -/
def push (slots : BitVec 32) (ring : RtpRing) (alloc : Bool) (rtp : Bytes) (gop : Bool) : RtpRing :=
  if rtp.length = 0 ∨ maxRtpPkt < rtp.length then ring
  else
    match ring.reserve alloc slots with
    | none => ring
    | some r => some (r.push ⟨rtp.length, gop, rtp⟩ gop)

/-- What an AVC sequence header does to the ring: `gop.count = 0`, `gop.gop_start = 0`. -/
def reset (ring : RtpRing) : RtpRing := ring.map CacheRing.clear

/-- `ngx_rtc_source_gop_ready`. -/
def gopReady : RtpRing → Bool
  | none => false
  | some r => r.count ≠ 0#32

/-- `ngx_rtc_rtp_ring_get`. -/
def get (ring : RtpRing) (seq : UInt16) : Option RetransmitSlot :=
  ring.bind fun r => r.find RetransmitSlot.key seq.toBitVec

/-- `ngx_rtc_rtp_ring_replay`: the packets it tries to send, when the session takes those of
    `accept`. -/
def replay (ring : RtpRing) (accept : ℕ → Bool) : List RetransmitSlot :=
  match ring with
  | none => []
  | some r => CacheRing.burst accept RetransmitSlot.closes 0 r.replay

/-- The cached packets, oldest first. -/
def recent : RtpRing → List RetransmitSlot
  | none => []
  | some r => r.recent

end RtpRing

/-! ## Serving a viewer -/

/-- `ngx_rtc_stream_retransmit`: the packet that answers a NACK. -/
def streamRetransmit (sh : Option ShmCtx) (name : SourceName) (ring : RtpRing) (seq : UInt16) :
    Option Bytes :=
  if ring.gopReady then (ring.get seq).map RetransmitSlot.data
  else sh.bind fun c => c.retransmitGet name seq ringRtpMax

/-- `ngx_rtc_stream_replay_gop`: its result, and the packets it tries to send. -/
def streamReplayGop (sh : Option ShmCtx) (name : SourceName) (ring : RtpRing) (buf : Bool)
    (accept : ℕ → Bool) : Bool × List RetransmitSlot :=
  if ring.gopReady then (true, ring.replay accept)
  else
    match sh with
    | none => (false, [])
    | some c =>
      match c.retransmitReplayGop name buf accept with
      | none => (false, [])
      | some (n, out) => (0 < n, out)

/-- The packets retained in the ring a viewer is served from. -/
def retained (sh : Option ShmCtx) (name : SourceName) (ring : RtpRing) : List RetransmitSlot :=
  if ring.gopReady then ring.recent
  else
    match sh.bind fun c => c.ring? name with
    | none => []
    | some r => r.cache.recent

/-! ## Reachable rings -/

/-- A push into the ring or a sequence header. -/
inductive RtpEvent where
  | push (slots : BitVec 32) (alloc : Bool) (rtp : Bytes) (gop : Bool)
  | reset

namespace RtpRing

def step (ring : RtpRing) : RtpEvent → RtpRing
  | .push slots alloc rtp gop => ring.push slots alloc rtp gop
  | .reset => ring.reset

/-- The index of the last cached GOP start is `gop_start`. -/
def Marked (ring : RtpRing) : Prop := ∀ r, ring = some r → r.Marked RetransmitSlot.isGopStart

theorem Marked.reserve {ring : RtpRing} (h : ring.Marked) {alloc : Bool} {cap : BitVec 32}
    {r : CacheRing 32 RetransmitSlot} (hr : ring.reserve alloc cap = some r) :
    r.Marked RetransmitSlot.isGopStart := by
  unfold RtpRing.reserve at hr
  cases ring with
  | none =>
    dsimp only at hr
    split_ifs at hr
    obtain rfl := Option.some.inj hr
    exact CacheRing.marked_of_recent rfl
  | some q =>
    dsimp only at hr
    split_ifs at hr
    obtain rfl := Option.some.inj hr
    exact h q rfl

theorem Marked.step {ring : RtpRing} (h : ring.Marked) (e : RtpEvent) : (ring.step e).Marked := by
  cases e with
  | push slots alloc rtp gop =>
    simp only [RtpRing.step, RtpRing.push]
    split_ifs
    · exact h
    · split
      · exact h
      · next r hr =>
        intro q hq
        obtain rfl := Option.some.inj hq
        exact (h.reserve hr).push ⟨rtp.length, gop, rtp⟩
  | reset =>
    intro q hq
    obtain ⟨r, -, rfl⟩ := Option.map_eq_some_iff.1 hq
    exact CacheRing.marked_of_recent r.recent_clear

/-- **Any pushes and sequence headers** leave `gop_start` at the last cached GOP start. -/
theorem marked_of_reachable {ring : RtpRing} (h : Lts.Reachable step none ring) :
    ring.Marked := by
  refine h.induction (P := Marked) ?_ fun _ e hs => hs.step e
  intro r hr
  exact nomatch hr

end RtpRing

/-- A call into the registry, or `ngx_rtc_shm_retransmit_reset`. -/
inductive RegistryEvent where
  | call (op : ShmOp)
  | reset (name : SourceName)

namespace ShmCtx

def registryStep (c : ShmCtx) : RegistryEvent → ShmCtx
  | .call op => op.step c
  | .reset name => c.retransmitReset name

/-- `gop_start` of every retransmit ring is the index of its last cached GOP start. -/
def RingsMarked (c : ShmCtx) : Prop :=
  ∀ a src r, c.sources.get a = some src → src.retransmit = some r →
    r.cache.Marked RetransmitSlot.isGopStart

theorem RingsMarked.kept {c c' : ShmCtx} (h : c.RingsMarked) (hk : c.RingsKept c') :
    c'.RingsMarked := by
  intro a src' r hsrc' hr
  obtain ⟨src, hsrc, hr'⟩ := hk a src' r hsrc' hr
  exact h a src r hsrc hr'

theorem RingsMarked.append {c : ShmCtx} (h : c.RingsMarked) (b : ℕ) (slab : Bool) (rtp : Bytes)
    (gop : Bool) : (c.retransmitAppend b slab rtp gop).RingsMarked := by
  intro a src' r' hsrc' hr'
  by_cases hb : b = a
  · subst hb
    obtain ⟨src, hsrc, ⟨hr, -⟩ | ⟨r, hold, rfl⟩⟩ := ring_append hsrc' hr'
    · exact h b src r' hsrc hr
    · rw [RetransmitRing.cache_push]
      have hr : r.cache.Marked RetransmitSlot.isGopStart := by
        rcases hold with hold | ⟨-, rfl⟩
        · exact h b src r hsrc hold
        · exact CacheRing.marked_of_recent RetransmitRing.recent_alloc
      exact hr.push ⟨rtp.length, gop, rtp⟩
  · rw [get_append_ne c hb] at hsrc'
    exact h a src' r' hsrc' hr'

theorem RingsMarked.reset {c : ShmCtx} (h : c.RingsMarked) (name : SourceName) :
    (c.retransmitReset name).RingsMarked := by
  unfold retransmitReset modifySource
  split
  · exact h
  · next b _ =>
    intro a src' r' hsrc' hr'
    rw [Pool.get_modify] at hsrc'
    split_ifs at hsrc'
    · obtain ⟨src, hsrc, rfl⟩ := Option.map_eq_some_iff.1 hsrc'
      obtain ⟨r, -, rfl⟩ := Option.map_eq_some_iff.1 hr'
      exact CacheRing.marked_of_recent r.recent_reset
    · exact h a src' r' hsrc' hr'

theorem RingsMarked.registryStep {c : ShmCtx} (h : c.RingsMarked) (e : RegistryEvent) :
    (c.registryStep e).RingsMarked := by
  cases e with
  | reset name => exact h.reset name
  | call op =>
    by_cases hop : ∃ b slab rtp gop, op = .retransmitAppend b slab rtp gop
    · obtain ⟨b, slab, rtp, gop, rfl⟩ := hop
      exact h.append b slab rtp gop
    · exact h.kept (c.ringsKept_step fun b slab rtp gop he => hop ⟨b, slab, rtp, gop, he⟩)

/-- **Every reachable registry** has `gop_start` of each ring at its last cached GOP start. -/
theorem ringsMarked {nworkers : ℕ} {rings : List (Option MediaRing)} {c : ShmCtx}
    (h : Lts.Reachable registryStep (init nworkers rings) c) : c.RingsMarked := by
  refine h.induction (P := RingsMarked) ?_ fun c e hc => hc.registryStep e
  intro a src r hsrc
  exact nomatch hsrc

end ShmCtx

/-! ## Keyframe replay -/

/-- The packets offered start at the last GOP start of the cache and go on with the packets pushed
    directly after it, up to the first one with the marker bit or the first one refused. -/
def KeyframeBurst (accept : ℕ → Bool) (cached offered : List RetransmitSlot) : Prop :=
  ∃ pre g post, cached = pre ++ g :: post ∧ g.isGopStart = true ∧
    (∀ u ∈ post, u.isGopStart = false) ∧
      offered = CacheRing.burst accept RetransmitSlot.closes 0 (g :: post)

/-- A replay that says it served something started at the keyframe, and without a keyframe it says
    that it served nothing. -/
def ReplayOk (accept : ℕ → Bool) (cached : List RetransmitSlot)
    (res : Bool × List RetransmitSlot) : Prop :=
  (res.1 = true → KeyframeBurst accept cached res.2) ∧
    (cached.any RetransmitSlot.isGopStart = false → res.1 = false)

theorem KeyframeBurst.any {accept : ℕ → Bool} {cached offered : List RetransmitSlot}
    (h : KeyframeBurst accept cached offered) :
    cached.any RetransmitSlot.isGopStart = true := by
  obtain ⟨pre, g, post, rfl, hg, -⟩ := h
  exact List.any_eq_true.2 ⟨g, by simp, hg⟩

/-- **A replay is a burst from the keyframe** exactly when the ring can start one. -/
theorem keyframeBurst_iff {w : ℕ} {r : CacheRing w RetransmitSlot}
    (hm : r.Marked RetransmitSlot.isGopStart) (accept : ℕ → Bool) :
    KeyframeBurst accept r.recent (CacheRing.burst accept RetransmitSlot.closes 0 r.replay) ↔
      r.Startable RetransmitSlot.isGopStart := by
  constructor
  · intro h
    refine ⟨?_, h.any⟩
    by_contra hw
    obtain ⟨pre, g, post, -, -, -, hout⟩ := h
    rw [CacheRing.replay_wrapped hw] at hout
    exact nomatch hout
  · rintro ⟨hw, hany⟩
    obtain ⟨pre, g, post, hrec, hg, hpost⟩ := CacheRing.exists_last_marked hany
    exact ⟨pre, g, post, hrec, hg, hpost, by rw [CacheRing.replay_eq hm hw hrec hg hpost]⟩

/-- When a replay keeps its promise: the ring it is served from can start one, or it is the shared
    ring and there is nothing to walk over. -/
def ReplaySafe (sh : Option ShmCtx) (name : SourceName) (ring : RtpRing) (buf : Bool) : Prop :=
  if ring.gopReady then ∀ r, ring = some r → r.Startable RetransmitSlot.isGopStart
  else buf = true → ∀ c r, sh = some c → c.ring? name = some r →
    r.cache.Idle ∨ r.cache.Startable RetransmitSlot.isGopStart

theorem replayOk_true {accept : ℕ → Bool} {cached out : List RetransmitSlot} :
    ReplayOk accept cached (true, out) ↔ KeyframeBurst accept cached out := by
  constructor
  · exact fun h => h.1 rfl
  · intro h
    refine ⟨fun _ => h, fun hnone => ?_⟩
    rw [h.any] at hnone
    exact nomatch hnone

theorem replayOk_false (accept : ℕ → Bool) (cached out : List RetransmitSlot) :
    ReplayOk accept cached (false, out) := by
  refine ⟨fun h => ?_, fun _ => rfl⟩
  exact nomatch h

/-- The shared ring keeps the promise when it can start a replay, or has nothing to walk over. -/
theorem replayOk_shared_iff {r : RetransmitRing} (hm : r.cache.Marked RetransmitSlot.isGopStart)
    (accept : ℕ → Bool) :
    ReplayOk accept r.cache.recent
        (decide (0 < (CacheRing.upTo RetransmitSlot.closes r.cache.replay).length),
          CacheRing.burst accept RetransmitSlot.closes 0
            (CacheRing.upTo RetransmitSlot.closes r.cache.replay)) ↔
      r.cache.Idle ∨ r.cache.Startable RetransmitSlot.isGopStart := by
  rw [CacheRing.burst_upTo, ← keyframeBurst_iff hm accept, ← CacheRing.replay_eq_nil_iff]
  by_cases hnil : r.cache.replay = []
  · refine iff_of_true ?_ (.inl hnil)
    rw [hnil]
    exact replayOk_false ..
  · have hpos : 0 < (CacheRing.upTo RetransmitSlot.closes r.cache.replay).length :=
      List.length_pos_of_ne_nil (mt CacheRing.upTo_eq_nil.1 hnil)
    rw [decide_eq_true hpos, replayOk_true, or_iff_right hnil]

/-- **A replay starts at the keyframe, or reports nothing served**, exactly when the ring it is
    served from holds a GOP start and its window does not straddle the wrap of its head; a shared
    ring may also have nothing to walk over. -/
theorem replayGop_keyframe_iff {ring : RtpRing} (hring : Lts.Reachable RtpRing.step none ring)
    {sh : Option ShmCtx}
    (hsh : ∀ c, sh = some c → ∃ nworkers rings,
      Lts.Reachable ShmCtx.registryStep (ShmCtx.init nworkers rings) c)
    (name : SourceName) (buf : Bool) (accept : ℕ → Bool) :
    ReplayOk accept (retained sh name ring) (streamReplayGop sh name ring buf accept) ↔
      ReplaySafe sh name ring buf := by
  have hm := RtpRing.marked_of_reachable hring
  unfold retained streamReplayGop ReplaySafe
  by_cases hready : ring.gopReady = true
  · obtain ⟨r, rfl⟩ : ∃ r, ring = some r := by
      cases ring with
      | none => cases hready
      | some r => exact ⟨r, rfl⟩
    rw [if_pos hready, if_pos hready, if_pos hready, replayOk_true]
    refine (keyframeBurst_iff (hm r rfl) accept).trans ?_
    exact ⟨fun h q hq => Option.some.inj hq ▸ h, fun h => h r rfl⟩
  · rw [if_neg hready, if_neg hready, if_neg hready]
    cases sh with
    | none => exact iff_of_true (replayOk_false ..) fun _ _ _ hc => by cases hc
    | some c =>
      simp only [Option.bind_some, ShmCtx.retransmitReplayGop]
      cases buf with
      | false => exact iff_of_true (replayOk_false ..) fun hb => by cases hb
      | true =>
        cases hr : c.ring? name with
        | none =>
          refine iff_of_true (replayOk_false ..) fun _ d r hd hr' => ?_
          obtain rfl := Option.some.inj hd
          rw [hr] at hr'
          cases hr'
        | some r =>
          obtain ⟨nworkers, rings, hreach⟩ := hsh c rfl
          have hmark : r.cache.Marked RetransmitSlot.isGopStart := by
            obtain ⟨src, hsrc, hring⟩ := Option.bind_eq_some_iff.1 hr
            obtain ⟨a, -, ha⟩ := Option.bind_eq_some_iff.1 hsrc
            exact ShmCtx.ringsMarked hreach a src r ha hring
          refine (replayOk_shared_iff hmark accept).trans ⟨fun h _ d q hd hq => ?_, fun h => ?_⟩
          · obtain rfl := Option.some.inj hd
            obtain rfl := Option.some.inj (hr.symm.trans hq)
            exact h
          · exact h rfl c r rfl hr

/-- A ring of two slots: a keyframe packet, then `n` packets of the pictures that follow. -/
def sampleGop (n : ℕ) : RtpRing :=
  Lts.run RtpRing.step none
    (.push 2 true (Feed.sampleUnit 0) true ::
      (List.range n).map fun i => .push 2 true (Feed.sampleUnit (UInt8.ofNat (i + 1))) false)

theorem replayGop_keyframe_two :
    ReplayOk (fun _ => true) (retained none sampleName (sampleGop 1))
      (streamReplayGop none sampleName (sampleGop 1) true fun _ => true) := by
  refine (replayGop_keyframe_iff ⟨_, rfl⟩ (by simp) sampleName true _).2 fun r hr => ?_
  obtain rfl := Option.some.inj hr
  decide +kernel

/-- The second picture overwrites the keyframe, and a replay starts in the middle of the GOP. -/
theorem replayGop_evicted :
    streamReplayGop none sampleName (sampleGop 2) true (fun _ => true) =
        (true, [⟨13, false, Feed.sampleUnit 1⟩]) ∧
      ¬ ReplayOk (fun _ => true) (retained none sampleName (sampleGop 2))
        (streamReplayGop none sampleName (sampleGop 2) true fun _ => true) := by
  refine ⟨by decide +kernel, fun h => ?_⟩
  have hburst := (h.1 (by decide +kernel)).any
  exact absurd hburst (by decide +kernel)

end NginxRtc
