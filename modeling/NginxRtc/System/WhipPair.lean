/-
  WHIP over two workers: one took the request, the other receives the publisher's media.

  The session lives twice.  The copy of the signaling worker never finishes a handshake, and its reap
  timer closes it; the copy of the media worker is bound to the publisher's packets.  Both carry the
  tag of the claim, and a close releases the claim on the tag alone.

  `whip_held`: once the media worker has renewed the claim, the stream stays published over WHIP in
  every run in which no session of the stream is closed on a tagged worker, no request for it fails
  after its claim, no second publisher of it is attached to the media worker, and the packets are not
  further apart than the grace less the sync window.  `stale_copy_ends_publish`: a run in which the
  reap of the stale copy ends the publish.
-/
import NginxRtc.System.Refusal
import NginxRtc.Worker.Serving

namespace NginxRtc

/-! ## Clocks -/

/-- The event, at time `now`. -/
def ProcEvent.retime (now : ℕ) : ProcEvent → ProcEvent
  | .play r => .play { r with env := { r.env with now := now }, envAdd := { r.envAdd with now := now } }
  | .whip r => .whip { r with env := { r.env with now := now }, envAdd := { r.envAdd with now := now } }
  | .accept => .accept
  | .stun env heap c ufrag verified => .stun { env with now := now } heap c ufrag verified
  | .dtls _ heap c data v => .dtls now heap c data v
  | .dtlsTimer _ heap a v => .dtlsTimer now heap a v
  | .rtcp _ heap c plain => .rtcp now heap c plain
  | .srtp _ slab c plain emitted => .srtp now slab c plain emitted
  | .reap conf _ heap a => .reap conf now heap a
  | .finalize c => .finalize c
  | .rtmpVideo env heap name => .rtmpVideo { env with now := now } heap name
  | .rtmpAudio env heap name header => .rtmpAudio { env with now := now } heap name header
  | .rtmpRelease _ name => .rtmpRelease now name
  | .others op => .others (op.retime now)

theorem ProcEvent.retime_timed (now : ℕ) (e : ProcEvent) : (e.retime now).Timed (· = now) := by
  cases e with
  | play r => exact ⟨rfl, rfl⟩
  | whip r => exact ⟨rfl, rfl⟩
  | others op =>
    exact ⟨op.retime_beat now, fun _ _ h => ShmOp.retime_sweeps h, fun _ _ _ _ => id⟩
  | _ => first | rfl | trivial

theorem ProcEvent.OnMedia.retime {e : ProcEvent} (h : e.OnMedia) (now : ℕ) :
    (e.retime now).OnMedia := by
  cases e with
  | others op =>
    cases op with
    | expire t forced => trivial
    | _ => exact h.elim
  | _ => trivial

/-! ## Two workers -/

structure WhipPair where
  sh : Option ShmCtx
  now : ℕ
  signaling : Worker
  media : Worker

/-- A handler of the signaling worker, a datagram, timer or sweep of the media worker, or time. -/
inductive PairEvent where
  | signaling (e : ProcEvent)
  | media (e : ProcEvent) (h : e.OnMedia)
  | tick (d : ℕ)

namespace WhipPair

/-- Two workers over a fresh zone. -/
def init (nworkers : ℕ) (rings : List (Option MediaRing)) (now : ℕ) : WhipPair :=
  ⟨some (ShmCtx.init nworkers rings), now, Worker.init 0, Worker.init 1⟩

def signalingProc (s : WhipPair) : Proc := ⟨s.sh, s.signaling⟩

def mediaProc (s : WhipPair) : Proc := ⟨s.sh, s.media⟩

def step (s : WhipPair) : PairEvent → WhipPair
  | .signaling e =>
    { s with
      sh := (s.signalingProc.step (e.retime s.now)).sh
      signaling := (s.signalingProc.step (e.retime s.now)).w }
  | .media e _ =>
    { s with
      sh := (s.mediaProc.step (e.retime s.now)).sh
      media := (s.mediaProc.step (e.retime s.now)).w }
  | .tick d => { s with now := s.now + d }

/-- The shared source at `a` is published over WHIP. -/
def Published (a : ℕ) (name : SourceName) (s : WhipPair) : Prop :=
  ∃ c, s.sh = some c ∧ c.HeldAt a name .whip

/-- The media worker has just renewed the claim of the stream that its session at `b` publishes. -/
def Renewed (name : SourceName) (a b : ℕ) (s : WhipPair) : Prop :=
  0 < s.now ∧ ∃ c src sess x v, s.sh = some c ∧ c.sources.get a = some src ∧ src.Held name .whip ∧
    src.publisherSeenMs = s.now ∧ s.media.sessions.get b = some sess ∧
    sess.stream = (some x, true) ∧ s.media.sources.get x = some v ∧ v.name = name ∧
    v.publisherKind = some .whip ∧ v.shmSrc ≠ none ∧ v.shmSyncMs = s.now

theorem shaped_run {nworkers : ℕ} {rings : List (Option MediaRing)} {now : ℕ} {s : WhipPair}
    (h : Lts.Reachable step (init nworkers rings now) s) : Shaped s.sh := by
  refine h.induction (P := fun s => Shaped s.sh) (shaped_some.2 (ShmCtx.shape_init nworkers rings))
    fun s e hs => ?_
  cases e with
  | signaling e => exact Proc.shaped_step (p := s.signalingProc) (e.retime s.now) hs
  | media e _ => exact Proc.shaped_step (p := s.mediaProc) (e.retime s.now) hs
  | tick d => exact hs

/-! ## Runs -/

/-- A state, with the time of the last packet of the session at `b` that was forwarded. -/
abbrev Heard := WhipPair × ℕ

def heardStep (b : ℕ) (p : Heard) (e : PairEvent) : Heard :=
  (p.1.step e, match e with
    | .media e _ => if p.1.mediaProc.mediaOf (e.retime p.1.now) = some b then p.1.now else p.2
    | _ => p.2)

/-- The condition on a step. -/
def Spared (name : SourceName) (p : Heard) : PairEvent → Prop
  | .signaling e =>
    p.1.signalingProc.Steady (· = name) (e.retime p.1.now) ∧
      p.1.signalingProc.closesTagged name (e.retime p.1.now) = false
  | .media e _ =>
    p.1.mediaProc.closesTagged name (e.retime p.1.now) = false ∧
      p.1.mediaProc.attaches name (e.retime p.1.now) = false
  | .tick d => p.1.now + d ≤ p.2 + (shmPublishGraceMs - shmSyncMs)

variable {name : SourceName} {a b x : ℕ}

/-- The media worker serves the publish. -/
structure Served (name : SourceName) (a b x : ℕ) (p : Heard) : Prop where
  clock : 0 < p.1.now
  serving : p.1.mediaProc.Serving name a b x p.1.now p.2

theorem Served.published {p : Heard} (h : Served name a b x p) : p.1.Published a name :=
  h.serving.heldAt

/-- **A spared step** leaves the media worker serving. -/
theorem Served.step {p : Heard} (h : Served name a b x p) {e : PairEvent} (he : Spared name p e) :
    Served name a b x (heardStep b p e) := by
  cases e with
  | signaling e =>
    have hgo : Proc.GoesOn name a p.1.now p.1.signalingProc
        (p.1.signalingProc.step (e.retime p.1.now)) :=
      Proc.goesOn_step h.clock _ (e.retime_timed p.1.now) he.1 he.2
    have hshape : Shaped (p.1.signalingProc.step (e.retime p.1.now)).sh :=
      Proc.shaped_step (p := p.1.signalingProc) _ h.serving.shaped
    exact ⟨h.clock, h.serving.beside h.clock (w := p.1.signaling) hgo hshape⟩
  | media e hm =>
    exact ⟨h.clock, h.serving.media_step h.clock (hm.retime p.1.now) (e.retime_timed p.1.now) he.1
      he.2⟩
  | tick d => exact ⟨h.clock.trans_le (Nat.le_add_right _ d), h.serving.later he⟩

theorem Renewed.served {nworkers : ℕ} {rings : List (Option MediaRing)} {now : ℕ} {s : WhipPair}
    (hs : Lts.Reachable WhipPair.step (init nworkers rings now) s) (h : s.Renewed name a b) :
    ∃ x, Served name a b x (s, s.now) := by
  have hgrace : 0 < shmPublishGraceMs := by decide
  have hwindow : 0 < shmSyncMs := by decide
  obtain ⟨hclock, c, src, sess, x, v, hsh, hget, hheld, hseen, hsess, hstream, hv, hname, hkind,
    hcached, hsync⟩ := h
  refine ⟨x, hclock, c, src, sess, v, hsh, shaped_run hs c hsh, hget, hheld, ?_, hsess, hstream, hv,
    hname, hkind, hcached, (hsync.trans hseen.symm).le, hsync.le, le_rfl, ?_⟩
  · simp [ShmSource.alive, hseen, Nat.pos_iff_ne_zero.1 hclock, hgrace]
  · show s.now < v.shmSyncMs + shmSyncMs
    omega

/-- **The publish holds.**  From the moment the media worker has renewed the claim, the stream stays
    published over WHIP through every run of spared steps of the two workers. -/
theorem whip_held {nworkers : ℕ} {rings : List (Option MediaRing)} {now : ℕ} {s : WhipPair}
    (hs : Lts.Reachable step (init nworkers rings now) s) (h : s.Renewed name a b)
    {es : List PairEvent} (hes : Lts.Along (heardStep b) (Spared name) (s, s.now) es) :
    Lts.Visits (heardStep b) (fun p => p.1.Published a name) (s, s.now) es := by
  obtain ⟨x, hserved⟩ := h.served hs
  exact (Lts.visits_of_step (fun _ _ hp he => hp.step he) hserved hes).mono fun _ hp => hp.published

/-! ## Two runs -/

/-- An audio packet of the sample publisher. -/
def sampleAudio : Bytes := [128, 111, 0, 1, 0, 0, 0, 0, 0, 0, 0, 9]

def samplePacket : PairEvent := .media (.srtp 0 true 0 (some sampleAudio) []) trivial

/-- A sweep by the signaling worker. -/
def sampleSweep : PairEvent := .signaling (.others (.expire 0 false))

/-- The request on one worker, binding and handshake on the other, and a packet a second later. -/
def sampleServed : WhipPair :=
  Lts.run step (init 2 [none, none] 5)
    [.signaling (.whip (Proc.sampleRequest 1)), .media .accept trivial,
      .media (.stun (Env.at 5) Heap.ample 0 (sampleUfrag 1) fun _ => true) trivial,
      .media (.dtls 5 Heap.ample 0 (22 :: List.replicate 12 0) ⟨true, true, true, true⟩) trivial,
      .tick 1000, samplePacket]

theorem sampleServed_renewed : sampleServed.Renewed sampleName 0 0 :=
  ⟨by decide, _, _, _, _, _, rfl, rfl, ⟨rfl, rfl, rfl⟩, rfl, rfl, rfl, rfl, rfl, rfl, (nomatch ·), rfl⟩

/-- Packets nine seconds apart, and sweeps between them. -/
theorem whip_held_sample :
    Lts.Visits (heardStep 0) (fun p => p.1.Published 0 sampleName)
      (sampleServed, sampleServed.now)
      [.tick 9000, sampleSweep, samplePacket, .tick 9000, sampleSweep] :=
  @whip_held _ _ _ 2 [none, none] 5 _ ⟨_, rfl⟩ sampleServed_renewed _
    ⟨Nat.le_of_ble_eq_true rfl, ⟨fun _ _ _ => (nomatch ·), by decide⟩, ⟨by decide, by decide⟩,
      Nat.le_of_ble_eq_true rfl, ⟨fun _ _ _ => (nomatch ·), by decide⟩, trivial⟩

/-- The packets of the session at `b` come less than the grace apart, and the media worker does not
    close the session. -/
def MediaOn (b : ℕ) (p : Heard) : PairEvent → Prop
  | .signaling _ => True
  | .media e _ => p.1.mediaProc.closes (e.retime p.1.now) ≠ some b
  | .tick d => p.1.now + d < p.2 + shmPublishGraceMs

instance MediaOn.instDecidable (b : ℕ) (p : Heard) : ∀ e, Decidable (MediaOn b p e)
  | .signaling _ => instDecidableTrue
  | .media e _ => inferInstanceAs (Decidable (p.1.mediaProc.closes (e.retime p.1.now) ≠ some b))
  | .tick d => inferInstanceAs (Decidable (p.1.now + d < p.2 + shmPublishGraceMs))

theorem Published.publishing {s : WhipPair} (h : s.Published a name) :
    (s.sh.any fun c => (c.sources.get a).any ShmSource.publishing) = true := by
  obtain ⟨c, hc, src, hsrc, hheld⟩ := h
  rw [hc, Option.any_some, hsrc, Option.any_some, hheld.publishing]

/-- While packets come five seconds apart, the handshake timeout of the copy on the signaling worker
    ends the publish.  So does a sweep when a packet that found the claim young is followed by nine
    seconds without one. -/
theorem stale_copy_ends_publish :
    Lts.Reachable step (init 2 [none, none] 5) sampleServed ∧
      sampleServed.Renewed sampleName 0 0 ∧
      Lts.Along (heardStep 0) (MediaOn 0) (sampleServed, sampleServed.now)
        [.tick 5000, samplePacket, .tick 5000, samplePacket,
          .signaling (.reap StreamConf.default 0 Heap.ample 0)] ∧
      ¬ (Lts.run step sampleServed [.tick 5000, samplePacket, .tick 5000, samplePacket,
          .signaling (.reap StreamConf.default 0 Heap.ample 0)]).Published 0 sampleName ∧
      Lts.Along (heardStep 0) (MediaOn 0) (sampleServed, sampleServed.now)
        [.tick 999, samplePacket, .tick 9001, sampleSweep] ∧
      ¬ (Lts.run step sampleServed [.tick 999, samplePacket, .tick 9001, sampleSweep]).Published 0
        sampleName := by
  refine ⟨⟨_, rfl⟩, sampleServed_renewed, by decide, fun h => ?_, by decide, fun h => ?_⟩
  · exact absurd h.publishing (by decide)
  · exact absurd h.publishing (by decide)

end WhipPair

end NginxRtc
