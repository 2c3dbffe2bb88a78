/-
  The handlers of one worker process: the UDP module (`ngx_rtc_stream_module.c`), the play and WHIP
  requests (`ngx_rtc_http_module.c`) and the RTMP ingest (`ngx_rtmp_rtc_bridge_module.c`).

  `Proc` is the worker together with the registry it shares, when a zone is configured.  What a
  handler takes from outside is an argument: the clock and the slab allocator (`Env`), `ngx_calloc`
  (`Heap`), and the verdicts of OpenSSL and libsrtp on a datagram.  The jitter buffer is seen by
  the packets it hands on.

  `reapTimer_run`: a reap timer is a sweep followed by one check for each session.
-/
import NginxRtc.Lib.Run
import NginxRtc.Shm.Moves
import NginxRtc.Worker.Broadcast
import NginxRtc.Worker.Publish

namespace NginxRtc

/-- The answers of `ngx_calloc` for a session, for a local source, and for a close event. -/
structure Heap where
  session : Bool
  source : Bool
  closeEv : Bool

/-- No allocation fails. -/
def Heap.ample : Heap := ⟨true, true, true⟩

structure Proc where
  sh : Option ShmCtx
  w : Worker

/-! ## Parts of the handlers -/

/-- `ngx_rtc_session_fsm_dispatch_ctx` on a session. -/
def Session.dispatch (ev : SessionEvent) (ctx : Option FsmCtx) (sess : Session) : Session :=
  { sess with fsm := (fsmDispatch sess.fsm ev ctx).1 }

/-- Forget the binding of a session that closes, and post the finalization of its connection. -/
def Worker.detach (w : Worker) (closeEv : Bool) (a : ℕ) (sess : Session) : Worker :=
  match sess.conn with
  | none => w
  | some c =>
    { (w.modifySession a fun s => { s with conn := none }).setCtx c none with
      posted := if closeEv then w.posted ++ [c] else w.posted }

/-- Unsubscribe the session from its source, unlink it and free it. -/
def Worker.leave (w : Worker) (a : ℕ) (sess : Session) : Worker :=
  (match sess.source with
    | none => w
    | some src => w.unsubscribe src a).sessionRemove a

namespace Proc

/-- One registry call, if there is a registry. -/
def call (p : Proc) (op : ShmOp) : Proc := { p with sh := p.sh.map fun c => op.step c }

/-- A change of this worker's own state. -/
def upd (p : Proc) (f : Worker → Worker) : Proc := { p with w := f p.w }

/-- A call made on the local source at `a`. -/
def atSource {β : Type} (p : Proc) (a : ℕ) (dflt : β)
    (f : Option ShmCtx → Source → Option ShmCtx × Source × β) : Proc × β :=
  match p.w.sources.get a with
  | none => (p, dflt)
  | some src =>
    (⟨(f p.sh src).1, p.w.modifySource a fun _ => (f p.sh src).2.1⟩, (f p.sh src).2.2)

/-- `ngx_rtc_publish_claim`. -/
def claim (p : Proc) (env : Env) (a : ℕ) (kind : PublisherKind) : Proc × Rc :=
  p.atSource a .error fun sh src => publishClaim sh env src kind

/-- `ngx_rtc_publish_release`. -/
def release (p : Proc) (now a : ℕ) : Proc :=
  (p.atSource a () fun sh src => ((publishRelease sh now src).1, (publishRelease sh now src).2, ())).1

/-- `ngx_rtc_stream_shm_source`. -/
def renew (p : Proc) (now a : ℕ) : Proc × Option ℕ :=
  p.atSource a none fun sh src => streamShmSource sh now src

/-- The kind the local source at `a` is tagged with. -/
def kindAt (p : Proc) (a : ℕ) : Option PublisherKind :=
  (p.w.sources.get a).bind Source.publisherKind

/-! ## Closing -/

/-- Release the publish of the source of a session that closes.  The gate is the tag of the source
    alone, whichever session closes. -/
def releaseOwned (p : Proc) (now : ℕ) (sess : Session) : Proc :=
  match sess.source with
  | none => p
  | some src => if p.kindAt src = some .whip then p.release now src else p

/-- `ngx_rtc_stream_session_close`. -/
def sessionClose (p : Proc) (now : ℕ) (heap : Heap) (ev : SessionEvent) (a : ℕ) : Proc :=
  match p.w.sessions.get a with
  | none => p
  | some sess =>
    ((((p.upd fun w => (w.detach heap.closeEv a sess).modifySession a (Session.dispatch ev none)
      ).releaseOwned now sess).upd fun w => w.leave a sess).call
        (.removeIfOwner now sess.iceUfrag p.w.slot))

/-- `ngx_rtc_stream_close_ev_handler`: nginx finalizes the stream session of a posted connection. -/
def finalize (p : Proc) (c : ℕ) : Proc :=
  if c ∈ p.w.posted then
    p.upd fun w => { w with conns := w.conns.free c, posted := w.posted.erase c }
  else p

/-! ## Attaching -/

end Proc

/-- The process session rebuilt from a skeleton, before it knows its source. -/
def Session.ofSnapshot (now : ℕ) (snap : SessionSnapshot) : Session where
  source := none
  subLinked := false
  videoPt := snap.videoPt
  audioPt := snap.audioPt
  twccVideoExt := snap.twccVideoExt
  twccAudioExt := snap.twccAudioExt
  publishing := snap.publishing
  id := snap.id
  iceUfrag := snap.iceUfrag
  icePwd := snap.icePwd
  dtls := none
  -- the owning worker finished the handshake; this one never will
  fsm := if snap.srtpReady then .srtpReady else .new
  conn := none
  lastActive := now
  closePending := false

/-- The identity of a source as a skeleton's snapshot carries it. -/
def Source.setIdentity (videoSsrc audioSsrc : UInt32) (videoPt audioPt : UInt8) (src : Source) :
    Source :=
  { src with
    videoSsrc := videoSsrc
    audioSsrc := audioSsrc
    videoPt := videoPt
    audioPt := audioPt }

namespace Proc

/-- The local source of a session that is attached, and its claim when the session publishes. -/
def attachSource (p : Proc) (env : Env) (heap : Heap) (snap : SessionSnapshot) : Proc × Option ℕ :=
  match snap.source with
  | none => (p, none)
  | some (name, videoSsrc, audioSsrc, videoPt, audioPt) =>
    match p.w.sourceCreate heap.source name with
    | (_, none, _) => (p, none)
    | (w, some src, _) =>
      ((Proc.atSource ⟨p.sh, w⟩ src () fun sh v =>
        match sh, snap.publishing with
        | some c, true =>
          (some (adoptIn c env (v.setIdentity videoSsrc audioSsrc videoPt audioPt)).1,
            (adoptIn c env (v.setIdentity videoSsrc audioSsrc videoPt audioPt)).2, ())
        | _, _ => (sh, v.setIdentity videoSsrc audioSsrc videoPt audioPt, ())).1, some src)

/-- `ngx_rtc_stream_attach_from_shm`: the session, when there is a skeleton to attach. -/
def attachFromShm (p : Proc) (env : Env) (heap : Heap) (ufrag : Ufrag) : Proc × Option ℕ :=
  match p.sh with
  | none => (p, none)
  | some c =>
    if !heap.session then (p, none)
    else
      match c.sessionBind ufrag p.w.slot with
      | (_, _, none) => (p, none)
      | (c', _, some snap) =>
        ((Proc.attachSource ⟨some c', p.w⟩ env heap snap).1.upd fun w =>
            w.sessionAdd { Session.ofSnapshot env.now snap with
              source := (Proc.attachSource ⟨some c', p.w⟩ env heap snap).2 },
          some p.w.sessions.next)

/-! ## Datagrams -/

/-- `ngx_rtc_stream_publish_state`. -/
def publishState (p : Proc) (a : ℕ) : Proc :=
  match p.w.sessions.get a with
  | none => p
  | some sess => p.call (.setState sess.iceUfrag p.w.slot sess.fsm)

/-- The session a binding names: one of this worker, or one attached for it. -/
def findOrAttach (p : Proc) (env : Env) (heap : Heap) (ufrag : Ufrag) : Proc × Option ℕ :=
  match p.w.sessionFind ufrag with
  | some a => (p, some a)
  | none => p.attachFromShm env heap ufrag

/-- Bind the session at `a` to the connection `c` a binding came in on. -/
def bindConn (p : Proc) (now c a : ℕ) : Proc :=
  ((p.upd fun w => w.modifySession a fun s =>
      { (s.dispatch .stunBinding (some ⟨some c, none⟩)) with conn := some c, lastActive := now }
    ).publishState a).upd fun w => w.setCtx c (some a)

/-- `ngx_rtc_stream_on_stun`, for a request that names the user `ufrag`; `verified` is the integrity
    check under a password. -/
def onStun (p : Proc) (env : Env) (heap : Heap) (c : ℕ) (ufrag : Ufrag) (verified : Pwd → Bool) :
    Proc :=
  match p.findOrAttach env heap ufrag with
  | (p', none) => p'
  | (p', some a) =>
    match p'.w.sessions.get a with
    | none => p'
    | some sess => if verified sess.icePwd then p'.bindConn env.now c a else p'

end Proc

/-- The verdicts of OpenSSL and libsrtp on a DTLS record: the context is built, the record is
    accepted, it completes the handshake, and the keys can be exported and used. -/
structure DtlsVerdict where
  create : Bool
  accept : Bool
  finishes : Bool
  keys : Bool

namespace Proc

/-- `ngx_rtc_stream_dtls_done`. -/
def dtlsDone (p : Proc) (now a : ℕ) (keys : Bool) : Proc :=
  if !keys then p.upd fun w => w.modifySession a fun s => { s with closePending := true }
  else
    match p.w.sessions.get a with
    | none => p
    | some sess =>
      ((p.upd fun w => w.modifySession a fun s =>
          { (s.dispatch .dtlsHandshakeDone none) with lastActive := now }).upd fun w =>
        match sess.source, sess.publishing with
        | some src, false => w.subscribe src a
        | _, _ => w).call (.activate sess.iceUfrag p.w.slot)

/-- The handshake step both DTLS entry points make: run the completion callback if the handshake
    finished, then close the session if the callback asked for it. -/
def dtlsFinish (p : Proc) (now : ℕ) (heap : Heap) (a : ℕ) (sess : Session) (v : DtlsVerdict) : Proc :=
  if sess.dtls = some false ∧ v.finishes then
    closeIfPending ((p.upd fun w => w.modifySession a fun s => { s with dtls := some true }).dtlsDone
      now a v.keys)
  else closeIfPending p
where
  closeIfPending (p : Proc) : Proc :=
    if (p.w.sessions.get a).any Session.closePending then p.sessionClose now heap .close a else p

/-- A record fed to the DTLS context of the session at `a`. -/
def dtlsFeed (p : Proc) (now : ℕ) (heap : Heap) (a : ℕ) (v : DtlsVerdict) : Proc :=
  match p.w.sessions.get a with
  | none => p
  | some sess =>
    if sess.dtls = none ∨ !v.accept then
      (p.upd fun w => w.modifySession a fun s => { s with lastActive := now }).sessionClose now heap
        .close a
    else
      (p.upd fun w => w.modifySession a fun s => { s with lastActive := now }).dtlsFinish now heap a
        sess v

/-- `ngx_rtc_stream_on_dtls`. -/
def onDtls (p : Proc) (now : ℕ) (heap : Heap) (c : ℕ) (data : Bytes) (v : DtlsVerdict) : Proc :=
  match p.w.getCtx c with
  | none => p
  | some a =>
    match p.w.sessions.get a with
    | none => p
    | some sess =>
      if sess.fsm.dtlsPending then
        if !(fsmDispatch sess.fsm .dtlsPacket (some ⟨some c, some data⟩)).2 then p
        else if v.create then
          (((p.upd fun w => w.modifySession a
            (Session.dispatch .dtlsPacket (some ⟨some c, some data⟩))).publishState a).upd fun w =>
              w.modifySession a fun s => { s with conn := some c, dtls := some false }).dtlsFeed now
                heap a v
        else
          (((p.upd fun w => w.modifySession a
            (Session.dispatch .dtlsPacket (some ⟨some c, some data⟩))).publishState a).upd fun w =>
              w.modifySession a fun s => { s with conn := some c }).sessionClose now heap .close a
      else p.dtlsFeed now heap a v

/-- `ngx_rtc_stream_dtls_timer`: armed once the DTLS context exists. -/
def dtlsTimer (p : Proc) (now : ℕ) (heap : Heap) (a : ℕ) (v : DtlsVerdict) : Proc :=
  match p.w.sessions.get a with
  | none => p
  | some sess =>
    if sess.dtls = some false then
      if v.accept then p.dtlsFinish now heap a sess v else p.sessionClose now heap .timeout a
    else p

/-- `ngx_rtc_stream_on_rtcp`: `plain` is what unprotecting and decoding the packet gave, and whether
    it held a BYE. -/
def onRtcp (p : Proc) (now : ℕ) (heap : Heap) (c : ℕ) (plain : Option Bool) : Proc :=
  match p.w.getCtx c with
  | none => p
  | some a =>
    match p.w.sessions.get a with
    | none => p
    | some sess =>
      if sess.conn = none ∨ !sess.fsm.isReady then p
      else if plain = some true then
        (p.upd fun w => w.modifySession a fun s => { s with lastActive := now }).sessionClose now
          heap .rtcpBye a
      else p.upd fun w => w.modifySession a fun s => { s with lastActive := now }

end Proc

/-! ## Media -/

/-- What a packet adds to an octet counter. -/
def rtpOctets (rtp : Bytes) : ℕ :=
  if rtpHeaderSize < rtp.length then rtp.length - rtpHeaderSize else rtp.length

def rtpPt (rtp : Bytes) : UInt8 := rtp.getD 1 0 &&& 0x7f

def rtpSsrc (rtp : Bytes) : UInt32 :=
  ((rtp.getD 8 0).toUInt32 <<< 24) ||| ((rtp.getD 9 0).toUInt32 <<< 16) |||
    ((rtp.getD 10 0).toUInt32 <<< 8) ||| (rtp.getD 11 0).toUInt32

/-- Count a packet the source published. -/
def Source.count (isVideo : Bool) (rtp : Bytes) (src : Source) : Source :=
  { src with
    stats :=
      if isVideo then
        { src.stats with
          videoPkts := src.stats.videoPkts + 1
          videoOctets := src.stats.videoOctets + rtpOctets rtp }
      else
        { src.stats with
          audioPkts := src.stats.audioPkts + 1
          audioOctets := src.stats.audioOctets + rtpOctets rtp } }

namespace Proc

/-- `ngx_rtc_broadcast_rtp` of the source at `a`. -/
def broadcast (p : Proc) (a : ℕ) (rtp : Bytes) (isVideo gop : Bool) : Proc :=
  (p.atSource a () fun sh src =>
    match sh with
    | none => (none, src, ())
    | some c =>
      (some (broadcastRtp c p.w src rtp isVideo gop).sh,
        (broadcastRtp c p.w src rtp isVideo gop).src, ())).1

/-- `ngx_rtc_stream_shm_stats`. -/
def shmStats (p : Proc) (a : ℕ) : Option ℕ → Proc
  | none => p
  | some b =>
    match p.w.sources.get a with
    | none => p
    | some src => p.call (.setStats b src.stats)

/-- Fan out one packet of the publisher and count it. -/
def publishRtp (p : Proc) (a : ℕ) (rtp : Bytes) (isVideo gop : Bool) : Proc :=
  (p.broadcast a rtp isVideo gop).upd fun w => w.modifySource a (Source.count isVideo rtp)

/-- Mirror the counters into the shared source, if it was resolved. -/
def mirrorStats (a : ℕ) (r : Proc × Option ℕ) : Proc × Option ℕ := (r.1.shmStats a r.2, r.2)

/-- The path of a packet of the publisher: fan-out, counters, and the shared source, whose claim is
    renewed when the cached pointer is older than the window. -/
def forward (p : Proc) (now a : ℕ) (rtp : Bytes) (isVideo gop : Bool) : Proc × Option ℕ :=
  mirrorStats a ((p.publishRtp a rtp isVideo gop).renew now a)

/-- `ngx_rtc_stream_whip_emit`: a video packet the jitter buffer hands on. -/
def whipEmit (now : ℕ) (slab : Bool) (a : ℕ) (p : Proc) (pkt : Bytes × Bool) : Proc :=
  match p.forward now a pkt.1 true pkt.2 with
  | (p', none) => p'
  | (p', some b) => p'.call (.retransmitAppend b slab pkt.1 pkt.2)

/-- The publisher's RTP SSRC becomes the one of the stream. -/
def learnSsrc (p : Proc) (a : ℕ) (isVideo : Bool) (ssrc : UInt32) : Proc :=
  match p.sh, p.w.sources.get a with
  | some _, some src =>
    if isVideo ∧ src.videoSsrc ≠ ssrc then
      (p.upd fun w => w.modifySource a fun s => { s with videoSsrc := ssrc }).call
        (.setSsrc src.name ssrc 0)
    else if ¬ isVideo ∧ src.audioSsrc ≠ ssrc then
      (p.upd fun w => w.modifySource a fun s => { s with audioSsrc := ssrc }).call
        (.setSsrc src.name 0 ssrc)
    else p
  | _, _ => p

/-- `ngx_rtc_stream_on_srtp`: `plain` is the packet unprotected and with its header normalised, and
    `emitted` what the jitter buffer hands on when a video packet is pushed. -/
def onSrtp (p : Proc) (now : ℕ) (slab : Bool) (c : ℕ) (plain : Option Bytes)
    (emitted : List (Bytes × Bool)) : Proc :=
  match p.w.getCtx c with
  | none => p
  | some a =>
    match p.w.sessions.get a, plain with
    | some sess, some rtp =>
      match sess.source with
      | none => p
      | some src =>
        if !sess.publishing || !sess.fsm.isReady || decide (rtp.length < rtpHeaderSize) then p
        else if rtpPt rtp = sess.videoPt then
          emitted.foldl (whipEmit now slab src)
            ((p.upd fun w => w.modifySession a fun s => { s with lastActive := now }).learnSsrc src
              true (rtpSsrc rtp))
        else if rtpPt rtp = sess.audioPt then
          (((p.upd fun w => w.modifySession a fun s => { s with lastActive := now }).learnSsrc src
            false (rtpSsrc rtp)).forward now src rtp false false).1
        else p.upd fun w => w.modifySession a fun s => { s with lastActive := now }
    | _, _ => p

/-! ## The reap timer -/

end Proc

/-- `ngx_rtc_stream_srv_conf_t`: how long a session may be idle. -/
structure StreamConf where
  handshakeTimeout : ℕ
  readyTimeout : ℕ

/-- The values used when the configuration sets none. -/
def StreamConf.default : StreamConf := ⟨10000, 30000⟩

/-- The session has been idle for too long. -/
def Session.idle (conf : StreamConf) (now : ℕ) (sess : Session) : Bool :=
  (if sess.fsm.isReady then conf.readyTimeout else conf.handshakeTimeout) ≤ now - sess.lastActive

namespace Proc

/-- The control plane asked for the session to be closed. -/
def kicked (p : Proc) (sess : Session) : Bool :=
  p.sh.any fun c => c.sessionIsCloseRequested sess.iceUfrag

/-- The reap timer looking at one session. -/
def reapSession (conf : StreamConf) (now : ℕ) (heap : Heap) (p : Proc) (a : ℕ) : Proc :=
  match p.w.sessions.get a with
  | none => p
  | some sess =>
    if p.kicked sess then p.sessionClose now heap .close a
    else if sess.idle conf now then p.sessionClose now heap .timeout a
    else p

/-- `ngx_rtc_stream_reap_timer`. -/
def reapTimer (p : Proc) (conf : StreamConf) (now : ℕ) (heap : Heap) : Proc :=
  p.w.sessions.addrs.foldl (reapSession conf now heap) (p.call (.expire now false))

/-! ## Requests -/

end Proc

/-- What the handlers read of a parsed SDP offer; 0 is "not offered". -/
structure Offer where
  videoPt : UInt8
  audioPt : UInt8
  twccVideoExt : UInt8
  twccAudioExt : UInt8

/-- The identity of a source that a request takes over from the shared one. -/
def Source.adoptOffer (offer : Offer) (shm : ShmSource) (src : Source) : Source :=
  src.setIdentity shm.videoSsrc shm.audioSsrc
    (if offer.videoPt ≠ 0 then offer.videoPt else shm.videoPt)
    (if offer.audioPt ≠ 0 then offer.audioPt else shm.audioPt)

/-- The session a request builds; it has no id before its skeleton is registered. -/
def Session.fresh (now src : ℕ) (source : Source) (offer : Offer) (publishing : Bool)
    (ufrag : Ufrag) (pwd : Pwd) : Session where
  source := some src
  subLinked := false
  videoPt := if offer.videoPt ≠ 0 then offer.videoPt else source.videoPt
  audioPt := if offer.audioPt ≠ 0 then offer.audioPt else source.audioPt
  twccVideoExt := offer.twccVideoExt
  twccAudioExt := offer.twccAudioExt
  publishing := publishing
  id := 0
  iceUfrag := ufrag
  icePwd := pwd
  dtls := none
  fsm := .new
  conn := none
  lastActive := now
  closePending := false

/-- What a session tells the registry about itself. -/
def Session.args (name : SourceName) (sess : Session) : SessionArgs :=
  ⟨sess.iceUfrag, sess.icePwd, name, sess.videoPt, sess.audioPt, sess.twccVideoExt,
    sess.twccAudioExt, sess.publishing⟩

/-- A play or WHIP request: the stream, the parsed offer, the credentials drawn for the session,
    the allocator's answers, and whether the answer could be built and sent. -/
structure Request where
  env : Env
  envAdd : Env
  heap : Heap
  name : SourceName
  offer : Offer
  ufrag : Ufrag
  pwd : Pwd
  answer : Bool

namespace Proc

/-- Take over the identity of the shared source at `b` and tell it the offered payload types. -/
def takeIdentity (p : Proc) (offer : Offer) (name : SourceName) (src : ℕ) (b : Option ℕ) : Proc :=
  match p.sh, b with
  | some c, some b =>
    match c.sources.get b with
    | none => p
    | some shm =>
      (p.upd fun w => w.modifySource src (Source.adoptOffer offer shm)).call
        (.setPt name offer.videoPt offer.audioPt)
  | _, _ => p

/-- Register the skeleton of the session at `a`; the session takes the skeleton's id. -/
def addSkeleton (p : Proc) (envAdd : Env) (name : SourceName) (a : ℕ) : Proc :=
  match p.sh, p.w.sessions.get a with
  | some c, some sess =>
    ⟨some (c.sessionAdd envAdd (sess.args name)).1,
      match (c.sessionAdd envAdd (sess.args name)).2 with
      | none => p.w
      | some b =>
        p.w.modifySession a fun s =>
          { s with id := (((c.sessionAdd envAdd (sess.args name)).1.sessions.get b).map
            ShmSession.id).getD s.id }⟩
  | _, _ => p

/-- `ngx_rtc_shm_source_get`, with no zone nothing. -/
def shmSourceGet (p : Proc) (env : Env) (name : SourceName) : Proc × Option ℕ :=
  match p.sh with
  | none => (p, none)
  | some c => ({ p with sh := some (c.sourceGet env name).1 }, (c.sourceGet env name).2)

/-- Undo the creation of a source a failed request built. -/
def rollback (p : Proc) (created : Bool) (name : SourceName) : Proc :=
  if created then p.upd fun w => w.sourceRemove name else p

/-- Allocate and register the session of a request on the local source at `src`. -/
def openSession (p : Proc) (r : Request) (src : ℕ) (publishing : Bool) : Proc :=
  match p.w.sources.get src with
  | none => p
  | some v =>
    p.upd fun w => w.sessionAdd (Session.fresh r.env.now src v r.offer publishing r.ufrag r.pwd)

/-- The play request (`ngx_rtc_http_play_body_handler`), once the offer is parsed. -/
def play (p : Proc) (r : Request) : Proc :=
  match p.w.sourceCreate r.heap.source r.name with
  | (_, none, _) => p
  | (w, some src, created) =>
    playOn r src created (shmSourceGet ⟨p.sh, w⟩ r.env r.name)
where
  playOn (r : Request) (src : ℕ) (created : Bool) (g : Proc × Option ℕ) : Proc :=
    if r.heap.session then
      ((g.1.takeIdentity r.offer r.name src g.2).openSession r src false).addSkeleton r.envAdd r.name
        g.1.w.sessions.next
    else (g.1.takeIdentity r.offer r.name src g.2).rollback created r.name

/-- The WHIP request once its claim was granted. -/
def whipGranted (p : Proc) (r : Request) (src : ℕ) (created : Bool) : Proc :=
  if r.heap.session then
    if r.answer then registered
    else
      ((registered.release r.env.now src).upd fun w =>
        w.sessionRemove p.w.sessions.next).rollback created r.name
  else (identified.release r.env.now src).rollback created r.name
where
  identified : Proc :=
    p.takeIdentity r.offer r.name src ((p.w.sources.get src).bind Source.shmSrc)
  registered : Proc :=
    match (identified.openSession r src true).shmSourceGet r.env r.name with
    | (p', none) => p'
    | (p', some _) => p'.addSkeleton r.envAdd r.name p.w.sessions.next

/-- The WHIP request (`ngx_rtc_http_whip_body_handler`), once the offer is parsed. -/
def whip (p : Proc) (r : Request) : Proc :=
  match p.w.sourceCreate r.heap.source r.name with
  | (_, none, _) => p
  | (w, some src, created) =>
    if Proc.kindAt ⟨p.sh, w⟩ src = some .rtmp then Proc.rollback ⟨p.sh, w⟩ created r.name
    else
      match Proc.claim ⟨p.sh, w⟩ r.env src .whip with
      | (p', .busy) => p'.rollback created r.name
      | (p', _) => p'.whipGranted r src created

/-! ## RTMP ingest -/

/-- The start of `ngx_rtmp_rtc_av` and `ngx_rtmp_rtc_audio`: the local source, and its shared claim.
    `none` refuses the message. -/
def rtmpSync (p : Proc) (env : Env) (heap : Heap) (name : SourceName) : Proc × Option ℕ :=
  match p.w.sourceCreate heap.source name with
  | (_, none, _) => (p, none)
  | (w, some src, _) =>
    match Proc.atSource ⟨p.sh, w⟩ src .error fun sh v => rtmpSyncShm sh p.w.slot env v with
    | (p', .ok) => (p', some src)
    | (p', _) => (p', none)

/-- An audio message; `header` is an AAC sequence header, and whether its transcoder was built. -/
def rtmpAudio (p : Proc) (env : Env) (heap : Heap) (name : SourceName) (header : Option Bool) :
    Proc :=
  match p.rtmpSync env heap name, header with
  | (p', some src), some built =>
    p'.upd fun w => w.modifySource src fun s => { s with audioCtx := built }
  | (p', _), _ => p'

/-- `ngx_rtmp_rtc_release_publish`, for the session that published the name. -/
def rtmpRelease (p : Proc) (now : ℕ) (name : SourceName) : Proc :=
  match p.w.sourceLookup name with
  | none => p
  | some src =>
    if p.kindAt src = some .rtmp then
      ((p.upd fun w => w.modifySource src fun s => { s with audioCtx := false }).release now
        src).upd fun w => w.sourceRemove name
    else p.upd fun w => w.modifySource src fun s => { s with audioCtx := false }

end Proc

/-! ## Steps -/

/-- The events of one worker, and the registry calls of the others. -/
inductive ProcEvent where
  | play (r : Request)
  | whip (r : Request)
  | accept
  | stun (env : Env) (heap : Heap) (c : ℕ) (ufrag : Ufrag) (verified : Pwd → Bool)
  | dtls (now : ℕ) (heap : Heap) (c : ℕ) (data : Bytes) (v : DtlsVerdict)
  | dtlsTimer (now : ℕ) (heap : Heap) (a : ℕ) (v : DtlsVerdict)
  | rtcp (now : ℕ) (heap : Heap) (c : ℕ) (plain : Option Bool)
  | srtp (now : ℕ) (slab : Bool) (c : ℕ) (plain : Option Bytes) (emitted : List (Bytes × Bool))
  | reap (conf : StreamConf) (now : ℕ) (heap : Heap) (a : ℕ)
  | finalize (c : ℕ)
  | rtmpVideo (env : Env) (heap : Heap) (name : SourceName)
  | rtmpAudio (env : Env) (heap : Heap) (name : SourceName) (header : Option Bool)
  | rtmpRelease (now : ℕ) (name : SourceName)
  | others (op : ShmOp)

namespace Proc

/-- The worker numbered `slot` at its start, in a zone of `nworkers` workers or in none. -/
def init (slot : ℕ) (sh : Option ShmCtx) : Proc := ⟨sh, Worker.init slot⟩

def step (p : Proc) : ProcEvent → Proc
  | .play r => p.play r
  | .whip r => p.whip r
  | .accept => p.upd Worker.accept
  | .stun env heap c ufrag verified =>
    if (p.w.conns.get c).isSome then p.onStun env heap c ufrag verified else p
  | .dtls now heap c data v => p.onDtls now heap c data v
  | .dtlsTimer now heap a v => p.dtlsTimer now heap a v
  | .rtcp now heap c plain => p.onRtcp now heap c plain
  | .srtp now slab c plain emitted => p.onSrtp now slab c plain emitted
  | .reap conf now heap a => reapSession conf now heap p a
  | .finalize c => p.finalize c
  | .rtmpVideo env heap name => (p.rtmpSync env heap name).1
  | .rtmpAudio env heap name header => p.rtmpAudio env heap name header
  | .rtmpRelease now name => p.rtmpRelease now name
  | .others op => p.call op

/-- A request for the sample stream at time 5, in worked runs. -/
def sampleRequest (b : UInt8) : Request :=
  ⟨Env.at 5, Env.at 5, Heap.ample, sampleName, ⟨102, 111, 0, 0⟩, sampleUfrag b, samplePwd, true⟩

/-! ### Calls that leave the worker as it is -/

theorem publishState_w (p : Proc) (a : ℕ) : (p.publishState a).w = p.w := by
  unfold Proc.publishState
  split <;> rfl

theorem shmStats_w (p : Proc) (a : ℕ) (b : Option ℕ) : (p.shmStats a b).w = p.w := by
  unfold Proc.shmStats
  split
  · rfl
  · split <;> rfl

theorem shmSourceGet_w (p : Proc) (env : Env) (name : SourceName) :
    (p.shmSourceGet env name).1.w = p.w := by
  unfold Proc.shmSourceGet
  split <;> rfl

theorem attachSource_sessions (p : Proc) (env : Env) (heap : Heap) (snap : SessionSnapshot) :
    (p.attachSource env heap snap).1.w.sessions = p.w.sessions := by
  unfold Proc.attachSource
  split
  · rfl
  · split
    · rfl
    · next w y created hw =>
      have hws : w.sessions = p.w.sessions := by
        rcases Worker.sourceCreate_cases hw with ⟨-, rfl, -⟩ | ⟨-, -, -, rfl⟩ <;> rfl
      unfold Proc.atSource
      split <;> exact hws

theorem openSession_sources (p : Proc) (r : Request) (src : ℕ) (publishing : Bool) :
    (p.openSession r src publishing).w.sources = p.w.sources := by
  unfold Proc.openSession
  split <;> rfl

theorem addSkeleton_sources (p : Proc) (envAdd : Env) (name : SourceName) (a : ℕ) :
    (p.addSkeleton envAdd name a).w.sources = p.w.sources := by
  unfold Proc.addSkeleton
  split
  · dsimp only
    split <;> rfl
  · rfl

/-- The registration of a session leaves the local sources alone. -/
theorem registered_sources (p : Proc) (r : Request) (src : ℕ) :
    (Proc.whipGranted.registered p r src).w.sources =
      (Proc.whipGranted.identified p r src).w.sources := by
  have hg : (((Proc.whipGranted.identified p r src).openSession r src true).shmSourceGet r.env
      r.name).1.w.sources = (Proc.whipGranted.identified p r src).w.sources := by
    rw [shmSourceGet_w, openSession_sources]
  unfold Proc.whipGranted.registered
  split
  · next he => rw [he] at hg; exact hg
  · next he =>
    rw [he] at hg
    rw [addSkeleton_sources]
    exact hg

/-! ### The reap timer as a run -/

/-- A reap timer is a sweep, and then one check for each session. -/
theorem reapTimer_run (p : Proc) (conf : StreamConf) (now : ℕ) (heap : Heap) :
    p.reapTimer conf now heap =
      Lts.run step p (.others (.expire now false) ::
        p.w.sessions.addrs.map fun a => .reap conf now heap a) := by
  rw [reapTimer, Lts.run_cons, Lts.run, List.foldl_map]
  rfl

end Proc

end NginxRtc
