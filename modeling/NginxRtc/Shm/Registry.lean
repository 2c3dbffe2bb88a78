/-
  The shared registry (`ngx_rtc_shm_ctx_t`): sources, session skeletons and media rings.

  Every function below is one critical section under the slab pool mutex, so it is a function of
  the whole registry.  A source stands in the name tree and in the source list at once; the model
  keeps one pool for both.  Pointers between the two kinds of entry are addresses, so an entry
  that was freed is an address with no value.

  `Env` is what a call takes from outside: the clock, the answers of the slab allocator (first
  attempt, and retry after a forced sweep) and the random SSRCs.
-/
import NginxRtc.Basic
import NginxRtc.Lib.Pool
import NginxRtc.Shm.Ring
import NginxRtc.Shm.Retransmit

namespace NginxRtc

/-- Packet and octet counters a publisher mirrors into its shared source. -/
structure MediaStats where
  videoPkts : ℕ
  videoOctets : ℕ
  audioPkts : ℕ
  audioOctets : ℕ
deriving DecidableEq

def MediaStats.zero : MediaStats := ⟨0, 0, 0, 0⟩

/-- `ngx_rtc_shm_source_t`.  `subscribers` lists the linked skeletons, newest first. -/
structure ShmSource where
  name : SourceName
  publishing : Bool
  publisherKind : Option PublisherKind
  expires : ℕ
  publisherSeenMs : ℕ
  publisherSlot : Option ℕ
  videoSsrc : UInt32
  videoPt : UInt8
  audioSsrc : UInt32
  audioPt : UInt8
  stats : MediaStats
  subscribersVersion : ℕ
  subscribers : List ℕ
  remoteSubscribers : ℕ
  retransmit : Option RetransmitRing
  retransmitAllocFailed : ℕ
  retxAppendLocked : ℕ

/-- `ngx_rtc_shm_session_t`.  `subLinked` is the test that `sub_queue` is not self-linked. -/
structure ShmSession where
  source : ℕ
  subLinked : Bool
  id : ℕ
  iceUfrag : Ufrag
  icePwd : Pwd
  videoPt : UInt8
  audioPt : UInt8
  twccVideoExt : UInt8
  twccAudioExt : UInt8
  publishing : Bool
  srtpReady : Bool
  ownerSlot : Option ℕ
  closeRequested : Bool
  expires : ℕ
  state : SessionState
deriving DecidableEq

structure ShmCtx where
  sources : Pool ShmSource
  sessions : Pool ShmSession
  rings : List (Option MediaRing)
  nextSessionId : ℕ
  nworkers : ℕ

structure Env where
  now : ℕ
  slab : Bool
  slabRetry : Bool
  videoSsrc : UInt32
  audioSsrc : UInt32
deriving DecidableEq

/-- A call at time `now` with memory to spare. -/
def Env.at (now : ℕ) : Env := ⟨now, true, true, 0, 0⟩

/-! ## Sources -/

/-- The zeroed source `ngx_rtc_shm_source_get` fills in. -/
def ShmSource.fresh (env : Env) (name : SourceName) : ShmSource where
  name := name
  publishing := false
  publisherKind := none
  expires := env.now + shmSourceExpireMs
  publisherSeenMs := 0
  publisherSlot := none
  videoSsrc := env.videoSsrc
  videoPt := payloadTypeH264
  audioSsrc := env.audioSsrc
  audioPt := payloadTypeOpus
  stats := MediaStats.zero
  subscribersVersion := 0
  subscribers := []
  remoteSubscribers := 0
  retransmit := none
  retransmitAllocFailed := 0
  retxAppendLocked := 0

/-- Unlink the skeleton at `a`, which worker `owner` owns, from the subscriber list. -/
def ShmSource.unlink (a : ℕ) (owner : Option ℕ) (src : ShmSource) : ShmSource :=
  { src with
    subscribers := src.subscribers.erase a
    remoteSubscribers :=
      if owner ≠ src.publisherSlot then src.remoteSubscribers - 1 else src.remoteSubscribers
    subscribersVersion := src.subscribersVersion + 1 }

/-- Start the empty-source grace after a session left. -/
def ShmSource.armGrace (now : ℕ) (src : ShmSource) : ShmSource :=
  if src.subscribers = [] ∧ src.publishing = false ∧ src.expires = 0 then
    { src with expires := now + shmSourceExpireMs }
  else src

/-- What freeing the skeleton `sess` at `a` does to its source. -/
def ShmSource.dropSession (now : ℕ) (a : ℕ) (sess : ShmSession) (src : ShmSource) : ShmSource :=
  (if sess.subLinked then src.unlink a sess.ownerSlot else src).armGrace now

/-- Link the skeleton at `a` at the head of the subscriber list. -/
def ShmSource.link (a : ℕ) (owner : Option ℕ) (src : ShmSource) : ShmSource :=
  { src with
    subscribers := a :: src.subscribers
    subscribersVersion := src.subscribersVersion + 1
    expires := 0
    remoteSubscribers :=
      if owner ≠ src.publisherSlot then src.remoteSubscribers + 1 else src.remoteSubscribers }

/-- The publisher's heartbeat is younger than the dead-publisher grace. -/
def ShmSource.alive (now : ℕ) (src : ShmSource) : Bool :=
  src.publisherSeenMs ≠ 0 && now - src.publisherSeenMs < shmPublishGraceMs

/-- Clear the publish flag of a dead publisher and re-arm the empty-source deadline. -/
def ShmSource.reapPublisher (now : ℕ) (src : ShmSource) : ShmSource :=
  { src with
    publishing := false
    publisherKind := none
    expires := if src.expires = 0 then now + shmSourceExpireMs else src.expires }

/-- The source once the sweep has given up on its publisher, if it had one. -/
def ShmSource.settled (now : ℕ) (src : ShmSource) : ShmSource :=
  if src.publishing then src.reapPublisher now else src

/-- A sweep may free a source no skeleton refers to once its deadline has passed. -/
def ShmSource.due (now : ℕ) (forced referenced : Bool) (src : ShmSource) : Bool :=
  src.expires ≠ 0 && (forced || decide (src.expires ≤ now)) && !referenced

/-- An expiry sweep looking at one source: `none` frees it. -/
def ShmSource.expireStep (now : ℕ) (forced referenced : Bool) (src : ShmSource) :
    Option ShmSource :=
  if src.publishing && src.alive now then some src
  else if (src.settled now).subscribers ≠ [] then some (src.settled now)
  else if (src.settled now).due now forced referenced then none
  else some (src.settled now)

/-- The locked half of `ngx_rtc_shm_retransmit_append`; `slab` is the answer of the allocator when
    the ring is built on first use. -/
def ShmSource.appendLocked (slab : Bool) (rtp : Bytes) (gop : Bool)
    (src : ShmSource) : ShmSource :=
  let src := { src with retxAppendLocked := src.retxAppendLocked + 1 }
  if src.remoteSubscribers = 0 then src
  else
    match src.retransmit, slab with
    | some r, _ => { src with retransmit := some (r.push rtp gop) }
    | none, true => { src with retransmit := some (RetransmitRing.alloc.push rtp gop) }
    | none, false => { src with retransmitAllocFailed := src.retransmitAllocFailed + 1 }

/-! ## Skeletons -/

/-- What a signaling worker registers for a new session. -/
structure SessionArgs where
  ufrag : Ufrag
  pwd : Pwd
  name : SourceName
  videoPt : UInt8
  audioPt : UInt8
  twccVideoExt : UInt8
  twccAudioExt : UInt8
  publishing : Bool
deriving DecidableEq

/-- The zeroed skeleton `ngx_rtc_shm_session_add` fills in. -/
def ShmSession.fresh (now : ℕ) (id src : ℕ) (args : SessionArgs) : ShmSession where
  source := src
  subLinked := false
  id := id
  iceUfrag := args.ufrag
  icePwd := args.pwd
  videoPt := args.videoPt
  audioPt := args.audioPt
  twccVideoExt := args.twccVideoExt
  twccAudioExt := args.twccAudioExt
  publishing := args.publishing
  srtpReady := false
  ownerSlot := none
  closeRequested := false
  expires := now + shmSessionExpireMs
  state := .new

/-- The session with ufrag `b` of the sample stream, in worked runs. -/
def SessionArgs.sample (b : UInt8) (publishing : Bool) : SessionArgs :=
  ⟨sampleUfrag b, samplePwd, sampleName, 102, 111, 0, 0, publishing⟩

/-- The skeleton `slot` may act on: unbound, or its own. -/
def ShmSession.ownableBy (slot : ℕ) (sess : ShmSession) : Bool :=
  sess.ownerSlot = none || sess.ownerSlot = some slot

/-- A skeleton no worker has bound whose deadline has passed, or any such one when forced. -/
def ShmSession.halfOpenDue (now : ℕ) (forced : Bool) (sess : ShmSession) : Bool :=
  sess.ownerSlot = none && sess.expires ≠ 0 && (forced || decide (sess.expires ≤ now))

/-- The skeleton after `ngx_rtc_shm_session_activate`, its subscriber link apart. -/
def ShmSession.activated (slot : ℕ) (sess : ShmSession) : ShmSession :=
  { sess with
    ownerSlot := some slot
    srtpReady := true
    state := .srtpReady
    expires := 0 }

/-- The activated skeleton once it is linked into its source's subscriber list. -/
def ShmSession.subscribed (slot : ℕ) (sess : ShmSession) : ShmSession :=
  { sess.activated slot with subLinked := true }

/-- `ngx_rtc_shm_session_snapshot_t`: the immutable fields of a skeleton and of its source. -/
structure SessionSnapshot where
  id : ℕ
  iceUfrag : Ufrag
  icePwd : Pwd
  videoPt : UInt8
  audioPt : UInt8
  twccVideoExt : UInt8
  twccAudioExt : UInt8
  publishing : Bool
  srtpReady : Bool
  source : Option (SourceName × UInt32 × UInt32 × UInt8 × UInt8)
deriving DecidableEq

namespace ShmCtx

/-! ## Lookups -/

/-- `ngx_rtc_shm_source_locked_lookup`. -/
def sourceLookup (c : ShmCtx) (name : SourceName) : Option ℕ :=
  c.sources.find? fun s => s.name = name

/-- `ngx_rtc_shm_session_locked_lookup`. -/
def sessionLookup (c : ShmCtx) (ufrag : Ufrag) : Option ℕ :=
  c.sessions.find? fun s => s.iceUfrag = ufrag

/-- `ngx_rtc_shm_source_referenced_locked`. -/
def sourceReferenced (c : ShmCtx) (a : ℕ) : Bool :=
  c.sessions.cells.any fun p => p.2.source = a

/-! ## Freeing -/

/-- `ngx_rtc_shm_session_free_locked`. -/
def sessionFree (c : ShmCtx) (now : ℕ) (a : ℕ) : ShmCtx :=
  match c.sessions.get a with
  | none => c
  | some sess =>
    { c with
      sessions := c.sessions.free a
      sources := c.sources.modify sess.source (ShmSource.dropSession now a sess) }

/-- The first pass of a sweep looking at the skeleton at `a`. -/
def expireSession (now : ℕ) (forced : Bool) (c : ShmCtx) (a : ℕ) : ShmCtx :=
  match c.sessions.get a with
  | none => c
  | some sess => if sess.halfOpenDue now forced then c.sessionFree now a else c

/-- The first pass of `ngx_rtc_shm_expire_locked`: half-open skeletons. -/
def expireSessions (c : ShmCtx) (now : ℕ) (forced : Bool) : ShmCtx :=
  c.sessions.addrs.foldl (expireSession now forced) c

/-- The second pass: dead publishers and empty sources. -/
def expireSources (c : ShmCtx) (now : ℕ) (forced : Bool) : ShmCtx :=
  { c with sources := c.sources.sweep fun a => ShmSource.expireStep now forced (c.sourceReferenced a) }

/-- `ngx_rtc_shm_expire_locked`. -/
def expire (c : ShmCtx) (now : ℕ) (forced : Bool) : ShmCtx :=
  (c.expireSessions now forced).expireSources now forced

/-- A slab allocation under pressure: sweep by force, then retry.  The flag says whether memory
    was found. -/
def slabAlloc (c : ShmCtx) (env : Env) : ShmCtx × Bool :=
  if env.slab then (c, true) else (c.expire env.now true, env.slabRetry)

/-! ## Source operations -/

/-- Insert the source called `name` into the tree and at the head of the list. -/
def addSource (c : ShmCtx) (env : Env) (name : SourceName) : ShmCtx :=
  { c with sources := c.sources.alloc (ShmSource.fresh env name) }

/-- `ngx_rtc_shm_source_get`. -/
def sourceGet (c : ShmCtx) (env : Env) (name : SourceName) : ShmCtx × Option ℕ :=
  match c.sourceLookup name with
  | some a => (c, some a)
  | none =>
    if (c.slabAlloc env).2 then
      ((c.slabAlloc env).1.addSource env name, some (c.slabAlloc env).1.sources.next)
    else ((c.slabAlloc env).1, none)

/-- `ngx_rtc_shm_source_remove`. -/
def sourceRemove (c : ShmCtx) (name : SourceName) : ShmCtx :=
  match c.sourceLookup name with
  | none => c
  | some a =>
    match c.sources.get a with
    | none => c
    | some src =>
      if src.subscribers ≠ [] then c
      else if src.publishing then c
      else if c.sourceReferenced a then c
      else { c with sources := c.sources.free a }

/-- Apply `f` to the source called `name`, if there is one. -/
def modifySource (c : ShmCtx) (name : SourceName) (f : ShmSource → ShmSource) : ShmCtx :=
  match c.sourceLookup name with
  | none => c
  | some a => { c with sources := c.sources.modify a f }

/-- The source called `name`. -/
def source? (c : ShmCtx) (name : SourceName) : Option ShmSource :=
  (c.sourceLookup name).bind c.sources.get

/-- `ngx_rtc_shm_source_try_publish`. -/
def sourceTryPublish (c : ShmCtx) (now : ℕ) (name : SourceName) (kind : PublisherKind) :
    ShmCtx × Rc :=
  match c.source? name with
  | none => (c, .error)
  | some src =>
    if src.publisherKind ≠ none ∧ src.publisherKind ≠ some kind then (c, .busy)
    else
      (c.modifySource name fun src =>
        { src with
          publisherKind := some kind
          publishing := true
          expires := 0
          publisherSeenMs := now }, .ok)

/-- `ngx_rtc_shm_source_release_publish`. -/
def sourceReleasePublish (c : ShmCtx) (now : ℕ) (name : SourceName) (kind : PublisherKind) :
    ShmCtx :=
  match c.source? name with
  | none => c
  | some src =>
    if src.publisherKind ≠ some kind then c
    else
      c.modifySource name fun src =>
        { src with
          publisherKind := none
          publishing := false
          expires :=
            if src.subscribers ≠ [] then 0
            else if src.expires = 0 then now + shmSourceExpireMs
            else src.expires }

/-- `ngx_rtc_shm_source_set_pt`. -/
def sourceSetPt (c : ShmCtx) (name : SourceName) (videoPt audioPt : UInt8) : ShmCtx :=
  c.modifySource name fun src =>
    { src with
      videoPt := if videoPt ≠ 0 then videoPt else src.videoPt
      audioPt := if audioPt ≠ 0 then audioPt else src.audioPt }

/-- `ngx_rtc_shm_source_set_ssrc`. -/
def sourceSetSsrc (c : ShmCtx) (name : SourceName) (videoSsrc audioSsrc : UInt32) : ShmCtx :=
  c.modifySource name fun src =>
    { src with
      videoSsrc := if videoSsrc ≠ 0 then videoSsrc else src.videoSsrc
      audioSsrc := if audioSsrc ≠ 0 then audioSsrc else src.audioSsrc }

/-- `ngx_rtc_shm_source_snapshot`: ids and owner slots of at most `max` ready subscribers. -/
def sourceSnapshot (c : ShmCtx) (name : SourceName) (max : ℕ) : List (ℕ × ℕ) :=
  match c.source? name with
  | none => []
  | some src => (src.subscribers.filterMap fun a => (c.sessions.get a).bind (ready c)).take max
where
  /-- The id and the owner of a skeleton that is ready and owned by a running worker. -/
  ready (c : ShmCtx) (sess : ShmSession) : Option (ℕ × ℕ) :=
    if sess.srtpReady then
      sess.ownerSlot.bind fun w => if w < c.nworkers then some (sess.id, w) else none
    else none

/-! ## Session operations -/

/-- Insert a skeleton that points at the source at `src` at the head of the session list. -/
def addSkeleton (c : ShmCtx) (now src : ℕ) (args : SessionArgs) : ShmCtx :=
  { c with
    sessions := c.sessions.alloc (ShmSession.fresh now c.nextSessionId src args)
    nextSessionId := c.nextSessionId + 1 }

/-- `ngx_rtc_shm_session_add`.  The source is looked up before the allocation and not again after
    the forced sweep. -/
def sessionAdd (c : ShmCtx) (env : Env) (args : SessionArgs) : ShmCtx × Option ℕ :=
  match c.sourceLookup args.name with
  | none => (c, none)
  | some src =>
    if (c.slabAlloc env).2 then
      ((c.slabAlloc env).1.addSkeleton env.now src args, some (c.slabAlloc env).1.sessions.next)
    else ((c.slabAlloc env).1, none)

/-- What `ngx_rtc_shm_session_bind` copies out under the mutex. -/
def snapshotOf (c : ShmCtx) (sess : ShmSession) : SessionSnapshot where
  id := sess.id
  iceUfrag := sess.iceUfrag
  icePwd := sess.icePwd
  videoPt := sess.videoPt
  audioPt := sess.audioPt
  twccVideoExt := sess.twccVideoExt
  twccAudioExt := sess.twccAudioExt
  publishing := sess.publishing
  srtpReady := sess.srtpReady
  source := (c.sources.get sess.source).map fun src =>
    (src.name, src.videoSsrc, src.audioSsrc, src.videoPt, src.audioPt)

/-- `ngx_rtc_shm_session_bind`. -/
def sessionBind (c : ShmCtx) (ufrag : Ufrag) (slot : ℕ) : ShmCtx × Rc × Option SessionSnapshot :=
  match c.sessionLookup ufrag with
  | none => (c, .error, none)
  | some a =>
    match c.sessions.get a with
    | none => (c, .error, none)
    | some sess =>
      if sess.ownableBy slot then
        ({ c with sessions := c.sessions.modify a fun s => { s with ownerSlot := some slot } },
          .ok, some (c.snapshotOf sess))
      else (c, .declined, none)

/-- `ngx_rtc_shm_session_activate`. -/
def sessionActivate (c : ShmCtx) (ufrag : Ufrag) (slot : ℕ) : ShmCtx × Rc :=
  match c.sessionLookup ufrag with
  | none => (c, .error)
  | some a =>
    match c.sessions.get a with
    | none => (c, .error)
    | some sess =>
      if !sess.ownableBy slot then (c, .declined)
      else if sess.publishing || sess.subLinked then
        ({ c with sessions := c.sessions.modify a (ShmSession.activated slot) }, .ok)
      else
        ({ c with
            sessions := c.sessions.modify a (ShmSession.subscribed slot)
            sources := c.sources.modify sess.source (ShmSource.link a (some slot)) }, .ok)

/-- `ngx_rtc_shm_session_remove_if_owner`. -/
def sessionRemoveIfOwner (c : ShmCtx) (now : ℕ) (ufrag : Ufrag) (slot : ℕ) : ShmCtx :=
  match c.sessionLookup ufrag with
  | none => c
  | some a =>
    match c.sessions.get a with
    | none => c
    | some sess => if sess.ownableBy slot then c.sessionFree now a else c

/-- `ngx_rtc_shm_session_request_close`. -/
def sessionRequestClose (c : ShmCtx) (id : ℕ) : ShmCtx × Rc :=
  match c.sessions.find? fun s => s.id = id with
  | none => (c, .error)
  | some a =>
    ({ c with sessions := c.sessions.modify a fun s => { s with closeRequested := true } }, .ok)

/-- `ngx_rtc_shm_session_is_close_requested`. -/
def sessionIsCloseRequested (c : ShmCtx) (ufrag : Ufrag) : Bool :=
  ((c.sessionLookup ufrag).bind c.sessions.get).any fun s => s.closeRequested

/-- `ngx_rtc_shm_session_set_state`. -/
def sessionSetState (c : ShmCtx) (ufrag : Ufrag) (slot : ℕ) (state : SessionState) : ShmCtx :=
  match c.sessionLookup ufrag with
  | none => c
  | some a =>
    { c with
      sessions := c.sessions.modify a fun s =>
        if s.ownableBy slot then { s with state := state } else s }

/-! ## Lock-free writes and the retransmit ring -/

/-- `shm_src->publisher_slot = ngx_worker`, through a cached pointer. -/
def setPublisherSlot (c : ShmCtx) (a slot : ℕ) : ShmCtx :=
  { c with sources := c.sources.modify a fun src => { src with publisherSlot := some slot } }

/-- The counters a WHIP publisher writes through its cached pointer. -/
def setStats (c : ShmCtx) (a : ℕ) (stats : MediaStats) : ShmCtx :=
  { c with sources := c.sources.modify a fun src => { src with stats := stats } }

/-- The counters and the heartbeat an RTMP publisher writes through its cached pointer. -/
def setStatsSeen (c : ShmCtx) (a : ℕ) (stats : MediaStats) (now : ℕ) : ShmCtx :=
  { c with
    sources := c.sources.modify a fun src => { src with stats := stats, publisherSeenMs := now } }

/-- `ngx_rtc_shm_retransmit_append`: nothing is locked or copied while no viewer is remote. -/
def retransmitAppend (c : ShmCtx) (a : ℕ) (slab : Bool) (rtp : Bytes) (gop : Bool) : ShmCtx :=
  if rtp.length = 0 ∨ ringRtpMax < rtp.length then c
  else
    match c.sources.get a with
    | none => c
    | some src =>
      if src.remoteSubscribers = 0 then c
      else { c with sources := c.sources.modify a (ShmSource.appendLocked slab rtp gop) }

end ShmCtx

end NginxRtc
