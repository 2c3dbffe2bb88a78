/-
  The statistics document (`ngx_rtc_http_render_stats`).

  The document is written piece by piece into a buffer that cuts off what does not fit; a source, or
  a session, is only started while a reserve is left at the end of the buffer.

  `length_sourceHead_le`, `length_sessionPiece_le`, `length_sourceTail_le`, `length_totalsPiece_le`:
  how long the pieces can get, so that the reserve is enough for the ones that must follow.
-/
import NginxRtc.Basic
import NginxRtc.Lib.Text
import NginxRtc.Sdp.Answer
import Mathlib.Algebra.Order.Group.Nat

namespace NginxRtc

def statsReserve : ℕ := 2048
def statsBufLen : ℕ := 16384

/-! ## What is rendered -/

/-- A session skeleton: the address of its source, and `ufrag`, the random number its ICE fragment
    was made of. -/
structure StatsSession where
  source : ℕ
  id : UInt64
  ufrag : UInt32
  state : UInt8
  twccLost : UInt64
  twccReceived : UInt64
  pacerBps : UInt64
  dropPacer : UInt64
  dropGop : UInt64

structure StatsMedia where
  ssrc : UInt32
  pt : UInt8
  packets : UInt64
  octets : UInt64

structure RetxLock where
  appendLocked : UInt64
  appendUs : UInt64
  replayCount : UInt64
  replaySlots : UInt64
  replayUs : UInt64

/-- A source at its address, with the owner slots of its subscribers.  Its name is a C string. -/
structure StatsSource where
  addr : ℕ
  name : SourceName
  terminated : (0 : UInt8) ∉ name.bytes
  publishing : UInt64
  publisherSlot : Int64
  subscribers : List Int64
  sendFailed : UInt64
  sendEagain : UInt64
  video : StatsMedia
  audio : StatsMedia
  retransmitAllocFailed : UInt64
  retxLock : RetxLock

/-- The lists of the shared registry. -/
structure StatsCtx where
  sessions : List StatsSession
  sources : List StatsSource

structure StatsTotals where
  streams : UInt64
  clients : UInt64
  videoOctets : UInt64
  audioOctets : UInt64
  sendFailed : UInt64
  sendEagain : UInt64
  retransmitAllocFailed : UInt64
  retxLock : RetxLock

def StatsTotals.zero : StatsTotals := ⟨0, 0, 0, 0, 0, 0, 0, ⟨0, 0, 0, 0, 0⟩⟩

def RetxLock.add (a b : RetxLock) : RetxLock :=
  ⟨a.appendLocked + b.appendLocked, a.appendUs + b.appendUs, a.replayCount + b.replayCount,
    a.replaySlots + b.replaySlots, a.replayUs + b.replayUs⟩

namespace StatsSource

def nsub (src : StatsSource) : UInt64 := UInt64.ofNat src.subscribers.length

/-- A subscriber is bound to a worker other than the publisher's. -/
def cross (src : StatsSource) : UInt64 :=
  if src.subscribers.any fun slot => 0 ≤ slot && slot ≠ src.publisherSlot then 1 else 0

end StatsSource

def StatsTotals.add (t : StatsTotals) (src : StatsSource) : StatsTotals where
  streams := t.streams + 1
  clients := t.clients + src.nsub
  videoOctets := t.videoOctets + src.video.octets
  audioOctets := t.audioOctets + src.audio.octets
  sendFailed := t.sendFailed + src.sendFailed
  sendEagain := t.sendEagain + src.sendEagain
  retransmitAllocFailed := t.retransmitAllocFailed + src.retransmitAllocFailed
  retxLock := t.retxLock.add src.retxLock

/-- A state byte no enumerator has counts as unknown. -/
def clampState (st : UInt8) : UInt8 := if 5 < st then 0 else st

/-- `ngx_rtc_session_fsm_state_name`. -/
def stateName (st : UInt8) : String :=
  if st = 1 then "NEW"
  else if st = 2 then "ICE_BOUND"
  else if st = 3 then "DTLS_HANDSHAKE"
  else if st = 4 then "SRTP_READY"
  else if st = 5 then "CLOSED"
  else "UNKNOWN"

/-- `session_states[st]`. -/
def StatsCtx.stateCount (v : StatsCtx) (st : UInt8) : UInt64 :=
  UInt64.ofNat (v.sessions.countP fun s => clampState s.state = st)

/-! ## Rendering -/

/-- `%ui`, `%uA`. -/
def ui (n : UInt64) : Bytes := Text.decimal n.toNat

/-- `%uD`. -/
def uD (n : UInt32) : Bytes := Text.decimal n.toNat

/-- `%i`. -/
def signed (n : Int64) : Bytes :=
  if n < 0 then 45 :: Text.decimal n.toInt.natAbs else Text.decimal n.toInt.natAbs

/-- `ngx_slprintf` at the end of what was written into a buffer of `cap` bytes. -/
def slprintf (cap : ℕ) (p text : Bytes) : Bytes := (p ++ text).take cap

def comma (first : Bool) : Bytes := if first then [] else Text.ascii ","

/-- `ice_ufrag`. -/
def iceUfrag (ufrag : UInt32) : Bytes := Sdp.hex8 ufrag ++ Text.ascii "u"

/-- `"k":` in a format. -/
def label (k : String) : Bytes := Text.ascii "\"" ++ Text.ascii k ++ Text.ascii "\":"

/-- The first piece of a source. -/
def sourceHead (first : Bool) (src : StatsSource) : Bytes :=
  comma first ++ (Text.ascii "\x7b" ++ label "name" ++ Text.ascii "\"" ++ src.name.bytes ++
    Text.ascii "\"," ++ label "publishing" ++ ui src.publishing ++
    Text.ascii "," ++ label "pub_worker" ++ signed src.publisherSlot ++
    Text.ascii "," ++ label "cross_worker" ++ ui src.cross ++
    Text.ascii "," ++ label "clients" ++ ui src.nsub ++
    Text.ascii "," ++ label "send_failed" ++ ui src.sendFailed ++
    Text.ascii "," ++ label "send_eagain" ++ ui src.sendEagain ++
    Text.ascii "," ++ label "sessions" ++ Text.ascii "[")

def sessionPiece (first : Bool) (s : StatsSession) : Bytes :=
  comma first ++ (Text.ascii "\x7b" ++ label "id" ++ ui s.id ++
    Text.ascii "," ++ label "ufrag" ++ Text.ascii "\"" ++ iceUfrag s.ufrag ++
    Text.ascii "\"," ++ label "state" ++ Text.ascii "\"" ++
      Text.ascii (stateName (clampState s.state)) ++
    Text.ascii "\"," ++ label "twcc_lost" ++ ui s.twccLost ++
    Text.ascii "," ++ label "twcc_received" ++ ui s.twccReceived ++
    Text.ascii "," ++ label "pacer_bps" ++ ui s.pacerBps ++
    Text.ascii "," ++ label "drop_pacer" ++ ui s.dropPacer ++
    Text.ascii "," ++ label "drop_gop" ++ ui s.dropGop ++ Text.ascii "\x7d")

def mediaPiece (m : StatsMedia) : Bytes :=
  Text.ascii "\x7b" ++ label "ssrc" ++ uD m.ssrc ++
    Text.ascii "," ++ label "pt" ++ ui m.pt.toUInt64 ++
    Text.ascii "," ++ label "packets" ++ ui m.packets ++
    Text.ascii "," ++ label "octets" ++ ui m.octets ++ Text.ascii "\x7d"

def retxPiece (r : RetxLock) : Bytes :=
  Text.ascii "\x7b" ++ label "append_locked" ++ ui r.appendLocked ++
    Text.ascii "," ++ label "append_us" ++ ui r.appendUs ++
    Text.ascii "," ++ label "replay_count" ++ ui r.replayCount ++
    Text.ascii "," ++ label "replay_slots" ++ ui r.replaySlots ++
    Text.ascii "," ++ label "replay_us" ++ ui r.replayUs ++ Text.ascii "\x7d"

/-- The last piece of a source. -/
def sourceTail (src : StatsSource) : Bytes :=
  Text.ascii "]," ++ label "video" ++ mediaPiece src.video ++
    Text.ascii "," ++ label "audio" ++ mediaPiece src.audio ++
    Text.ascii "," ++ label "retransmit_alloc_failed" ++ ui src.retransmitAllocFailed ++
    Text.ascii "," ++ label "retx_lock" ++ retxPiece src.retxLock ++ Text.ascii "\x7d"

/-- The sessions counted by state. -/
def statesPiece (v : StatsCtx) : Bytes :=
  Text.ascii "\x7b" ++ label "UNKNOWN" ++ ui (v.stateCount 0) ++
    Text.ascii "," ++ label "NEW" ++ ui (v.stateCount 1) ++
    Text.ascii "," ++ label "ICE_BOUND" ++ ui (v.stateCount 2) ++
    Text.ascii "," ++ label "DTLS_HANDSHAKE" ++ ui (v.stateCount 3) ++
    Text.ascii "," ++ label "SRTP_READY" ++ ui (v.stateCount 4) ++ Text.ascii "\x7d"

/-- What closes the document. -/
def totalsPiece (v : StatsCtx) (t : StatsTotals) : Bytes :=
  Text.ascii "]," ++ label "total_streams" ++ ui t.streams ++
    Text.ascii "," ++ label "total_clients" ++ ui t.clients ++
    Text.ascii "," ++ label "total_video_octets" ++ ui t.videoOctets ++
    Text.ascii "," ++ label "total_audio_octets" ++ ui t.audioOctets ++
    Text.ascii "," ++ label "total_send_failed" ++ ui t.sendFailed ++
    Text.ascii "," ++ label "total_send_eagain" ++ ui t.sendEagain ++
    Text.ascii "," ++ label "total_retransmit_alloc_failed" ++ ui t.retransmitAllocFailed ++
    Text.ascii "," ++ label "total_retx_lock" ++ retxPiece t.retxLock ++
    Text.ascii "," ++ label "session_states" ++ statesPiece v ++ Text.ascii "\x7d"

/-- The loop over the sessions of the source at `addr`. -/
def renderSessions (cap addr : ℕ) : Bool → List StatsSession → Bytes → Bytes
  | _, [], p => p
  | first, s :: ss, p =>
    if s.source ≠ addr then renderSessions cap addr first ss p
    else if cap - statsReserve ≤ p.length then p
    else renderSessions cap addr false ss (slprintf cap p (sessionPiece first s))

/-- One source. -/
def renderSource (cap : ℕ) (v : StatsCtx) (first : Bool) (p : Bytes) (src : StatsSource) : Bytes :=
  slprintf cap
    (renderSessions cap src.addr true v.sessions (slprintf cap p (sourceHead first src)))
    (sourceTail src)

/-- The loop over the sources. -/
def renderSources (cap : ℕ) (v : StatsCtx) :
    Bool → List StatsSource → Bytes → StatsTotals → Bytes × StatsTotals
  | _, [], p, t => (p, t)
  | first, src :: srcs, p, t =>
    if cap - statsReserve ≤ p.length then (p, t)
    else renderSources cap v false srcs (renderSource cap v first p src) (t.add src)

/-- The first piece of the document. -/
def statsHead : Bytes := Text.ascii "\x7b\"code\":0,\"streams\":["

/-- `ngx_rtc_http_render_stats`, into a buffer of `cap` bytes; there may be no shared registry. -/
def renderStats (cap : ℕ) : Option StatsCtx → Bytes
  | none =>
    slprintf cap [] (Text.ascii ("\x7b\"code\":0,\"streams\":[]," ++
      "\"total_streams\":0,\"total_clients\":0," ++
      "\"session_states\":\x7b\"UNKNOWN\":0,\"NEW\":0," ++
      "\"ICE_BOUND\":0,\"DTLS_HANDSHAKE\":0," ++ "\"SRTP_READY\":0\x7d\x7d"))
  | some v =>
    let r := renderSources cap v true v.sources (slprintf cap [] statsHead) .zero
    slprintf cap r.1 (totalsPiece v r.2)

/-! ## How long the pieces are -/

theorem length_ui_le (n : UInt64) : (ui n).length ≤ 20 :=
  Text.length_decimal_le (by decide) (Nat.lt_trans n.toNat_lt (by decide))

theorem length_uD_le (n : UInt32) : (uD n).length ≤ 10 :=
  Text.length_decimal_le (by decide) (Nat.lt_trans n.toNat_lt (by decide))

theorem length_signed_le (n : Int64) : (signed n).length ≤ 20 := by
  have h : (Text.decimal n.toInt.natAbs).length ≤ 19 := by
    have hlo := n.le_toInt
    have hhi := n.toInt_lt
    exact Text.length_decimal_le (by decide) (by omega)
  unfold signed
  split_ifs
  · exact Nat.succ_le_succ h
  · omega

theorem length_comma_le (first : Bool) : (comma first).length ≤ 1 := by
  cases first <;> decide

theorem length_stateName_le (st : UInt8) : (Text.ascii (stateName st)).length ≤ 14 := by
  unfold stateName
  split_ifs <;> decide

theorem length_mediaPiece_le (m : StatsMedia) : (mediaPiece m).length ≤ 106 := by
  unfold mediaPiece
  simp only [List.length_append]
  change 1 + 7 + _ + 1 + 5 + _ + 1 + 10 + _ + 1 + 9 + _ + 1 ≤
    1 + 7 + 10 + 1 + 5 + 20 + 1 + 10 + 20 + 1 + 9 + 20 + 1
  gcongr
  exacts [length_uD_le _, length_ui_le _, length_ui_le _, length_ui_le _]

theorem length_retxPiece_le (r : RetxLock) : (retxPiece r).length ≤ 176 := by
  unfold retxPiece
  simp only [List.length_append]
  change 1 + 16 + _ + 1 + 12 + _ + 1 + 15 + _ + 1 + 15 + _ + 1 + 12 + _ + 1 ≤
    1 + 16 + 20 + 1 + 12 + 20 + 1 + 15 + 20 + 1 + 15 + 20 + 1 + 12 + 20 + 1
  gcongr <;> exact length_ui_le _

theorem length_statesPiece_le (v : StatsCtx) : (statesPiece v).length ≤ 164 := by
  unfold statesPiece
  simp only [List.length_append]
  change 1 + 10 + _ + 1 + 6 + _ + 1 + 12 + _ + 1 + 17 + _ + 1 + 13 + _ + 1 ≤
    1 + 10 + 20 + 1 + 6 + 20 + 1 + 12 + 20 + 1 + 17 + 20 + 1 + 13 + 20 + 1
  gcongr <;> exact length_ui_le _

theorem length_sessionPiece_le (first : Bool) (s : StatsSession) :
    (sessionPiece first s).length ≤ 242 := by
  unfold sessionPiece
  simp only [List.length_append]
  change _ + (1 + 5 + _ + 1 + 8 + 1 + 9 + 2 + 8 + 1 + _ + 2 + 12 + _ + 1 + 16 + _ + 1 + 12 + _ +
      1 + 13 + _ + 1 + 11 + _ + 1) ≤
    1 + (1 + 5 + 20 + 1 + 8 + 1 + 9 + 2 + 8 + 1 + 14 + 2 + 12 + 20 + 1 + 16 + 20 + 1 + 12 + 20 +
      1 + 13 + 20 + 1 + 11 + 20 + 1)
  gcongr
  exacts [length_comma_le first, length_ui_le _, length_stateName_le _, length_ui_le _,
    length_ui_le _, length_ui_le _, length_ui_le _, length_ui_le _]

theorem length_sourceHead_le (first : Bool) (src : StatsSource) :
    (sourceHead first src).length ≤ 356 := by
  unfold sourceHead
  simp only [List.length_append]
  change _ + (1 + 7 + 1 + _ + 2 + 13 + _ + 1 + 13 + _ + 1 + 15 + _ + 1 + 10 + _ + 1 + 14 + _ + 1 +
      14 + _ + 1 + 11 + 1) ≤
    1 + (1 + 7 + 1 + 127 + 2 + 13 + 20 + 1 + 13 + 20 + 1 + 15 + 20 + 1 + 10 + 20 + 1 + 14 + 20 +
      1 + 14 + 20 + 1 + 11 + 1)
  gcongr
  exacts [length_comma_le first, Nat.le_of_lt_succ src.name.fits, length_ui_le _,
    length_signed_le _, length_ui_le _, length_ui_le _, length_ui_le _, length_ui_le _]

theorem length_sourceTail_le (src : StatsSource) : (sourceTail src).length ≤ 468 := by
  unfold sourceTail
  simp only [List.length_append]
  change 2 + 8 + _ + 1 + 8 + _ + 1 + 26 + _ + 1 + 12 + _ + 1 ≤
    2 + 8 + 106 + 1 + 8 + 106 + 1 + 26 + 20 + 1 + 12 + 176 + 1
  gcongr
  exacts [length_mediaPiece_le _, length_mediaPiece_le _, length_ui_le _, length_retxPiece_le _]

theorem length_totalsPiece_le (v : StatsCtx) (t : StatsTotals) :
    (totalsPiece v t).length ≤ 672 := by
  unfold totalsPiece
  simp only [List.length_append]
  change 2 + 16 + _ + 1 + 16 + _ + 1 + 21 + _ + 1 + 21 + _ + 1 + 20 + _ + 1 + 20 + _ + 1 + 32 + _ +
      1 + 18 + _ + 1 + 17 + _ + 1 ≤
    2 + 16 + 20 + 1 + 16 + 20 + 1 + 21 + 20 + 1 + 21 + 20 + 1 + 20 + 20 + 1 + 20 + 20 + 1 + 32 +
      20 + 1 + 18 + 176 + 1 + 17 + 164 + 1
  gcongr
  exacts [length_ui_le _, length_ui_le _, length_ui_le _, length_ui_le _, length_ui_le _,
    length_ui_le _, length_ui_le _, length_retxPiece_le _, length_statesPiece_le v]

end NginxRtc
