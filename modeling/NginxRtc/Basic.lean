/-
  Names, constants and result codes of the RTC module.

  Byte strings that index a registry have passed the length check of their entry point, so they
  are values of `BStr cap`: non-empty and shorter than the buffer of `cap` bytes they are stored
  in.  Times are milliseconds and slots are worker numbers; where the source writes 0 for "no
  deadline" the model writes 0 too, and where it writes -1 for "no slot" the model writes `none`.
  Counters that only grow (session ids, versions, statistics) are natural numbers.
-/
import Mathlib.Data.List.Basic

namespace NginxRtc

abbrev Bytes := List UInt8

/-! ## Constants -/

def shmSourceNameMax : ℕ := 128
def shmUfragMax : ℕ := 64
def shmPwdMax : ℕ := 256

/-- Half-open session reap. -/
def shmSessionExpireMs : ℕ := 30000
/-- Empty non-publishing source reap. -/
def shmSourceExpireMs : ℕ := 10000
/-- How long a publishing source may go without a heartbeat. -/
def shmPublishGraceMs : ℕ := 10000
/-- How long a cached `shm_src` is used before the claim is renewed. -/
def shmSyncMs : ℕ := 1000

def shmRetxRingCap : ℕ := 1024
def ringMaxSessions : ℕ := 64
def ringRtpMax : ℕ := 1500
def sourceMaxSnapshot : ℕ := 256

def rtpHeaderSize : ℕ := 12

def payloadTypeH264 : UInt8 := 102
def payloadTypeOpus : UInt8 := 111

/-! ## Registry keys -/

/-- A byte string that fits, with its terminator, in a buffer of `cap` bytes. -/
structure BStr (cap : ℕ) where
  bytes : Bytes
  pos : 0 < bytes.length
  fits : bytes.length < cap
deriving DecidableEq

abbrev SourceName := BStr shmSourceNameMax
abbrev Ufrag := BStr shmUfragMax
abbrev Pwd := BStr shmPwdMax

/-- The length check every registry entry point makes on its name argument. -/
def BStr.ofBytes (cap : ℕ) (b : Bytes) : Option (BStr cap) :=
  if h : 0 < b.length ∧ b.length < cap then some ⟨b, h.1, h.2⟩ else none

/-- The stream `a/b`, in worked runs. -/
def sampleName : SourceName := ⟨[97, 47, 98], by decide, by decide⟩

/-- A one-byte ICE ufrag, in worked runs. -/
def sampleUfrag (b : UInt8) : Ufrag := ⟨[b], Nat.one_pos, (by decide : 1 < shmUfragMax)⟩

def samplePwd : Pwd := ⟨[112], by decide, by decide⟩

/-! ## Codes -/

/-- Which ingest protocol owns the publishing flag; `NGX_RTC_PUBLISHER_NONE` is `none`. -/
inductive PublisherKind where
  | rtmp
  | whip
deriving DecidableEq, Repr

inductive Rc where
  | ok
  | error
  | busy
  | declined
deriving DecidableEq, Repr

/-- The negative result codes of the codecs. -/
inductive CodecErr where
  | invalid
  | tooSmall
  | tooLarge
  | parse
  | needMore
deriving DecidableEq, Repr

/-- Lifecycle of a WebRTC session, `ngx_rtc_session_state_t`. -/
inductive SessionState where
  | unknown
  | new
  | iceBound
  | dtlsHandshake
  | srtpReady
  | closed
deriving DecidableEq, Repr

end NginxRtc
