/-
  The messages of an RTMP publisher (`ngx_rtmp_rtc_av`, `ngx_rtmp_rtc_audio`): which stream they are
  for, and what they carry.

  nginx-rtmp hands a message on as a chain of buffers, cut where the chunks of the connection were.
  The kind of a tag is read from the first buffer, all else from the body put together.

  `rtmpRtcAv_whole`: however a message is cut, it is taken as if it came in one piece, once the first
  buffer has the tag header.  `front_ends_agree`: an RTMP publisher, a player and a WHIP publisher
  write the same name for the same stream, but one of 127 bytes has its terminator only over WHIP.
-/
import NginxRtc.Http.Play
import NginxRtc.System.WhipName

namespace NginxRtc

/-- `NGX_RTC_MAX_VIDEO_BODY`, `NGX_RTC_MAX_AUDIO_BODY`. -/
def maxVideoBody : ℕ := 262144
def maxAudioBody : ℕ := 16384

/-- The size of `audio_asc`. -/
def audioAscMax : ℕ := 64

/-- An `ngx_chain_t`: for each link the bytes of its buffer, if it has one. -/
abbrev Chain := List (Option Bytes)

def Chain.bytes (c : Chain) : Bytes := c.flatMap fun b => b.getD []

/-- The loop of `ngx_rtmp_rtc_chain_copy`, which has copied `dst`. -/
def chainCopyLoop (cap : ℕ) : Chain → Bytes → Option Bytes
  | [], dst => some dst
  | none :: c, dst => chainCopyLoop cap c dst
  | some b :: c, dst =>
    if b.length = 0 then chainCopyLoop cap c dst
    else if cap < dst.length + b.length then none
    else chainCopyLoop cap c (dst ++ b)

/-- `ngx_rtmp_rtc_chain_copy` into `cap` bytes; `none` is -1. -/
def chainCopy (cap : ℕ) (c : Chain) : Option Bytes := chainCopyLoop cap c []

/-- Of an `ngx_rtmp_session_t`: whether the live module has it as a publisher, and whether it is the
    relayed copy of another worker's. -/
structure RtmpSession where
  app : Bytes
  stream : Bytes
  publishing : Bool
  autoPushed : Bool

/-- `ngx_rtmp_rtc_source_name`: what is written to the name, unless it is refused. -/
def RtmpSession.sourceName (s : RtmpSession) : Option Bytes :=
  if s.app.length = 0 ∨ s.stream.length = 0 ∨
      shmSourceNameMax < s.app.length + s.stream.length + 2 then none
  else some ((s.app ++ [47] ++ s.stream ++ [0]).take (shmSourceNameMax - 1))

/-- The types of a message the bridge has a handler for. -/
inductive MessageType where
  | audio
  | video
deriving DecidableEq

/-- What a message carries: an AVC sequence header, with its record unless that is cut short or too
    long; the NAL units of a tag; an AudioSpecificConfig, or one that is not of a size to keep; an AAC
    frame; nothing of use. -/
inductive Tag where
  | avcHeader (record : Option Bytes)
  | avcNalus (data : Bytes)
  | aacHeader (asc : Bytes)
  | aacRejected
  | aacFrame (aac : Bytes)
  | other
deriving DecidableEq

/-- The body of a video tag behind its five bytes. -/
def videoBody (c : Chain) : Option Bytes :=
  (chainCopy maxVideoBody c).bind fun body => if body.length < 5 then none else some (body.drop 5)

/-- The end of `ngx_rtmp_rtc_av`; `packetType` is `pos[1]`. -/
def videoTag (packetType : UInt8) (c : Chain) : Tag :=
  if packetType = 0 then .avcHeader (videoBody c)
  else if packetType = 1 then (videoBody c).elim .other .avcNalus
  else .other

/-- `ngx_rtmp_rtc_audio` behind the claim. -/
def audioTag (c : Chain) : Tag :=
  match chainCopy maxAudioBody c with
  | none => .other
  | some body =>
    if body.length < 2 then .other
    else if body.getD 1 0 = 0 then
      if body.length - 2 < 2 ∨ audioAscMax < body.length - 2 then .aacRejected
      else .aacHeader (body.drop 2)
    else if body.getD 1 0 = 1 then .aacFrame (body.drop 2)
    else .other

/-- The bytes the handler wants in the first buffer. -/
def MessageType.headerBytes : MessageType → ℕ
  | .audio => 2
  | .video => 5

/-- Whether the first buffer is that of an AAC or an AVC tag. -/
def MessageType.isCodec (k : MessageType) (first : Bytes) : Bool :=
  match k with
  | .audio => (first.getD 0 0 >>> 4) &&& 0x0f = 10
  | .video => first.getD 0 0 &&& 0x0f = 7

/-- `ngx_rtmp_rtc_av` and `ngx_rtmp_rtc_audio`: the name of the source that is looked up and claimed,
    and what is then done to it; `none` is a message that is left alone. -/
def rtmpRtcAv (s : RtmpSession) (k : MessageType) (c : Chain) : Option (Bytes × Tag) :=
  match c with
  | [] | none :: _ => none
  | some first :: _ =>
    if !s.publishing || s.autoPushed then none
    else if first.length < k.headerBytes then none
    else if !k.isCodec first then none
    else
      s.sourceName.map fun name =>
        (name, match k with
          | .audio => audioTag c
          | .video => videoTag (first.getD 1 0) c)

/-! ## One body -/

theorem chainCopyLoop_eq {cap : ℕ} (c : Chain) {dst : Bytes} (h : dst.length ≤ cap) :
    chainCopyLoop cap c dst =
      if dst.length + c.bytes.length ≤ cap then some (dst ++ c.bytes) else none := by
  induction c generalizing dst with
  | nil => simp [chainCopyLoop, Chain.bytes, h]
  | cons b c ih =>
    cases b with
    | none => simpa [chainCopyLoop, Chain.bytes] using ih h
    | some b =>
      have hbytes : Chain.bytes (some b :: c) = b ++ Chain.bytes c := by simp [Chain.bytes]
      rw [chainCopyLoop, hbytes]
      by_cases h0 : b.length = 0
      · obtain rfl := List.length_eq_zero_iff.1 h0
        rw [if_pos h0, ih h, List.nil_append]
      · rw [if_neg h0]
        by_cases hover : cap < dst.length + b.length
        · rw [if_pos hover, if_neg (by rw [List.length_append]; omega)]
        · have hroom : (dst ++ b).length ≤ cap := by
            rw [List.length_append]
            omega
          rw [if_neg hover, ih hroom, List.length_append, List.length_append, Nat.add_assoc,
            List.append_assoc]

/-- A chain is copied exactly if its bytes fit. -/
theorem chainCopy_eq (cap : ℕ) (c : Chain) :
    chainCopy cap c = if c.bytes.length ≤ cap then some c.bytes else none := by
  rw [chainCopy, chainCopyLoop_eq c (Nat.zero_le _), List.length_nil, Nat.zero_add, List.nil_append]

theorem chainCopy_congr {c c' : Chain} (h : c.bytes = c'.bytes) (cap : ℕ) :
    chainCopy cap c = chainCopy cap c' := by
  rw [chainCopy_eq, chainCopy_eq, h]

theorem videoTag_congr {c c' : Chain} (h : c.bytes = c'.bytes) (packetType : UInt8) :
    videoTag packetType c = videoTag packetType c' := by
  rw [videoTag, videoTag, videoBody, videoBody, chainCopy_congr h]

theorem audioTag_congr {c c' : Chain} (h : c.bytes = c'.bytes) : audioTag c = audioTag c' := by
  rw [audioTag, audioTag, chainCopy_congr h]

/-- **A message is taken as a whole.**  Once its first buffer has the tag header, it does what the same
    bytes in one buffer do; before that it does nothing. -/
theorem rtmpRtcAv_whole (s : RtmpSession) (k : MessageType) (first : Bytes) (c : Chain) :
    rtmpRtcAv s k (some first :: c) =
      if first.length < k.headerBytes then none
      else rtmpRtcAv s k [some (Chain.bytes (some first :: c))] := by
  have hbytes : Chain.bytes (some first :: c) = first ++ Chain.bytes c := by simp [Chain.bytes]
  have hone : Chain.bytes (some first :: c) = Chain.bytes [some (Chain.bytes (some first :: c))] := by
    simp [Chain.bytes]
  show ite _ _ _ = ite _ _ (ite _ _ _)
  by_cases hplayer : (!s.publishing || s.autoPushed) = true
  · rw [if_pos hplayer, if_pos hplayer, ite_self]
  · rw [if_neg hplayer, if_neg hplayer]
    by_cases hshort : first.length < k.headerBytes
    · rw [if_pos hshort, if_pos hshort]
    · have htwo : 2 ≤ k.headerBytes := by cases k <;> decide
      have hget : ∀ i < 2, (Chain.bytes (some first :: c)).getD i 0 = first.getD i 0 := by
        intro i hi
        rw [hbytes, List.getD_eq_getElem?_getD, List.getElem?_append_left (by omega),
          List.getD_eq_getElem?_getD]
      have hlong : ¬ (Chain.bytes (some first :: c)).length < k.headerBytes := by
        rw [hbytes, List.length_append]
        omega
      have hcodec : k.isCodec (Chain.bytes (some first :: c)) = k.isCodec first := by
        cases k <;> simp only [MessageType.isCodec, hget 0 (by decide)]
      rw [if_neg hshort, if_neg hshort, if_neg hlong, hcodec]
      cases k with
      | audio => simp only [audioTag_congr hone]
      | video => simp only [hget 1 (by decide), videoTag_congr hone]

/-! ## The name of a stream -/

section Names
variable {host app stream : Bytes}

/-- What an RTMP session writes is what a WHIP request writes, but for the last byte of a name that
    fills the buffer. -/
theorem RtmpSession.sourceName_eq (s : RtmpSession) (hne : s.app ≠ [] ∧ s.stream ≠ []) :
    s.sourceName =
      if shmSourceNameMax < s.app.length + s.stream.length + 2 then none
      else some ((whipName s.app s.stream).take (shmSourceNameMax - 1)) := by
  have happ := List.length_pos_iff.2 hne.1
  have hstream := List.length_pos_iff.2 hne.2
  rw [RtmpSession.sourceName, whipName]
  by_cases hlong : shmSourceNameMax < s.app.length + s.stream.length + 2
  · rw [if_pos hlong, if_pos (.inr (.inr hlong))]
  · rw [if_neg hlong, if_neg (by omega)]

/-- **The three front ends agree.**  For an application without a slash and a stream, neither with a
    NUL in it, an RTMP publisher, a player and a WHIP publisher are all refused, or all write
    `app/stream`; a name of 127 bytes gets its terminator only from WHIP. -/
theorem front_ends_agree (s : RtmpSession) (q : Query) (hhost : Text.Avoids 47 host)
    (hslash : Text.Avoids 47 s.app) (happ : Text.Avoids 0 s.app) (hstream : Text.Avoids 0 s.stream)
    (hne : s.app ≠ [] ∧ s.stream ≠ []) (hqapp : q.argDecoded (Text.ascii "app") = some s.app)
    (hqstream : q.argDecoded (Text.ascii "stream") = some s.stream) :
    Play.sourceName (Text.ascii "webrtc://" ++ (host ++ 47 :: (s.app ++ 47 :: s.stream))) =
        s.sourceName ∧
      (s.sourceName.isSome ↔ q.whipArgs = some (s.app, s.stream)) ∧
      ∀ name ∈ s.sourceName,
        name = (whipName s.app s.stream).take (shmSourceNameMax - 1) ∧
          (name = whipName s.app s.stream ↔ 0 ∈ name) := by
  have happ0 := List.length_pos_iff.2 hne.1
  have hstream0 := List.length_pos_iff.2 hne.2
  have hlen : (whipName s.app s.stream).length = s.app.length + s.stream.length + 2 := by
    simp only [whipName, List.length_append, List.length_singleton]
    omega
  rw [s.sourceName_eq hne]
  refine ⟨?_, ?_, ?_⟩
  · rw [Play.sourceName, Play.strnstr_webrtc, Option.bind_some, Play.slash_eq hhost, Option.bind_some,
      Play.slash_eq hslash, Option.bind_some]
    simp only [Sdp.cstr_eq happ, Sdp.cstr_eq hstream, hne.1, hne.2, false_or]
    rfl
  · rw [Query.whipArgs, hqapp, hqstream, Option.bind_some, Option.bind_some]
    by_cases hlong : shmSourceNameMax < s.app.length + s.stream.length + 2
    · rw [if_pos hlong, if_pos (.inr (.inr (by omega)))]
      exact iff_of_false Bool.false_ne_true (Option.some_ne_none _).symm
    · rw [if_neg hlong, if_neg (by omega)]
      exact iff_of_true rfl rfl
  · intro name hname
    split_ifs at hname with hlong
    · exact absurd hname (Option.not_mem_none _)
    · obtain rfl := Option.some.inj hname
      refine ⟨rfl, ?_⟩
      by_cases hfits : (whipName s.app s.stream).length ≤ shmSourceNameMax - 1
      · rw [List.take_of_length_le hfits]
        exact iff_of_true rfl (by simp [whipName])
      · have hfull : s.app.length + s.stream.length + 2 = shmSourceNameMax := by
          simp only [shmSourceNameMax] at *
          omega
        have hcut : (whipName s.app s.stream).take (shmSourceNameMax - 1) = s.app ++ [47] ++ s.stream := by
          refine List.take_left' ?_
          simp only [List.length_append, List.length_singleton]
          omega
        rw [hcut]
        refine iff_of_false (fun he => ?_) fun h0 => ?_
        · have := congrArg List.length he
          simp [whipName] at this
        · simp only [List.mem_append, List.mem_singleton] at h0
          rcases h0 with (h0 | h0) | h0
          · exact happ 0 h0 rfl
          · exact absurd h0 (by decide)
          · exact hstream 0 h0 rfl

end Names

/-- `a/b`, over RTMP, as a play URL of host `h`, and over WHIP. -/
theorem front_ends_agree_sample :
    Play.sourceName (Text.ascii "webrtc://" ++ ([104] ++ 47 :: ([97] ++ 47 :: [98]))) =
        (RtmpSession.mk [97] [98] true false).sourceName ∧
      (RtmpSession.mk [97] [98] true false).sourceName.isSome = true := by
  have h := front_ends_agree (RtmpSession.mk [97] [98] true false)
    ⟨fun name => if name = Text.ascii "app" then some [97] else some [98], id, fun _ => true⟩
    (show Text.Avoids 47 [104] by decide) (by decide) (by decide) (by decide) (by decide) (by decide)
    (by decide)
  exact ⟨h.1, h.2.1.2 (by decide)⟩

end NginxRtc
