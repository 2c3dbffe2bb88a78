/-
  The SDP answer (`ngx_rtc_sdp_generate_answer`), and the configuration that the play handler and the
  WHIP handler generate it from.

  A pointer that is NULL is seen as the empty text: the writer skips an attribute for both.

  `generated_lines`: a generated answer is the lines of `answerLines`, each with its end.
-/
import NginxRtc.Sdp.Parse

namespace NginxRtc

namespace Sdp

/-! ## The writer -/

/-- A step of the writer: the text so far, and with what it appends. -/
abbrev Write := Bytes → Except CodecErr Bytes

/-- `ngx_rtc_sdp_writer_append`, into a buffer of `cap` bytes. -/
def append (cap : ℕ) (s : Bytes) : Write := fun w =>
  if cap ≤ w.length then .error .tooSmall
  else if cap - w.length ≤ s.length then .error .tooSmall
  else .ok (w ++ s)

def pass : Write := .ok

/-- A line, with its end. -/
def putLine (cap : ℕ) (l : Bytes) : Write := append cap (l ++ [13, 10])

def putIf (cap : ℕ) (c : Prop) [Decidable c] (l : Bytes) : Write :=
  if c then putLine cap l else pass

/-- One step for each element. -/
def putEach {α : Type} (f : α → Write) (xs : List α) : Write := fun w =>
  xs.foldlM (fun w x => f x w) w

/-! ## The configuration -/

/-- Of an `ngx_rtc_sdp_answer_t`, what it says of one kind of media. -/
structure AnswerTrack where
  ssrc : UInt32 := 0
  pt : PayloadType
  clockRate : UInt32
  channels : UInt32 := 0
  twccExt : ℕ := 0
  twccUri : Bytes := []
  fmtp : Bytes

/-- `ngx_rtc_sdp_answer_t`; each section with its type and its mid. -/
structure Answer where
  iceUfrag : Bytes := []
  icePwd : Bytes := []
  fingerprintAlgo : Bytes := []
  fingerprint : Bytes := []
  setup : Bytes := []
  proto : Bytes
  candidateIp : Bytes := []
  candidatePort : UInt32 := 0
  media : List (Bytes × Bytes)
  video : AnswerTrack
  audio : AnswerTrack
  sendonly : ℤ
  rtcpMux : Bool
  rtcpRsize : Bool

/-- `ngx_rtc_sdp_answer_init`. -/
def answerInit : Answer where
  proto := Text.ascii "UDP/TLS/RTP/SAVPF"
  media := [(typeVideo, Text.ascii "0"), (typeAudio, Text.ascii "1")]
  video :=
    { pt := 102
      clockRate := 90000
      fmtp := Text.ascii
        "level-asymmetry-allowed=1;packetization-mode=1;profile-level-id=42e01f" }
  audio :=
    { pt := 111
      clockRate := 48000
      channels := 2
      fmtp := Text.ascii "minptime=10;useinbandfec=1" }
  sendonly := 1
  rtcpMux := true
  rtcpRsize := true

/-! ## The handlers -/

/-- The payload type of an offer, or one's own when it has none. -/
def choosePt (offered own : PayloadType) : PayloadType := if offered ≠ 0 then offered else own

/-- The SSRCs and payload types of a source. -/
structure Identity where
  videoSsrc : UInt32
  audioSsrc : UInt32
  videoPt : PayloadType
  audioPt : PayloadType

namespace Identity

/-- Of a source that `ngx_rtc_source_create` has just made. -/
def fresh : Identity := ⟨0, 0, 0, 0⟩

/-- Of a new shared source, with random SSRCs. -/
def shared (videoSsrc audioSsrc : UInt32) : Identity := ⟨videoSsrc, audioSsrc, 102, 111⟩

/-- `ngx_rtc_shm_source_set_pt`. -/
def setPt (offer : Offer) (shm : Identity) : Identity :=
  { shm with
    videoPt := choosePt offer.video.pt shm.videoPt
    audioPt := choosePt offer.audio.pt shm.audioPt }

/-- What a request makes of the identity of its source: it takes that of the shared source over, if
    there is one. -/
def adopt (offer : Offer) (shm : Option Identity) (src : Identity) : Identity :=
  (shm.map (setPt offer)).getD src

end Identity

/-- The address of the host as configured: a line of text. -/
structure LocConf where
  candidateIp : Bytes
  candidatePort : Option UInt32
  oneLine : Text.OneLine candidateIp

/-- The digest of the certificate; nothing before `ngx_rtc_dtls_global_init`. -/
structure Digest where
  bytes : Bytes
  fits : bytes.length ≤ 32

def hexDigit (n : ℕ) : UInt8 := UInt8.ofNat (if n < 10 then 48 + n else 87 + n)

def hexUpper (n : ℕ) : UInt8 := UInt8.ofNat (if n < 10 then 48 + n else 55 + n)

/-- `%02X` for each byte, with colons between. -/
def fingerprintText : Bytes → Bytes
  | [] => []
  | [b] => [hexUpper (b.toNat / 16), hexUpper (b.toNat % 16)]
  | b :: bs => hexUpper (b.toNat / 16) :: hexUpper (b.toNat % 16) :: 58 :: fingerprintText bs

/-- `%08uxD`. -/
def hex8 (w : UInt32) : Bytes :=
  [28, 24, 20, 16, 12, 8, 4, 0].map fun k => hexDigit (w.toNat / 2 ^ k % 16)

/-- The `profile-level-id` of an SPS. -/
def profileFmtp (p : UInt8 × UInt8 × UInt8) : Bytes :=
  Text.ascii "level-asymmetry-allowed=1;packetization-mode=1;profile-level-id=" ++
    [p.1, p.2.1, p.2.2].flatMap fun b => [hexDigit (b.toNat / 16), hexDigit (b.toNat % 16)]

/-- What a request finds: the identity of its source and of the shared source, the
    `profile-level-id` of the SPS if it is valid, four random numbers, the certificate and the
    configuration. -/
structure Request where
  src : Identity
  shm : Option Identity
  profile : Option (UInt8 × UInt8 × UInt8)
  ufrag : UInt32
  pwd : UInt32 × UInt32 × UInt32
  cert : Digest
  conf : LocConf

/-- The candidate of a configuration. -/
def LocConf.ip (conf : LocConf) : Bytes :=
  if conf.candidateIp.length = 0 ∨ strLen ≤ conf.candidateIp.length then Text.ascii "127.0.0.1"
  else cstr conf.candidateIp

/-- The configuration of an answer, as both handlers fill it in. -/
def requestAnswer (sendonly : ℤ) (videoFmtp : Bytes) (req : Request) (offer : Offer) : Answer :=
  { answerInit with
    iceUfrag := hex8 req.ufrag ++ Text.ascii "u"
    icePwd := hex8 req.pwd.1 ++ hex8 req.pwd.2.1 ++ hex8 req.pwd.2.2
    fingerprintAlgo := Text.ascii "sha-256"
    fingerprint := fingerprintText req.cert.bytes
    setup := Text.ascii "passive"
    candidateIp := req.conf.ip
    candidatePort := req.conf.candidatePort.getD 8000
    media := offer.media
    video :=
      { answerInit.video with
        ssrc := (req.src.adopt offer req.shm).videoSsrc
        pt := choosePt offer.video.pt (req.src.adopt offer req.shm).videoPt
        twccExt := offer.video.twccExt
        twccUri := offer.video.twccUri
        fmtp := videoFmtp }
    audio :=
      { answerInit.audio with
        ssrc := (req.src.adopt offer req.shm).audioSsrc
        pt := choosePt offer.audio.pt (req.src.adopt offer req.shm).audioPt
        twccExt := offer.audio.twccExt
        twccUri := offer.audio.twccUri }
    sendonly := sendonly }

/-- The answer of `ngx_rtc_http_body_handler`. -/
def playAnswer (req : Request) (offer : Offer) : Answer :=
  requestAnswer answerInit.sendonly ((req.profile.map profileFmtp).getD answerInit.video.fmtp) req
    offer

/-- The answer of `ngx_rtc_http_whip_body_handler`. -/
def whipAnswer (req : Request) (offer : Offer) : Answer :=
  requestAnswer (-1) answerInit.video.fmtp req offer

inductive Handler where
  | play
  | whip

def Handler.answer : Handler → Request → Offer → Answer
  | .play => playAnswer
  | .whip => whipAnswer

/-! ## Generating -/

/-- The attribute `name` with a value. -/
def attr (name : String) (value : Bytes) : Bytes :=
  97 :: 61 :: (Text.ascii name ++ 58 :: value)

/-- The attribute `name` without one. -/
def flag (name : String) : Bytes := 97 :: 61 :: Text.ascii name

/-- `ngx_rtc_sdp_write_attr`. -/
def writeAttr (cap : ℕ) (name : String) (value : Bytes) : Write :=
  putIf cap (value ≠ []) (attr name value)

section Generate
variable (cfg : Answer)

def mLine (type : Bytes) (pt : PayloadType) : Bytes :=
  109 :: 61 :: (type ++ 32 :: (Text.ascii "9" ++ 32 :: (cfg.proto ++ 32 :: Text.decimal pt)))

/-- The m-line of a section that is not carried. -/
def rejectLine (type : Bytes) : Bytes :=
  109 :: 61 :: (type ++ 32 :: (Text.ascii "0" ++ 32 :: cfg.proto))

def candidateLine : Bytes :=
  attr "candidate" (Text.ascii "1 1 udp 2130706431 " ++ cfg.candidateIp ++
    32 :: Text.decimal cfg.candidatePort.toNat ++ Text.ascii " typ host generation 0")

def directionLine : Bytes := if 0 < cfg.sendonly then flag "sendonly" else flag "recvonly"

def extmapLine (t : AnswerTrack) : Bytes :=
  attr "extmap" (Text.decimal t.twccExt ++ 32 :: t.twccUri)

def rtpmapLine (encoding : Bytes) (t : AnswerTrack) : Bytes :=
  attr "rtpmap" (Text.decimal t.pt ++ 32 :: (encoding ++ 47 :: (Text.decimal t.clockRate.toNat ++
    if t.channels ≠ 0 then 47 :: Text.decimal t.channels.toNat else [])))

def fmtpLine (t : AnswerTrack) : Bytes := attr "fmtp" (Text.decimal t.pt ++ 32 :: t.fmtp)

def feedbackLine (t : AnswerTrack) (kind : String) : Bytes :=
  attr "rtcp-fb" (Text.decimal t.pt ++ 32 :: Text.ascii kind)

def ssrcLine (t : AnswerTrack) : Bytes :=
  attr "ssrc" (Text.decimal t.ssrc.toNat ++ 32 :: (Text.ascii "cname:" ++
    Text.decimal t.ssrc.toNat))

/-- `ngx_rtc_sdp_write_media`. -/
def writeMedia (cap : ℕ) (type mid encoding : Bytes) (t : AnswerTrack) : Write :=
  putLine cap (mLine cfg type t.pt) >=>
  putLine cap (Text.ascii "c=IN IP4 0.0.0.0") >=>
  putLine cap (attr "mid" mid) >=>
  putIf cap (t.twccExt ≠ 0 ∧ t.twccUri ≠ []) (extmapLine t) >=>
  putIf cap (cfg.candidateIp ≠ []) (candidateLine cfg) >=>
  putIf cap (cfg.sendonly ≠ 0) (directionLine cfg) >=>
  putIf cap (cfg.rtcpMux = true) (flag "rtcp-mux") >=>
  putIf cap (cfg.rtcpRsize = true) (flag "rtcp-rsize") >=>
  putLine cap (rtpmapLine encoding t) >=>
  putIf cap (t.fmtp ≠ []) (fmtpLine t) >=>
  putIf cap (type = typeVideo) (feedbackLine t "nack pli") >=>
  putIf cap (type = typeVideo ∧ 0 < cfg.sendonly) (feedbackLine t "nack") >=>
  putLine cap (ssrcLine t)

/-- A round of the media loop. -/
def writeSection (cap : ℕ) (s : Bytes × Bytes) : Write :=
  if s.1 = typeVideo then writeMedia cfg cap typeVideo s.2 h264 cfg.video
  else if s.1 = typeAudio then writeMedia cfg cap typeAudio s.2 opus cfg.audio
  else putLine cap (rejectLine cfg s.1)

/-- The mid of a section in the bundle. -/
def writeBundled (cap : ℕ) (s : Bytes × Bytes) : Write :=
  if s.1 = typeVideo ∨ s.1 = typeAudio then append cap (32 :: s.2) else pass

/-- The text of an answer. -/
def writeAnswer (cap : ℕ) : Write :=
  putLine cap (Text.ascii "v=0") >=>
  putLine cap (Text.ascii "o=ngx-rtc 0 1 IN IP4 0.0.0.0") >=>
  putLine cap (Text.ascii "s=-") >=>
  putLine cap (Text.ascii "t=0 0") >=>
  append cap (Text.ascii "a=group:BUNDLE") >=>
  putEach (writeBundled cap) cfg.media >=>
  append cap [13, 10] >=>
  putLine cap (Text.ascii "a=msid-semantic: WMS") >=>
  putLine cap (flag "ice-lite") >=>
  writeAttr cap "ice-ufrag" cfg.iceUfrag >=>
  writeAttr cap "ice-pwd" cfg.icePwd >=>
  putIf cap (cfg.fingerprintAlgo ≠ [] ∧ cfg.fingerprint ≠ [])
    (attr "fingerprint" (cfg.fingerprintAlgo ++ 32 :: cfg.fingerprint)) >=>
  writeAttr cap "setup" cfg.setup >=>
  putEach (writeSection cfg cap) cfg.media

/-- `ngx_rtc_sdp_generate_answer`, into a buffer of `cap` bytes. -/
def generateAnswer (cap : ℕ) : Except CodecErr Bytes :=
  if cap = 0 then .error .tooSmall else writeAnswer cfg cap []

end Generate

/-! ## What is written

A step appends one text, whatever was there: it succeeds when there is room for it, and with nothing
else. -/

/-- In a buffer of `cap` bytes `f` appends `s`. -/
structure Writes (cap : ℕ) (f : Write) (s : Bytes) : Prop where
  only : ∀ w w', f w = .ok w' → w' = w ++ s
  room : ∀ w, w.length + s.length < cap → f w = .ok (w ++ s)

namespace Writes
variable {cap : ℕ} {f g : Write} {s t : Bytes}

theorem append (s : Bytes) : Writes cap (append cap s) s where
  only := by
    intro w w' h
    unfold Sdp.append at h
    split at h
    · exact nomatch h
    · split at h
      · exact nomatch h
      · exact (Except.ok.inj h).symm
  room := by
    intro w h
    rw [Sdp.append, if_neg (by omega), if_neg (by omega)]

theorem pass : Writes cap pass [] where
  only := by
    intro w w' h
    rw [List.append_nil]
    exact (Except.ok.inj h).symm
  room := by
    intro w _
    rw [List.append_nil]
    rfl

theorem comp (hf : Writes cap f s) (hg : Writes cap g t) : Writes cap (f >=> g) (s ++ t) where
  only := by
    intro w w' h
    cases hfw : f w with
    | error e =>
      rw [Bind.kleisliRight, hfw] at h
      exact nomatch h
    | ok v =>
      rw [Bind.kleisliRight, hfw] at h
      rw [hg.only v w' h, hf.only w v hfw, List.append_assoc]
  room := by
    intro w h
    rw [List.length_append] at h
    have hlen : (w ++ s).length + t.length < cap := by
      rw [List.length_append]
      omega
    rw [Bind.kleisliRight, hf.room w (by omega), ← List.append_assoc]
    exact hg.room (w ++ s) hlen

theorem ite {c : Prop} [Decidable c] (hf : Writes cap f s) (hg : Writes cap g t) :
    Writes cap (if c then f else g) (if c then s else t) := by
  split_ifs
  · exact hf
  · exact hg

theorem each {α : Type} {f : α → Write} {s : α → Bytes} (h : ∀ x, Writes cap (f x) (s x))
    (xs : List α) : Writes cap (putEach f xs) (xs.flatMap s) := by
  induction xs with
  | nil => exact pass
  | cons x xs ih => exact comp (h x) ih

theorem line (l : Bytes) : Writes cap (putLine cap l) (Text.unlines [l]) := by
  rw [Text.unlines_cons, Text.unlines, List.flatMap_nil, List.append_nil]
  exact append _

/-- A line that is there or not. -/
theorem optional (c : Prop) [Decidable c] (l : Bytes) :
    Writes cap (putIf cap c l) (Text.unlines (if c then [l] else [])) := by
  rw [apply_ite Text.unlines]
  exact ite (line l) pass

end Writes

section Lines
variable (cfg : Answer)

/-- The lines of a section that is carried. -/
def mediaLines (type mid encoding : Bytes) (t : AnswerTrack) : List Bytes :=
  [mLine cfg type t.pt] ++ ([Text.ascii "c=IN IP4 0.0.0.0"] ++ ([attr "mid" mid] ++
  ((if t.twccExt ≠ 0 ∧ t.twccUri ≠ [] then [extmapLine t] else []) ++
  ((if cfg.candidateIp ≠ [] then [candidateLine cfg] else []) ++
  ((if cfg.sendonly ≠ 0 then [directionLine cfg] else []) ++
  ((if cfg.rtcpMux = true then [flag "rtcp-mux"] else []) ++
  ((if cfg.rtcpRsize = true then [flag "rtcp-rsize"] else []) ++
  ([rtpmapLine encoding t] ++
  ((if t.fmtp ≠ [] then [fmtpLine t] else []) ++
  ((if type = typeVideo then [feedbackLine t "nack pli"] else []) ++
  ((if type = typeVideo ∧ 0 < cfg.sendonly then [feedbackLine t "nack"] else []) ++
  [ssrcLine t])))))))))))

def sectionLines (s : Bytes × Bytes) : List Bytes :=
  if s.1 = typeVideo then mediaLines cfg typeVideo s.2 h264 cfg.video
  else if s.1 = typeAudio then mediaLines cfg typeAudio s.2 opus cfg.audio
  else [rejectLine cfg s.1]

/-- The mids that are answered, in one line. -/
def bundleLine : Bytes :=
  Text.ascii "a=group:BUNDLE" ++
    cfg.media.flatMap fun s => if s.1 = typeVideo ∨ s.1 = typeAudio then 32 :: s.2 else []

def sessionLines : List Bytes :=
  [Text.ascii "v=0"] ++ ([Text.ascii "o=ngx-rtc 0 1 IN IP4 0.0.0.0"] ++
  ([Text.ascii "s=-"] ++ ([Text.ascii "t=0 0"] ++ ([bundleLine cfg] ++
  ([Text.ascii "a=msid-semantic: WMS"] ++ ([flag "ice-lite"] ++
  ((if cfg.iceUfrag ≠ [] then [attr "ice-ufrag" cfg.iceUfrag] else []) ++
  ((if cfg.icePwd ≠ [] then [attr "ice-pwd" cfg.icePwd] else []) ++
  ((if cfg.fingerprintAlgo ≠ [] ∧ cfg.fingerprint ≠ [] then
      [attr "fingerprint" (cfg.fingerprintAlgo ++ 32 :: cfg.fingerprint)] else []) ++
  (if cfg.setup ≠ [] then [attr "setup" cfg.setup] else []))))))))))

/-- **The lines of an answer.** -/
def answerLines : List Bytes := sessionLines cfg ++ cfg.media.flatMap (sectionLines cfg)

variable {cfg}

theorem writes_media (cap : ℕ) (type mid encoding : Bytes) (t : AnswerTrack) :
    Writes cap (writeMedia cfg cap type mid encoding t)
      (Text.unlines (mediaLines cfg type mid encoding t)) := by
  simp only [mediaLines, Text.unlines_append]
  exact (Writes.line _).comp <| (Writes.line _).comp <| (Writes.line _).comp <|
    (Writes.optional _ _).comp <| (Writes.optional _ _).comp <| (Writes.optional _ _).comp <|
    (Writes.optional _ _).comp <| (Writes.optional _ _).comp <| (Writes.line _).comp <|
    (Writes.optional _ _).comp <| (Writes.optional _ _).comp <| (Writes.optional _ _).comp <|
    Writes.line _

theorem writes_section (cap : ℕ) (s : Bytes × Bytes) :
    Writes cap (writeSection cfg cap s) (Text.unlines (sectionLines cfg s)) := by
  simp only [sectionLines, apply_ite Text.unlines]
  exact (writes_media cap _ _ _ _).ite ((writes_media cap _ _ _ _).ite (Writes.line _))

theorem writes_bundled (cap : ℕ) (s : Bytes × Bytes) :
    Writes cap (writeBundled cap s)
      (if s.1 = typeVideo ∨ s.1 = typeAudio then 32 :: s.2 else []) :=
  (Writes.append _).ite Writes.pass

theorem writes_answer (cap : ℕ) :
    Writes cap (writeAnswer cfg cap) (Text.unlines (answerLines cfg)) := by
  have hbundle : Text.unlines [bundleLine cfg] = Text.ascii "a=group:BUNDLE" ++
      (cfg.media.flatMap (fun s => if s.1 = typeVideo ∨ s.1 = typeAudio then 32 :: s.2 else []) ++
        [13, 10]) := by
    rw [Text.unlines_cons, bundleLine, Text.unlines, List.flatMap_nil, List.append_nil,
      List.append_assoc]
  have hsections : Text.unlines (cfg.media.flatMap (sectionLines cfg)) =
      cfg.media.flatMap fun s => Text.unlines (sectionLines cfg s) := List.flatMap_assoc ..
  simp only [answerLines, sessionLines, Text.unlines_append, hbundle, hsections,
    List.append_assoc]
  exact (Writes.line _).comp <| (Writes.line _).comp <| (Writes.line _).comp <|
    (Writes.line _).comp <| (Writes.append _).comp <|
    (Writes.each (writes_bundled cap) cfg.media).comp <| (Writes.append _).comp <|
    (Writes.line _).comp <| (Writes.line _).comp <| (Writes.optional _ _).comp <|
    (Writes.optional _ _).comp <| (Writes.optional _ _).comp <| (Writes.optional _ _).comp <|
    Writes.each (writes_section cap) cfg.media

/-- **A generated answer** is its lines, each with its end. -/
theorem generated_lines {cap : ℕ} {text : Bytes} (h : generateAnswer cfg cap = .ok text) :
    text = Text.unlines (answerLines cfg) := by
  unfold generateAnswer at h
  split at h
  · exact nomatch h
  · exact (writes_answer cap).only [] text h

/-- An answer that fits is generated. -/
theorem generate_of_fits {cap : ℕ} (h : (Text.unlines (answerLines cfg)).length < cap) :
    generateAnswer cfg cap = .ok (Text.unlines (answerLines cfg)) := by
  rw [generateAnswer, if_neg (by omega)]
  exact (writes_answer cap).room [] (by rwa [List.length_nil, Nat.zero_add])

end Lines

end Sdp

end NginxRtc
