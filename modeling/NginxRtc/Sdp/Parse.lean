/-
  Parsing an SDP offer (`ngx_rtc_sdp_parse_offer`).

  A `char` array is seen as the C string it holds, a cursor into a text as what is left of it.  The
  media sections of the parser stand newest first, and it is in a section when there is one.
  Payload types have seven bits: the parser refuses larger numbers.

  `parseU32_decimal`, `nextToken_word`: what is written is read back.
-/
import NginxRtc.Basic
import Mathlib.Data.List.TakeWhile
import NginxRtc.Lib.Text

namespace NginxRtc

/-- An RTP payload type. -/
abbrev PayloadType := Fin 128

instance PayloadType.instNeZero : NeZero 128 := ⟨by decide⟩

namespace Sdp

def iceUfragLen : ℕ := 64
def icePwdLen : ℕ := 256
def fpAlgoLen : ℕ := 32
def fpLen : ℕ := 160
def setupLen : ℕ := 32
def strLen : ℕ := 64
def fmtpLen : ℕ := 256
def maxMedia : ℕ := 4
def midLen : ℕ := 32
def twccUriLen : ℕ := 96
def maxPt : ℕ := 32

/-! ## Tokens -/

/-- The C string at the front of a buffer. -/
def cstr (s : Bytes) : Bytes := s.takeWhile (· ≠ 0)

/-- `ngx_rtc_sdp_copy_token`, into a buffer of `cap` bytes. -/
def copyToken (cap : ℕ) (src : Bytes) : Except CodecErr Bytes :=
  if cap ≤ src.length then .error .tooSmall else .ok (cstr src)

/-- The loop of `ngx_rtc_sdp_parse_u32`, which has read digits of value `v`. -/
def parseU32Loop : (v : ℕ) → (seen : Bool) → Bytes → Except CodecErr ℕ
  | v, seen, [] => if seen then .ok v else .error .parse
  | v, seen, c :: s =>
    if Text.isDigit c then
      if (0xffffffff - Text.digitValue c) / 10 < v then .error .parse
      else parseU32Loop (v * 10 + Text.digitValue c) true s
    else if seen then .ok v
    else .error .parse

/-- `ngx_rtc_sdp_parse_u32`. -/
def parseU32 (s : Bytes) : Except CodecErr ℕ := parseU32Loop 0 false s

/-- `ngx_rtc_sdp_skip_ws`. -/
def skipWs (s : Bytes) : Bytes := s.dropWhile Text.blank

/-- `ngx_rtc_sdp_next_token`: the token and what follows. -/
def nextToken (s : Bytes) : Except CodecErr (Bytes × Bytes) :=
  match skipWs s with
  | [] => .error .parse
  | c :: s =>
    .ok ((c :: s).takeWhile (!Text.blank ·), (c :: s).dropWhile (!Text.blank ·))

/-- `ngx_rtc_sdp_streq_ci`. -/
def streqCi (a b : Bytes) : Bool := a.map upper = b.map upper
where
  upper (c : UInt8) : UInt8 := if 97 ≤ c && c ≤ 122 then c - 32 else c

/-! ## Sections -/

/-- `ngx_rtc_sdp_session_t`. -/
structure Session where
  iceUfrag : Bytes := []
  icePwd : Bytes := []
  fingerprintAlgo : Bytes := []
  fingerprint : Bytes := []
  setup : Bytes := []
deriving DecidableEq

/-- `ngx_rtc_sdp_pt_t`. -/
structure Pt where
  pt : PayloadType
  encoding : Bytes := []
  clockRate : ℕ := 0
  channels : ℕ := 0
  fmtp : Bytes := []
deriving DecidableEq

/-- `ngx_rtc_sdp_media_t`. -/
structure Media where
  type : Bytes
  mid : Bytes := []
  ssrc : ℕ := 0
  twccExt : ℕ := 0
  twccUri : Bytes := []
  pts : List Pt := []
deriving DecidableEq

/-- `ngx_rtc_sdp_parser_t`. -/
structure Parser where
  session : Session := {}
  media : List Media := []
deriving DecidableEq

/-- `ngx_rtc_sdp_set_if_empty`. -/
def setIfEmpty (dst : Bytes) (cap : ℕ) (value : Bytes) : Except CodecErr Bytes :=
  if dst ≠ [] then .ok dst else copyToken cap value

/-- `ngx_rtc_sdp_parse_fingerprint`. -/
def parseFingerprint (s : Session) (value : Bytes) : Except CodecErr Session := do
  let (tok, rest) ← nextToken value
  if s.fingerprintAlgo ≠ [] then return s
  let algo ← copyToken fpAlgoLen tok
  let hash ← copyToken fpLen (skipWs rest)
  return { s with fingerprintAlgo := algo, fingerprint := hash }

/-- A payload type number. -/
def parsePt (tok : Bytes) : Except CodecErr PayloadType := do
  let n ← parseU32 tok
  if h : n < 128 then return ⟨n, h⟩ else .error .parse

/-- `ngx_rtc_sdp_find_pt`, and the update of the entry found. -/
def updatePt (pt : PayloadType) (f : Pt → Except CodecErr Pt) :
    List Pt → Except CodecErr (List Pt)
  | [] => .error .parse
  | p :: ps => if p.pt = pt then (f p).map (· :: ps) else (updatePt pt f ps).map (p :: ·)

/-- `<encoding>/<clock>[/<channels>]`. -/
def readRtpmap (value : Bytes) (p : Pt) : Except CodecErr Pt := do
  let encoding ← copyToken strLen (value.takeWhile (· ≠ 47))
  let value := (value.dropWhile (· ≠ 47)).drop 1
  let clock ← parseU32 (value.takeWhile (· ≠ 47))
  let value := (value.dropWhile (· ≠ 47)).drop 1
  if value = [] then return { p with encoding, clockRate := clock }
  let channels ← parseU32 value
  return { p with encoding, clockRate := clock, channels }

/-- `ngx_rtc_sdp_parse_rtpmap`. -/
def parseRtpmap (m : Media) (value : Bytes) : Except CodecErr Media := do
  let (tok, rest) ← nextToken value
  let pt ← parsePt tok
  let pts ← updatePt pt (readRtpmap (skipWs rest)) m.pts
  return { m with pts }

/-- `ngx_rtc_sdp_parse_ssrc`. -/
def parseSsrc (m : Media) (value : Bytes) : Except CodecErr Media := do
  let (tok, _) ← nextToken value
  let ssrc ← parseU32 tok
  return { m with ssrc }

/-- The parameters of a payload type. -/
def readFmtp (value : Bytes) (p : Pt) : Except CodecErr Pt :=
  (copyToken fmtpLen value).map ({ p with fmtp := · })

/-- `ngx_rtc_sdp_parse_fmtp`. -/
def parseFmtp (m : Media) (value : Bytes) : Except CodecErr Media := do
  let (tok, rest) ← nextToken value
  let pt ← parsePt tok
  let pts ← updatePt pt (readFmtp (skipWs rest)) m.pts
  return { m with pts }

/-- The digits of an extension id; the number wraps. -/
def extmapId : (id : ℕ) → Bytes → ℕ
  | id, c :: s =>
    if Text.isDigit c then extmapId ((id * 10 + Text.digitValue c) % 2 ^ 32) s else id
  | id, [] => id

def twcc : Bytes := Text.ascii "transport-wide-cc"

/-- A byte of an extension URI. -/
def uriByte (c : UInt8) : Bool := !(Text.blank c || c = 13 || c = 10)

/-- `ngx_rtc_sdp_parse_extmap`. -/
def parseExtmap (m : Media) (value : Bytes) : Media :=
  let id := extmapId 0 (skipWs value)
  let uri := (skipWs ((skipWs value).dropWhile Text.isDigit)).takeWhile uriByte
  if id = 0 then m
  else if twcc <:+: uri ∧ id ≤ 14 ∧ 0 < uri.length ∧ uri.length < twccUriLen then
    { m with twccUri := cstr uri, twccExt := id }
  else m

/-! ## Lines -/

/-- The attributes of a media section. -/
def applyMedia (name value : Bytes) (m : Media) : Except CodecErr Media :=
  if name = Text.ascii "mid" then (copyToken midLen value).map ({ m with mid := · })
  else if name = Text.ascii "rtpmap" then parseRtpmap m value
  else if name = Text.ascii "ssrc" then parseSsrc m value
  else if name = Text.ascii "fmtp" then parseFmtp m value
  else if name = Text.ascii "extmap" then .ok (parseExtmap m value)
  else .ok m

/-- `ngx_rtc_sdp_apply_attr`. -/
def applyAttr (st : Parser) (name value : Bytes) : Except CodecErr Parser :=
  if name = Text.ascii "ice-ufrag" then
    (setIfEmpty st.session.iceUfrag iceUfragLen value).map
      fun s => { st with session := { st.session with iceUfrag := s } }
  else if name = Text.ascii "ice-pwd" then
    (setIfEmpty st.session.icePwd icePwdLen value).map
      fun s => { st with session := { st.session with icePwd := s } }
  else if name = Text.ascii "setup" then
    (setIfEmpty st.session.setup setupLen value).map
      fun s => { st with session := { st.session with setup := s } }
  else if name = Text.ascii "fingerprint" then
    (parseFingerprint st.session value).map ({ st with session := · })
  else
    match st.media with
    | [] => .ok st
    | m :: ms => (applyMedia name value m).map fun m => { st with media := m :: ms }

/-- `ngx_rtc_sdp_parse_attr`. -/
def parseAttr (st : Parser) (content : Bytes) : Except CodecErr Parser :=
  applyAttr st (content.takeWhile (· ≠ 58)) ((content.dropWhile (· ≠ 58)).drop 1)

/-- The payload types of an m-line; the first token that is no number ends them. -/
def readPts : List Bytes → List Pt → Except CodecErr (List Pt)
  | [], pts => .ok pts
  | tok :: toks, pts =>
    match parseU32 tok with
    | .error _ => .ok pts
    | .ok n =>
      if h : n < 128 then
        if maxPt ≤ pts.length then .error .tooLarge
        else readPts toks (pts ++ [{ pt := ⟨n, h⟩ }])
      else .error .parse

/-- `ngx_rtc_sdp_parse_media`; its tokens are the words of the line. -/
def parseMedia (st : Parser) (content : Bytes) : Except CodecErr Parser :=
  if maxMedia ≤ st.media.length then .error .tooLarge
  else
    match Text.words content with
    | [] => .error .parse
    | tok :: toks => do
      let type ← copyToken strLen tok
      match toks with
      | _port :: _proto :: fmts => do
        let pts ← readPts fmts []
        return { st with media := { type, pts } :: st.media }
      | _ => .error .parse

/-- `ngx_rtc_sdp_parse_line`, and the check of its caller that it is one. -/
def parseLine (st : Parser) : Bytes → Except CodecErr Parser
  | kind :: 61 :: content =>
    if kind = 109 then parseMedia st content
    else if kind = 97 then parseAttr st content
    else .ok st
  | _ => .ok st

/-- The lines of a text, one by one. -/
def parse (text : Bytes) : Except CodecErr Parser := (Text.lines text).foldlM parseLine {}

/-! ## The offer -/

/-- Of an `ngx_rtc_sdp_offer_t`, what it says of one kind of media; for video it has no number of
    channels. -/
structure Track where
  pt : PayloadType := 0
  ssrc : ℕ := 0
  encoding : Bytes := []
  clockRate : ℕ := 0
  channels : ℕ := 0
  fmtp : Bytes := []
  twccExt : ℕ := 0
  twccUri : Bytes := []
deriving DecidableEq

/-- `ngx_rtc_sdp_offer_t`; each section with its type and its mid. -/
structure Offer where
  session : Session := {}
  video : Track := {}
  audio : Track := {}
  media : List (Bytes × Bytes) := []
deriving DecidableEq

def typeVideo : Bytes := Text.ascii "video"
def typeAudio : Bytes := Text.ascii "audio"
def h264 : Bytes := Text.ascii "H264"
def opus : Bytes := Text.ascii "opus"

/-- The payload type of a section that is mapped to a codec. -/
def Media.findCodec (codec : Bytes) (m : Media) : Option Pt :=
  m.pts.find? fun p => streqCi p.encoding codec

/-- What a section says of its kind of media. -/
def Track.update (codec : Bytes) (m : Media) (t : Track) : Track :=
  match m.findCodec codec with
  | none => { t with twccExt := m.twccExt, twccUri := m.twccUri }
  | some p =>
    { pt := p.pt
      ssrc := m.ssrc
      encoding := p.encoding
      clockRate := p.clockRate
      channels := p.channels
      fmtp := p.fmtp
      twccExt := m.twccExt
      twccUri := m.twccUri }

def Offer.addMedia (o : Offer) (m : Media) : Offer :=
  if m.type = typeVideo then { o with video := o.video.update h264 m }
  else if m.type = typeAudio then { o with audio := o.audio.update opus m }
  else o

/-- The sections in the order of the text. -/
def Parser.sections (st : Parser) : List Media := st.media.reverse

/-- `ngx_rtc_sdp_build_offer`. -/
def buildOffer (st : Parser) : Offer :=
  { st.sections.foldl Offer.addMedia { session := st.session } with
    media := st.sections.map fun m => (m.type, m.mid) }

/-- `ngx_rtc_sdp_parse_offer`. -/
def parseOffer (text : Bytes) : Except CodecErr Offer := (parse text).map buildOffer

/-! ## What is written is read back -/

theorem cstr_eq {s : Bytes} (h : ∀ c ∈ s, c ≠ 0) : cstr s = s :=
  List.takeWhile_eq_self_iff.2 fun c hc => decide_eq_true (h c hc)

theorem copyToken_eq {cap : ℕ} {s : Bytes} (hlen : s.length < cap) (h : ∀ c ∈ s, c ≠ 0) :
    copyToken cap s = .ok s := by
  rw [copyToken, if_neg (Nat.not_le.2 hlen), cstr_eq h]

theorem parseU32Loop_digit {v d : ℕ} (hd : d < 10) (h : v * 10 + d < 2 ^ 32) (seen : Bool)
    (s : Bytes) :
    parseU32Loop v seen (Text.digit d :: s) = parseU32Loop (v * 10 + d) true s := by
  obtain ⟨hdigit, hvalue⟩ := Text.digit_spec hd
  rw [parseU32Loop, if_pos hdigit, hvalue, if_neg (by omega)]

theorem parseU32Loop_decimal {n : ℕ} (h : n < 2 ^ 32) (s : Bytes) :
    parseU32Loop 0 false (Text.decimal n ++ s) = parseU32Loop n true s := by
  induction n using Nat.strong_induction_on generalizing s with
  | _ n ih =>
    rcases Nat.lt_or_ge n 10 with hn | hn
    · rw [Text.decimal_of_lt hn]
      exact (parseU32Loop_digit hn (by omega) false s).trans (by rw [Nat.zero_mul, Nat.zero_add])
    · rw [Text.decimal_of_le hn, List.append_assoc, ih (n / 10) (by omega) (by omega)]
      refine (parseU32Loop_digit (Nat.mod_lt n (by decide)) (by omega) true s).trans ?_
      rw [show n / 10 * 10 + n % 10 = n by omega]

/-- **A number, and something that is no digit.** -/
theorem parseU32_decimal {n : ℕ} (h : n < 2 ^ 32) {s : Bytes}
    (hs : ∀ c ∈ s.head?, Text.isDigit c = false) : parseU32 (Text.decimal n ++ s) = .ok n := by
  rw [parseU32, parseU32Loop_decimal h]
  cases s with
  | nil => rfl
  | cons c s => rw [parseU32Loop, hs c rfl]; rfl

theorem parseU32_eq {n : ℕ} (h : n < 2 ^ 32) : parseU32 (Text.decimal n) = .ok n := by
  have := parseU32_decimal h (s := []) fun _ hc => nomatch hc
  rwa [List.append_nil] at this

theorem decimal_injective {m n : ℕ} (hm : m < 2 ^ 32) (hn : n < 2 ^ 32)
    (h : Text.decimal m = Text.decimal n) : m = n :=
  Except.ok.inj ((parseU32_eq hm).symm.trans (h ▸ parseU32_eq hn))

theorem parsePt_eq (pt : PayloadType) : parsePt (Text.decimal pt) = .ok pt := by
  have hlt := pt.isLt
  rw [parsePt, parseU32_eq (by omega)]
  exact dif_pos hlt

theorem skipWs_blank (s : Bytes) : skipWs (32 :: s) = skipWs s := rfl

theorem skipWs_eq {s : Bytes} (h : ∀ c ∈ s.head?, Text.blank c = false) : skipWs s = s :=
  Text.dropWhile_run (w := []) (fun _ hc => absurd hc List.not_mem_nil) h

theorem head_word {w : Bytes} (hw : Text.IsWord w) (s : Bytes) :
    ∀ c ∈ (w ++ s).head?, Text.blank c = false := by
  obtain ⟨d, w', rfl⟩ := List.exists_cons_of_ne_nil hw.ne_nil
  rintro c ⟨⟩
  exact hw.solid d List.mem_cons_self

/-- **A word, and a blank or nothing.** -/
theorem nextToken_word {w : Bytes} (hw : Text.IsWord w) {s : Bytes}
    (hs : ∀ c ∈ s.head?, Text.blank c = true) : nextToken (w ++ s) = .ok (w, s) := by
  have hsolid : ∀ c ∈ w, (!Text.blank c) = true := fun c hc => by rw [hw.solid c hc]; rfl
  have hend : ∀ c ∈ s.head?, (!Text.blank c) = false := fun c hc => by rw [hs c hc]; rfl
  have htake := Text.takeWhile_run hsolid hend
  have hdrop := Text.dropWhile_run hsolid hend
  obtain ⟨d, w', hd⟩ := List.exists_cons_of_ne_nil hw.ne_nil
  have hskip : skipWs (w ++ s) = d :: (w' ++ s) := by
    rw [skipWs_eq (head_word hw s), hd, List.cons_append]
  rw [hd, List.cons_append] at htake hdrop
  rw [nextToken, hskip]
  simp only [htake, hdrop, hd]

end Sdp

end NginxRtc
