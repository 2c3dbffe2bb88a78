/-
  Parsing RTCP (`ngx_rtc_rtcp_parse`, `ngx_rtc_rtcp_decode`).

  A byte string has exactly the bytes the caller said there are, so a read past them is `none`; a
  parse is `none` when it makes one.
-/
import NginxRtc.Basic
import NginxRtc.Lib.Wire

namespace NginxRtc

namespace Rtcp

def typeSr : UInt8 := 200
def typeRr : UInt8 := 201
def typeSdes : UInt8 := 202
def typeRtpfb : UInt8 := 205
def typePsfb : UInt8 := 206

def fmtNack : UInt8 := 1
def fmtPli : UInt8 := 1
def fmtTwcc : UInt8 := 15
def fmtRemb : UInt8 := 15

def maxNackEntries : ℕ := 128
def maxRembSsrcs : ℕ := 32
def maxCname : ℕ := 256

/-! ## Packets -/

/-- `ngx_rtc_rtcp_rb_t`. -/
structure ReportBlock where
  ssrc : UInt32
  fractionLost : UInt8
  lostPackets : UInt32
  highestSeq : UInt32
  jitter : UInt32
  lsr : UInt32
  dlsr : UInt32
deriving DecidableEq, Repr

def ReportBlock.zero : ReportBlock := ⟨0, 0, 0, 0, 0, 0, 0⟩

/-- `ngx_rtc_rtcp_pkt_t`; the entries of its arrays that are valid, and `cname` without its
    terminator. -/
structure Pkt where
  version : UInt8 := 0
  padding : UInt8 := 0
  type : UInt8 := 0
  fmt : UInt8 := 0
  lengthWords : UInt16 := 0
  totalLen : ℕ := 0
  ssrc : UInt32 := 0
  ntp : UInt64 := 0
  rtpTs : UInt32 := 0
  senderPacketCount : UInt32 := 0
  senderOctetCount : UInt32 := 0
  rb : Option ReportBlock := none
  cname : Bytes := []
  mediaSsrc : UInt32 := 0
  nack : List (UInt16 × UInt16) := []
  twccBaseSeq : UInt16 := 0
  twccPktCount : UInt16 := 0
  twccLost : UInt32 := 0
  twccReceived : UInt32 := 0
  remb : Option (UInt32 × List UInt32) := none
deriving DecidableEq, Repr

/-! ## The parts of a packet -/

section Parts
variable (b : Bytes)

/-- `ngx_rtc_rtcp_read_rb` at `i`. -/
def readRb (i : ℕ) : Option ReportBlock := do
  let ssrc ← Wire.rd32 b i
  let fractionLost ← b[i + 4]?
  let lostPackets ← Wire.rd24 b (i + 5)
  let highestSeq ← Wire.rd32 b (i + 8)
  let jitter ← Wire.rd32 b (i + 12)
  let lsr ← Wire.rd32 b (i + 16)
  let dlsr ← Wire.rd32 b (i + 20)
  some { ssrc, fractionLost, lostPackets, highestSeq, jitter, lsr, dlsr }

/-- The walk over the items of one SDES chunk from `off` on, for a number of rounds: the offset
    behind the terminator, or the end of the parse and the CNAME it found. -/
def sdesItems (total : ℕ) : ℕ → ℕ → Option (ℕ ⊕ Bytes)
  | 0, _ => none
  | n + 1, off =>
    if off + 1 ≤ total then do
      let itemType ← b[off]?
      if itemType = 0 then some (.inl (off + 1))
      else if total < off + 2 then some (.inr [])
      else do
        let itemLen ← b[off + 1]?
        if total < off + 2 + itemLen.toNat then some (.inr [])
        else if itemType = 1 then do
          let text ← Wire.slice b (off + 2)
            (if maxCname ≤ itemLen.toNat then maxCname - 1 else itemLen.toNat)
          some (.inr text)
        else sdesItems total n (off + 2 + itemLen.toNat)
    else some (.inl off)

/-- The next multiple of four. -/
def align4 (off : ℕ) : ℕ := (off + 3) / 4 * 4

/-- The SDES chunks from `off` on: the first CNAME. -/
def sdesChunks (total : ℕ) : ℕ → ℕ → Option Bytes
  | 0, _ => some []
  | n + 1, off =>
    if off + 4 ≤ total then do
      match ← sdesItems b total (total + 1) (off + 4) with
      | .inr cname => some cname
      | .inl off => sdesChunks total n (align4 off)
    else some []

/-- `ngx_rtc_rtcp_parse_sdes`. -/
def parseSdes (total : ℕ) (pkt : Pkt) : Option Pkt := do
  let cname ← sdesChunks b total pkt.fmt.toNat 4
  some { pkt with cname }

/-- The packets a TWCC chunk reports, while fewer than `count` have been reported. -/
def twccSymbols (lost : ℕ → Bool) (count : ℕ) : ℕ → ℕ → Pkt × ℕ → Pkt × ℕ
  | 0, _, r => r
  | n + 1, symbol, (pkt, parsed) =>
    if parsed < count then
      twccSymbols lost count n (symbol + 1)
        (if lost symbol then { pkt with twccLost := pkt.twccLost + 1 }
          else { pkt with twccReceived := pkt.twccReceived + 1 }, parsed + 1)
    else (pkt, parsed)

/-- One TWCC chunk: a run of packets with one status, or a vector of one- or two-bit ones. -/
def twccChunk (chunk : UInt16) (count : ℕ) (r : Pkt × ℕ) : Pkt × ℕ :=
  if chunk >>> 15 = 0 then
    let run := min (chunk &&& 0x1FFF).toNat (count - r.2)
    (if (chunk >>> 13) &&& 3 = 0 then { r.1 with twccLost := r.1.twccLost + UInt32.ofNat run }
      else { r.1 with twccReceived := r.1.twccReceived + UInt32.ofNat run }, r.2 + run)
  else if chunk &&& 0x4000 = 0 then
    twccSymbols (fun symbol => (chunk >>> UInt16.ofNat (13 - symbol)) &&& 1 = 0) count 14 0 r
  else
    twccSymbols (fun symbol => (chunk >>> UInt16.ofNat (12 - symbol * 2)) &&& 3 = 0) count 7 0 r

/-- The chunk list from `p` on, of which `words` chunks are inside the packet. -/
def twccChunks (count : ℕ) : ℕ → ℕ → Pkt × ℕ → Option Pkt
  | 0, _, r => some r.1
  | words + 1, p, r =>
    if r.2 < count then do
      let chunk ← Wire.rd16 b p
      twccChunks count words (p + 2) (twccChunk chunk count r)
    else some r.1

/-- `ngx_rtc_rtcp_parse_twcc`. -/
def parseTwcc (total : ℕ) (pkt : Pkt) : Option Pkt :=
  if total < 20 then some pkt
  else do
    let base ← Wire.rd16 b 12
    let count ← Wire.rd16 b 14
    twccChunks b count.toNat ((total - 20) / 2) 20
      ({ pkt with twccBaseSeq := base, twccPktCount := count }, 0)

/-- Words from `p` on. -/
def words32 : ℕ → ℕ → Option (List UInt32)
  | 0, _ => some []
  | n + 1, p => do
    let v ← Wire.rd32 b p
    let vs ← words32 n (p + 4)
    some (v :: vs)

/-- `ngx_rtc_rtcp_parse_remb`. -/
def parseRemb (total : ℕ) (pkt : Pkt) : Option (Except CodecErr Pkt) :=
  if total - 12 < 4 then some (.ok pkt)
  else do
    let magic ← Wire.slice b 12 4
    if magic ≠ [0x52, 0x45, 0x4D, 0x42] then some (.ok pkt)
    else if total - 12 < 8 then some (.error .parse)
    else do
      let word ← Wire.rd32 b 16
      let numSsrc := ((word >>> 24) &&& 0xff).toNat
      if total - 12 < 8 + numSsrc * 4 then some (.error .parse)
      else do
        let bitrate := (word &&& 0x3ffff).toUInt64 * ((1 : UInt64) <<< ((word >>> 18) &&& 0x3f).toUInt64)
        let ssrcs ← words32 b (min numSsrc maxRembSsrcs) 20
        some (.ok { pkt with remb := some (bitrate.toUInt32, ssrcs) })

/-- The generic NACK entries from `p` on. -/
def nackEntries : ℕ → ℕ → Option (List (UInt16 × UInt16))
  | 0, _ => some []
  | n + 1, p => do
    let pid ← Wire.rd16 b p
    let blp ← Wire.rd16 b (p + 2)
    let rest ← nackEntries n (p + 4)
    some ((pid, blp) :: rest)

end Parts

/-! ## A packet -/

section Packet
variable (b : Bytes)

/-- The version of the header at the start of `b`. -/
def version : UInt8 := (b.getD 0 0 >>> 6) &&& 3

def fmtOf : UInt8 := b.getD 0 0 &&& 0x1f

def typeOf : UInt8 := b.getD 1 0

def lengthOf : UInt16 := Wire.word16 (b.getD 2 0) (b.getD 3 0)

/-- The size in bytes the header states. -/
def totalOf : ℕ := ((lengthOf b).toNat + 1) * 4

/-- The branch of an SR. -/
def parseSr (total : ℕ) (pkt : Pkt) : Option (Except CodecErr Pkt) :=
  if total < 28 then some (.error .parse)
  else do
    let ntp ← Wire.rd64 b 8
    let rtpTs ← Wire.rd32 b 16
    let senderPacketCount ← Wire.rd32 b 20
    let senderOctetCount ← Wire.rd32 b 24
    let pkt := { pkt with ntp, rtpTs, senderPacketCount, senderOctetCount }
    if 0 < pkt.fmt then
      if total < 52 then some (.error .parse)
      else do
        let rb ← readRb b 28
        some (.ok { pkt with rb := some rb })
    else some (.ok pkt)

/-- The branch of an RR. -/
def parseRr (total : ℕ) (pkt : Pkt) : Option (Except CodecErr Pkt) :=
  if 0 < pkt.fmt then
    if total < 32 then some (.error .parse)
    else do
      let rb ← readRb b 8
      some (.ok { pkt with rb := some rb })
  else some (.ok pkt)

/-- The branch of transport feedback. -/
def parseRtpfb (total : ℕ) (pkt : Pkt) : Option (Except CodecErr Pkt) :=
  if total < 12 then some (.error .parse)
  else do
    let mediaSsrc ← Wire.rd32 b 8
    let pkt := { pkt with mediaSsrc }
    if pkt.fmt = fmtNack then do
      let nack ← nackEntries b (min ((total - 12) / 4) maxNackEntries) 12
      some (.ok { pkt with nack })
    else if pkt.fmt = fmtTwcc then do
      let pkt ← parseTwcc b total pkt
      some (.ok pkt)
    else some (.ok pkt)

/-- The branch of payload feedback. -/
def parsePsfb (total : ℕ) (pkt : Pkt) : Option (Except CodecErr Pkt) :=
  if total < 12 then some (.error .parse)
  else do
    let mediaSsrc ← Wire.rd32 b 8
    let pkt := { pkt with mediaSsrc }
    if pkt.fmt = fmtRemb then parseRemb b total pkt
    else some (.ok pkt)

/-- The `switch` over the packet type. -/
def parseBody (total : ℕ) (pkt : Pkt) : Option (Except CodecErr Pkt) :=
  if pkt.type = typeSr then parseSr b total pkt
  else if pkt.type = typeRr then parseRr b total pkt
  else if pkt.type = typeSdes then
    if total < 8 then some (.error .parse)
    else (parseSdes b total pkt).map .ok
  else if pkt.type = typeRtpfb then parseRtpfb b total pkt
  else if pkt.type = typePsfb then parsePsfb b total pkt
  else some (.ok pkt)

/-- `ngx_rtc_rtcp_parse`: the packet and the bytes consumed. -/
def parse : Option (Except CodecErr (Pkt × ℕ)) :=
  if b.length < 4 then some (.error .needMore)
  else do
    let b0 : UInt8 ← b[0]?
    let type : UInt8 ← b[1]?
    let lengthWords ← Wire.rd16 b 2
    let total := (lengthWords.toNat + 1) * 4
    if b.length < total then some (.error .needMore)
    else if (b0 >>> 6) &&& 3 ≠ 2 then some (.error .parse)
    else do
      let ssrc ← Wire.rd32 b 4
      let r ← parseBody b total
        { version := (b0 >>> 6) &&& 3, padding := (b0 >>> 5) &&& 1, type := type,
          fmt := b0 &&& 0x1f, lengthWords := lengthWords, totalLen := total, ssrc := ssrc }
      some (r.map (·, total))

end Packet

/-! ## A compound packet -/

/-- How a walk over a compound packet ends: with a result code (`none` is `NGX_RTC_OK`, `inl` one of
    the parser and `inr` one of the callback), with a read past the end, or not at all. -/
inductive Walk (σ : Type) where
  | done (rc : Option (CodecErr ⊕ Int)) (s : σ)
  | overread
  | unended

/-- The loop of `ngx_rtc_rtcp_decode` over the rest `b` of the packet, for a number of rounds; the
    callback returns `none` for `NGX_RTC_OK`. -/
def walk {σ : Type} (cb : σ → Pkt → Option Int × σ) : ℕ → Bytes → σ → Walk σ
  | _, [], s => .done none s
  | 0, _ :: _, _ => .unended
  | n + 1, b@(_ :: _), s =>
    match parse b with
    | none => .overread
    | some (.error e) => .done (some (.inl e)) s
    | some (.ok (pkt, consumed)) =>
      match cb s pkt with
      | (some rc, s') => .done (some (.inr rc)) s'
      | (none, s') => walk cb n (b.drop consumed) s'

/-- `ngx_rtc_rtcp_decode`: with four bytes or more a packet, no walk takes more rounds. -/
def decode {σ : Type} (cb : σ → Pkt → Option Int × σ) (b : Bytes) (s : σ) : Walk σ :=
  walk cb ((b.length + 3) / 4) b s

end Rtcp

end NginxRtc
