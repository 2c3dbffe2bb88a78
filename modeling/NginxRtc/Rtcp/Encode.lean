/-
  Encoding RTCP (`ngx_rtc_rtcp_encode_sr`, `ngx_rtc_rtcp_encode_sdes`, `ngx_rtc_rtcp_encode_pli`,
  `ngx_rtc_rtcp_compound_append`), and what the parser makes of it.

  `parse_encode`: the parser reads one encoded packet back, whatever follows it.
  `compound_roundtrip`: a walk over a compound packet hands its callback the packets it was built of.
-/
import Mathlib.Data.List.TakeWhile
import NginxRtc.Rtcp.Parse

namespace NginxRtc
namespace Rtcp

/-! ## Encoders -/

/-- `ngx_rtc_rtcp_wr_header`. -/
def wrHeader (type fmt : UInt8) (total : ℕ) : Bytes :=
  [0x80 ||| (fmt &&& 0x1f), type] ++ Wire.wr16 (UInt16.ofNat (total / 4 - 1))

/-- `ngx_rtc_rtcp_write_rb`. -/
def writeRb (rb : ReportBlock) : Bytes :=
  Wire.wr32 rb.ssrc ++ [rb.fractionLost] ++ Wire.wr24 rb.lostPackets ++ Wire.wr32 rb.highestSeq ++
    Wire.wr32 rb.jitter ++ Wire.wr32 rb.lsr ++ Wire.wr32 rb.dlsr

/-- `ngx_rtc_rtcp_sr_t`. -/
structure Sr where
  ssrc : UInt32
  ntp : UInt64
  rtpTs : UInt32
  packetCount : UInt32
  octetCount : UInt32
  rb : Option ReportBlock

/-- `rc` of the encoder. -/
def Sr.fmt (sr : Sr) : UInt8 := if sr.rb.isSome then 1 else 0

def Sr.total (sr : Sr) : ℕ := 28 + sr.fmt.toNat * 24

/-- `ngx_rtc_rtcp_encode_sr`; `now` is the wall clock. -/
def encodeSr (now : UInt64) (sr : Sr) (cap : ℕ) : Except CodecErr Bytes :=
  if cap < sr.total then .error .tooSmall
  else
    .ok (wrHeader typeSr sr.fmt sr.total ++ (Wire.wr32 sr.ssrc ++
      (Wire.wr64 (if sr.ntp = 0 then now else sr.ntp) ++ Wire.wr32 sr.rtpTs ++
        Wire.wr32 sr.packetCount ++ Wire.wr32 sr.octetCount ++ (sr.rb.map writeRb).getD [])))

/-- The size of an SDES packet with `n` bytes of CNAME, up to the padding. -/
def sdesBare (n : ℕ) : ℕ := 4 + 4 + 2 + n + 1

def sdesPad (n : ℕ) : ℕ := (4 - sdesBare n % 4) % 4

/-- `ngx_rtc_rtcp_encode_sdes`; the text of `cname` ends at its first NUL. -/
def encodeSdes (ssrc : UInt32) (cname : Bytes) (cap : ℕ) : Except CodecErr Bytes :=
  let text := cname.takeWhile (· ≠ 0)
  if 255 < text.length then .error .tooLarge
  else if cap < sdesBare text.length + sdesPad text.length then .error .tooSmall
  else
    .ok (wrHeader typeSdes 1 (sdesBare text.length + sdesPad text.length) ++ (Wire.wr32 ssrc ++
      ([1, UInt8.ofNat text.length] ++ (text ++ (0 :: List.replicate (sdesPad text.length) 0)))))

/-- `ngx_rtc_rtcp_encode_pli`. -/
def encodePli (senderSsrc mediaSsrc : UInt32) (cap : ℕ) : Except CodecErr Bytes :=
  if cap < 12 then .error .tooSmall
  else .ok (wrHeader typePsfb fmtPli 12 ++ (Wire.wr32 senderSsrc ++ Wire.wr32 mediaSsrc))

/-- `ngx_rtc_rtcp_compound_append`. -/
def compoundAppend (compound : Bytes) (cap : ℕ) (pkt : Bytes) : Except CodecErr Bytes :=
  if cap < compound.length ∨ cap - compound.length < pkt.length then .error .tooSmall
  else .ok (compound ++ pkt)

/-! ### A compound packet -/

/-- A packet the module encodes. -/
inductive Item where
  | sr (sr : Sr)
  | sdes (ssrc : UInt32) (cname : Bytes)
  | pli (senderSsrc mediaSsrc : UInt32)

namespace Item

def encode (now : UInt64) (cap : ℕ) : Item → Except CodecErr Bytes
  | sr s => encodeSr now s cap
  | sdes ssrc cname => encodeSdes ssrc cname cap
  | pli sender media => encodePli sender media cap

def size : Item → ℕ
  | sr s => s.total
  | sdes _ cname => sdesBare cname.length + sdesPad cname.length
  | pli _ _ => 12

/-- A nonzero NTP time and a loss count of 24 bits; a CNAME of at most 255 bytes, none of them
    NUL. -/
def Encodable : Item → Prop
  | sr s => s.ntp ≠ 0 ∧ ∀ rb ∈ s.rb, rb.lostPackets.toNat < 2 ^ 24
  | sdes _ cname => cname.length ≤ 255 ∧ ∀ c ∈ cname, c ≠ 0
  | pli _ _ => True

/-- The packet the parser is to report. -/
def pkt : Item → Pkt
  | sr s =>
    { version := 2, type := typeSr, fmt := s.fmt,
      lengthWords := UInt16.ofNat (s.total / 4 - 1), totalLen := s.total, ssrc := s.ssrc,
      ntp := s.ntp, rtpTs := s.rtpTs, senderPacketCount := s.packetCount,
      senderOctetCount := s.octetCount, rb := s.rb }
  | sdes ssrc cname =>
    { version := 2, type := typeSdes, fmt := 1,
      lengthWords := UInt16.ofNat ((sdesBare cname.length + sdesPad cname.length) / 4 - 1),
      totalLen := sdesBare cname.length + sdesPad cname.length, ssrc := ssrc, cname := cname }
  | pli sender media =>
    { version := 2, type := typePsfb, fmt := fmtPli, lengthWords := UInt16.ofNat (12 / 4 - 1),
      totalLen := 12, ssrc := sender, mediaSsrc := media }

end Item

/-- Encode each packet into a buffer of `tmp` bytes and append it to a compound packet in one of
    `cap` bytes. -/
def encodeAll (now : UInt64) (tmp cap : ℕ) : List Item → Bytes → Except CodecErr Bytes
  | [], compound => .ok compound
  | item :: items, compound =>
    match item.encode now tmp with
    | .error e => .error e
    | .ok pkt =>
      match compoundAppend compound cap pkt with
      | .error e => .error e
      | .ok compound => encodeAll now tmp cap items compound

/-! ## Reading one packet back -/

/-- A parse behind its header. -/
theorem parse_header {b0 type : UInt8} {words : UInt16} {ssrc : UInt32} {body : Bytes}
    (hversion : (b0 >>> 6) &&& 3 = 2) (hlen : (words.toNat + 1) * 4 ≤ 8 + body.length) :
    parse ([b0, type] ++ Wire.wr16 words ++ (Wire.wr32 ssrc ++ body)) =
      (parseBody ([b0, type] ++ Wire.wr16 words ++ (Wire.wr32 ssrc ++ body)) ((words.toNat + 1) * 4)
        { version := 2, padding := (b0 >>> 5) &&& 1, type := type, fmt := b0 &&& 0x1f,
          lengthWords := words, totalLen := (words.toNat + 1) * 4, ssrc := ssrc }).map
        fun r => r.map (·, (words.toNat + 1) * 4) := by
  set b := [b0, type] ++ Wire.wr16 words ++ (Wire.wr32 ssrc ++ body) with hb
  have hblen : b.length = 8 + body.length := by
    simp only [hb, List.length_append, Wire.length_wr16, Wire.length_wr32, List.length_cons,
      List.length_nil]
    omega
  have h0 : b[0]? = some b0 := rfl
  have h1 : b[1]? = some type := rfl
  have h2 : Wire.rd16 b 2 = some words := congrArg some (Wire.word16_bytes _)
  have hs : Wire.rd32 b 4 = some ssrc := congrArg some (Wire.word32_bytes _)
  have hlt : ¬b.length < (words.toNat + 1) * 4 := by omega
  have hge : ¬b.length < 4 := by omega
  rw [parse, if_neg hge]
  simp only [h0, h1, h2, hs, hversion, hlt, if_false, Option.bind_eq_bind, Option.bind_some,
    ne_eq, not_true_eq_false]
  cases parseBody b _ _ <;> rfl

theorem parse_wrHeader {type fmt : UInt8} {total : ℕ} {ssrc : UInt32} {body : Bytes}
    (hfmt : fmt = 0 ∨ fmt = 1) (h4 : total % 4 = 0) (h8 : 8 ≤ total) (hmax : total < 2 ^ 16)
    (hlen : total ≤ 8 + body.length) :
    parse (wrHeader type fmt total ++ (Wire.wr32 ssrc ++ body)) =
      (parseBody (wrHeader type fmt total ++ (Wire.wr32 ssrc ++ body)) total
        { version := 2, type := type, fmt := fmt, lengthWords := UInt16.ofNat (total / 4 - 1),
          totalLen := total, ssrc := ssrc }).map fun r => r.map (·, total) := by
  have hbits : (((0x80 : UInt8) ||| (fmt &&& 0x1f)) >>> 6) &&& 3 = 2 ∧
      (((0x80 : UInt8) ||| (fmt &&& 0x1f)) >>> 5) &&& 1 = 0 ∧
      ((0x80 : UInt8) ||| (fmt &&& 0x1f)) &&& 0x1f = fmt := by
    rcases hfmt with rfl | rfl <;> decide
  have htot : ((UInt16.ofNat (total / 4 - 1)).toNat + 1) * 4 = total := by
    rw [UInt16.toNat_ofNat']
    omega
  rw [wrHeader, parse_header hbits.1 (by rw [htot]; exact hlen), htot, hbits.2.1, hbits.2.2]

theorem readRb_drop (b : Bytes) (i : ℕ) : readRb (b.drop i) 0 = readRb b i := by
  simp only [readRb, Wire.rd32_drop, Wire.rd24_drop, List.getElem?_drop, Nat.zero_add, Nat.add_zero]

/-- A report block whose loss count fits is read back. -/
theorem readRb_writeRb {rb : ReportBlock} (h : rb.lostPackets.toNat < 2 ^ 24) (rest : Bytes) :
    readRb (writeRb rb ++ rest) 0 = some rb := by
  set b := writeRb rb ++ rest
  have h₁ : Wire.rd32 b 0 = some rb.ssrc := congrArg some (Wire.word32_bytes _)
  have h₂ : b[0 + 4]? = some rb.fractionLost := rfl
  have h₃ : Wire.rd24 b (0 + 5) = some rb.lostPackets := congrArg some (Wire.word24_bytes h)
  have h₄ : Wire.rd32 b (0 + 8) = some rb.highestSeq := congrArg some (Wire.word32_bytes _)
  have h₅ : Wire.rd32 b (0 + 12) = some rb.jitter := congrArg some (Wire.word32_bytes _)
  have h₆ : Wire.rd32 b (0 + 16) = some rb.lsr := congrArg some (Wire.word32_bytes _)
  have h₇ : Wire.rd32 b (0 + 20) = some rb.dlsr := congrArg some (Wire.word32_bytes _)
  simp only [readRb, h₁, h₂, h₃, h₄, h₅, h₆, h₇, Option.bind_eq_bind, Option.bind_some]

theorem parseSr_encoded (s : Sr) (h : ∀ rb ∈ s.rb, rb.lostPackets.toNat < 2 ^ 24) (rest : Bytes)
    (p : Pkt) (hf : p.fmt = s.fmt) (hrb : p.rb = none) :
    parseSr (wrHeader typeSr s.fmt s.total ++ (Wire.wr32 s.ssrc ++
      (Wire.wr64 s.ntp ++ Wire.wr32 s.rtpTs ++ Wire.wr32 s.packetCount ++ Wire.wr32 s.octetCount ++
        (s.rb.map writeRb).getD [] ++ rest))) s.total p =
      some (.ok { p with
        ntp := s.ntp, rtpTs := s.rtpTs, senderPacketCount := s.packetCount,
        senderOctetCount := s.octetCount, rb := s.rb }) := by
  set b := wrHeader typeSr s.fmt s.total ++ (Wire.wr32 s.ssrc ++
      (Wire.wr64 s.ntp ++ Wire.wr32 s.rtpTs ++ Wire.wr32 s.packetCount ++ Wire.wr32 s.octetCount ++
        (s.rb.map writeRb).getD [] ++ rest)) with hb
  have h₁ : Wire.rd64 b 8 = some s.ntp := by
    have hhi : Wire.rd32 b 8 = some (s.ntp >>> 32).toUInt32 := congrArg some (Wire.word32_bytes _)
    have hlo : Wire.rd32 b (8 + 4) = some s.ntp.toUInt32 := congrArg some (Wire.word32_bytes _)
    simp only [Wire.rd64, hhi, hlo, Wire.word64_words]
  have h₂ : Wire.rd32 b 16 = some s.rtpTs := congrArg some (Wire.word32_bytes _)
  have h₃ : Wire.rd32 b 20 = some s.packetCount := congrArg some (Wire.word32_bytes _)
  have h₄ : Wire.rd32 b 24 = some s.octetCount := congrArg some (Wire.word32_bytes _)
  have hdrop : b.drop 28 = (s.rb.map writeRb).getD [] ++ rest := rfl
  have h28 : ¬s.total < 28 := by
    unfold Sr.total
    omega
  rw [parseSr, if_neg h28]
  simp only [h₁, h₂, h₃, h₄, Option.bind_eq_bind, Option.bind_some, hf]
  clear_value b
  cases hs : s.rb with
  | none =>
    have hfmt : s.fmt = 0 := by rw [Sr.fmt, hs]; rfl
    rw [hfmt, if_neg (by decide), hrb]
  | some rb =>
    have hfmt : s.fmt = 1 := by rw [Sr.fmt, hs]; rfl
    have htot : ¬s.total < 52 := by rw [Sr.total, hfmt]; decide
    rw [hs] at hdrop
    rw [hfmt, if_pos (by decide), if_neg htot, ← readRb_drop, hdrop]
    simp only [Option.map_some, Option.getD_some, readRb_writeRb (h rb hs), Option.bind_some]

/-- What `ngx_rtc_rtcp_encode_sdes` writes for a text of `cname`. -/
def sdesBytes (ssrc : UInt32) (cname : Bytes) : Bytes :=
  wrHeader typeSdes 1 (sdesBare cname.length + sdesPad cname.length) ++ (Wire.wr32 ssrc ++
    ([1, UInt8.ofNat cname.length] ++ (cname ++ (0 :: List.replicate (sdesPad cname.length) 0))))

theorem sdesSize (n : ℕ) (h : n ≤ 255) : (sdesBare n + sdesPad n) % 4 = 0 ∧
    11 + n ≤ sdesBare n + sdesPad n ∧ sdesBare n + sdesPad n ≤ 269 := by
  unfold sdesPad sdesBare
  omega

/-- The parser finds the CNAME of a chunk that starts with it. -/
theorem parseSdes_encoded {b cname tail : Bytes} {total : ℕ} {p : Pkt} (hf : p.fmt = 1)
    (h : cname.length ≤ 255) (htotal : 11 + cname.length ≤ total)
    (hdrop : b.drop 8 = [1, UInt8.ofNat cname.length] ++ (cname ++ tail)) :
    parseSdes b total p = some { p with cname } := by
  have hb : ∀ k, b[8 + k]? = ([1, UInt8.ofNat cname.length] ++ (cname ++ tail))[k]? := by
    intro k
    rw [← hdrop, List.getElem?_drop]
  have h₈ : b[4 + 4]? = some 1 := hb 0
  have h₉ : b[4 + 4 + 1]? = some (UInt8.ofNat cname.length) := hb 1
  have hlen : (UInt8.ofNat cname.length).toNat = cname.length := by
    rw [UInt8.toNat_ofNat', Nat.mod_eq_of_lt (by omega)]
  have hslice : Wire.slice b (4 + 4 + 2) cname.length = some cname := by
    have hl := congrArg List.length hdrop
    simp only [List.length_drop, List.length_append, List.length_cons, List.length_nil] at hl
    have hd : b.drop (4 + 4 + 2) = cname ++ tail := by
      rw [show 4 + 4 + 2 = 8 + 2 from rfl, ← List.drop_drop, hdrop]
      rfl
    rw [Wire.slice_some (by omega), hd, List.take_left]
  have hcap : ¬maxCname ≤ cname.length := by
    have : maxCname = 256 := rfl
    omega
  have hitem : sdesItems b total (total + 1) (4 + 4) = some (.inr cname) := by
    rw [sdesItems, if_pos (by omega), h₈, Option.bind_eq_bind, Option.bind_some, if_neg (by decide),
      if_neg (by omega), h₉, Option.bind_some, hlen, if_neg (by omega), if_pos rfl, if_neg hcap,
      hslice]
    rfl
  rw [parseSdes, hf, show (1 : UInt8).toNat = 0 + 1 from rfl, sdesChunks, if_pos (by omega), hitem]
  rfl

/-- **An encoded packet is read back**, whatever follows it. -/
theorem parse_encode (now : UInt64) {cap : ℕ} {item : Item} (h : item.Encodable)
    (hcap : item.size ≤ cap) :
    ∃ enc, item.encode now cap = .ok enc ∧ enc.length = item.size ∧ item.size % 4 = 0 ∧
      ∀ rest, parse (enc ++ rest) = some (.ok (item.pkt, item.size)) := by
  cases item with
  | sr s =>
    have hfmt : s.fmt = 0 ∨ s.fmt = 1 := by
      unfold Sr.fmt
      split
      · exact .inr rfl
      · exact .inl rfl
    have htot : s.total = 28 + (s.fmt.toNat * 24) := rfl
    have hlen : ((s.rb.map writeRb).getD []).length = s.fmt.toNat * 24 := by
      unfold Sr.fmt
      cases s.rb <;> rfl
    have hmod : s.total % 4 = 0 ∧ 8 ≤ s.total ∧ s.total < 2 ^ 16 := by
      rcases hfmt with hf | hf <;> rw [htot, hf] <;> decide
    refine ⟨_, if_neg (Nat.not_lt.2 hcap), ?_, hmod.1, fun rest => ?_⟩
    · simp only [wrHeader, List.length_append, List.length_cons, List.length_nil, Wire.length_wr16,
        Wire.length_wr32, Wire.length_wr64, hlen, Item.size, htot]
      omega
    · rw [if_neg h.1, List.append_assoc, List.append_assoc, parse_wrHeader hfmt hmod.1 hmod.2.1 hmod.2.2]
      · rw [parseBody, if_pos rfl, parseSr_encoded s h.2 rest _ rfl rfl]
        rfl
      · simp only [List.length_append, Wire.length_wr32, Wire.length_wr64, hlen, htot]
        omega
  | sdes ssrc cname =>
    have htext : cname.takeWhile (· ≠ 0) = cname :=
      List.takeWhile_eq_self_iff.2 fun c hc => by simpa using h.2 c hc
    have hlen : ¬255 < cname.length := Nat.not_lt.2 h.1
    obtain ⟨hmod, h11, hmax⟩ := sdesSize cname.length h.1
    have henc : encodeSdes ssrc cname cap = .ok (sdesBytes ssrc cname) := by
      have hroom : ¬cap < sdesBare cname.length + sdesPad cname.length := Nat.not_lt.2 hcap
      simp only [encodeSdes, htext, if_neg hlen, if_neg hroom]
      rfl
    refine ⟨_, henc, ?_, hmod, fun rest => ?_⟩
    · simp only [sdesBytes, wrHeader, List.length_append, List.length_cons, List.length_nil,
        Wire.length_wr16, Wire.length_wr32, List.length_replicate, Item.size, sdesBare]
      omega
    · rw [sdesBytes, List.append_assoc, List.append_assoc, parse_wrHeader (.inr rfl) hmod (by omega)
        (by omega)]
      · have hsdes : typeSdes ≠ typeSr ∧ typeSdes ≠ typeRr := by decide
        rw [parseBody, if_neg hsdes.1, if_neg hsdes.2, if_pos rfl, if_neg (by omega),
          parseSdes_encoded rfl h.1 h11
            (congrArg ([1, UInt8.ofNat cname.length] ++ ·) (List.append_assoc cname _ rest))]
        rfl
      · simp only [List.length_append, List.length_cons, List.length_nil, List.length_replicate,
          sdesBare]
        omega
  | pli sender media =>
    have hmod : (12 : ℕ) % 4 = 0 := rfl
    refine ⟨_, if_neg (Nat.not_lt.2 hcap), rfl, hmod, fun rest => ?_⟩
    have hhead := @parse_wrHeader typePsfb fmtPli 12 sender (Wire.wr32 media ++ rest) (.inr rfl) rfl
      (by decide) (by decide) (by rw [List.length_append, Wire.length_wr32]; omega)
    rw [List.append_assoc, List.append_assoc, hhead]
    have hm : Wire.rd32 (wrHeader typePsfb fmtPli 12 ++ (Wire.wr32 sender ++ (Wire.wr32 media ++ rest)))
        8 = some media := congrArg some (Wire.word32_bytes _)
    simp only [parseBody, parsePsfb, hm]
    rfl

/-! ## Reading a compound packet back -/

theorem Item.eight_le_size (item : Item) : 8 ≤ item.size := by
  cases item with
  | sr s =>
    show 8 ≤ 28 + s.fmt.toNat * 24
    omega
  | sdes ssrc cname =>
    show 8 ≤ sdesBare cname.length + sdesPad cname.length
    unfold sdesBare
    omega
  | pli sender media => show 8 ≤ 12; decide

theorem encodeAll_append (now : UInt64) {tmp cap : ℕ} {items : List Item} (compound : Bytes)
    (h : ∀ item ∈ items, item.Encodable) (htmp : ∀ item ∈ items, item.size ≤ tmp)
    (hcap : compound.length + (items.map Item.size).sum ≤ cap) :
    ∃ out, encodeAll now tmp cap items compound = .ok (compound ++ out) ∧
      out.length = (items.map Item.size).sum ∧ out.length % 4 = 0 ∧
      4 * items.length ≤ out.length ∧ ∀ (σ : Type) (f : σ → Pkt → σ) (s : σ) (n : ℕ), items.length ≤ n →
        walk (fun s p => (none, f s p)) n out s = .done none ((items.map Item.pkt).foldl f s) := by
  induction items generalizing compound with
  | nil =>
    refine ⟨[], by rw [List.append_nil]; rfl, rfl, rfl, Nat.le_refl _, fun σ f s n _ => ?_⟩
    cases n <;> rfl
  | cons item items ih =>
    obtain ⟨enc, henc, hlen, hmod, hparse⟩ := parse_encode now
      (h item List.mem_cons_self) (htmp item List.mem_cons_self)
    rw [List.map_cons, List.sum_cons] at hcap
    obtain ⟨out, hout, holen, homod, hole, hwalk⟩ := ih (compound ++ enc)
      (fun i hi => h i (List.mem_cons_of_mem _ hi)) (fun i hi => htmp i (List.mem_cons_of_mem _ hi))
      (by rw [List.length_append]; omega)
    have hpos := item.eight_le_size
    refine ⟨enc ++ out, ?_, ?_, ?_, ?_, fun σ f s n hn => ?_⟩
    · have hroom : ¬(cap < compound.length ∨ cap - compound.length < enc.length) := by omega
      rw [encodeAll, henc, ← List.append_assoc, ← hout]
      simp only [compoundAppend, if_neg hroom]
    · rw [List.length_append, hlen, holen, List.map_cons, List.sum_cons]
    · rw [List.length_append]
      omega
    · rw [List.length_append, List.length_cons]
      omega
    · obtain ⟨m, rfl⟩ : ∃ m, n = m + 1 := ⟨n - 1, by rw [List.length_cons] at hn; omega⟩
      obtain ⟨x, l, hx⟩ : ∃ x l, enc ++ out = x :: l := by
        cases he : enc ++ out with
        | nil =>
          have hz := congrArg List.length he
          rw [List.length_append, List.length_nil] at hz
          omega
        | cons x l => exact ⟨x, l, rfl⟩
      rw [hx, walk, ← hx, hparse out]
      simp only
      rw [List.drop_left' hlen]
      exact hwalk σ f (f s item.pkt) m (Nat.le_of_succ_le_succ hn)

/-- **What was encoded is decoded.**  Packets that fit in a buffer of `cap` bytes are encoded into
    no more than that, a multiple of four; and `ngx_rtc_rtcp_decode` hands them to a callback that
    goes on, in their order, and returns `NGX_RTC_OK`. -/
theorem compound_roundtrip (now : UInt64) (tmp cap : ℕ) (items : List Item)
    (h : ∀ item ∈ items, item.Encodable) (htmp : ∀ item ∈ items, item.size ≤ tmp)
    (hcap : (items.map Item.size).sum ≤ cap) :
    ∃ out, encodeAll now tmp cap items [] = .ok out ∧ out.length ≤ cap ∧ out.length % 4 = 0 ∧
      ∀ (σ : Type) (f : σ → Pkt → σ) (s : σ),
        decode (fun s p => (none, f s p)) out s = .done none ((items.map Item.pkt).foldl f s) := by
  obtain ⟨out, hout, hlen, hmod, hle, hwalk⟩ := encodeAll_append now [] h htmp
    (show [].length + _ ≤ cap by rwa [List.length_nil, Nat.zero_add])
  exact ⟨out, hout, by omega, hmod, fun σ f s => hwalk σ f s _ (by omega)⟩

/-- A sender report with a block, an SDES packet and a PLI. -/
def sampleItems : List Item :=
  [.sr ⟨1, 2, 3, 4, 5, some ⟨6, 7, 8, 9, 10, 11, 12⟩⟩, .sdes 13 [114, 116, 99], .pli 14 15]

theorem compound_roundtrip_three :
    ∃ out, encodeAll 0 1500 1500 sampleItems [] = .ok out ∧ out.length ≤ 1500 ∧
      out.length % 4 = 0 ∧ ∀ (σ : Type) (f : σ → Pkt → σ) (s : σ),
        decode (fun s p => (none, f s p)) out s =
          .done none ((sampleItems.map Item.pkt).foldl f s) :=
  compound_roundtrip 0 1500 1500 sampleItems
    (by simp [sampleItems, Item.Encodable])
    (by simp [sampleItems, Item.size, Sr.total, Sr.fmt, sdesBare, sdesPad])
    (by simp [sampleItems, Item.size, Sr.total, Sr.fmt, sdesBare, sdesPad])

end Rtcp
end NginxRtc
