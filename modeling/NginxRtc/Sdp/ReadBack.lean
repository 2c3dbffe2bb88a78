/-
  Reading an SDP answer back.

  `oneLine_answerLines`: texts without line ends add no line to an answer.  `parseLine_rtpmap` and
  its like: what the parser makes of each kind of line.  `reads_answer`: what it makes of the lines
  of an answer.
-/
import NginxRtc.Sdp.Accepted
import NginxRtc.Sdp.Answer

namespace NginxRtc

namespace Sdp

/-! ## One line each -/

/-- A line that is there or not. -/
theorem forall_optional {p : Bytes → Prop} {c : Prop} [Decidable c] {l : Bytes} (h : c → p l) :
    ∀ x ∈ (if c then [l] else []), p x := by
  split_ifs with hc
  · exact List.forall_mem_singleton.2 (h hc)
  · exact fun _ hx => absurd hx List.not_mem_nil

theorem oneLine_decimal (n : ℕ) : Text.OneLine (Text.decimal n) := by
  intro c hc
  have := Text.isDigit_bounds (Text.isDigit_of_mem hc)
  constructor
  · rintro rfl
    exact absurd this.1 (by decide)
  · rintro rfl
    exact absurd this.1 (by decide)

theorem oneLine_attr {name : String} (hn : Text.OneLine (Text.ascii name)) {value : Bytes}
    (hv : Text.OneLine value) : Text.OneLine (attr name value) :=
  Text.oneLine_cons.2 ⟨by decide, Text.oneLine_cons.2 ⟨by decide,
    Text.oneLine_append.2 ⟨hn, Text.oneLine_cons.2 ⟨by decide, hv⟩⟩⟩⟩

theorem oneLine_flag {name : String} (hn : Text.OneLine (Text.ascii name)) :
    Text.OneLine (flag name) :=
  Text.oneLine_cons.2 ⟨by decide, Text.oneLine_cons.2 ⟨by decide, hn⟩⟩

/-- Two texts with a blank between. -/
theorem oneLine_pair {s t : Bytes} (hs : Text.OneLine s) (ht : Text.OneLine t) :
    Text.OneLine (s ++ 32 :: t) :=
  Text.oneLine_append.2 ⟨hs, Text.oneLine_cons.2 ⟨by decide, ht⟩⟩

/-- The texts of an answer that are not the writer's own stand on one line. -/
structure Answer.Flat (cfg : Answer) : Prop where
  iceUfrag : Text.OneLine cfg.iceUfrag
  icePwd : Text.OneLine cfg.icePwd
  fingerprintAlgo : Text.OneLine cfg.fingerprintAlgo
  fingerprint : Text.OneLine cfg.fingerprint
  setup : Text.OneLine cfg.setup
  proto : Text.OneLine cfg.proto
  candidateIp : Text.OneLine cfg.candidateIp
  media : ∀ s ∈ cfg.media, Text.OneLine s.1 ∧ Text.OneLine s.2
  video : Text.OneLine cfg.video.twccUri ∧ Text.OneLine cfg.video.fmtp
  audio : Text.OneLine cfg.audio.twccUri ∧ Text.OneLine cfg.audio.fmtp

section Flat
variable {cfg : Answer} (h : cfg.Flat)
include h

theorem oneLine_mediaLines {type mid encoding : Bytes} {t : AnswerTrack}
    (htype : Text.OneLine type) (hmid : Text.OneLine mid) (henc : Text.OneLine encoding)
    (ht : Text.OneLine t.twccUri ∧ Text.OneLine t.fmtp) :
    ∀ l ∈ mediaLines cfg type mid encoding t, Text.OneLine l := by
  have hm : Text.OneLine (mLine cfg type t.pt) :=
    Text.oneLine_cons.2 ⟨by decide, Text.oneLine_cons.2 ⟨by decide, oneLine_pair htype
      (oneLine_pair (by decide) (oneLine_pair h.proto (oneLine_decimal _)))⟩⟩
  have hcand : Text.OneLine (candidateLine cfg) := by
    refine oneLine_attr (by decide) ?_
    simp only [Text.oneLine_append, Text.oneLine_cons]
    exact ⟨⟨⟨by decide, h.candidateIp⟩, by decide, oneLine_decimal _⟩, by decide⟩
  have hdir : Text.OneLine (directionLine cfg) := by
    unfold directionLine
    split_ifs
    · exact oneLine_flag (by decide)
    · exact oneLine_flag (by decide)
  have hmap : Text.OneLine (rtpmapLine encoding t) := by
    refine oneLine_attr (by decide) (oneLine_pair (oneLine_decimal _) ?_)
    refine Text.oneLine_append.2 ⟨henc, Text.oneLine_cons.2 ⟨by decide,
      Text.oneLine_append.2 ⟨oneLine_decimal _, ?_⟩⟩⟩
    split_ifs
    · exact Text.oneLine_cons.2 ⟨by decide, oneLine_decimal _⟩
    · exact fun _ hc => absurd hc List.not_mem_nil
  have hext : Text.OneLine (extmapLine t) :=
    oneLine_attr (by decide) (oneLine_pair (oneLine_decimal _) ht.1)
  have hfmtp : Text.OneLine (fmtpLine t) :=
    oneLine_attr (by decide) (oneLine_pair (oneLine_decimal _) ht.2)
  have hpli : Text.OneLine (feedbackLine t "nack pli") :=
    oneLine_attr (by decide) (oneLine_pair (oneLine_decimal _) (by decide))
  have hnack : Text.OneLine (feedbackLine t "nack") :=
    oneLine_attr (by decide) (oneLine_pair (oneLine_decimal _) (by decide))
  have hssrc : Text.OneLine (ssrcLine t) :=
    oneLine_attr (by decide) (oneLine_pair (oneLine_decimal _)
      (Text.oneLine_append.2 ⟨by decide, oneLine_decimal _⟩))
  simp only [mediaLines, List.forall_mem_append, List.forall_mem_singleton]
  exact ⟨hm, by decide, oneLine_attr (by decide) hmid, forall_optional fun _ => hext,
    forall_optional fun _ => hcand, forall_optional fun _ => hdir,
    forall_optional fun _ => oneLine_flag (by decide),
    forall_optional fun _ => oneLine_flag (by decide), hmap, forall_optional fun _ => hfmtp,
    forall_optional fun _ => hpli, forall_optional fun _ => hnack, hssrc⟩

theorem oneLine_sectionLines {s : Bytes × Bytes} (hs : s ∈ cfg.media) :
    ∀ l ∈ sectionLines cfg s, Text.OneLine l := by
  unfold sectionLines
  split_ifs
  · exact oneLine_mediaLines h (by decide) (h.media s hs).2 (by decide) h.video
  · exact oneLine_mediaLines h (by decide) (h.media s hs).2 (by decide) h.audio
  · exact List.forall_mem_singleton.2 (Text.oneLine_cons.2 ⟨by decide, Text.oneLine_cons.2
      ⟨by decide, oneLine_pair (h.media s hs).1 (oneLine_pair (by decide) h.proto)⟩⟩)

theorem oneLine_bundleLine : Text.OneLine (bundleLine cfg) := by
  refine Text.oneLine_append.2 ⟨by decide, fun c hc => ?_⟩
  obtain ⟨s, hs, hc⟩ := List.mem_flatMap.1 hc
  split_ifs at hc
  · exact Text.oneLine_cons.2 ⟨by decide, (h.media s hs).2⟩ c hc
  · exact absurd hc List.not_mem_nil

/-- **The texts of an answer add no line.** -/
theorem oneLine_answerLines : ∀ l ∈ answerLines cfg, Text.OneLine l := by
  simp only [answerLines, sessionLines, List.forall_mem_append, List.forall_mem_singleton]
  refine ⟨⟨by decide, by decide, by decide, by decide, oneLine_bundleLine h, by decide,
    oneLine_flag (by decide), forall_optional fun _ => oneLine_attr (by decide) h.iceUfrag,
    forall_optional fun _ => oneLine_attr (by decide) h.icePwd,
    forall_optional fun _ => oneLine_attr (by decide)
      (oneLine_pair h.fingerprintAlgo h.fingerprint),
    forall_optional fun _ => oneLine_attr (by decide) h.setup⟩, fun l hl => ?_⟩
  obtain ⟨s, hs, hl⟩ := List.mem_flatMap.1 hl
  exact oneLine_sectionLines h hs l hl

/-- The lines of a generated answer. -/
theorem lines_generated {cap : ℕ} {text : Bytes} (hg : generateAnswer cfg cap = .ok text) :
    Text.lines text = answerLines cfg := by
  rw [generated_lines hg]
  exact Text.lines_unlines (oneLine_answerLines h)

end Flat

/-! ## Single lines -/

/-- The bytes of a text that the parser copies whole. -/
structure Fits (cap : ℕ) (s : Bytes) : Prop where
  fits : s.length < cap
  noNul : Text.Avoids 0 s

theorem Fits.copy {cap : ℕ} {s : Bytes} (h : Fits cap s) : copyToken cap s = .ok s :=
  copyToken_eq h.fits h.noNul

/-- The names of the attributes of a session. -/
def sessionNames : List Bytes :=
  [Text.ascii "ice-ufrag", Text.ascii "ice-pwd", Text.ascii "setup", Text.ascii "fingerprint"]

/-- The names of the attributes of a section. -/
def mediaNames : List Bytes :=
  [Text.ascii "mid", Text.ascii "rtpmap", Text.ascii "ssrc", Text.ascii "fmtp",
    Text.ascii "extmap"]

theorem blank_head {s : Bytes} : ∀ c ∈ (32 :: s).head?, Text.blank c = true := by
  rintro c ⟨⟩
  rfl

theorem parseLine_attr (st : Parser) {name : String} (hn : Text.Avoids 58 (Text.ascii name))
    (value : Bytes) : parseLine st (attr name value) = applyAttr st (Text.ascii name) value := by
  have hne : ∀ c ∈ Text.ascii name, decide (c ≠ 58) = true := fun c hc => decide_eq_true (hn c hc)
  have hend : ∀ c ∈ (58 :: value).head?, decide (c ≠ 58) = false := by
    rintro c ⟨⟩
    decide
  show parseAttr st (Text.ascii name ++ 58 :: value) = _
  rw [parseAttr, Text.takeWhile_run hne hend, Text.dropWhile_run hne hend]
  rfl

theorem parseLine_flag (st : Parser) {name : String} (hn : Text.Avoids 58 (Text.ascii name)) :
    parseLine st (flag name) = applyAttr st (Text.ascii name) [] := by
  have hne : ∀ c ∈ Text.ascii name, decide (c ≠ 58) = true := fun c hc => decide_eq_true (hn c hc)
  show parseAttr st (Text.ascii name) = _
  rw [parseAttr, List.takeWhile_eq_self_iff.2 hne, List.dropWhile_eq_nil_iff.2 hne]
  rfl

/-- An attribute that the parser does not know. -/
theorem applyAttr_unknown (st : Parser) {name : Bytes} (hs : name ∉ sessionNames)
    (hm : name ∉ mediaNames) (value : Bytes) : applyAttr st name value = .ok st := by
  simp only [sessionNames, mediaNames, List.mem_cons, List.not_mem_nil, or_false, not_or] at hs hm
  rw [applyAttr, if_neg hs.1, if_neg hs.2.1, if_neg hs.2.2.1, if_neg hs.2.2.2]
  split
  · rfl
  · next m ms hst =>
    rw [applyMedia, if_neg hm.1, if_neg hm.2.1, if_neg hm.2.2.1, if_neg hm.2.2.2.1,
      if_neg hm.2.2.2.2]
    exact congrArg (fun ms => Except.ok { st with media := ms }) hst.symm

/-- An attribute of the current section. -/
theorem applyAttr_media {name : Bytes} (hs : name ∉ sessionNames) (s : Session) (m : Media)
    (ms : List Media) {m' : Media} {value : Bytes} (h : applyMedia name value m = .ok m') :
    applyAttr ⟨s, m :: ms⟩ name value = .ok ⟨s, m' :: ms⟩ := by
  simp only [sessionNames, List.mem_cons, List.not_mem_nil, or_false, not_or] at hs
  rw [applyAttr, if_neg hs.1, if_neg hs.2.1, if_neg hs.2.2.1, if_neg hs.2.2.2]
  exact congrArg (fun r => Except.map _ r) h

section Section
variable (s : Session) (ms : List Media)

/-- The m-line of a section: its type, a port, the protocol, and payload types. -/
theorem parseLine_m (hms : ms.length < maxMedia) {type port proto : Bytes}
    (htype : Text.IsWord type) (hfits : Fits strLen type) (hport : Text.IsWord port)
    (hproto : Text.IsWord proto) (pt : PayloadType) :
    parseLine ⟨s, ms⟩ (109 :: 61 :: (type ++ 32 :: (port ++ 32 :: (proto ++ 32 ::
        Text.decimal pt)))) = .ok ⟨s, { type, pts := [{ pt }] } :: ms⟩ := by
  have hwords : Text.words (type ++ 32 :: (port ++ 32 :: (proto ++ 32 :: Text.decimal pt))) =
      [type, port, proto, Text.decimal pt] := by
    rw [Text.words_cons htype rfl, Text.words_cons hport rfl, Text.words_cons hproto rfl,
      Text.words_word (Text.isWord_decimal _)]
  have hpts : readPts [Text.decimal pt] [] = .ok [{ pt }] := by
    have hlt := pt.isLt
    simp only [readPts, parseU32_eq (show (pt : ℕ) < 2 ^ 32 by omega), hlt, dif_pos]
    rfl
  show parseMedia ⟨s, ms⟩ _ = _
  rw [parseMedia, if_neg (Nat.not_le.2 hms), hwords]
  simp only [hfits.copy, hpts]
  rfl

/-- The m-line of a section that is not carried. -/
theorem parseLine_reject (hms : ms.length < maxMedia) {type port proto : Bytes}
    (htype : Text.IsWord type) (hfits : Fits strLen type) (hport : Text.IsWord port)
    (hproto : Text.IsWord proto) :
    parseLine ⟨s, ms⟩ (109 :: 61 :: (type ++ 32 :: (port ++ 32 :: proto))) =
      .ok ⟨s, { type } :: ms⟩ := by
  have hwords : Text.words (type ++ 32 :: (port ++ 32 :: proto)) = [type, port, proto] := by
    rw [Text.words_cons htype rfl, Text.words_cons hport rfl, Text.words_word hproto]
  show parseMedia ⟨s, ms⟩ _ = _
  rw [parseMedia, if_neg (Nat.not_le.2 hms), hwords]
  simp only [hfits.copy]
  rfl

variable (m : Media)

theorem parseLine_mid {mid : Bytes} (h : Fits midLen mid) :
    parseLine ⟨s, m :: ms⟩ (attr "mid" mid) = .ok ⟨s, { m with mid } :: ms⟩ := by
  rw [parseLine_attr _ (by decide)]
  refine applyAttr_media (by decide) s m ms ?_
  rw [applyMedia, if_pos rfl, h.copy]
  rfl

theorem extmapId_decimal {n : ℕ} (h : n < 2 ^ 32) (s : Bytes) :
    extmapId 0 (Text.decimal n ++ s) = extmapId n s := by
  induction n using Nat.strong_induction_on generalizing s with
  | _ n ih =>
    have hdigit : ∀ {v d : ℕ}, d < 10 → v * 10 + d < 2 ^ 32 →
        extmapId v (Text.digit d :: s) = extmapId (v * 10 + d) s := by
      intro v d hd hv
      obtain ⟨hdig, hval⟩ := Text.digit_spec hd
      rw [extmapId, if_pos hdig, hval, Nat.mod_eq_of_lt hv]
    rcases Nat.lt_or_ge n 10 with hn | hn
    · rw [Text.decimal_of_lt hn]
      exact (hdigit hn (by omega)).trans (by rw [Nat.zero_mul, Nat.zero_add])
    · rw [Text.decimal_of_le hn, List.append_assoc, ih (n / 10) (by omega) (by omega)]
      refine (hdigit (Nat.mod_lt n (by decide)) (by omega)).trans ?_
      rw [show n / 10 * 10 + n % 10 = n by omega]

/-- An extension id and a URI that names congestion control. -/
theorem parseLine_extmap {id : ℕ} (h0 : id ≠ 0) (h14 : id ≤ 14) {uri : Bytes}
    (hfits : Fits twccUriLen uri) (huri : ∀ c ∈ uri, uriByte c = true) (htwcc : twcc <:+: uri) :
    parseLine ⟨s, m :: ms⟩ (attr "extmap" (Text.decimal id ++ 32 :: uri)) =
      .ok ⟨s, { m with twccUri := uri, twccExt := id } :: ms⟩ := by
  have hskip : skipWs (Text.decimal id ++ 32 :: uri) = Text.decimal id ++ 32 :: uri :=
    skipWs_eq (head_word (Text.isWord_decimal id) _)
  have hid : extmapId 0 (Text.decimal id ++ 32 :: uri) = id := by
    rw [extmapId_decimal (by omega)]
    rfl
  have hdrop : (Text.decimal id ++ 32 :: uri).dropWhile Text.isDigit = 32 :: uri := by
    refine Text.dropWhile_run (fun c => Text.isDigit_of_mem) ?_
    rintro c ⟨⟩
    rfl
  have hblank : ∀ c ∈ uri.head?, Text.blank c = false := by
    intro c hc
    have := huri c (List.mem_of_mem_head? hc)
    simp only [uriByte, Bool.not_eq_true', Bool.or_eq_false_iff] at this
    exact this.1.1
  have huriw : uri.takeWhile uriByte = uri := List.takeWhile_eq_self_iff.2 huri
  have hpos : 0 < uri.length := htwcc.length_le.trans_lt' (by decide)
  rw [parseLine_attr _ (by decide)]
  refine applyAttr_media (by decide) s m ms ?_
  show Except.ok (parseExtmap m (Text.decimal id ++ 32 :: uri)) = _
  rw [parseExtmap]
  simp only [hskip, hid, hdrop, skipWs_blank, skipWs_eq hblank, huriw, cstr_eq hfits.noNul]
  rw [if_neg h0, if_pos ⟨htwcc, h14, hpos, hfits.fits⟩]

theorem parseLine_ssrc {n : ℕ} (hn : n < 2 ^ 32) (rest : Bytes) :
    parseLine ⟨s, m :: ms⟩ (attr "ssrc" (Text.decimal n ++ 32 :: rest)) =
      .ok ⟨s, { m with ssrc := n } :: ms⟩ := by
  rw [parseLine_attr _ (by decide)]
  refine applyAttr_media (by decide) s m ms ?_
  show parseSsrc m _ = _
  rw [parseSsrc, nextToken_word (Text.isWord_decimal n) blank_head]
  show (parseU32 (Text.decimal n)).bind _ = _
  rw [parseU32_eq hn]
  rfl

/-- An encoding name: no slash in it. -/
structure IsEncoding (encoding : Bytes) : Prop where
  fits : Fits strLen encoding
  word : Text.IsWord encoding
  noSlash : Text.Avoids 47 encoding

theorem noSlash_decimal (n : ℕ) : ∀ c ∈ Text.decimal n, decide (c ≠ 47) = true := by
  intro c hc
  have := Text.isDigit_bounds (Text.isDigit_of_mem hc)
  refine decide_eq_true ?_
  rintro rfl
  exact absurd this.1 (by decide)

theorem slash_head {s : Bytes} : ∀ c ∈ (47 :: s).head?, decide (c ≠ 47) = false := by
  rintro c ⟨⟩
  decide

/-- `<encoding>/<clock>`, with channels or not. -/
theorem readRtpmap_eq {encoding : Bytes} (h : IsEncoding encoding) {clock : ℕ}
    (hclock : clock < 2 ^ 32) {channels : ℕ} (hchannels : channels < 2 ^ 32) {p : Pt}
    (hp : p.channels = 0) :
    readRtpmap (encoding ++ 47 :: (Text.decimal clock ++
        if channels ≠ 0 then 47 :: Text.decimal channels else [])) p =
      .ok { p with encoding, clockRate := clock, channels } := by
  have henc : ∀ c ∈ encoding, decide (c ≠ 47) = true := fun c hc => decide_eq_true (h.noSlash c hc)
  have hne : Text.decimal channels ≠ [] := Text.decimal_ne_nil channels
  unfold readRtpmap
  rw [Text.takeWhile_run henc slash_head, Text.dropWhile_run henc slash_head, h.fits.copy]
  by_cases h0 : channels = 0
  · subst h0
    simp only [ne_eq, not_true_eq_false, if_false, List.append_nil, List.drop_succ_cons,
      List.drop_zero]
    rw [List.takeWhile_eq_self_iff.2 (noSlash_decimal clock),
      List.dropWhile_eq_nil_iff.2 (noSlash_decimal clock), parseU32_eq hclock]
    cases p
    cases hp
    rfl
  · rw [if_pos h0]
    simp only [List.drop_succ_cons, List.drop_zero]
    rw [Text.takeWhile_run (noSlash_decimal clock) slash_head,
      Text.dropWhile_run (noSlash_decimal clock) slash_head, parseU32_eq hclock]
    simp only [List.drop_succ_cons, List.drop_zero, parseU32_eq hchannels]
    exact if_neg hne

theorem updatePt_eq {pt : PayloadType} {f : Pt → Except CodecErr Pt} {p p' : Pt} (hp : p.pt = pt)
    (h : f p = .ok p') : updatePt pt f [p] = .ok [p'] := by
  rw [updatePt, if_pos hp, h]
  rfl

/-- A codec for the payload type of a section. -/
theorem parseLine_rtpmap {encoding : Bytes} (h : IsEncoding encoding) {clock : ℕ}
    (hclock : clock < 2 ^ 32) {channels : ℕ} (hchannels : channels < 2 ^ 32) {p : Pt}
    (hp : p.channels = 0) (hm : m.pts = [p]) :
    parseLine ⟨s, m :: ms⟩ (attr "rtpmap" (Text.decimal p.pt ++ 32 :: (encoding ++ 47 ::
        (Text.decimal clock ++ if channels ≠ 0 then 47 :: Text.decimal channels else [])))) =
      .ok ⟨s, { m with pts := [{ p with encoding, clockRate := clock, channels }] } :: ms⟩ := by
  have hskip := skipWs_eq (head_word h.word (47 :: (Text.decimal clock ++
    if channels ≠ 0 then 47 :: Text.decimal channels else [])))
  rw [parseLine_attr _ (by decide)]
  refine applyAttr_media (by decide) s m ms ?_
  show parseRtpmap m _ = _
  rw [parseRtpmap, nextToken_word (Text.isWord_decimal p.pt) blank_head]
  show (parsePt (Text.decimal p.pt)).bind _ = _
  rw [parsePt_eq]
  show (updatePt p.pt (readRtpmap (skipWs (32 :: _))) m.pts).bind _ = _
  rw [skipWs_blank, hskip, hm, updatePt_eq rfl (readRtpmap_eq h hclock hchannels hp)]
  rfl

/-- The parameters of the payload type of a section. -/
theorem parseLine_fmtp {fmtp : Bytes} (h : Fits fmtpLen fmtp)
    (hhead : ∀ c ∈ fmtp.head?, Text.blank c = false) {p : Pt} (hm : m.pts = [p]) :
    parseLine ⟨s, m :: ms⟩ (attr "fmtp" (Text.decimal p.pt ++ 32 :: fmtp)) =
      .ok ⟨s, { m with pts := [{ p with fmtp }] } :: ms⟩ := by
  have hread : readFmtp fmtp p = .ok { p with fmtp } := by
    rw [readFmtp, h.copy]
    rfl
  rw [parseLine_attr _ (by decide)]
  refine applyAttr_media (by decide) s m ms ?_
  show parseFmtp m _ = _
  rw [parseFmtp, nextToken_word (Text.isWord_decimal p.pt) blank_head]
  show (parsePt (Text.decimal p.pt)).bind _ = _
  rw [parsePt_eq]
  show (updatePt p.pt (readFmtp (skipWs (32 :: fmtp))) m.pts).bind _ = _
  rw [skipWs_blank, skipWs_eq hhead, hm, updatePt_eq rfl hread]
  rfl

end Section

/-! ## Sections -/

/-- The parser takes the lines, one by one, from `st` to `st'`. -/
def Reads (ls : List Bytes) (st st' : Parser) : Prop := ls.foldlM parseLine st = .ok st'

namespace Reads
variable {ls ls' : List Bytes} {st st' st'' : Parser}

theorem append (h : Reads ls st st') (h' : Reads ls' st' st'') : Reads (ls ++ ls') st st'' := by
  rw [Reads, List.foldlM_append, show ls.foldlM parseLine st = _ from h]
  exact h'

theorem line {l : Bytes} (h : parseLine st l = .ok st') : Reads [l] st st' := by
  rw [Reads, List.foldlM_cons, h]
  rfl

theorem optional {c : Prop} [Decidable c] {l : Bytes} (h : c → parseLine st l = .ok st')
    (h' : ¬ c → st = st') : Reads (if c then [l] else []) st st' := by
  split_ifs with hc
  · exact line (h hc)
  · exact congrArg Except.ok (h' hc)

/-- A line that changes nothing. -/
theorem skip (c : Prop) [Decidable c] {l : Bytes} (h : parseLine st l = .ok st) :
    Reads (if c then [l] else []) st st :=
  optional (fun _ => h) fun _ => rfl

end Reads

theorem parseLine_unknown (st : Parser) {name : String} (hn : Text.Avoids 58 (Text.ascii name))
    (hs : Text.ascii name ∉ sessionNames) (hm : Text.ascii name ∉ mediaNames) (value : Bytes) :
    parseLine st (attr name value) = .ok st ∧ parseLine st (flag name) = .ok st :=
  ⟨(parseLine_attr st hn value).trans (applyAttr_unknown st hs hm value),
    (parseLine_flag st hn).trans (applyAttr_unknown st hs hm [])⟩

/-- What an answer says of one kind of media can be read back. -/
structure AnswerTrack.Readable (t : AnswerTrack) : Prop where
  ext : t.twccExt ≤ 14
  uri : Fits twccUriLen t.twccUri
  uri_bytes : ∀ c ∈ t.twccUri, uriByte c = true
  uri_twcc : t.twccExt ≠ 0 → twcc <:+: t.twccUri
  fmtp : Fits fmtpLen t.fmtp
  fmtp_head : ∀ c ∈ t.fmtp.head?, Text.blank c = false

/-- A section as the parser keeps it. -/
def AnswerTrack.media (type mid encoding : Bytes) (t : AnswerTrack) : Media where
  type := type
  mid := mid
  ssrc := t.ssrc.toNat
  twccExt := t.twccExt
  twccUri := if t.twccExt ≠ 0 then t.twccUri else []
  pts :=
    [{ pt := t.pt
       encoding
       clockRate := t.clockRate.toNat
       channels := t.channels.toNat
       fmtp := t.fmtp }]

section Sections
variable {cfg : Answer} (hproto : Text.IsWord cfg.proto) (s : Session) {ms : List Media}
  (hms : ms.length < maxMedia)
include hproto hms

theorem reads_media {type mid encoding : Bytes} (htype : Text.IsWord type)
    (hfits : Fits strLen type) (hmid : Fits midLen mid) (henc : IsEncoding encoding)
    {t : AnswerTrack} (ht : t.Readable) :
    Reads (mediaLines cfg type mid encoding t) ⟨s, ms⟩ ⟨s, t.media type mid encoding :: ms⟩ := by
  have hskip : ∀ (st : Parser) {name : String}, Text.Avoids 58 (Text.ascii name) →
      Text.ascii name ∉ sessionNames → Text.ascii name ∉ mediaNames → ∀ value,
      parseLine st (attr name value) = .ok st :=
    fun st _ hn hs hm value => (parseLine_unknown st hn hs hm value).1
  have hdir : ∀ st, parseLine st (directionLine cfg) = .ok st := by
    intro st
    unfold directionLine
    split_ifs
    · exact (parseLine_unknown st (by decide) (by decide) (by decide) []).2
    · exact (parseLine_unknown st (by decide) (by decide) (by decide) []).2
  have hflag : ∀ st, parseLine st (flag "rtcp-mux") = .ok st ∧
      parseLine st (flag "rtcp-rsize") = .ok st := fun st =>
    ⟨(parseLine_unknown st (by decide) (by decide) (by decide) []).2,
      (parseLine_unknown st (by decide) (by decide) (by decide) []).2⟩
  let m₀ : Media := { type, pts := [{ pt := t.pt }] }
  let m₁ : Media := { m₀ with mid }
  let m₂ : Media := { m₁ with
    twccExt := t.twccExt
    twccUri := if t.twccExt ≠ 0 then t.twccUri else [] }
  let m₃ : Media := { m₂ with pts :=
    [{ pt := t.pt, encoding, clockRate := t.clockRate.toNat, channels := t.channels.toNat }] }
  let m₄ : Media := { m₃ with pts :=
    [{ pt := t.pt, encoding, clockRate := t.clockRate.toNat, channels := t.channels.toNat,
       fmtp := t.fmtp }] }
  have hm : Reads [mLine cfg type t.pt] ⟨s, ms⟩ ⟨s, m₀ :: ms⟩ :=
    .line (parseLine_m s ms hms htype hfits (by decide) hproto t.pt)
  have hc : Reads [Text.ascii "c=IN IP4 0.0.0.0"] ⟨s, m₀ :: ms⟩ ⟨s, m₀ :: ms⟩ := .line rfl
  have hmid : Reads [attr "mid" mid] ⟨s, m₀ :: ms⟩ ⟨s, m₁ :: ms⟩ :=
    .line (parseLine_mid s ms m₀ hmid)
  have hext : Reads (if t.twccExt ≠ 0 ∧ t.twccUri ≠ [] then [extmapLine t] else [])
      ⟨s, m₁ :: ms⟩ ⟨s, m₂ :: ms⟩ := by
    by_cases h0 : t.twccExt = 0
    · have h₂ : m₂ = m₁ := by simp only [m₂, m₁, m₀, h0, ne_eq, not_true_eq_false, if_false]
      rw [h₂]
      exact .optional (fun h => absurd h0 h.1) fun _ => rfl
    · have hne : t.twccUri ≠ [] := fun he => by
        have := (ht.uri_twcc h0).length_le
        rw [he] at this
        exact absurd this (by decide)
      have h₂ : m₂ = { m₁ with twccUri := t.twccUri, twccExt := t.twccExt } := by
        simp only [m₂, ne_eq, h0, not_false_eq_true, if_true]
      rw [h₂]
      exact .optional (fun _ => parseLine_extmap s ms m₁ h0 ht.ext ht.uri ht.uri_bytes
        (ht.uri_twcc h0)) fun h => absurd ⟨h0, hne⟩ h
  have hmap : Reads [rtpmapLine encoding t] ⟨s, m₂ :: ms⟩ ⟨s, m₃ :: ms⟩ := by
    have hch : (if t.channels ≠ 0 then 47 :: Text.decimal t.channels.toNat else []) =
        if t.channels.toNat ≠ 0 then 47 :: Text.decimal t.channels.toNat else [] :=
      if_congr (not_congr UInt32.toNat_inj.symm) rfl rfl
    have hline := parseLine_rtpmap s ms m₂ (p := { pt := t.pt }) henc t.clockRate.toNat_lt
      t.channels.toNat_lt rfl rfl
    rw [rtpmapLine, hch]
    exact .line hline
  have hfmtp : Reads (if t.fmtp ≠ [] then [fmtpLine t] else []) ⟨s, m₃ :: ms⟩ ⟨s, m₄ :: ms⟩ := by
    let p : Pt := { pt := t.pt, encoding, clockRate := t.clockRate.toNat,
                    channels := t.channels.toNat }
    have hline := parseLine_fmtp s ms m₃ (p := p) ht.fmtp ht.fmtp_head rfl
    refine .optional (fun _ => hline) fun h => ?_
    simp only [m₄, not_not.1 h]
    rfl
  have hssrc : Reads [ssrcLine t] ⟨s, m₄ :: ms⟩ ⟨s, t.media type mid encoding :: ms⟩ :=
    .line (parseLine_ssrc s ms m₄ t.ssrc.toNat_lt _)
  exact hm.append <| hc.append <| hmid.append <| hext.append <|
    (Reads.skip _ (hskip _ (by decide) (by decide) (by decide) _)).append <|
    (Reads.skip _ (hdir _)).append <| (Reads.skip _ (hflag _).1).append <|
    (Reads.skip _ (hflag _).2).append <| hmap.append <| hfmtp.append <|
    (Reads.skip _ (hskip _ (by decide) (by decide) (by decide) _)).append <|
    (Reads.skip _ (hskip _ (by decide) (by decide) (by decide) _)).append hssrc

end Sections

/-! ## The answer -/

/-- The texts of an answer can be read back. -/
structure Answer.Readable (cfg : Answer) : Prop where
  iceUfrag : Fits iceUfragLen cfg.iceUfrag
  icePwd : Fits icePwdLen cfg.icePwd
  algo : Fits fpAlgoLen cfg.fingerprintAlgo
  algo_word : Text.IsWord cfg.fingerprintAlgo
  fingerprint : Fits fpLen cfg.fingerprint
  fingerprint_head : ∀ c ∈ cfg.fingerprint.head?, Text.blank c = false
  setup : Fits setupLen cfg.setup
  proto : Text.IsWord cfg.proto
  media_le : cfg.media.length ≤ maxMedia
  media : ∀ s ∈ cfg.media, Text.IsWord s.1 ∧ Fits strLen s.1 ∧ Fits midLen s.2
  video : cfg.video.Readable
  audio : cfg.audio.Readable

/-- A session as the parser keeps it: without a fingerprint there is no algorithm either. -/
def Answer.session (cfg : Answer) : Session where
  iceUfrag := cfg.iceUfrag
  icePwd := cfg.icePwd
  fingerprintAlgo := if cfg.fingerprint ≠ [] then cfg.fingerprintAlgo else []
  fingerprint := cfg.fingerprint
  setup := cfg.setup

def Answer.sectionMedia (cfg : Answer) (s : Bytes × Bytes) : Media :=
  if s.1 = typeVideo then cfg.video.media typeVideo s.2 h264
  else if s.1 = typeAudio then cfg.audio.media typeAudio s.2 opus
  else { type := s.1 }

theorem setIfEmpty_nil {cap : ℕ} {s : Bytes} (h : Fits cap s) : setIfEmpty [] cap s = .ok s := by
  rw [setIfEmpty, if_neg (not_not.2 rfl), h.copy]

section Answers
variable {cfg : Answer} (h : cfg.Readable)
include h

theorem reads_section (sess : Session) {ms : List Media} (hms : ms.length < maxMedia)
    {s : Bytes × Bytes} (hs : s ∈ cfg.media) :
    Reads (sectionLines cfg s) ⟨sess, ms⟩ ⟨sess, cfg.sectionMedia s :: ms⟩ := by
  obtain ⟨hword, htype, hmid⟩ := h.media s hs
  unfold sectionLines Answer.sectionMedia
  split_ifs
  · exact reads_media h.proto sess hms (by decide) ⟨by decide, by decide⟩ hmid
      ⟨⟨by decide, by decide⟩, by decide, by decide⟩ h.video
  · exact reads_media h.proto sess hms (by decide) ⟨by decide, by decide⟩ hmid
      ⟨⟨by decide, by decide⟩, by decide, by decide⟩ h.audio
  · exact .line (parseLine_reject sess ms hms hword htype (by decide) h.proto)

theorem reads_sections (sess : Session) {ms : List Media} {ss : List (Bytes × Bytes)}
    (hss : ∀ s ∈ ss, s ∈ cfg.media) (hle : ms.length + ss.length ≤ maxMedia) :
    Reads (ss.flatMap (sectionLines cfg)) ⟨sess, ms⟩
      ⟨sess, (ss.map cfg.sectionMedia).reverse ++ ms⟩ := by
  induction ss generalizing ms with
  | nil => rfl
  | cons s ss ih =>
    obtain ⟨hs, hss⟩ := List.forall_mem_cons.1 hss
    rw [List.length_cons] at hle
    rw [List.flatMap_cons, List.map_cons, List.reverse_cons, List.append_assoc]
    exact (reads_section h sess (by omega) hs).append
      (ih hss (by rw [List.length_cons]; omega))

theorem reads_session : Reads (sessionLines cfg) {} ⟨cfg.session, []⟩ := by
  let s₁ : Session := { iceUfrag := cfg.iceUfrag }
  let s₂ : Session := { s₁ with icePwd := cfg.icePwd }
  let s₃ : Session := { s₂ with
    fingerprintAlgo := if cfg.fingerprint ≠ [] then cfg.fingerprintAlgo else []
    fingerprint := cfg.fingerprint }
  have hplain : ∀ {l : Bytes}, parseLine {} l = .ok {} → Reads [l] {} {} := .line
  have hbundle : parseLine {} (bundleLine cfg) = .ok {} := by
    have he : bundleLine cfg = attr "group" (Text.ascii "BUNDLE" ++
        cfg.media.flatMap fun s => if s.1 = typeVideo ∨ s.1 = typeAudio then 32 :: s.2 else []) :=
      rfl
    rw [he]
    exact (parseLine_unknown {} (by decide) (by decide) (by decide) _).1
  have hufrag : Reads (if cfg.iceUfrag ≠ [] then [attr "ice-ufrag" cfg.iceUfrag] else [])
      {} ⟨s₁, []⟩ := by
    refine .optional (fun _ => ?_) fun he => by simp only [s₁, not_not.1 he]
    rw [parseLine_attr _ (by decide), applyAttr, if_pos rfl, setIfEmpty_nil h.iceUfrag]
    rfl
  have hpwd : Reads (if cfg.icePwd ≠ [] then [attr "ice-pwd" cfg.icePwd] else [])
      ⟨s₁, []⟩ ⟨s₂, []⟩ := by
    refine .optional (fun _ => ?_) fun he => by simp only [s₂, s₁, not_not.1 he]
    rw [parseLine_attr _ (by decide), applyAttr, if_neg (by decide), if_pos rfl,
      setIfEmpty_nil h.icePwd]
    rfl
  have hfp : Reads (if cfg.fingerprintAlgo ≠ [] ∧ cfg.fingerprint ≠ [] then
      [attr "fingerprint" (cfg.fingerprintAlgo ++ 32 :: cfg.fingerprint)] else [])
      ⟨s₂, []⟩ ⟨s₃, []⟩ := by
    refine .optional (fun hc => ?_) fun hc => ?_
    · have hs : s₃ = { s₂ with
          fingerprintAlgo := cfg.fingerprintAlgo, fingerprint := cfg.fingerprint } := by
        simp only [s₃, ne_eq, hc.2, not_false_eq_true, if_true]
      rw [parseLine_attr _ (by decide), applyAttr, if_neg (by decide), if_neg (by decide),
        if_neg (by decide), if_pos rfl, parseFingerprint, nextToken_word h.algo_word blank_head, hs]
      show Except.map _ ((copyToken fpAlgoLen cfg.fingerprintAlgo).bind _) = _
      rw [h.algo.copy]
      show Except.map _ ((copyToken fpLen (skipWs (32 :: cfg.fingerprint))).bind _) = _
      rw [skipWs_blank, skipWs_eq h.fingerprint_head, h.fingerprint.copy]
      rfl
    · have he : cfg.fingerprint = [] :=
        not_not.1 fun hne => hc ⟨h.algo_word.ne_nil, hne⟩
      simp only [s₃, s₂, s₁, he, ne_eq, not_true_eq_false, if_false]
  have hsetup : Reads (if cfg.setup ≠ [] then [attr "setup" cfg.setup] else [])
      ⟨s₃, []⟩ ⟨cfg.session, []⟩ := by
    refine .optional (fun _ => ?_) fun he => by
      simp only [Answer.session, s₃, s₂, s₁, not_not.1 he]
    rw [parseLine_attr _ (by decide), applyAttr, if_neg (by decide), if_neg (by decide),
      if_pos rfl, setIfEmpty_nil h.setup]
    rfl
  exact (hplain rfl).append <| (hplain rfl).append <| (hplain rfl).append <|
    (hplain rfl).append <| (hplain hbundle).append <| (hplain (by decide +kernel)).append <|
    (hplain (by decide +kernel)).append <| hufrag.append <| hpwd.append <| hfp.append hsetup

/-- **What the parser makes of the lines of an answer.** -/
theorem reads_answer : Reads (answerLines cfg) {}
    ⟨cfg.session, (cfg.media.map cfg.sectionMedia).reverse⟩ := by
  have hle : ([] : List Media).length + cfg.media.length ≤ maxMedia := by
    rw [List.length_nil, Nat.zero_add]
    exact h.media_le
  have := reads_sections h cfg.session (fun _ hs => hs) hle
  rw [List.append_nil] at this
  exact (reads_session h).append this

end Answers

end Sdp

end NginxRtc
