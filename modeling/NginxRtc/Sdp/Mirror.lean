/-
  An answer mirrors its offer.

  `readable_requestAnswer`: what the handlers write of an accepted offer can be read back.
  `answer_mirrors`: an answer to an accepted offer is accepted, and mirrors the offer.
-/
import NginxRtc.Sdp.ReadBack

namespace NginxRtc

namespace Sdp

/-! ## What both handlers write -/

/-- Bytes above the blank. -/
def Visible (s : Bytes) : Prop := ∀ c ∈ s, 32 < c

instance (s : Bytes) : Decidable (Visible s) := List.decidableBAll (fun c => 32 < c) s

namespace Visible
variable {s t : Bytes}

theorem append (hs : Visible s) (ht : Visible t) : Visible (s ++ t) :=
  List.forall_mem_append.2 ⟨hs, ht⟩

theorem oneLine (h : Visible s) : Text.OneLine s := fun c hc =>
  ⟨fun he => absurd (he ▸ h c hc) (by decide), fun he => absurd (he ▸ h c hc) (by decide)⟩

theorem fits (h : Visible s) {cap : ℕ} (hlen : s.length < cap) : Fits cap s :=
  ⟨hlen, fun c hc he => absurd (he ▸ h c hc) (by decide)⟩

theorem solid (h : Visible s) : ∀ c ∈ s, Text.blank c = false := by
  intro c hc
  have hgt := h c hc
  simp only [Text.blank, Bool.or_eq_false_iff, decide_eq_false_iff_not]
  exact ⟨fun he => absurd (he ▸ hgt) (by decide), fun he => absurd (he ▸ hgt) (by decide)⟩

theorem head (h : Visible s) : ∀ c ∈ s.head?, Text.blank c = false :=
  fun c hc => h.solid c (List.mem_of_mem_head? hc)

end Visible

theorem hexDigit_visible {n : ℕ} (h : n < 16) : 32 < hexDigit n ∧ 32 < hexUpper n := by
  have hall : ∀ n < 16, 32 < hexDigit n ∧ 32 < hexUpper n := by decide
  exact hall n h

theorem visible_hex8 (w : UInt32) : Visible (hex8 w) := by
  intro c hc
  obtain ⟨k, -, rfl⟩ := List.mem_map.1 hc
  exact (hexDigit_visible (Nat.mod_lt _ (by decide))).1

theorem nibbles (b : UInt8) : b.toNat / 16 < 16 ∧ b.toNat % 16 < 16 := by
  have := b.toNat_lt
  omega

theorem visible_fingerprintText (md : Bytes) :
    Visible (fingerprintText md) ∧ (fingerprintText md).length ≤ 3 * md.length := by
  induction md using fingerprintText.induct with
  | case1 => exact ⟨by decide, Nat.le_refl 0⟩
  | case2 b =>
    refine ⟨?_, by simp [fingerprintText]⟩
    simp only [fingerprintText, Visible, List.forall_mem_cons]
    exact ⟨(hexDigit_visible (nibbles b).1).2, (hexDigit_visible (nibbles b).2).2,
      fun _ hc => absurd hc List.not_mem_nil⟩
  | case3 b bs hne ih =>
    rw [fingerprintText]
    · refine ⟨?_, ?_⟩
      · simp only [Visible, List.forall_mem_cons]
        exact ⟨(hexDigit_visible (nibbles b).1).2, (hexDigit_visible (nibbles b).2).2, by decide,
          ih.1⟩
      · have := ih.2
        simp only [List.length_cons]
        omega
    · exact hne

theorem visible_profileFmtp (p : UInt8 × UInt8 × UInt8) :
    Visible (profileFmtp p) ∧ (profileFmtp p).length < fmtpLen := by
  constructor
  · refine Visible.append (by decide) fun c hc => ?_
    obtain ⟨b, -, hc⟩ := List.mem_flatMap.1 hc
    rcases List.mem_cons.1 hc with rfl | hc
    · exact (hexDigit_visible (nibbles b).1).1
    · obtain rfl := List.mem_singleton.1 hc
      exact (hexDigit_visible (nibbles b).2).1
  · rw [profileFmtp, List.length_append]
    simp only [List.flatMap_cons, List.flatMap_nil, List.length_append, List.length_cons,
      List.length_nil]
    decide

theorem oneLine_ip (conf : LocConf) : Text.OneLine conf.ip := by
  unfold LocConf.ip
  split_ifs
  · decide
  · exact fun c hc => conf.oneLine c ((List.takeWhile_prefix _).subset hc)

/-! ## Answers to an accepted offer -/

/-- A byte of a line. -/
def LineByte (c : UInt8) : Prop := c ≠ 13 ∧ c ≠ 10

/-- A byte of a line of a text without NUL. -/
def TextByte (c : UInt8) : Prop := c ≠ 0 ∧ LineByte c

theorem handler_answer (hd : Handler) (req : Request) (offer : Offer) :
    ∃ sendonly fmtp, hd.answer req offer = requestAnswer sendonly fmtp req offer ∧
      Visible fmtp ∧ fmtp.length < fmtpLen := by
  have hinit : Visible answerInit.video.fmtp ∧ answerInit.video.fmtp.length < fmtpLen := by decide
  cases hd with
  | whip => exact ⟨_, _, rfl, hinit⟩
  | play =>
    refine ⟨_, _, rfl, ?_⟩
    cases req.profile with
    | none => exact hinit
    | some p => exact visible_profileFmtp p

section Request
variable {st : Parser} (req : Request) (sendonly : ℤ) {fmtp : Bytes} (hf : Visible fmtp)
include hf

theorem flat_requestAnswer (hwf : ∀ m ∈ st.sections, m.Wf LineByte) :
    (requestAnswer sendonly fmtp req (buildOffer st)).Flat := by
  have huri := offer_ext (p := fun _ uri => Text.OneLine uri)
    (fun _ hc => absurd hc List.not_mem_nil) (fun m hm c hc => ((hwf m hm).uri c hc).1)
  exact
    { iceUfrag := ((visible_hex8 req.ufrag).append (by decide)).oneLine
      icePwd := (((visible_hex8 _).append (visible_hex8 _)).append (visible_hex8 _)).oneLine
      fingerprintAlgo := (by decide : Text.OneLine (Text.ascii "sha-256"))
      fingerprint := (visible_fingerprintText req.cert.bytes).1.oneLine
      setup := (by decide : Text.OneLine (Text.ascii "passive"))
      proto := (by decide : Text.OneLine answerInit.proto)
      candidateIp := oneLine_ip req.conf
      media := by
        intro s hs
        obtain ⟨m, hm, rfl⟩ := List.mem_map.1 hs
        exact ⟨fun c hc => ((hwf m hm).type c hc).1, (hwf m hm).mid⟩
      video := ⟨huri.1, hf.oneLine⟩
      audio := ⟨huri.2, (by decide : Text.OneLine answerInit.audio.fmtp)⟩ }

theorem readable_requestAnswer (hlen : fmtp.length < fmtpLen)
    (hwf : ∀ m ∈ st.sections, m.Wf TextByte) (hle : st.sections.length ≤ maxMedia) :
    (requestAnswer sendonly fmtp req (buildOffer st)).Readable := by
  have h0 : ¬ TextByte 0 := fun h => h.1 rfl
  have hext := offer_ext (p := fun id uri => id ≤ 14 ∧ Fits twccUriLen uri ∧
      (∀ c ∈ uri, uriByte c = true) ∧ (id ≠ 0 → twcc <:+: uri))
    ⟨Nat.zero_le 14, ⟨by decide, by decide⟩, fun _ hc => absurd hc List.not_mem_nil,
      fun h => absurd rfl h⟩
    (fun m hm => ⟨(hwf m hm).ext, ⟨(hwf m hm).uri_fits, fun c hc => ((hwf m hm).uri c hc).1.1⟩,
      fun c hc => ((hwf m hm).uri c hc).2, (hwf m hm).uri_twcc h0⟩)
  have hfp := visible_fingerprintText req.cert.bytes
  have hfplen : (fingerprintText req.cert.bytes).length < fpLen := by
    have := req.cert.fits
    have := hfp.2
    have hcap : fpLen = 160 := rfl
    omega
  have haudio : Visible answerInit.audio.fmtp ∧ answerInit.audio.fmtp.length < fmtpLen := by decide
  have hufrag : (hex8 req.ufrag ++ Text.ascii "u").length < iceUfragLen := by
    simp only [List.length_append, hex8, List.length_map, List.length_cons, List.length_nil]
    decide
  have hpwd : (hex8 req.pwd.1 ++ hex8 req.pwd.2.1 ++ hex8 req.pwd.2.2).length < icePwdLen := by
    simp only [List.length_append, hex8, List.length_map, List.length_cons, List.length_nil]
    decide
  exact
    { iceUfrag := ((visible_hex8 req.ufrag).append (by decide)).fits hufrag
      icePwd := (((visible_hex8 _).append (visible_hex8 _)).append (visible_hex8 _)).fits hpwd
      algo := (⟨by decide, by decide⟩ : Fits fpAlgoLen (Text.ascii "sha-256"))
      algo_word := (by decide : Text.IsWord (Text.ascii "sha-256"))
      fingerprint := hfp.1.fits hfplen
      fingerprint_head := hfp.1.head
      setup := (⟨by decide, by decide⟩ : Fits setupLen (Text.ascii "passive"))
      proto := (by decide : Text.IsWord answerInit.proto)
      media_le := (List.length_map ..).trans_le hle
      media := by
        intro s hs
        obtain ⟨m, hm, rfl⟩ := List.mem_map.1 hs
        have hm := hwf m hm
        exact ⟨⟨hm.type_ne h0, fun c hc => (hm.type c hc).2⟩,
          ⟨hm.type_fits, fun c hc => (hm.type c hc).1.1⟩,
          ⟨hm.mid_fits, fun c hc => (hm.mid c hc).1⟩⟩
      video := ⟨hext.1.1, hext.1.2.1, hext.1.2.2.1, hext.1.2.2.2, hf.fits hlen, hf.head⟩
      audio := ⟨hext.2.1, hext.2.2.1, hext.2.2.2.1, hext.2.2.2.2, haudio.1.fits haudio.2,
        haudio.1.head⟩ }

end Request

/-- An answer that is read back gives what it was generated from, and mirrors the offer. -/
structure Mirrors (cfg : Answer) (offer back : Offer) : Prop where
  types : back.media.map Prod.fst = offer.media.map Prod.fst
  mids : ∀ (i : ℕ) (s : Bytes × Bytes), offer.media[i]? = some s →
    s.1 = typeVideo ∨ s.1 = typeAudio → back.media[i]? = some s
  iceUfrag : back.session.iceUfrag = cfg.iceUfrag
  icePwd : back.session.icePwd = cfg.icePwd
  fingerprint : back.session.fingerprint = cfg.fingerprint
  algo : cfg.fingerprint ≠ [] → back.session.fingerprintAlgo = cfg.fingerprintAlgo
  video : typeVideo ∈ offer.media.map Prod.fst → back.video.pt = cfg.video.pt ∧
    back.video.ssrc = cfg.video.ssrc.toNat ∧ back.video.twccExt = cfg.video.twccExt
  audio : typeAudio ∈ offer.media.map Prod.fst → back.audio.pt = cfg.audio.pt ∧
    back.audio.ssrc = cfg.audio.ssrc.toNat ∧ back.audio.twccExt = cfg.audio.twccExt

theorem video_addMedia (o : Offer) (m : Media) : (o.addMedia m).video =
    if m.type = typeVideo then o.video.update h264 m else o.video := by
  unfold Offer.addMedia
  split_ifs <;> rfl

theorem audio_addMedia (o : Offer) (m : Media) : (o.addMedia m).audio =
    if m.type = typeAudio then o.audio.update opus m else o.audio := by
  have hne : typeAudio ≠ typeVideo := by decide
  unfold Offer.addMedia
  split_ifs with hv ha ha
  · exact absurd (ha.symm.trans hv) hne
  · rfl
  · rfl
  · rfl

theorem mem_of_last {sections : List Media} {kind : Bytes} {last : Media}
    (h : (sections.filter (·.type = kind)).getLast? = some last) :
    last ∈ sections ∧ last.type = kind := by
  have hmem := List.mem_filter.1 (List.mem_of_getLast? h)
  exact ⟨hmem.1, of_decide_eq_true hmem.2⟩

section Kind
variable {get : Offer → Track} {kind codec : Bytes}
  (hget : ∀ o m, get (Offer.addMedia o m) =
    if m.type = kind then (get o).update codec m else get o)
include hget

/-- An offer keeps of a kind of media what the sections of the kind say, one after the other. -/
theorem track_foldl (ms : List Media) (o : Offer) : get (ms.foldl Offer.addMedia o) =
    (ms.filter (·.type = kind)).foldl (fun t m => t.update codec m) (get o) := by
  induction ms generalizing o with
  | nil => rfl
  | cons m ms ih =>
    rw [List.foldl_cons, ih, hget, List.filter_cons]
    by_cases ht : m.type = kind
    · rw [if_pos ht, if_pos (decide_eq_true ht), List.foldl_cons]
    · rw [if_neg ht, if_neg (by simpa using ht)]

/-- The last section of the kind has the last word. -/
theorem track_last {ms : List Media} {last : Media}
    (hlast : (ms.filter (·.type = kind)).getLast? = some last) (o : Offer) :
    ∃ t : Track, get (ms.foldl Offer.addMedia o) = t.update codec last := by
  obtain ⟨init, hinit⟩ := List.getLast?_eq_some_iff.1 hlast
  rw [track_foldl hget, hinit, List.foldl_concat]
  exact ⟨_, rfl⟩

/-- What sections that agree say of a kind of media. -/
theorem foldl_addMedia {v : Track} {ms : List Media}
    (hv : ∀ m ∈ ms, m.type = kind → ∀ t : Track, t.update codec m = v)
    {o : Offer} (h : get o = v ∨ kind ∈ ms.map Media.type) :
    get (ms.foldl Offer.addMedia o) = v := by
  cases hl : (ms.filter (·.type = kind)).getLast? with
  | none =>
    have hnil := List.getLast?_eq_none_iff.1 hl
    rw [track_foldl hget, hnil]
    refine h.resolve_right fun hk => ?_
    obtain ⟨m, hm, ht⟩ := List.mem_map.1 hk
    exact List.filter_eq_nil_iff.1 hnil m hm (decide_eq_true ht)
  | some last =>
    obtain ⟨t, ht⟩ := track_last hget hl o
    obtain ⟨hm, hk⟩ := mem_of_last hl
    rw [ht]
    exact hv last hm hk t

end Kind

theorem sectionMedia_type (cfg : Answer) (s : Bytes × Bytes) :
    (cfg.sectionMedia s).type = s.1 := by
  unfold Answer.sectionMedia
  split_ifs with hv ha
  · exact hv.symm
  · exact ha.symm
  · rfl

theorem sectionMedia_mid (cfg : Answer) {s : Bytes × Bytes}
    (h : s.1 = typeVideo ∨ s.1 = typeAudio) : (cfg.sectionMedia s).mid = s.2 := by
  unfold Answer.sectionMedia
  split_ifs with hv ha
  · rfl
  · rfl
  · exact absurd h (not_or.2 ⟨hv, ha⟩)

/-- What an answer says of a kind of media, as an offer. -/
def AnswerTrack.track (encoding : Bytes) (t : AnswerTrack) : Track where
  pt := t.pt
  ssrc := t.ssrc.toNat
  encoding := encoding
  clockRate := t.clockRate.toNat
  channels := t.channels.toNat
  fmtp := t.fmtp
  twccExt := t.twccExt
  twccUri := if t.twccExt ≠ 0 then t.twccUri else []

theorem update_media {codec : Bytes} (hc : streqCi codec codec = true) (type mid : Bytes)
    (a : AnswerTrack) (t : Track) :
    t.update codec (a.media type mid codec) = a.track codec := by
  have hfind : (a.media type mid codec).findCodec codec =
      some { pt := a.pt, encoding := codec, clockRate := a.clockRate.toNat,
             channels := a.channels.toNat, fmtp := a.fmtp } :=
    List.find?_cons_of_pos hc
  rw [Track.update, hfind]
  rfl

theorem session_foldl (ms : List Media) (o : Offer) :
    (ms.foldl Offer.addMedia o).session = o.session := by
  induction ms generalizing o with
  | nil => rfl
  | cons m ms ih =>
    rw [List.foldl_cons, ih, Offer.addMedia]
    split_ifs <;> rfl

/-- An answer, as an offer. -/
theorem mirrors_sections {cfg : Answer} {offer : Offer} (hmedia : cfg.media = offer.media) :
    Mirrors cfg offer
      (buildOffer ⟨cfg.session, (cfg.media.map cfg.sectionMedia).reverse⟩) := by
  set st : Parser := ⟨cfg.session, (cfg.media.map cfg.sectionMedia).reverse⟩ with hst
  have hsections : st.sections = cfg.media.map cfg.sectionMedia := List.reverse_reverse _
  have hback : (buildOffer st).media =
      cfg.media.map fun s => (s.1, (cfg.sectionMedia s).mid) := by
    show st.sections.map _ = _
    rw [hsections, List.map_map]
    exact List.map_congr_left fun s _ => Prod.ext (sectionMedia_type cfg s) rfl
  have htypes : st.sections.map Media.type = offer.media.map Prod.fst := by
    rw [hsections, List.map_map, hmedia]
    exact List.map_congr_left fun s _ => sectionMedia_type cfg s
  have hsess : (buildOffer st).session = cfg.session := session_foldl st.sections _
  have hne : typeAudio ≠ typeVideo := by decide
  have hvideo : ∀ m ∈ st.sections, m.type = typeVideo → ∀ t : Track,
      t.update h264 m = cfg.video.track h264 := by
    intro m hm ht t
    rw [hsections] at hm
    obtain ⟨s, -, rfl⟩ := List.mem_map.1 hm
    rw [sectionMedia_type] at ht
    rw [Answer.sectionMedia, if_pos ht]
    exact update_media (by decide) _ _ _ t
  have haudio : ∀ m ∈ st.sections, m.type = typeAudio → ∀ t : Track,
      t.update opus m = cfg.audio.track opus := by
    intro m hm ht t
    rw [hsections] at hm
    obtain ⟨s, -, rfl⟩ := List.mem_map.1 hm
    rw [sectionMedia_type] at ht
    rw [Answer.sectionMedia, if_neg (ht ▸ hne), if_pos ht]
    exact update_media (by decide) _ _ _ t
  exact
    { types := by
        rw [hback, List.map_map, ← hmedia]
        rfl
      mids := by
        intro i s hs hcarried
        rw [hback, List.getElem?_map, hmedia, hs, Option.map_some, sectionMedia_mid cfg hcarried]
      iceUfrag := congrArg Session.iceUfrag hsess
      icePwd := congrArg Session.icePwd hsess
      fingerprint := congrArg Session.fingerprint hsess
      algo := fun hf => (congrArg Session.fingerprintAlgo hsess).trans (if_pos hf)
      video := by
        intro h
        have hvid : (buildOffer st).video = cfg.video.track h264 :=
          foldl_addMedia video_addMedia hvideo (.inr (htypes ▸ h))
        rw [hvid]
        exact ⟨rfl, rfl, rfl⟩
      audio := by
        intro h
        have haud : (buildOffer st).audio = cfg.audio.track opus :=
          foldl_addMedia audio_addMedia haudio (.inr (htypes ▸ h))
        rw [haud]
        exact ⟨rfl, rfl, rfl⟩ }

/-- **An answer mirrors its offer.**  Of any accepted text without NUL, the answer that a handler
    generates is accepted, gives back what it was generated from, and its lines are the writer's:
    no text of the offer adds or removes one. -/
theorem answer_mirrors {text : Bytes} (hnul : ∀ c ∈ text, c ≠ 0) {offer : Offer}
    (h : parseOffer text = .ok offer) (hd : Handler) (req : Request) {cap : ℕ} {answer : Bytes}
    (hg : generateAnswer (hd.answer req offer) cap = .ok answer) :
    (∃ back, parseOffer answer = .ok back ∧ Mirrors (hd.answer req offer) offer back) ∧
      Text.lines answer = answerLines (hd.answer req offer) := by
  obtain ⟨st, hst, rfl⟩ := map_eq_ok h
  have hwf : ∀ m ∈ st.sections, m.Wf TextByte := sections_wf hst fun l hl c hc =>
    ⟨hnul c (Text.of_mem_lines hl c hc).1, (Text.of_mem_lines hl c hc).2⟩
  have hwf' : ∀ m ∈ st.sections, m.Wf LineByte :=
    sections_wf hst fun l hl c hc => (Text.of_mem_lines hl c hc).2
  obtain ⟨sendonly, fmtp, he, hf, hlen⟩ := handler_answer hd req (buildOffer st)
  rw [he] at hg ⊢
  have hlines := lines_generated (flat_requestAnswer req sendonly hf hwf') hg
  have hread := reads_answer (readable_requestAnswer req sendonly hf hlen hwf (sections_le hst))
  refine ⟨⟨_, ?_, mirrors_sections rfl⟩, hlines⟩
  rw [parseOffer, parse, hlines]
  exact congrArg (Except.map buildOffer) hread

/-! ## An offer and its answer -/

/-- Data, video with two codecs, and audio. -/
def sampleText : Bytes := Text.unlines
  [Text.ascii "v=0", Text.ascii "m=application 9 UDP/DTLS/SCTP webrtc-datachannel",
   Text.ascii "a=mid:data", Text.ascii "m=video 9 UDP/TLS/RTP/SAVPF 96 102",
   Text.ascii "a=mid:v 1", Text.ascii "a=rtpmap:96 VP8/90000", Text.ascii "a=rtpmap:102 H264/90000",
   Text.ascii "a=extmap:4 urn:transport-wide-cc", Text.ascii "m=audio 9 UDP/TLS/RTP/SAVPF 111",
   Text.ascii "a=mid:a", Text.ascii "a=rtpmap:111 opus/48000/2"]

def sampleParser : Parser where
  media :=
    [{ type := typeAudio
       mid := Text.ascii "a"
       pts := [{ pt := 111, encoding := opus, clockRate := 48000, channels := 2 }] },
     { type := typeVideo
       mid := Text.ascii "v 1"
       twccExt := 4
       twccUri := Text.ascii "urn:transport-wide-cc"
       pts := [{ pt := 96, encoding := Text.ascii "VP8", clockRate := 90000 },
               { pt := 102, encoding := h264, clockRate := 90000 }] },
     { type := Text.ascii "application"
       mid := Text.ascii "data" }]

def sampleRequest : Request where
  src := .fresh
  shm := some (.shared 7 9)
  profile := some (0x42, 0xe0, 0x1f)
  ufrag := 0xdeadbeef
  pwd := (1, 2, 3)
  cert := ⟨[0xab, 0x01], by decide⟩
  conf := ⟨[], none, by decide⟩

def sampleAnswer : Bytes :=
  Text.unlines (answerLines (Handler.play.answer sampleRequest (buildOffer sampleParser)))

theorem parse_sample : parse sampleText = .ok sampleParser := by decide +kernel

theorem generate_sample :
    generateAnswer (Handler.play.answer sampleRequest (buildOffer sampleParser)) 4096 =
      .ok sampleAnswer := generate_of_fits (by decide +kernel)

theorem answer_mirrors_sample :
    (∃ back, parseOffer sampleAnswer = .ok back ∧
      Mirrors (Handler.play.answer sampleRequest (buildOffer sampleParser))
        (buildOffer sampleParser) back) ∧
      Text.lines sampleAnswer =
        answerLines (Handler.play.answer sampleRequest (buildOffer sampleParser)) := by
  have hnul : Text.Avoids 0 sampleText := by decide +kernel
  have hoffer : parseOffer sampleText = .ok (buildOffer sampleParser) := by
    rw [parseOffer, parse_sample]
    rfl
  exact answer_mirrors hnul hoffer .play sampleRequest generate_sample

end Sdp

end NginxRtc
