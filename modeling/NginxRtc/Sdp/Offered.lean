/-
  Whether an answer uses the payload types that its offer lists, section by section.

  The offer keeps one payload type for each kind of media, that of the last section that maps the
  codec, and the answer writes it in every section of the kind; without one it writes that of the
  source.

  `offered_iff`: when each m-line of an answer names a payload type of the m-line at its place.
-/
import NginxRtc.Sdp.Mirror

namespace NginxRtc

namespace Sdp

/-! ## What is to hold -/

/-- The words of an m-line. -/
def mWords : Bytes → Option (List Bytes)
  | 109 :: 61 :: content => some (Text.words content)
  | _ => none

/-- The m-lines of a text: media type, port, protocol and payload types. -/
def mLines (text : Bytes) : List (List Bytes) := (Text.lines text).filterMap mWords

/-- A section maps a payload type to a codec. -/
def Maps (codec : Bytes) (m : Media) (pt : PayloadType) : Prop :=
  ∃ p ∈ m.pts, p.pt = pt ∧ streqCi p.encoding codec = true

instance (codec : Bytes) (m : Media) (pt : PayloadType) : Decidable (Maps codec m pt) :=
  inferInstanceAs (Decidable (∃ p ∈ m.pts, _))

/-- The codec of a kind of media. -/
def codecs : List (Bytes × Bytes) := [(typeVideo, h264), (typeAudio, opus)]

/-- **The answer only uses offered payload types**: each m-line for audio or video whose port is
    not 0 names payload types that the section of the offer at its place, of the same kind, maps to
    the codec of the kind. -/
def OnlyOffered (sections : List Media) (answer : Bytes) : Prop :=
  ∀ (i : ℕ) (row : List Bytes), (mLines answer)[i]? = some row →
    row[1]? ≠ some (Text.ascii "0") → ∀ k ∈ codecs, row[0]? = some k.1 →
    ∃ m, sections[i]? = some m ∧ m.type = k.1 ∧
      ∀ fmt ∈ row.drop 3, ∃ pt : PayloadType, Text.decimal pt = fmt ∧ Maps k.2 m pt

/-- All sections of a kind map one payload type to the codec: the first that the last of them maps
    to it, or `own` if that is 0. -/
def Agree (kind codec : Bytes) (own : PayloadType) (sections : List Media) : Prop :=
  ∀ last, (sections.filter (·.type = kind)).getLast? = some last →
    ∃ p, last.findCodec codec = some p ∧
      ∀ m ∈ sections, m.type = kind → Maps codec m (choosePt p.pt own)

/-- The identity that a request falls back to: that of the shared source, if there is one. -/
def Request.own (req : Request) : Identity := req.shm.getD req.src

/-! ## The m-lines of an answer -/

section MLines
variable (cfg : Answer)

theorem mLines_media (type mid encoding : Bytes) (t : AnswerTrack) :
    (mediaLines cfg type mid encoding t).filterMap mWords =
      [Text.words (type ++ 32 :: (Text.ascii "9" ++ 32 :: (cfg.proto ++ 32 ::
        Text.decimal t.pt)))] := by
  have hc : mWords (Text.ascii "c=IN IP4 0.0.0.0") = none := by decide
  have hdir : mWords (directionLine cfg) = none := by
    unfold directionLine
    split_ifs <;> rfl
  rw [mediaLines, List.filterMap_append]
  refine (congrArg (List.filterMap mWords [mLine cfg type t.pt] ++ ·)
    (List.filterMap_eq_nil_iff.2 ?_)).trans rfl
  simp only [List.forall_mem_append, List.forall_mem_singleton]
  exact ⟨hc, rfl, forall_optional fun _ => rfl, forall_optional fun _ => rfl,
    forall_optional fun _ => hdir, forall_optional fun _ => rfl, forall_optional fun _ => rfl,
    rfl, forall_optional fun _ => rfl, forall_optional fun _ => rfl, forall_optional fun _ => rfl,
    rfl⟩

/-- The words of the m-line of a section. -/
def sectionWords (s : Bytes × Bytes) : List Bytes :=
  if s.1 = typeVideo then [typeVideo, Text.ascii "9", cfg.proto, Text.decimal cfg.video.pt]
  else if s.1 = typeAudio then [typeAudio, Text.ascii "9", cfg.proto, Text.decimal cfg.audio.pt]
  else Text.words (s.1 ++ 32 :: (Text.ascii "0" ++ 32 :: cfg.proto))

variable {cfg}

/-- An m-line of a kind that is carried and whose port is not 0. -/
theorem sectionWords_carried {s : Bytes × Bytes} (hblank : ∀ c ∈ s.1, Text.blank c = false)
    (hport : (sectionWords cfg s)[1]? ≠ some (Text.ascii "0")) {k : Bytes × Bytes}
    (hk : k ∈ codecs) (h : (sectionWords cfg s)[0]? = some k.1) : s.1 = k.1 := by
  have hzero : ∀ k ∈ codecs, Text.ascii "0" ≠ k.1 := by decide
  unfold sectionWords at h hport
  split_ifs at h hport with hv ha
  · exact hv.trans (Option.some.inj h)
  · exact ha.trans (Option.some.inj h)
  · by_cases hne : s.1 = []
    · rw [hne, List.nil_append, Text.words_blank rfl, Text.words_cons (by decide) rfl] at h
      exact absurd (Option.some.inj h) (hzero k hk)
    · rw [Text.words_cons ⟨hne, hblank⟩ rfl, Text.words_cons (by decide) rfl] at hport
      exact absurd rfl hport

variable (hproto : Text.IsWord cfg.proto)
include hproto

theorem words_mLine {type : Bytes} (htype : Text.IsWord type) (pt : PayloadType) :
    Text.words (type ++ 32 :: (Text.ascii "9" ++ 32 :: (cfg.proto ++ 32 :: Text.decimal pt))) =
      [type, Text.ascii "9", cfg.proto, Text.decimal pt] := by
  rw [Text.words_cons htype rfl, Text.words_cons (by decide) rfl, Text.words_cons hproto rfl,
    Text.words_word (Text.isWord_decimal _)]

theorem mLines_section (s : Bytes × Bytes) :
    (sectionLines cfg s).filterMap mWords = [sectionWords cfg s] := by
  unfold sectionLines sectionWords
  split_ifs
  · rw [mLines_media, words_mLine hproto (by decide)]
  · rw [mLines_media, words_mLine hproto (by decide)]
  · rfl

/-- **The m-lines of an answer**, one for each section. -/
theorem mLines_generated (h : cfg.Flat) {cap : ℕ} {answer : Bytes}
    (hg : generateAnswer cfg cap = .ok answer) :
    mLines answer = cfg.media.map (sectionWords cfg) := by
  have hsession : (sessionLines cfg).filterMap mWords = [] := by
    refine List.filterMap_eq_nil_iff.2 ?_
    simp only [sessionLines, List.forall_mem_append, List.forall_mem_singleton]
    exact ⟨by decide, by decide, by decide, by decide, rfl, by decide, rfl,
      forall_optional fun _ => rfl, forall_optional fun _ => rfl, forall_optional fun _ => rfl,
      forall_optional fun _ => rfl⟩
  rw [mLines, lines_generated h hg, answerLines, List.filterMap_append, hsession, List.nil_append,
    List.filterMap_flatMap]
  simp only [mLines_section hproto]
  exact List.map_eq_flatMap.symm

end MLines

/-! ## Section by section -/

/-- The payload type that an answer has for a kind. -/
def Answer.ptOf (cfg : Answer) (kind : Bytes) : PayloadType :=
  if kind = typeVideo then cfg.video.pt else cfg.audio.pt

theorem sectionWords_kind (cfg : Answer) {k : Bytes × Bytes} (hk : k ∈ codecs) (mid : Bytes) :
    sectionWords cfg (k.1, mid) =
      [k.1, Text.ascii "9", cfg.proto, Text.decimal (cfg.ptOf k.1)] := by
  rcases List.mem_cons.1 hk with rfl | hk
  · rfl
  · obtain rfl := List.mem_singleton.1 hk
    rfl

theorem onlyOffered_sections {cfg : Answer} {sections : List Media}
    (hblank : ∀ m ∈ sections, ∀ c ∈ m.type, Text.blank c = false) {answer : Bytes}
    (hlines : mLines answer = (sections.map fun m => (m.type, m.mid)).map (sectionWords cfg)) :
    OnlyOffered sections answer ↔
      ∀ k ∈ codecs, ∀ m ∈ sections, m.type = k.1 → Maps k.2 m (cfg.ptOf k.1) := by
  have hline : ∀ i : ℕ, (mLines answer)[i]? =
      sections[i]?.map fun m => sectionWords cfg (m.type, m.mid) := by
    intro i
    rw [hlines, List.map_map, List.getElem?_map]
    rfl
  have hnine : some (Text.ascii "9") ≠ some (Text.ascii "0") := by decide
  constructor
  · intro h k hk m hm ht
    obtain ⟨i, hi⟩ := List.mem_iff_getElem?.1 hm
    have hwords := sectionWords_kind cfg hk m.mid
    have hat : (mLines answer)[i]? = some (sectionWords cfg (k.1, m.mid)) := by
      rw [hline, hi, Option.map_some, ht]
    rw [hwords] at hat
    obtain ⟨m', hm', -, hfmt⟩ := h i _ hat hnine k hk rfl
    obtain rfl := Option.some.inj (hi.symm.trans hm')
    obtain ⟨pt, hpt, hmaps⟩ := hfmt _ (List.mem_singleton_self _)
    have hlt := pt.isLt
    have hlt' := (cfg.ptOf k.1).isLt
    have := decimal_injective (by omega) (by omega) hpt
    exact Fin.ext this ▸ hmaps
  · intro h i row hat hport k hk hkind
    rw [hline] at hat
    obtain ⟨m, hi, rfl⟩ := Option.map_eq_some_iff.1 hat
    have hm := List.mem_of_getElem? hi
    have ht : m.type = k.1 := sectionWords_carried (hblank m hm) hport hk hkind
    refine ⟨m, hi, ht, fun fmt hfmt => ⟨cfg.ptOf k.1, ?_, h k hk m hm ht⟩⟩
    rw [ht, sectionWords_kind cfg hk] at hfmt
    exact (List.mem_singleton.1 hfmt).symm

/-! ## The payload type that is answered -/

theorem choosePt_choosePt (offered own : PayloadType) :
    choosePt offered (choosePt offered own) = choosePt offered own := by
  unfold choosePt
  split_ifs <;> rfl

/-- A kind of media keeps what the last section that maps its codec says. -/
theorem foldl_pt {get : Offer → Track} {kind codec : Bytes}
    (hget : ∀ o m, get (Offer.addMedia o m) =
      if m.type = kind then (get o).update codec m else get o)
    {sections : List Media} {last : Media} {p : Pt}
    (hlast : (sections.filter (·.type = kind)).getLast? = some last)
    (hp : last.findCodec codec = some p) (o : Offer) :
    (get (sections.foldl Offer.addMedia o)).pt = p.pt := by
  obtain ⟨t, ht⟩ := track_last hget hlast o
  rw [ht, Track.update, hp]

/-- All sections of a kind map what is answered exactly if they agree. -/
theorem maps_iff_agree {get : Offer → Track} {kind codec : Bytes}
    (hget : ∀ o m, get (Offer.addMedia o m) =
      if m.type = kind then (get o).update codec m else get o)
    (sections : List Media) (own : PayloadType) (o : Offer) :
    (∀ m ∈ sections, m.type = kind →
      Maps codec m (choosePt (get (sections.foldl Offer.addMedia o)).pt own)) ↔
      Agree kind codec own sections := by
  constructor
  · intro h last hlast
    obtain ⟨hmem, ht⟩ := mem_of_last hlast
    obtain ⟨q, hq, -, hc⟩ := h last hmem ht
    have hsome : (last.findCodec codec).isSome = true := List.find?_isSome.2 ⟨q, hq, hc⟩
    obtain ⟨p, hp⟩ := Option.isSome_iff_exists.1 hsome
    rw [foldl_pt hget hlast hp] at h
    exact ⟨p, hp, h⟩
  · intro h m hm ht
    have hne : sections.filter (·.type = kind) ≠ [] :=
      List.ne_nil_of_mem (List.mem_filter.2 ⟨hm, decide_eq_true ht⟩)
    obtain ⟨p, hp, hmaps⟩ := h _ (List.getLast?_eq_some_getLast hne)
    rw [foldl_pt hget (List.getLast?_eq_some_getLast hne) hp]
    exact hmaps m hm ht

/-- What is answered is the offered payload type, or the one the request falls back to. -/
theorem adopt_pt (req : Request) (offer : Offer) :
    choosePt offer.video.pt (req.src.adopt offer req.shm).videoPt =
        choosePt offer.video.pt req.own.videoPt ∧
      choosePt offer.audio.pt (req.src.adopt offer req.shm).audioPt =
        choosePt offer.audio.pt req.own.audioPt := by
  unfold Request.own
  cases req.shm with
  | none => exact ⟨rfl, rfl⟩
  | some shm => exact ⟨choosePt_choosePt .., choosePt_choosePt ..⟩

/-- **An answer only uses offered payload types** if and only if, for each kind, all its sections
    map one payload type to the codec: the first that the last section of the kind maps to it (the
    source's, if that is 0). -/
theorem offered_iff {text : Bytes} {st : Parser} (h : parse text = .ok st) (hd : Handler)
    (req : Request) {cap : ℕ} {answer : Bytes}
    (hg : generateAnswer (hd.answer req (buildOffer st)) cap = .ok answer) :
    OnlyOffered st.sections answer ↔
      Agree typeVideo h264 req.own.videoPt st.sections ∧
        Agree typeAudio opus req.own.audioPt st.sections := by
  have hwf : ∀ m ∈ st.sections, m.Wf LineByte :=
    sections_wf h fun l hl c hc => (Text.of_mem_lines hl c hc).2
  obtain ⟨sendonly, fmtp, he, hf, -⟩ := handler_answer hd req (buildOffer st)
  rw [he] at hg
  set cfg := requestAnswer sendonly fmtp req (buildOffer st) with hcfg
  have hproto : Text.IsWord cfg.proto := (by decide : Text.IsWord answerInit.proto)
  have hflat : cfg.Flat := flat_requestAnswer req sendonly hf hwf
  rw [onlyOffered_sections (fun m hm c hc => ((hwf m hm).type c hc).2)
    (mLines_generated hproto hflat hg)]
  have hpt := adopt_pt req (buildOffer st)
  have hvideo : cfg.ptOf typeVideo = choosePt (buildOffer st).video.pt req.own.videoPt := hpt.1
  have haudio : cfg.ptOf typeAudio = choosePt (buildOffer st).audio.pt req.own.audioPt := hpt.2
  rw [codecs, List.forall_mem_cons, List.forall_mem_singleton, hvideo, haudio]
  exact and_congr (maps_iff_agree video_addMedia st.sections _ _)
    (maps_iff_agree audio_addMedia st.sections _ _)

/-! ## An offer that is answered within it, and one that is not -/

theorem offered_sample : OnlyOffered sampleParser.sections sampleAnswer := by
  refine (offered_iff parse_sample .play sampleRequest generate_sample).2 ⟨?_, ?_⟩
  · intro last hlast
    obtain rfl := Option.some.inj hlast
    exact ⟨{ pt := 102, encoding := h264, clockRate := 90000 }, by decide, by decide⟩
  · intro last hlast
    obtain rfl := Option.some.inj hlast
    exact ⟨{ pt := 111, encoding := opus, clockRate := 48000, channels := 2 }, by decide,
      by decide⟩

/-- An offer of VP8 alone. -/
def vp8Text : Bytes := Text.unlines
  [Text.ascii "v=0", Text.ascii "m=video 9 UDP/TLS/RTP/SAVPF 96", Text.ascii "a=mid:0",
   Text.ascii "a=rtpmap:96 VP8/90000"]

def vp8Parser : Parser where
  media :=
    [{ type := typeVideo
       mid := Text.ascii "0"
       pts := [{ pt := 96, encoding := Text.ascii "VP8", clockRate := 90000 }] }]

def vp8Answer : Bytes :=
  Text.unlines (answerLines (Handler.play.answer sampleRequest (buildOffer vp8Parser)))

/-- It is answered with H264. -/
theorem answered_h264 :
    parse vp8Text = .ok vp8Parser ∧
      generateAnswer (Handler.play.answer sampleRequest (buildOffer vp8Parser)) 4096 =
        .ok vp8Answer ∧ ¬ OnlyOffered vp8Parser.sections vp8Answer := by
  refine ⟨by decide +kernel, generate_of_fits (by decide +kernel), fun h => ?_⟩
  have hline : (mLines vp8Answer)[0]? = some [typeVideo, Text.ascii "9", answerInit.proto,
      Text.decimal 102] := by decide +kernel
  obtain ⟨m, hm, -, hfmt⟩ := h 0 _ hline (by decide) (typeVideo, h264) (by decide) rfl
  obtain rfl := Option.some.inj hm
  obtain ⟨pt, -, p, hp, -, hc⟩ := hfmt _ (List.mem_singleton_self _)
  obtain rfl := List.mem_singleton.1 hp
  exact absurd hc (by decide)

end Sdp

end NginxRtc
