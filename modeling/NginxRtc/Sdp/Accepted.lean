/-
  What the parser keeps of an SDP text: the texts of a section fit their buffers and are made of
  bytes of the text.

  `parseLine_wf`: a line keeps the sections so.  `sections_wf`: of an accepted text every section is
  so.
-/
import NginxRtc.Sdp.Parse

namespace NginxRtc

namespace Sdp

/-! ## Steps that succeed -/

theorem bind_eq_ok {α β : Type} {x : Except CodecErr α} {f : α → Except CodecErr β} {b : β}
    (h : x.bind f = .ok b) : ∃ a, x = .ok a ∧ f a = .ok b := by
  cases x with
  | error e => exact nomatch h
  | ok a => exact ⟨a, rfl, h⟩

theorem map_eq_ok {α β : Type} {x : Except CodecErr α} {f : α → β} {b : β}
    (h : x.map f = .ok b) : ∃ a, x = .ok a ∧ f a = b := by
  cases x with
  | error e => exact nomatch h
  | ok a => exact ⟨a, rfl, Except.ok.inj h⟩

/-- A predicate that each step of a fold keeps. -/
theorem foldlM_keeps {α σ : Type} {f : σ → α → Except CodecErr σ} {p : σ → Prop} {xs : List α}
    (hstep : ∀ x ∈ xs, ∀ s s', f s x = .ok s' → p s → p s') {s s' : σ}
    (h : xs.foldlM f s = .ok s') (hs : p s) : p s' := by
  induction xs generalizing s with
  | nil => exact Except.ok.inj h ▸ hs
  | cons x xs ih =>
    rw [List.foldlM_cons] at h
    obtain ⟨t, ht, h⟩ := bind_eq_ok h
    exact ih (fun y hy => hstep y (List.mem_cons_of_mem _ hy)) h
      (hstep x List.mem_cons_self s t ht hs)

/-! ## Sections -/

/-- The texts of a section: they fit, and their bytes satisfy `ok`.  Of a text without NUL the media
    type is not empty and the URI of an extension is that of transport-wide congestion control. -/
structure Media.Wf (ok : UInt8 → Prop) (m : Media) : Prop where
  type : ∀ c ∈ m.type, ok c ∧ Text.blank c = false
  type_fits : m.type.length < strLen
  type_ne : ¬ ok 0 → m.type ≠ []
  mid : ∀ c ∈ m.mid, ok c
  mid_fits : m.mid.length < midLen
  ext : m.twccExt ≤ 14
  uri : ∀ c ∈ m.twccUri, ok c ∧ uriByte c = true
  uri_fits : m.twccUri.length < twccUriLen
  uri_twcc : ¬ ok 0 → m.twccExt ≠ 0 → twcc <:+: m.twccUri

theorem copyToken_spec {cap : ℕ} {src s : Bytes} (h : copyToken cap src = .ok s) :
    (∀ c ∈ s, c ∈ src) ∧ s.length < cap ∧ ((∀ c ∈ src, c ≠ 0) → s = src) := by
  unfold copyToken at h
  split at h
  · exact nomatch h
  · cases h
    refine ⟨fun c hc => (List.takeWhile_prefix _).subset hc, ?_, cstr_eq⟩
    have hle : (cstr src).length ≤ src.length := (List.takeWhile_prefix _).length_le
    omega

/-- What a media line does. -/
theorem parseMedia_cases {st st' : Parser} {content : Bytes}
    (h : parseMedia st content = .ok st') :
    st.media.length < maxMedia ∧ ∃ tok ∈ Text.words content, ∃ type pts,
      copyToken strLen tok = .ok type ∧ st' = { st with media := { type, pts } :: st.media } := by
  unfold parseMedia at h
  split at h
  · exact nomatch h
  · refine ⟨Nat.lt_of_not_le ‹_›, ?_⟩
    split at h
    · exact nomatch h
    · next tok toks hw =>
      obtain ⟨type, ht, h⟩ := bind_eq_ok h
      split at h
      · obtain ⟨pts, -, h⟩ := bind_eq_ok h
        exact ⟨tok, hw ▸ List.mem_cons_self, type, pts, ht, (Except.ok.inj h).symm⟩
      · exact nomatch h

/-- What an extension does: nothing, or it is kept with its URI. -/
theorem parseExtmap_cases (m : Media) (value : Bytes) :
    parseExtmap m value = m ∨ ∃ id uri, parseExtmap m value = { m with
        twccUri := cstr uri, twccExt := id } ∧ id ≤ 14 ∧ uri.length < twccUriLen ∧
      twcc <:+: uri ∧ ∀ c ∈ uri, c ∈ value ∧ uriByte c = true := by
  unfold parseExtmap
  simp only
  split_ifs with h0 h
  · exact .inl rfl
  · refine .inr ⟨_, _, rfl, h.2.1, h.2.2.2, h.1, fun c hc => ⟨?_, List.mem_takeWhile_imp hc⟩⟩
    have h1 := (List.takeWhile_prefix _).subset hc
    have h2 := (List.dropWhile_suffix _).subset h1
    have h3 := (List.dropWhile_suffix _).subset h2
    exact (List.dropWhile_suffix _).subset h3
  · exact .inl rfl

/-- What an attribute does to its section. -/
theorem applyMedia_cases {name value : Bytes} {m m' : Media}
    (h : applyMedia name value m = .ok m') :
    (∃ mid, copyToken midLen value = .ok mid ∧ m' = { m with mid }) ∨
      (∃ ssrc pts, m' = { m with ssrc, pts }) ∨ m' = parseExtmap m value := by
  have hself : m = { m with ssrc := m.ssrc, pts := m.pts } := rfl
  unfold applyMedia at h
  split_ifs at h
  · obtain ⟨mid, hm, rfl⟩ := map_eq_ok h
    exact .inl ⟨mid, hm, rfl⟩
  · obtain ⟨t, -, h⟩ := bind_eq_ok h
    obtain ⟨pt, -, h⟩ := bind_eq_ok h
    obtain ⟨pts, -, h⟩ := bind_eq_ok h
    exact .inr (.inl ⟨m.ssrc, pts, (Except.ok.inj h).symm⟩)
  · obtain ⟨t, -, h⟩ := bind_eq_ok h
    obtain ⟨ssrc, -, h⟩ := bind_eq_ok h
    exact .inr (.inl ⟨ssrc, m.pts, (Except.ok.inj h).symm⟩)
  · obtain ⟨t, -, h⟩ := bind_eq_ok h
    obtain ⟨pt, -, h⟩ := bind_eq_ok h
    obtain ⟨pts, -, h⟩ := bind_eq_ok h
    exact .inr (.inl ⟨m.ssrc, pts, (Except.ok.inj h).symm⟩)
  · exact .inr (.inr (Except.ok.inj h).symm)
  · exact .inr (.inl ⟨m.ssrc, m.pts, (Except.ok.inj h).symm.trans hself⟩)

/-- What an attribute does: it leaves the sections, or changes the current one. -/
theorem applyAttr_cases {st st' : Parser} {name value : Bytes}
    (h : applyAttr st name value = .ok st') :
    st'.media = st.media ∨ ∃ m ms m', st.media = m :: ms ∧ applyMedia name value m = .ok m' ∧
      st'.media = m' :: ms := by
  unfold applyAttr at h
  split_ifs at h
  · obtain ⟨s, -, rfl⟩ := map_eq_ok h
    exact .inl rfl
  · obtain ⟨s, -, rfl⟩ := map_eq_ok h
    exact .inl rfl
  · obtain ⟨s, -, rfl⟩ := map_eq_ok h
    exact .inl rfl
  · obtain ⟨s, -, rfl⟩ := map_eq_ok h
    exact .inl rfl
  · split at h
    · exact .inl (congrArg Parser.media (Except.ok.inj h).symm)
    · next m ms hm =>
      obtain ⟨m', hm', rfl⟩ := map_eq_ok h
      exact .inr ⟨m, ms, m', hm, hm', rfl⟩

/-- What a line does. -/
theorem parseLine_cases {st st' : Parser} {l : Bytes} (h : parseLine st l = .ok st') :
    st' = st ∨ (∃ content, (∀ c ∈ content, c ∈ l) ∧ parseMedia st content = .ok st') ∨
      ∃ name value, (∀ c ∈ value, c ∈ l) ∧ applyAttr st name value = .ok st' := by
  unfold parseLine at h
  split at h
  · next kind content =>
    have hl : ∀ c ∈ content, c ∈ kind :: 61 :: content := fun c hc =>
      List.mem_cons_of_mem _ (List.mem_cons_of_mem _ hc)
    split_ifs at h
    · exact .inr (.inl ⟨content, hl, h⟩)
    · refine .inr (.inr ⟨_, _, fun c hc => hl c ?_, h⟩)
      exact (List.dropWhile_suffix _).subset (List.mem_of_mem_drop hc)
    · exact .inl (Except.ok.inj h).symm
  · exact .inl (Except.ok.inj h).symm

variable {ok : UInt8 → Prop}

theorem Media.Wf.extmap {m : Media} (h : m.Wf ok) {value : Bytes} (hv : ∀ c ∈ value, ok c) :
    (parseExtmap m value).Wf ok := by
  rcases parseExtmap_cases m value with he | ⟨id, uri, he, hid, hlen, htwcc, huri⟩
  · rw [he]
    exact h
  · rw [he]
    have hsub : ∀ c ∈ cstr uri, c ∈ uri := fun c hc => (List.takeWhile_prefix _).subset hc
    have hfits : (cstr uri).length < twccUriLen :=
      (List.takeWhile_prefix _).length_le.trans_lt hlen
    refine { h with
      ext := hid
      uri := fun c hc => ⟨hv c (huri c (hsub c hc)).1, (huri c (hsub c hc)).2⟩
      uri_fits := hfits
      uri_twcc := fun h0 _ => ?_ }
    have hnul : ∀ c ∈ uri, c ≠ 0 := fun c hc hc0 => h0 (hc0 ▸ hv c (huri c hc).1)
    show twcc <:+: cstr uri
    rw [cstr_eq hnul]
    exact htwcc

/-- A section as its media line makes it. -/
theorem Media.Wf.opened {content tok type : Bytes} (hc : ∀ c ∈ content, ok c)
    (htok : tok ∈ Text.words content) (ht : copyToken strLen tok = .ok type) (pts : List Pt) :
    ({ type, pts } : Media).Wf ok := by
  obtain ⟨hsub, hlen, hnul⟩ := copyToken_spec ht
  obtain ⟨hword, hmem⟩ := Text.of_mem_words htok
  exact
    { type := fun c h => ⟨hc c (hmem c (hsub c h)), hword.solid c (hsub c h)⟩
      type_fits := hlen
      type_ne := fun h0 => hnul (fun c h hc0 => h0 (hc0 ▸ hc c (hmem c h))) ▸ hword.ne_nil
      mid := fun _ h => absurd h List.not_mem_nil
      mid_fits := (by decide : ([] : Bytes).length < midLen)
      ext := Nat.zero_le 14
      uri := fun _ h => absurd h List.not_mem_nil
      uri_fits := (by decide : ([] : Bytes).length < twccUriLen)
      uri_twcc := fun _ h => absurd rfl h }

/-- **A line keeps the sections well-formed.** -/
theorem parseLine_wf {st st' : Parser} {l : Bytes} (hl : ∀ c ∈ l, ok c)
    (h : parseLine st l = .ok st') (hst : ∀ m ∈ st.media, m.Wf ok) :
    ∀ m ∈ st'.media, m.Wf ok := by
  rcases parseLine_cases h with rfl | ⟨content, hc, h⟩ | ⟨name, value, hv, h⟩
  · exact hst
  · obtain ⟨-, tok, htok, type, pts, ht, rfl⟩ := parseMedia_cases h
    exact List.forall_mem_cons.2
      ⟨Media.Wf.opened (fun c h => hl c (hc c h)) htok ht pts, hst⟩
  · rcases applyAttr_cases h with hm | ⟨m, ms, m', hm, ha, hm'⟩
    · rw [hm]
      exact hst
    · rw [hm] at hst
      obtain ⟨hwf, hms⟩ := List.forall_mem_cons.1 hst
      rw [hm']
      refine List.forall_mem_cons.2 ⟨?_, hms⟩
      have hval : ∀ c ∈ value, ok c := fun c h => hl c (hv c h)
      rcases applyMedia_cases ha with ⟨mid, hc, rfl⟩ | ⟨ssrc, pts, rfl⟩ | rfl
      · obtain ⟨hsub, hlen, -⟩ := copyToken_spec hc
        exact { hwf with mid := fun c h => hval c (hsub c h), mid_fits := hlen }
      · exact { hwf with }
      · exact hwf.extmap hval

/-- **The sections of an accepted text.** -/
theorem sections_wf {text : Bytes} {st : Parser} (h : parse text = .ok st)
    (hok : ∀ l ∈ Text.lines text, ∀ c ∈ l, ok c) : ∀ m ∈ st.sections, m.Wf ok := by
  intro m hm
  refine foldlM_keeps (p := fun st : Parser => ∀ m ∈ st.media, m.Wf ok) ?_ h ?_ m
    (List.mem_reverse.1 hm)
  · exact fun l hl s s' hs hwf => parseLine_wf (hok l hl) hs hwf
  · exact fun _ hm => absurd hm List.not_mem_nil

/-- No line opens a section too many. -/
theorem sections_le {text : Bytes} {st : Parser} (h : parse text = .ok st) :
    st.sections.length ≤ maxMedia := by
  rw [Parser.sections, List.length_reverse]
  refine foldlM_keeps (p := fun st : Parser => st.media.length ≤ maxMedia) ?_ h (Nat.zero_le _)
  intro l _ s s' hs hle
  rcases parseLine_cases hs with rfl | ⟨content, -, hs⟩ | ⟨name, value, -, hs⟩
  · exact hle
  · obtain ⟨hlt, tok, -, type, pts, -, rfl⟩ := parseMedia_cases hs
    exact hlt
  · rcases applyAttr_cases hs with hm | ⟨m, ms, m', hm, -, hm'⟩
    · rw [hm]
      exact hle
    · rw [hm] at hle
      rw [hm']
      exact hle

/-! ## The offer -/

theorem update_ext (codec : Bytes) (m : Media) (t : Track) :
    (t.update codec m).twccExt = m.twccExt ∧ (t.update codec m).twccUri = m.twccUri := by
  unfold Track.update
  split
  · exact ⟨rfl, rfl⟩
  · exact ⟨rfl, rfl⟩

/-- What the offer says of the extension of each kind is what a section says, or nothing. -/
theorem offer_ext {p : ℕ → Bytes → Prop} (h0 : p 0 []) {st : Parser}
    (h : ∀ m ∈ st.sections, p m.twccExt m.twccUri) :
    p (buildOffer st).video.twccExt (buildOffer st).video.twccUri ∧
      p (buildOffer st).audio.twccExt (buildOffer st).audio.twccUri := by
  have hfold : ∀ (ms : List Media) (o : Offer), (∀ m ∈ ms, p m.twccExt m.twccUri) →
      p o.video.twccExt o.video.twccUri ∧ p o.audio.twccExt o.audio.twccUri →
      p (ms.foldl Offer.addMedia o).video.twccExt (ms.foldl Offer.addMedia o).video.twccUri ∧
        p (ms.foldl Offer.addMedia o).audio.twccExt (ms.foldl Offer.addMedia o).audio.twccUri := by
    intro ms
    induction ms with
    | nil => exact fun o _ ho => ho
    | cons m ms ih =>
      intro o hms ho
      obtain ⟨hm, hms⟩ := List.forall_mem_cons.1 hms
      refine ih (o.addMedia m) hms ?_
      unfold Offer.addMedia
      split_ifs
      · refine ⟨?_, ho.2⟩
        rw [(update_ext h264 m o.video).1, (update_ext h264 m o.video).2]
        exact hm
      · refine ⟨ho.1, ?_⟩
        rw [(update_ext opus m o.audio).1, (update_ext opus m o.audio).2]
        exact hm
      · exact ho
  exact hfold st.sections _ h ⟨h0, h0⟩

end Sdp

end NginxRtc
