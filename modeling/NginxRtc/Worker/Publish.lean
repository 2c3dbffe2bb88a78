/-
  Publish ownership: the shared claim and its local mirror.

  `publish_claim`, `publish_release` and `publish_mirror` are the only writers of a local source's
  tag; `ngx_rtc_stream_shm_source` and `ngx_rtmp_rtc_sync_shm` renew the claim from the two media
  paths.  With no zone configured there is nothing to arbitrate; the functions named `...In` are
  the same calls inside a configured zone.

  `publishClaimIn_cases`: a claim finds no shared source, is refused, or takes the source.
  `Source.Mirrored`: the local fields agree with each other; every function below keeps that.
-/
import NginxRtc.Shm.Publish
import NginxRtc.Worker.State

namespace NginxRtc

namespace Source

/-- The local mirror of a claim by `kind`. -/
def claimed (kind : PublisherKind) (src : Source) : Source :=
  { src with publisherKind := some kind, publishing := true }

/-- The local mirror of no claim. -/
def unclaimed (src : Source) : Source :=
  { src with publisherKind := none, publishing := false, shmSrc := none }

/-- `ngx_rtc_publish_mirror`. -/
def publishMirror (kind : PublisherKind) (src : Source) : Source := src.claimed kind

/-- The cached pointer was resolved less than `NGX_RTC_SHM_SYNC_MS` ago. -/
def inWindow (now : ℕ) (src : Source) : Bool := now - src.shmSyncMs < NginxRtc.shmSyncMs

/-- The identity a publisher reads back from its shared source. -/
def syncFrom (shm : Option ShmSource) (src : Source) : Source :=
  match shm with
  | none => src
  | some s =>
    { src with
      videoSsrc := s.videoSsrc
      audioSsrc := s.audioSsrc
      videoPt := s.videoPt
      audioPt := s.audioPt }

/-- The tag and the flag agree, and nothing is cached without them. -/
structure Mirrored (src : Source) : Prop where
  kind : src.publishing = src.publisherKind.isSome
  idle : src.publishing = false → src.shmSrc = none

theorem fresh_mirrored (name : SourceName) : (Source.fresh name).Mirrored := ⟨rfl, fun _ => rfl⟩

theorem unclaimed_mirrored (src : Source) : src.unclaimed.Mirrored := ⟨rfl, fun _ => rfl⟩

@[simp] theorem unclaimed_name (src : Source) : src.unclaimed.name = src.name := rfl

@[simp] theorem claimed_name (kind : PublisherKind) (src : Source) :
    (src.claimed kind).name = src.name := rfl

theorem claimed_mirrored (kind : PublisherKind) (src : Source) : (src.claimed kind).Mirrored :=
  ⟨rfl, (nomatch ·)⟩

@[simp] theorem syncFrom_name (shm : Option ShmSource) (src : Source) :
    (src.syncFrom shm).name = src.name := by cases shm <;> rfl

@[simp] theorem syncFrom_kind (shm : Option ShmSource) (src : Source) :
    (src.syncFrom shm).publisherKind = src.publisherKind := by cases shm <;> rfl

@[simp] theorem syncFrom_shmSrc (shm : Option ShmSource) (src : Source) :
    (src.syncFrom shm).shmSrc = src.shmSrc := by cases shm <;> rfl

@[simp] theorem syncFrom_shmSyncMs (shm : Option ShmSource) (src : Source) :
    (src.syncFrom shm).shmSyncMs = src.shmSyncMs := by cases shm <;> rfl

theorem syncFrom_mirrored (shm : Option ShmSource) (src : Source) (h : src.Mirrored) :
    (src.syncFrom shm).Mirrored := by
  cases shm with
  | none => exact h
  | some s => exact ⟨h.kind, h.idle⟩

end Source

/-! ## In a configured zone -/

/-- `ngx_rtc_publish_claim`. -/
def publishClaimIn (c : ShmCtx) (env : Env) (src : Source) (kind : PublisherKind) :
    ShmCtx × Source × Rc :=
  match c.sourceTryPublish env.now src.name kind with
  | (c', .busy) => (c', src.unclaimed, .busy)
  | (c', .ok) =>
    match c'.sourceGet env src.name with
    | (c'', some a) => (c'', { src.claimed kind with shmSrc := some a, shmSyncMs := env.now }, .ok)
    | (c'', none) => (c'', { src.claimed kind with shmSrc := none }, .ok)
  | (c', _) => (c', { src.claimed kind with shmSrc := none }, .ok)

/-- `ngx_rtc_publish_release` up to the release of the shared claim. -/
def publishReleaseIn (c : ShmCtx) (now : ℕ) (src : Source) : ShmCtx × Source :=
  match src.publisherKind with
  | none => (c, src)
  | some kind => (c.sourceReleasePublish now src.name kind, src.unclaimed)

/-- `ngx_rtc_stream_shm_source`: the shared source a WHIP publisher may write to. -/
def streamShmSourceIn (c : ShmCtx) (now : ℕ) (src : Source) : ShmCtx × Source × Option ℕ :=
  match src.shmSrc with
  | none => (c, src, none)
  | some a =>
    if src.inWindow now then (c, src, some a)
    else
      match c.sourceTryPublish now src.name .whip with
      | (c', .ok) => (c', { src with shmSyncMs := now }, some a)
      | (c', _) => (c', { src with shmSrc := none, shmSyncMs := now }, none)

/-- The end of `ngx_rtmp_rtc_sync_shm`, on the worker numbered `slot`: read the identity of the
    claimed source, and record the worker and its heartbeat in it. -/
def rtmpRecordIn (c : ShmCtx) (slot now : ℕ) (src : Source) : ShmCtx × Source :=
  match src.shmSrc with
  | none => (c, src)
  | some a =>
    ((c.setPublisherSlot a slot).setStatsSeen a src.stats now, src.syncFrom (c.sources.get a))

/-- `ngx_rtmp_rtc_sync_shm`: inside the window only the counters are written. -/
def rtmpSyncShmIn (c : ShmCtx) (slot : ℕ) (env : Env) (src : Source) : ShmCtx × Source × Rc :=
  match src.publisherKind, src.shmSrc, src.inWindow env.now with
  | some .rtmp, some a, true => (c.setStatsSeen a src.stats env.now, src, .ok)
  | _, _, _ =>
    match publishClaimIn c env src .rtmp with
    | (c', src', .busy) => (c', src', .busy)
    | (c', src', _) => ((rtmpRecordIn c' slot env.now src').1, (rtmpRecordIn c' slot env.now src').2, .ok)

/-- What `attach_from_shm` does to the source of a publishing session: cache the shared source and
    adopt the claim another worker holds. -/
def adoptIn (c : ShmCtx) (env : Env) (src : Source) : ShmCtx × Source :=
  ((c.sourceGet env src.name).1,
    { src with shmSrc := (c.sourceGet env src.name).2, shmSyncMs := env.now }.publishMirror .whip)

/-! ## With or without a zone -/

/-- `ngx_rtc_publish_claim`. -/
def publishClaim (sh : Option ShmCtx) (env : Env) (src : Source) (kind : PublisherKind) :
    Option ShmCtx × Source × Rc :=
  match sh with
  | none => (none, { src.claimed kind with shmSrc := none }, .ok)
  | some c => ((publishClaimIn c env src kind).1, (publishClaimIn c env src kind).2)

/-- `ngx_rtc_publish_release`: the shared source is handed back once the claim is gone. -/
def publishRelease (sh : Option ShmCtx) (now : ℕ) (src : Source) : Option ShmCtx × Source :=
  match sh, src.publisherKind with
  | none, none => (none, src)
  | none, some _ => (none, src.unclaimed)
  | some c, none => (some c, src)
  | some c, some _ =>
    (some ((publishReleaseIn c now src).1.sourceRemove src.name), (publishReleaseIn c now src).2)

/-- `ngx_rtc_stream_shm_source`. -/
def streamShmSource (sh : Option ShmCtx) (now : ℕ) (src : Source) :
    Option ShmCtx × Source × Option ℕ :=
  match sh with
  | none => (none, src, if src.inWindow now then src.shmSrc else none)
  | some c => ((streamShmSourceIn c now src).1, (streamShmSourceIn c now src).2)

/-- `ngx_rtmp_rtc_sync_shm`. -/
def rtmpSyncShm (sh : Option ShmCtx) (slot : ℕ) (env : Env) (src : Source) :
    Option ShmCtx × Source × Rc :=
  match sh with
  | none => (none, src, .ok)
  | some c => ((rtmpSyncShmIn c slot env src).1, (rtmpSyncShmIn c slot env src).2)

/-! ## Claims -/

/-- **The three outcomes of a claim**: no shared source, refused, or taken. -/
theorem publishClaimIn_cases (c : ShmCtx) (env : Env) (src : Source) (kind : PublisherKind) :
    (c.sourceLookup src.name = none ∧
        publishClaimIn c env src kind = (c, { src.claimed kind with shmSrc := none }, .ok)) ∨
      (∃ a s k, c.sourceLookup src.name = some a ∧ c.sources.get a = some s ∧
        s.publisherKind = some k ∧ k ≠ kind ∧
        publishClaimIn c env src kind = (c, src.unclaimed, .busy)) ∨
      ∃ a s, c.sourceLookup src.name = some a ∧ c.sources.get a = some s ∧ s.name = src.name ∧
        (s.publisherKind = none ∨ s.publisherKind = some kind) ∧
        publishClaimIn c env src kind = (c.claimSource env.now src.name kind,
          { src.claimed kind with shmSrc := some a, shmSyncMs := env.now }, .ok) := by
  unfold publishClaimIn
  rcases c.sourceTryPublish_cases env.now src.name kind with
    ⟨hl, he⟩ | ⟨a, s, k, hl, hs, hk, hne, he⟩ | ⟨a, s, hl, hs, hn, hfree, he⟩
  · exact .inl ⟨hl, by rw [he]⟩
  · exact .inr (.inl ⟨a, s, k, hl, hs, hk, hne, by rw [he]⟩)
  · refine .inr (.inr ⟨a, s, hl, hs, hn, hfree, ?_⟩)
    have hl' : (c.claimSource env.now src.name kind).sourceLookup src.name = some a := by
      rw [ShmCtx.sourceLookup_claimSource, hl]
    rw [he]
    simp only [ShmCtx.sourceGet_of_lookup hl']

/-- Whatever its outcome, a claim leaves the registry as `try_publish` does. -/
theorem publishClaimIn_sh (c : ShmCtx) (env : Env) (src : Source) (kind : PublisherKind) :
    (publishClaimIn c env src kind).1 = (c.sourceTryPublish env.now src.name kind).1 := by
  unfold publishClaimIn
  rcases c.sourceTryPublish_cases env.now src.name kind with
    ⟨-, he⟩ | ⟨a, s, k, -, -, -, -, he⟩ | ⟨a, s, hl, -, -, -, he⟩
  · simp [he]
  · simp [he]
  · have hl' : (c.claimSource env.now src.name kind).sourceLookup src.name = some a := by
      rw [ShmCtx.sourceLookup_claimSource, hl]
    simp only [he, ShmCtx.sourceGet_of_lookup hl']

theorem publishClaimIn_name (c : ShmCtx) (env : Env) (src : Source) (kind : PublisherKind) :
    (publishClaimIn c env src kind).2.1.name = src.name := by
  rcases publishClaimIn_cases c env src kind with
    ⟨-, he⟩ | ⟨a, s, k, -, -, -, -, he⟩ | ⟨a, s, -, -, -, -, he⟩ <;> rw [he] <;> rfl

/-- A claim that found the shared source and was not refused holds it. -/
theorem publishClaimIn_held {c : ShmCtx} {env : Env} {src : Source} {kind : PublisherKind} {a : ℕ}
    (hl : c.sourceLookup src.name = some a) (hok : (publishClaimIn c env src kind).2.2 = .ok) :
    (publishClaimIn c env src kind).1.HeldAt a src.name kind := by
  rcases publishClaimIn_cases c env src kind with
    ⟨hn, -⟩ | ⟨b, s, k, -, -, -, -, he⟩ | ⟨b, s, hb, hs, hn, -, he⟩
  · exact nomatch hn.symm.trans hl
  · rw [he] at hok
    exact nomatch hok
  · obtain rfl := Option.some.inj (hb.symm.trans hl)
    rw [he]
    exact ⟨_, ShmCtx.claimSource_get hl hs _ _, hn, rfl, rfl⟩

/-- **A successful claim has the shared source behind it exactly if there was one.** -/
theorem publishClaimIn_held_iff (c : ShmCtx) (env : Env) (src : Source) (kind : PublisherKind) :
    ((publishClaimIn c env src kind).2.2 = .ok →
      ∃ a, (publishClaimIn c env src kind).1.sourceLookup src.name = some a ∧
        (publishClaimIn c env src kind).1.HeldAt a src.name kind) ↔
      (c.sourceLookup src.name).isSome := by
  cases hl : c.sourceLookup src.name with
  | none =>
    rcases publishClaimIn_cases c env src kind with
      ⟨-, he⟩ | ⟨a, s, k, ha, -⟩ | ⟨a, s, ha, -⟩
    · simp [he, hl]
    · exact nomatch ha.symm.trans hl
    · exact nomatch ha.symm.trans hl
  | some a =>
    refine iff_of_true (fun hok => ⟨a, ?_, publishClaimIn_held hl hok⟩) rfl
    rcases publishClaimIn_cases c env src kind with
      ⟨-, he⟩ | ⟨b, s, k, -, -, -, -, he⟩ | ⟨b, s, -, -, -, -, he⟩ <;> rw [he]
    · exact hl
    · exact hl
    · rw [ShmCtx.sourceLookup_claimSource, hl]

theorem publishClaimIn_mirrored (c : ShmCtx) (env : Env) (src : Source) (kind : PublisherKind) :
    (publishClaimIn c env src kind).2.1.Mirrored := by
  rcases publishClaimIn_cases c env src kind with
    ⟨-, he⟩ | ⟨a, s, k, -, -, -, -, he⟩ | ⟨a, s, -, -, -, -, he⟩ <;> rw [he]
  · exact ⟨rfl, (nomatch ·)⟩
  · exact src.unclaimed_mirrored
  · exact ⟨rfl, (nomatch ·)⟩

theorem publishClaimIn_shape {c : ShmCtx} (hc : c.Shape) (env : Env) (src : Source)
    (kind : PublisherKind) : (publishClaimIn c env src kind).1.Shape := by
  rcases publishClaimIn_cases c env src kind with
    ⟨-, he⟩ | ⟨a, s, k, -, -, -, -, he⟩ | ⟨a, s, -, -, -, -, he⟩ <;> rw [he]
  · exact hc
  · exact hc
  · exact hc.claimSource _ _ _

/-! ## Releases and renewals -/

theorem publishReleaseIn_shape {c : ShmCtx} (hc : c.Shape) (now : ℕ) (src : Source) :
    (publishReleaseIn c now src).1.Shape := by
  unfold publishReleaseIn
  split
  · exact hc
  · next kind _ => exact (ShmOp.releasePublish now src.name kind).shape_step hc

theorem publishReleaseIn_mirrored (c : ShmCtx) (now : ℕ) {src : Source} (h : src.Mirrored) :
    (publishReleaseIn c now src).2.Mirrored := by
  unfold publishReleaseIn
  split
  · exact h
  · exact src.unclaimed_mirrored

theorem adoptIn_mirrored (c : ShmCtx) (env : Env) (src : Source) :
    (adoptIn c env src).2.Mirrored := Source.claimed_mirrored ..

theorem adoptIn_shape {c : ShmCtx} (hc : c.Shape) (env : Env) (src : Source) :
    (adoptIn c env src).1.Shape := (ShmOp.sourceGet env src.name).shape_step hc

theorem publishReleaseIn_name (c : ShmCtx) (now : ℕ) (src : Source) :
    (publishReleaseIn c now src).2.name = src.name := by
  unfold publishReleaseIn
  split <;> rfl

/-- A renewal leaves the registry alone, or as `try_publish` does. -/
theorem streamShmSourceIn_sh (c : ShmCtx) (now : ℕ) (src : Source) :
    (streamShmSourceIn c now src).1 = c ∨
      (streamShmSourceIn c now src).1 = (c.sourceTryPublish now src.name .whip).1 := by
  unfold streamShmSourceIn
  split
  · exact .inl rfl
  · split_ifs
    · exact .inl rfl
    · refine .inr ?_
      split <;> next he => rw [he]

/-- **The outcomes of a renewal** on the WHIP media path: nothing cached, inside the window,
    renewed, or the cached pointer is dropped. -/
theorem streamShmSourceIn_cases (c : ShmCtx) (now : ℕ) (src : Source) :
    (src.shmSrc = none ∧ streamShmSourceIn c now src = (c, src, none)) ∨
      (∃ a, src.shmSrc = some a ∧ src.inWindow now = true ∧
        streamShmSourceIn c now src = (c, src, some a)) ∨
      (∃ a b s, src.shmSrc = some a ∧ src.inWindow now = false ∧
        c.sourceLookup src.name = some b ∧ c.sources.get b = some s ∧ s.name = src.name ∧
        (s.publisherKind = none ∨ s.publisherKind = some .whip) ∧
        streamShmSourceIn c now src =
          (c.claimSource now src.name .whip, { src with shmSyncMs := now }, some a)) ∨
      ∃ a, src.shmSrc = some a ∧ src.inWindow now = false ∧
        (c.sourceLookup src.name = none ∨ ∃ b s k, c.sourceLookup src.name = some b ∧
          c.sources.get b = some s ∧ s.publisherKind = some k ∧ k ≠ .whip) ∧
        streamShmSourceIn c now src = (c, { src with shmSrc := none, shmSyncMs := now }, none) := by
  unfold streamShmSourceIn
  cases ha : src.shmSrc with
  | none => exact .inl ⟨rfl, rfl⟩
  | some a =>
    cases hw : src.inWindow now with
    | true => exact .inr (.inl ⟨a, rfl, rfl, rfl⟩)
    | false =>
      rcases c.sourceTryPublish_cases now src.name .whip with
        ⟨hl, he⟩ | ⟨b, s, k, hl, hs, hk, hne, he⟩ | ⟨b, s, hl, hs, hn, hfree, he⟩
      · exact .inr (.inr (.inr ⟨a, rfl, rfl, .inl hl, by simp [he]⟩))
      · exact .inr (.inr (.inr ⟨a, rfl, rfl, .inr ⟨b, s, k, hl, hs, hk, hne⟩, by simp [he]⟩))
      · exact .inr (.inr (.inl ⟨a, b, s, rfl, rfl, hl, hs, hn, hfree, by
          simp [he]⟩))

theorem streamShmSourceIn_shape {c : ShmCtx} (hc : c.Shape) (now : ℕ) (src : Source) :
    (streamShmSourceIn c now src).1.Shape := by
  rcases streamShmSourceIn_cases c now src with
    ⟨-, he⟩ | ⟨a, -, -, he⟩ | ⟨a, b, s, -, -, -, -, -, -, he⟩ | ⟨a, -, -, -, he⟩ <;> rw [he]
  · exact hc
  · exact hc
  · exact hc.claimSource _ _ _
  · exact hc

theorem streamShmSourceIn_name (c : ShmCtx) (now : ℕ) (src : Source) :
    (streamShmSourceIn c now src).2.1.name = src.name := by
  rcases streamShmSourceIn_cases c now src with
    ⟨-, he⟩ | ⟨a, -, -, he⟩ | ⟨a, b, s, -, -, -, -, -, -, he⟩ | ⟨a, -, -, -, he⟩ <;> rw [he]

theorem streamShmSourceIn_mirrored (c : ShmCtx) (now : ℕ) {src : Source} (h : src.Mirrored) :
    (streamShmSourceIn c now src).2.1.Mirrored := by
  rcases streamShmSourceIn_cases c now src with
    ⟨-, he⟩ | ⟨a, -, -, he⟩ | ⟨a, b, s, -, -, -, -, -, -, he⟩ | ⟨a, -, -, -, he⟩ <;> rw [he]
  · exact h
  · exact h
  · exact ⟨h.kind, h.idle⟩
  · exact ⟨h.kind, fun _ => rfl⟩

/-- The RTMP media path writes through its cached pointer inside the window. -/
theorem rtmpSyncShmIn_fast {c : ShmCtx} {slot a : ℕ} {env : Env} {src : Source}
    (hk : src.publisherKind = some .rtmp) (ha : src.shmSrc = some a)
    (hw : src.inWindow env.now = true) :
    rtmpSyncShmIn c slot env src = (c.setStatsSeen a src.stats env.now, src, .ok) := by
  rw [rtmpSyncShmIn, hk, ha, hw]

theorem publishClaimIn_rc (c : ShmCtx) (env : Env) (src : Source) (kind : PublisherKind) :
    (publishClaimIn c env src kind).2.2 = .busy ∨ (publishClaimIn c env src kind).2.2 = .ok := by
  rcases publishClaimIn_cases c env src kind with
    ⟨-, he⟩ | ⟨a, s, k, -, -, -, -, he⟩ | ⟨a, s, -, -, -, -, he⟩ <;> rw [he]
  · exact .inr rfl
  · exact .inl rfl
  · exact .inr rfl

/-- Otherwise it claims, and records itself in the source when it was not refused. -/
theorem rtmpSyncShmIn_slow {c : ShmCtx} {slot : ℕ} {env : Env} {src : Source}
    (h : ¬ (src.publisherKind = some .rtmp ∧ src.shmSrc ≠ none ∧ src.inWindow env.now = true)) :
    rtmpSyncShmIn c slot env src =
      if (publishClaimIn c env src .rtmp).2.2 = .busy then publishClaimIn c env src .rtmp
      else
        ((rtmpRecordIn (publishClaimIn c env src .rtmp).1 slot env.now
            (publishClaimIn c env src .rtmp).2.1).1,
          (rtmpRecordIn (publishClaimIn c env src .rtmp).1 slot env.now
            (publishClaimIn c env src .rtmp).2.1).2, .ok) := by
  unfold rtmpSyncShmIn
  split
  · next a hk ha hw => exact absurd ⟨hk, by simp [ha], hw⟩ h
  · split
    · next he => rw [he]; rfl
    · next hb he => rw [he, if_neg (fun hr => hb hr)]

theorem rtmpRecordIn_name (c : ShmCtx) (slot now : ℕ) (src : Source) :
    (rtmpRecordIn c slot now src).2.name = src.name := by
  unfold rtmpRecordIn
  split
  · rfl
  · exact src.syncFrom_name _

theorem rtmpRecordIn_mirrored (c : ShmCtx) (slot now : ℕ) {src : Source} (h : src.Mirrored) :
    (rtmpRecordIn c slot now src).2.Mirrored := by
  unfold rtmpRecordIn
  split
  · exact h
  · exact src.syncFrom_mirrored _ h

theorem rtmpRecordIn_shape {c : ShmCtx} (hc : c.Shape) (slot now : ℕ) (src : Source) :
    (rtmpRecordIn c slot now src).1.Shape := by
  unfold rtmpRecordIn
  split
  · exact hc
  · next a _ =>
    exact (ShmOp.setStatsSeen a src.stats now).shape_step ((ShmOp.setPublisherSlot a slot).shape_step hc)

theorem rtmpSyncShmIn_name (c : ShmCtx) (slot : ℕ) (env : Env) (src : Source) :
    (rtmpSyncShmIn c slot env src).2.1.name = src.name := by
  by_cases h : src.publisherKind = some .rtmp ∧ src.shmSrc ≠ none ∧ src.inWindow env.now = true
  · obtain ⟨a, ha⟩ := Option.ne_none_iff_exists'.1 h.2.1
    rw [rtmpSyncShmIn_fast h.1 ha h.2.2]
  · rw [rtmpSyncShmIn_slow h]
    split_ifs
    · exact publishClaimIn_name ..
    · exact (rtmpRecordIn_name ..).trans (publishClaimIn_name ..)

theorem rtmpSyncShmIn_mirrored (c : ShmCtx) (slot : ℕ) (env : Env) {src : Source}
    (h : src.Mirrored) : (rtmpSyncShmIn c slot env src).2.1.Mirrored := by
  by_cases hf : src.publisherKind = some .rtmp ∧ src.shmSrc ≠ none ∧ src.inWindow env.now = true
  · obtain ⟨a, ha⟩ := Option.ne_none_iff_exists'.1 hf.2.1
    rw [rtmpSyncShmIn_fast hf.1 ha hf.2.2]
    exact h
  · rw [rtmpSyncShmIn_slow hf]
    split_ifs
    · exact publishClaimIn_mirrored ..
    · exact rtmpRecordIn_mirrored _ _ _ (publishClaimIn_mirrored ..)

theorem rtmpSyncShmIn_shape {c : ShmCtx} (hc : c.Shape) (slot : ℕ) (env : Env) (src : Source) :
    (rtmpSyncShmIn c slot env src).1.Shape := by
  by_cases h : src.publisherKind = some .rtmp ∧ src.shmSrc ≠ none ∧ src.inWindow env.now = true
  · obtain ⟨a, ha⟩ := Option.ne_none_iff_exists'.1 h.2.1
    rw [rtmpSyncShmIn_fast h.1 ha h.2.2]
    exact (ShmOp.setStatsSeen a src.stats env.now).shape_step hc
  · rw [rtmpSyncShmIn_slow h]
    split_ifs
    · exact publishClaimIn_shape hc ..
    · exact rtmpRecordIn_shape (publishClaimIn_shape hc ..) ..

/-! ## A publish goes on -/

section Still
variable {a : ℕ} {src : ShmSource} {name : SourceName} {k : PublisherKind}

theorem publishClaimIn_still {c : ShmCtx} (h : c.sources.get a = some src) (hk : src.Held name k)
    (env : Env) (local' : Source) (kind : PublisherKind) :
    (publishClaimIn c env local' kind).1.StillAt a env.now src :=
  publishClaimIn_sh c env local' kind ▸
    ShmCtx.stillAt_tryPublish env.now local'.name h hk.publishing hk.kind

theorem rtmpRecordIn_still {c : ShmCtx} {t : ℕ} (h : c.StillAt a t src) (slot : ℕ) (local' : Source) :
    (rtmpRecordIn c slot t local').1.StillAt a t src := by
  unfold rtmpRecordIn
  split
  · exact h
  · next b _ =>
    obtain ⟨u, hu, hst⟩ := h
    obtain ⟨v, hv, huv⟩ : (c.setPublisherSlot b slot).StillAt a t u :=
      ShmCtx.stillAt_modify hu fun _ => ⟨rfl, rfl, rfl, .inl rfl⟩
    obtain ⟨w, hw, hvw⟩ : ((c.setPublisherSlot b slot).setStatsSeen b local'.stats t).StillAt a t v :=
      ShmCtx.stillAt_modify hv fun _ => ⟨rfl, rfl, rfl, .inr rfl⟩
    exact ⟨w, hw, (hst.trans huv).trans hvw⟩

theorem rtmpSyncShmIn_still {c : ShmCtx} (h : c.sources.get a = some src) (hk : src.Held name k)
    (slot : ℕ) (env : Env) (local' : Source) :
    (rtmpSyncShmIn c slot env local').1.StillAt a env.now src := by
  by_cases hf : local'.publisherKind = some .rtmp ∧ local'.shmSrc ≠ none ∧
      local'.inWindow env.now = true
  · obtain ⟨b, hb⟩ := Option.ne_none_iff_exists'.1 hf.2.1
    rw [rtmpSyncShmIn_fast hf.1 hb hf.2.2]
    exact ShmCtx.stillAt_modify h fun _ => ⟨rfl, rfl, rfl, .inr rfl⟩
  · rw [rtmpSyncShmIn_slow hf]
    split_ifs
    · exact publishClaimIn_still h hk env local' .rtmp
    · exact rtmpRecordIn_still (publishClaimIn_still h hk env local' .rtmp) slot _

end Still

end NginxRtc
