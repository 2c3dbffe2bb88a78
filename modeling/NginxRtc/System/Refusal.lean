/-
  A refused claim.

  A claim of another kind is refused and leaves the registry alone; the local mirror it was made on
  is cleared, because it says nothing about this worker any more.  An RTMP owner finds its way
  back: `sync_restores`.  While its packets keep coming, less than the dead-publisher grace apart,
  no sweep of any worker reaps it: `refused_claim`.
-/
import NginxRtc.System.Publishers

namespace NginxRtc

/-- A sweep made by a retimed call happens now. -/
theorem ShmOp.retime_sweeps {c : ShmCtx} {now t : ℕ} {op : ShmOp}
    (h : (op.retime now).sweeps c = some t) : t = now := by
  cases op <;> simp only [retime, sweeps] at h
  case sourceGet => split_ifs at h; exact (Option.some.inj h).symm
  case sessionAdd => split_ifs at h; exact (Option.some.inj h).symm
  case expire => exact (Option.some.inj h).symm
  all_goals cases h

namespace Publishers

variable {name : SourceName}

/-- The owner's last packet came at the time beside the state. -/
abbrev Paced := Publishers × ℕ

/-- A step, with the time of the last RTMP packet of worker `w`. -/
def pacedStep (w : ℕ) (p : Paced) (e : PubEvent) : Paced :=
  (p.1.step e, match e with
    | .sync v _ => if v = w then p.1.now else p.2
    | _ => p.2)

/-- The event releases the publish of the source at `a`. -/
def releases (s : Publishers) (a : ℕ) : PubEvent → Bool
  | .release w =>
    match (s.src w).publisherKind with
    | none => false
    | some kind => (ShmOp.releasePublish s.now (s.src w).name kind).releases s.sh a
  | .registry op => (op.retime s.now).releases s.sh a
  | _ => false

/-- Nobody releases the source at `a`, and the owner's next packet comes before the grace is over. -/
def inPace (a : ℕ) (p : Paced) (e : PubEvent) : Prop :=
  p.1.releases a e = false ∧ ∀ d, e = .tick d → p.1.now + d - p.2 < shmPublishGraceMs

/-- The source at `a` is published over RTMP by worker `w`, whose packets its heartbeat follows. -/
structure Beating (name : SourceName) (w a : ℕ) (p : Paced) : Prop where
  sane : p.1.Sane name
  clock : 0 < p.1.now
  last : p.2 ≤ p.1.now
  pace : p.1.now - p.2 < shmPublishGraceMs
  cached : (p.1.src w).shmSrc = none ∨ (p.1.src w).shmSrc = some a
  held : ∃ src, p.1.sh.sources.get a = some src ∧ src.Held name .rtmp ∧
    p.2 ≤ src.publisherSeenMs ∧ src.publisherSeenMs ≠ 0

theorem Beating.alive {w a : ℕ} {p : Paced} (h : Beating name w a p) {src : ShmSource}
    (hsrc : p.1.sh.sources.get a = some src) : src.alive p.1.now = true := by
  obtain ⟨t, ht, -, hlast, hne⟩ := h.held
  obtain rfl := Option.some.inj (hsrc.symm.trans ht)
  have := h.pace
  simp only [ShmSource.alive, Bool.and_eq_true, decide_eq_true_eq]
  exact ⟨hne, by omega⟩

/-- A release in pace is the only end a beating publish could meet. -/
theorem Beating.ends {w a : ℕ} {p : Paced} (h : Beating name w a p) {e : PubEvent}
    (he : p.1.releases a e = false) : p.1.ends a e = false := by
  cases e with
  | registry op =>
    have hreap : (op.retime p.1.now).reaps p.1.sh a = false := by
      obtain ⟨src, hsrc, -⟩ := h.held
      rw [ShmOp.reaps, hsrc]
      cases hsw : (op.retime p.1.now).sweeps p.1.sh with
      | none => rfl
      | some t => simp [ShmOp.retime_sweeps hsw, h.alive hsrc]
    exact Bool.or_eq_false_iff.2 ⟨he, hreap⟩
  | _ => exact he

/-! ## The owner's packets -/

/-- After a packet of the RTMP owner its mirror is back and the heartbeat is fresh. -/
theorem sync_restores {s : Publishers} (hs : s.Sane name) {w a : ℕ} {src : ShmSource}
    (hsrc : s.sh.sources.get a = some src) (hk : src.Held name .rtmp)
    (hcached : (s.src w).shmSrc = none ∨ (s.src w).shmSrc = some a) (env : Env) :
    ((s.step (.sync w env)).src w).publisherKind = some .rtmp ∧
      ((s.step (.sync w env)).src w).publishing = true ∧
      ((s.step (.sync w env)).src w).shmSrc = some a ∧
      ∃ src', (s.step (.sync w env)).sh.sources.get a = some src' ∧ src'.Held name .rtmp ∧
        src'.publisherSeenMs = s.now := by
  have hl : s.sh.sourceLookup (s.src w).name = some a := by
    rw [hs.name w, ← hk.name]
    exact hs.shape.lookup_of_get hsrc
  simp only [step, put_src_self, put_sh]
  by_cases hf : (s.src w).publisherKind = some .rtmp ∧ (s.src w).shmSrc ≠ none ∧
      (s.src w).inWindow s.now = true
  · have hsome : (s.src w).shmSrc = some a := hcached.resolve_left hf.2.1
    rw [@rtmpSyncShmIn_fast _ _ _ (s.env env) _ hf.1 hsome hf.2.2]
    refine ⟨hf.1, by rw [(hs.mirrored w).kind, hf.1]; rfl, hsome, { src with stats := (s.src w).stats, publisherSeenMs := s.now }, ?_,
      ⟨hk.name, hk.publishing, hk.kind⟩, rfl⟩
    simp only [ShmCtx.setStatsSeen, Pool.get_modify_self, hsrc, Option.map_some]
    rfl
  · rw [@rtmpSyncShmIn_slow _ _ (s.env env) _ hf]
    rcases publishClaimIn_cases s.sh (s.env env) (s.src w) .rtmp with
      ⟨hn, -⟩ | ⟨b, t, j, hb, ht, hj, hne, -⟩ | ⟨b, t, hb, ht, -, -, he⟩
    · cases hn.symm.trans hl
    · obtain rfl := Option.some.inj (hb.symm.trans hl)
      obtain rfl := Option.some.inj (ht.symm.trans hsrc)
      exact absurd (Option.some.inj (hj.symm.trans hk.kind)) hne
    · obtain rfl := Option.some.inj (hb.symm.trans hl)
      obtain rfl := Option.some.inj (ht.symm.trans hsrc)
      have hm := publishClaimIn_mirrored s.sh (s.env env) (s.src w) .rtmp
      rw [he] at hm
      rw [he, if_neg (fun h => by cases h)]
      refine ⟨?_, ?_, ?_, ?_⟩
      · simp only [rtmpRecordIn, Source.syncFrom_kind]
        rfl
      · rw [(rtmpRecordIn_mirrored _ _ _ hm).kind]
        simp only [rtmpRecordIn, Source.syncFrom_kind]
        rfl
      · simp only [rtmpRecordIn, Source.syncFrom_shmSrc]
      · -- the claim writes the time, and what follows keeps it
        obtain ⟨src', hsrc', hst⟩ := rtmpRecordIn_still
          (ShmCtx.stillAt_of_get (t := s.now) (ShmCtx.claimSource_get hl hsrc s.now .rtmp)) w
          { (s.src w).claimed .rtmp with shmSrc := some b, shmSyncMs := s.now }
        refine ⟨src', hsrc', ⟨hst.name.trans hk.name, hst.publishing, hst.kind⟩, ?_⟩
        exact hst.seen.elim id id

/-- The owner's cached pointer is the shared source or nothing, whatever happens on its worker. -/
theorem Beating.cached_step {w a : ℕ} {p : Paced} (h : Beating name w a p) (e : PubEvent) :
    ((p.1.step e).src w).shmSrc = none ∨ ((p.1.step e).src w).shmSrc = some a := by
  obtain ⟨src, hsrc, hk, -⟩ := h.held
  have hl : ∀ v, p.1.sh.sourceLookup (p.1.src v).name = some a := fun v => by
    rw [h.sane.name v, ← hk.name]
    exact h.sane.shape.lookup_of_get hsrc
  have other : ∀ {v sh src'}, v ≠ w → ((p.1.put v sh src').src w).shmSrc = none ∨
      ((p.1.put v sh src').src w).shmSrc = some a := fun hv => by
    rw [put_src_of_ne (Ne.symm hv)]
    exact h.cached
  cases e with
  | claim v kind env =>
    by_cases hv : v = w
    · subst hv
      simp only [step, put_src_self]
      rcases publishClaimIn_cases p.1.sh (p.1.env env) (p.1.src v) kind with
        ⟨-, he⟩ | ⟨b, t, j, -, -, -, -, he⟩ | ⟨b, t, hb, -, -, -, he⟩ <;> rw [he]
      · exact .inl rfl
      · exact .inl rfl
      · exact .inr (hb.symm.trans (hl v))
    · exact other hv
  | release v =>
    by_cases hv : v = w
    · subst hv
      simp only [step, put_src_self, publishReleaseIn]
      split
      · exact h.cached
      · exact .inl rfl
    · exact other hv
  | attach v env =>
    by_cases hv : v = w
    · subst hv
      refine .inr ?_
      simp only [step, put_src_self, adoptIn, ShmCtx.sourceGet_of_lookup (hl v)]
      rfl
    · exact other hv
  | renew v =>
    by_cases hv : v = w
    · subst hv
      simp only [step, put_src_self]
      rcases streamShmSourceIn_cases p.1.sh p.1.now (p.1.src v) with
        ⟨-, he⟩ | ⟨b, -, -, he⟩ | ⟨b, b', t, -, -, -, -, -, -, he⟩ | ⟨b, -, -, -, he⟩ <;> rw [he]
      · exact h.cached
      · exact h.cached
      · exact h.cached
      · exact .inl rfl
    · exact other hv
  | sync v env =>
    by_cases hv : v = w
    · subst hv
      exact .inr (sync_restores h.sane hsrc hk h.cached env).2.2.1
    · exact other hv
  | reset v =>
    by_cases hv : v = w
    · subst hv
      simp only [step, put_src_self]
      exact .inl rfl
    · exact other hv
  | registry op => exact h.cached
  | tick d => exact h.cached

/-- **One step in pace** keeps the publish beating. -/
theorem Beating.step {w a : ℕ} {p : Paced} (h : Beating name w a p) {e : PubEvent}
    (he : inPace a p e) : Beating name w a (pacedStep w p e) := by
  obtain ⟨src, hsrc, hk, hlast, hne⟩ := h.held
  obtain ⟨src', hsrc', hst⟩ := still_event h.sane hsrc hk (h.ends he.1)
  have hle := h.last
  have hpace := h.pace
  have hclock := h.clock
  have hnow : (∀ d, e ≠ .tick d) → (p.1.step e).now = p.1.now := fun hd => by
    cases e <;> first | rfl | exact absurd rfl (hd _)
  by_cases hsync : ∃ env, e = .sync w env
  · -- the owner's packet: the heartbeat is now
    obtain ⟨env, rfl⟩ := hsync
    obtain ⟨-, -, -, t, ht, htk, hseen⟩ := sync_restores h.sane hsrc hk h.cached env
    have hp : (pacedStep w p (.sync w env)).2 = p.1.now := if_pos rfl
    refine ⟨sane_step (.sync w env) h.sane, h.clock, hp ▸ le_refl _, ?_,
      h.cached_step (.sync w env), t, ht, htk, ?_, ?_⟩
    · rw [hp]
      show p.1.now - p.1.now < 10000
      omega
    · rw [hp, hseen]
    · rw [hseen]
      exact Nat.pos_iff_ne_zero.1 hclock
  · have hp : (pacedStep w p e).2 = p.2 := by
      cases e <;> try rfl
      next v env =>
        refine if_neg ?_
        rintro rfl
        exact hsync ⟨env, rfl⟩
    have hge : p.1.now ≤ (p.1.step e).now := by
      cases e <;> first | exact le_refl _ | exact Nat.le_add_right ..
    have hpace' : (p.1.step e).now - p.2 < shmPublishGraceMs := by
      by_cases ht : ∃ d, e = .tick d
      · obtain ⟨d, rfl⟩ := ht
        exact he.2 d rfl
      · rw [hnow fun d hd => ht ⟨d, hd⟩]
        exact hpace
    refine ⟨sane_step e h.sane, hclock.trans_le hge, hp ▸ hle.trans hge, hp ▸ hpace',
      h.cached_step e, src', hsrc', hk.still hst, ?_, ?_⟩
    · rw [hp]
      rcases hst.seen with hs | hs <;> rw [hs]
      · exact hlast
      · exact hle
    · rcases hst.seen with hs | hs <;> rw [hs]
      · exact hne
      · exact Nat.pos_iff_ne_zero.1 hclock

/-! ## Refused claims -/

/-- **A refused claim.**  Where a live publish is mirrored, a claim of another kind is refused and
    leaves the whole registry as it was, and the mirror it was made on is cleared.  When the owner
    is an RTMP ingest, its next packet restores the mirror and the heartbeat; and as long as its
    packets come less than the grace apart and nobody releases the name, the publish is held. -/
theorem refused_claim {nworkers : ℕ} {rings : List (Option MediaRing)} {now : ℕ}
    {name : SourceName} {s : Publishers} (h : Lts.Reachable step (init nworkers rings now name) s)
    (hnow : 0 < s.now) {w a : ℕ} {src : ShmSource} {k k' : PublisherKind}
    (hsrc : s.sh.sources.get a = some src) (hk : src.Held name k) (halive : src.alive s.now = true)
    (hcached : (s.src w).shmSrc = some a) (hne : k ≠ k') (env : Env) :
    publishClaimIn s.sh env (s.src w) k' = (s.sh, (s.src w).unclaimed, .busy) ∧
      (k = .rtmp →
        (∀ e, (((s.step (.claim w k' env)).step (.sync w e)).src w).publisherKind = some .rtmp ∧
          (((s.step (.claim w k' env)).step (.sync w e)).src w).publishing = true ∧
          (((s.step (.claim w k' env)).step (.sync w e)).src w).shmSrc = some a ∧
          ∃ src', ((s.step (.claim w k' env)).step (.sync w e)).sh.sources.get a = some src' ∧
            src'.Held name .rtmp ∧ src'.publisherSeenMs = s.now) ∧
        ∀ last es, last ≤ s.now → last ≤ src.publisherSeenMs →
          s.now - last < shmPublishGraceMs →
          Lts.Along (pacedStep w) (inPace a) (s, last) es →
          Lts.Visits (pacedStep w) (fun p => p.1.sh.HeldAt a name .rtmp) (s, last) es) := by
  obtain ⟨es₀, rfl⟩ := h
  have hs := sane_run (@sane_init name nworkers rings now) es₀
  generalize Lts.run step (init nworkers rings now name) es₀ = s at *
  have hbusy : ∀ env', publishClaimIn s.sh env' (s.src w) k' =
      (s.sh, (s.src w).unclaimed, .busy) := fun env' => by
    have hl : s.sh.sourceLookup (s.src w).name = some a := by
      rw [hs.name w, ← hk.name]
      exact hs.shape.lookup_of_get hsrc
    rcases publishClaimIn_cases s.sh env' (s.src w) k' with
      ⟨hn, -⟩ | ⟨b, t, j, -, -, -, -, he⟩ | ⟨b, t, hb, ht, -, hfree, -⟩
    · exact nomatch hn.symm.trans hl
    · exact he
    · obtain rfl := Option.some.inj (hb.symm.trans hl)
      obtain rfl := Option.some.inj (ht.symm.trans hsrc)
      rcases hfree with hn | hn
      · exact nomatch hk.kind.symm.trans hn
      · exact absurd (Option.some.inj (hk.kind.symm.trans hn)) hne
  refine ⟨hbusy env, ?_⟩
  rintro rfl
  constructor
  · intro e
    have hclaim : s.step (.claim w k' env) = s.put w s.sh (s.src w).unclaimed := by
      simp only [step, hbusy]
    have hs' : (s.put w s.sh (s.src w).unclaimed).Sane name :=
      hs.put hs.shape rfl (s.src w).unclaimed_mirrored
    rw [hclaim]
    exact sync_restores hs' hsrc hk (.inl (by rw [put_src_self]; rfl)) e
  · intro last es hlast hseen hpace ha
    have hne : src.publisherSeenMs ≠ 0 := by
      simp only [ShmSource.alive, Bool.and_eq_true, decide_eq_true_eq] at halive
      exact halive.1
    have hbeat : Beating name w a (s, last) :=
      ⟨hs, hnow, hlast, hpace, .inr hcached, src, hsrc, hk, hseen, hne⟩
    exact (Lts.visits_of_step (P := Beating name w a) (fun p e hp he => hp.step he) hbeat ha).mono
      fun p hp => by
        obtain ⟨t, ht, htk, -⟩ := hp.held
        exact ⟨t, ht, htk⟩

/-- The sample stream, published by `kind` on worker 0, in worked runs. -/
def sampleLive (kind : PublisherKind) : Publishers :=
  Lts.run step (init 2 [] 5 sampleName)
    [.registry (.sourceGet (Env.at 5) sampleName), .claim 0 kind (Env.at 5)]

/-- A WHIP claim on the RTMP publisher's worker, then RTMP packets 9 seconds apart. -/
theorem refused_claim_run :
    Lts.Visits (pacedStep 0) (fun p => p.1.sh.HeldAt 0 sampleName .rtmp) (sampleLive .rtmp, 5)
      [.claim 0 .whip (Env.at 5), .tick 9000, .registry (.expire 5 false), .sync 0 (Env.at 5),
        .tick 9000, .registry (.expire 5 true)] := by
  have hreach : Lts.Reachable step (init 2 [] 5 sampleName) (sampleLive .rtmp) := ⟨_, rfl⟩
  obtain ⟨src, hsrc, hk⟩ : (sampleLive .rtmp).sh.HeldAt 0 sampleName .rtmp :=
    ⟨_, rfl, rfl, rfl, rfl⟩
  obtain rfl := Option.some.inj (hsrc.symm.trans rfl)
  refine ((@refused_claim _ _ _ _ _ hreach (by decide) 0 _ _ _ .whip rfl hk (by decide) rfl
    (fun h => nomatch h) (Env.at 5)).2 rfl).2 5 _ (by decide) (by decide) (by decide) ?_
  refine ⟨⟨rfl, ?_⟩, ⟨rfl, ?_⟩, ⟨rfl, ?_⟩, ⟨rfl, ?_⟩, ⟨rfl, ?_⟩, ⟨rfl, ?_⟩, trivial⟩
  all_goals
    rintro d h
    cases h
  all_goals decide

/-- A WHIP publisher's mirror on worker 0 once an RTMP packet of the same name arrives there. -/
theorem refused_claim_clears :
    (sampleLive .whip).sh.HeldAt 0 sampleName .whip ∧
      (((sampleLive .whip).src 0).publisherKind, ((sampleLive .whip).src 0).publishing,
        ((sampleLive .whip).src 0).shmSrc) = (some .whip, true, some 0) ∧
      (publishClaimIn (sampleLive .whip).sh (Env.at 5) ((sampleLive .whip).src 0) .rtmp).2.2 =
        .busy ∧
      ¬ ((publishClaimIn (sampleLive .whip).sh (Env.at 5) ((sampleLive .whip).src 0)
            .rtmp).2.1.publisherKind = some .whip ∧
          (publishClaimIn (sampleLive .whip).sh (Env.at 5) ((sampleLive .whip).src 0)
            .rtmp).2.1.publishing = true ∧
          (publishClaimIn (sampleLive .whip).sh (Env.at 5) ((sampleLive .whip).src 0)
            .rtmp).2.1.shmSrc = some 0) := by
  exact ⟨⟨_, rfl, rfl, rfl, rfl⟩, rfl, rfl, fun h => nomatch h.1⟩

end Publishers

end NginxRtc
