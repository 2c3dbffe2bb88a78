/-
  Session skeletons have one owner, and stand in the lists they belong to.

  `session_cases` says what one call can do to the skeletons, `session_step` what it leaves at each
  address: a skeleton that was there before and evolved, or the one just added.  `session_run`
  extends this to runs.  An owner slot, once set,
  stays, so only one worker is ever granted a skeleton (`grant_unique`).

  `skeletons_sound`: owners, subscriber lists, source pointers and ids, after any calls that found
  memory in the slab.
-/
import NginxRtc.Shm.Reaper

namespace NginxRtc

/-- The slot of the worker a call acts for, where the call has one. -/
def ShmOp.slot? : ShmOp → Option ℕ
  | .bind _ slot => some slot
  | .activate _ slot => some slot
  | .removeIfOwner _ _ slot => some slot
  | .setState _ slot _ => some slot
  | _ => none

/-- `s'` is the skeleton `s` at a later time. -/
structure ShmSession.Evolves (s s' : ShmSession) : Prop where
  source : s'.source = s.source
  id : s'.id = s.id
  publishing : s'.publishing = s.publishing
  owner : ∀ w, s.ownerSlot = some w → s'.ownerSlot = some w
  ready : s.srtpReady = true → s'.srtpReady = true
  linked : s.subLinked = (s.srtpReady && !s.publishing) →
    s'.subLinked = (s'.srtpReady && !s'.publishing)
  expires : s'.expires = s.expires ∨ s'.expires = 0

theorem ShmSession.Evolves.refl (s : ShmSession) : s.Evolves s :=
  ⟨rfl, rfl, rfl, fun _ h => h, fun h => h, fun h => h, .inl rfl⟩

theorem ShmSession.Evolves.trans {s t u : ShmSession} (h : s.Evolves t) (h' : t.Evolves u) :
    s.Evolves u where
  source := h'.source.trans h.source
  id := h'.id.trans h.id
  publishing := h'.publishing.trans h.publishing
  owner w hw := h'.owner w (h.owner w hw)
  ready hr := h'.ready (h.ready hr)
  linked hl := h'.linked (h.linked hl)
  expires := by
    rcases h'.expires with he | he
    · rw [he]
      exact h.expires
    · exact .inr he

theorem ShmSession.evolves_bound {slot : ℕ} {s : ShmSession} (h : s.ownableBy slot = true) :
    s.Evolves { s with ownerSlot := some slot } :=
  ⟨rfl, rfl, rfl, (frame_bound h).owner, fun h => h, fun h => h, .inl rfl⟩

/-- An activation that links nobody: the session publishes, or is linked already. -/
theorem ShmSession.evolves_activated {slot : ℕ} {s : ShmSession} (h : s.ownableBy slot = true)
    (hl : (s.publishing || s.subLinked) = true) : s.Evolves (s.activated slot) := by
  refine ⟨rfl, rfl, rfl, (frame_bound h).owner, fun _ => rfl, fun hs => ?_, .inr rfl⟩
  show s.subLinked = (true && !s.publishing)
  cases hp : s.publishing with
  | true => simpa [hp] using hs
  | false => simpa [hp] using hl

theorem ShmSession.evolves_subscribed {slot : ℕ} {s : ShmSession} (h : s.ownableBy slot = true)
    (hp : s.publishing = false) : s.Evolves (s.subscribed slot) := by
  refine ⟨rfl, rfl, rfl, (frame_bound h).owner, fun _ => rfl, fun _ => ?_, .inr rfl⟩
  show true = (true && !s.publishing)
  rw [hp]
  rfl

namespace ShmCtx

/-! ## One call -/

/-- The skeletons of `c'` were in `c`, and no id was given out; only the owner `w` was set, and only
    unowned skeletons and those of `w` were freed. -/
structure NoNew (w : Option ℕ) (c c' : ShmCtx) : Prop where
  next : c'.sessions.next = c.sessions.next
  nextId : c'.nextSessionId = c.nextSessionId
  old : ∀ b s', c'.sessions.get b = some s' → ∃ s, c.sessions.get b = some s ∧ s.Evolves s' ∧
    (s'.ownerSlot = s.ownerSlot ∨ s'.ownerSlot = w)
  kept : ∀ b s, c.sessions.get b = some s → s.ownerSlot ≠ none → s.ownerSlot ≠ w →
    (c'.sessions.get b).isSome

theorem noNew_of_sessions {w : Option ℕ} {c c' : ShmCtx} (h : c'.sessions = c.sessions)
    (hid : c'.nextSessionId = c.nextSessionId) : c.NoNew w c' :=
  ⟨h ▸ rfl, hid, fun _ s hs => ⟨s, h ▸ hs, .refl s, .inl rfl⟩, fun b s hs _ _ => by rw [h, hs]; rfl⟩

theorem NoNew.refl (w : Option ℕ) (c : ShmCtx) : c.NoNew w c := noNew_of_sessions rfl rfl

theorem noNew_modifySource (w : Option ℕ) (c : ShmCtx) (name : SourceName)
    (f : ShmSource → ShmSource) : c.NoNew w (c.modifySource name f) := by
  unfold modifySource
  split <;> exact noNew_of_sessions rfl rfl

/-- Rewriting one skeleton in place. -/
theorem noNew_modify {w : Option ℕ} {c c' : ShmCtx} {a : ℕ} {f : ShmSession → ShmSession}
    (hs : c'.sessions = c.sessions.modify a f) (hid : c'.nextSessionId = c.nextSessionId)
    (hf : ∀ s, c.sessions.get a = some s → s.Evolves (f s) ∧
      ((f s).ownerSlot = s.ownerSlot ∨ (f s).ownerSlot = w)) : c.NoNew w c' := by
  refine ⟨by rw [hs]; rfl, hid, fun b s' hb => ?_, fun b s hb _ _ => ?_⟩
  · rw [hs, Pool.get_modify] at hb
    split_ifs at hb with hba
    · obtain ⟨s, hsb, rfl⟩ := Option.map_eq_some_iff.1 hb
      exact ⟨s, hsb, hf s (hba ▸ hsb)⟩
    · exact ⟨s', hb, .refl s', .inl rfl⟩
  · rw [hs, Pool.isSome_modify, hb]
    rfl

/-- Freeing a skeleton that nobody or `w` owns. -/
theorem noNew_sessionFree {w : Option ℕ} {c : ShmCtx} {a : ℕ} (now : ℕ)
    (h : ∀ s, c.sessions.get a = some s → s.ownerSlot = none ∨ s.ownerSlot = w) :
    c.NoNew w (c.sessionFree now a) := by
  have hget := sessionFree_session c now a
  refine ⟨?_, ?_, fun b s' hb => ?_, fun b s hb hn hw => ?_⟩
  · unfold sessionFree
    split <;> rfl
  · unfold sessionFree
    split <;> rfl
  · rw [hget] at hb
    split_ifs at hb
    exact ⟨s', hb, .refl s', .inl rfl⟩
  · rw [hget]
    split_ifs with hba
    · exact absurd (h s (hba ▸ hb)) (not_or.2 ⟨hn, hw⟩)
    · rw [hb]
      rfl

theorem expireSession_ids (now : ℕ) (forced : Bool) (c : ShmCtx) (a : ℕ) :
    (expireSession now forced c a).sessions.next = c.sessions.next ∧
      (expireSession now forced c a).nextSessionId = c.nextSessionId := by
  unfold expireSession sessionFree
  split
  · exact ⟨rfl, rfl⟩
  · split_ifs
    · split <;> exact ⟨rfl, rfl⟩
    · exact ⟨rfl, rfl⟩

theorem noNew_expire (w : Option ℕ) (c : ShmCtx) (now : ℕ) (forced : Bool) :
    c.NoNew w (c.expire now forced) := by
  have hfold : ∀ (as : List ℕ) (d : ShmCtx),
      (as.foldl (expireSession now forced) d).sessions.next = d.sessions.next ∧
        (as.foldl (expireSession now forced) d).nextSessionId = d.nextSessionId := by
    intro as
    induction as with
    | nil => exact fun d => ⟨rfl, rfl⟩
    | cons a as ih =>
      intro d
      obtain ⟨h1, h2⟩ := ih (expireSession now forced d a)
      obtain ⟨h3, h4⟩ := expireSession_ids now forced d a
      exact ⟨h1.trans h3, h2.trans h4⟩
  refine ⟨(hfold c.sessions.addrs c).1, (hfold c.sessions.addrs c).2, fun b s' hb => ?_,
    fun b s hb hn _ => ?_⟩
  · rw [expire_session, Option.filter_eq_some_iff] at hb
    exact ⟨s', hb.1, .refl s', .inl rfl⟩
  · have hdue : s.halfOpenDue now forced = false := by simp [ShmSession.halfOpenDue, hn]
    rw [expire_session, hb, Option.filter_some, hdue]
    rfl

theorem noNew_slabAlloc (w : Option ℕ) (c : ShmCtx) (env : Env) :
    c.NoNew w (c.slabAlloc env).1 := by
  unfold slabAlloc
  split_ifs
  · exact .refl w c
  · exact noNew_expire w c env.now true

/-- The skeleton at `b` is the one the call adds. -/
def Added (c : ShmCtx) (op : ShmOp) (b : ℕ) (s' : ShmSession) : Prop :=
  b = c.sessions.next ∧ ∃ env args src, op = .sessionAdd env args ∧
    c.sourceLookup args.name = some src ∧
      s' = ShmSession.fresh env.now c.nextSessionId src args

/-- **What one call can do to the skeletons**: it adds none, or it is a `session_add` that adds one
    after an allocation. -/
theorem session_cases (c : ShmCtx) (op : ShmOp) :
    c.NoNew op.slot? (op.step c) ∨
      ∃ env args src, op = .sessionAdd env args ∧ c.sourceLookup args.name = some src ∧
        op.step c = (c.slabAlloc env).1.addSkeleton env.now src args := by
  cases op with
  | sourceGet env name =>
    refine .inl ?_
    simp only [ShmOp.step, sourceGet]
    split
    · exact .refl _ c
    · have hslab := noNew_slabAlloc none c env
      split_ifs
      · exact ⟨hslab.next, hslab.nextId, hslab.old, hslab.kept⟩
      · exact hslab
  | sourceRemove name =>
    refine .inl (noNew_of_sessions ?_ ?_) <;> simp only [ShmOp.step, sourceRemove] <;>
      split <;> first | rfl | (split <;> first | rfl | (split_ifs <;> rfl))
  | tryPublish now name kind =>
    refine .inl ?_
    simp only [ShmOp.step, sourceTryPublish]
    split
    · exact .refl _ c
    · split_ifs
      · exact .refl _ c
      · exact noNew_modifySource _ c name _
  | releasePublish now name kind =>
    refine .inl ?_
    simp only [ShmOp.step, sourceReleasePublish]
    split
    · exact .refl _ c
    · split_ifs
      · exact .refl _ c
      · exact noNew_modifySource _ c name _
  | setPt name videoPt audioPt => exact .inl (noNew_modifySource _ c name _)
  | setSsrc name videoSsrc audioSsrc => exact .inl (noNew_modifySource _ c name _)
  | sessionAdd env args =>
    rcases sessionAdd_cases c env args with h | h | ⟨src, hsrc, -, h⟩
    · exact .inl ((congrArg (c.NoNew none) h).mpr (.refl none c))
    · exact .inl ((congrArg (c.NoNew none) h).mpr (noNew_slabAlloc none c env))
    · exact .inr ⟨env, args, src, rfl, hsrc, h⟩
  | bind ufrag slot =>
    refine .inl ?_
    simp only [ShmOp.step, sessionBind]
    split
    · exact .refl _ c
    · next a _ =>
      split
      · exact .refl _ c
      · next sess hsess =>
        split_ifs with hown
        · refine noNew_modify (a := a) rfl rfl fun s hs => ?_
          obtain rfl := Option.some.inj (hsess.symm.trans hs)
          exact ⟨ShmSession.evolves_bound hown, .inr rfl⟩
        · exact .refl _ c
  | activate ufrag slot =>
    refine .inl ?_
    simp only [ShmOp.step, sessionActivate]
    split
    · exact .refl _ c
    · next a _ =>
      split
      · exact .refl _ c
      · next sess hsess =>
        split_ifs with hown hlinked
        · exact .refl _ c
        · refine noNew_modify (a := a) rfl rfl fun s hs => ?_
          obtain rfl := Option.some.inj (hsess.symm.trans hs)
          exact ⟨ShmSession.evolves_activated (by simpa using hown) hlinked, .inr rfl⟩
        · refine noNew_modify (a := a) rfl rfl fun s hs => ?_
          obtain rfl := Option.some.inj (hsess.symm.trans hs)
          exact ⟨ShmSession.evolves_subscribed (by simpa using hown) (by simp_all), .inr rfl⟩
  | removeIfOwner now ufrag slot =>
    refine .inl ?_
    simp only [ShmOp.step, sessionRemoveIfOwner]
    split
    · exact .refl _ c
    · split
      · exact .refl _ c
      · next sess hsess =>
        split_ifs with hown
        · refine noNew_sessionFree now fun s hs => ?_
          obtain rfl := Option.some.inj (hsess.symm.trans hs)
          simpa [ShmSession.ownableBy, ShmOp.slot?] using hown
        · exact .refl _ c
  | requestClose id =>
    refine .inl ?_
    simp only [ShmOp.step, sessionRequestClose]
    split
    · exact .refl _ c
    · next a _ => exact noNew_modify (a := a) rfl rfl fun s _ =>
        ⟨⟨rfl, rfl, rfl, fun _ h => h, fun h => h, fun h => h, .inl rfl⟩, .inl rfl⟩
  | setState ufrag slot state =>
    refine .inl ?_
    simp only [ShmOp.step, sessionSetState]
    split
    · exact .refl _ c
    · next a _ =>
      refine noNew_modify (a := a) rfl rfl fun s _ => ?_
      split_ifs
      · exact ⟨⟨rfl, rfl, rfl, fun _ h => h, fun h => h, fun h => h, .inl rfl⟩, .inl rfl⟩
      · exact ⟨.refl s, .inl rfl⟩
  | expire now forced => exact .inl (noNew_expire _ c now forced)
  | setPublisherSlot a slot => exact .inl (noNew_of_sessions rfl rfl)
  | setStats a stats => exact .inl (noNew_of_sessions rfl rfl)
  | setStatsSeen a stats now => exact .inl (noNew_of_sessions rfl rfl)
  | retransmitAppend a slab rtp gop =>
    refine .inl (noNew_of_sessions ?_ ?_) <;> simp only [ShmOp.step, retransmitAppend] <;>
      split_ifs <;> first | rfl | (split <;> first | rfl | (split_ifs <;> rfl))

/-- What one call leaves at each address: a skeleton that evolved, or the one it added. -/
theorem session_step (c : ShmCtx) (op : ShmOp) :
    c.NoNew op.slot? (op.step c) ∨
      (op.step c).sessions.next = c.sessions.next + 1 ∧
        (op.step c).nextSessionId = c.nextSessionId + 1 ∧
          ∀ b s', (op.step c).sessions.get b = some s' →
            (∃ s, c.sessions.get b = some s ∧ s.Evolves s') ∨ c.Added op b s' := by
  rcases c.session_cases op with h | ⟨env, args, src, rfl, hsrc, h⟩
  · exact .inl h
  · have hslab := noNew_slabAlloc none c env
    rw [h]
    refine .inr ⟨congrArg (· + 1) hslab.next, congrArg (· + 1) hslab.nextId, fun b s' hb => ?_⟩
    simp only [addSkeleton, Pool.get_alloc, hslab.next, hslab.nextId] at hb
    split_ifs at hb with hnext
    · obtain rfl := Option.some.inj hb
      exact .inr ⟨hnext, env, args, src, rfl, hsrc, rfl⟩
    · obtain ⟨s, hs, hev, -⟩ := hslab.old b s' hb
      exact .inl ⟨s, hs, hev⟩

/-- What a run can do to the skeletons. -/
structure Since (c c' : ShmCtx) : Prop where
  next : c.sessions.next ≤ c'.sessions.next
  nextId : c.nextSessionId ≤ c'.nextSessionId
  each : ∀ b s', c'.sessions.get b = some s' →
    (∃ s, c.sessions.get b = some s ∧ s.Evolves s') ∨
      c.sessions.next ≤ b ∧ c.nextSessionId ≤ s'.id

theorem Since.refl (c : ShmCtx) : c.Since c :=
  ⟨le_refl _, le_refl _, fun _ s hs => .inl ⟨s, hs, .refl s⟩⟩

theorem Since.trans {c d e : ShmCtx} (h : c.Since d) (h' : d.Since e) : c.Since e := by
  refine ⟨h.next.trans h'.next, h.nextId.trans h'.nextId, fun b u hu => ?_⟩
  rcases h'.each b u hu with ⟨t, ht, htu⟩ | ⟨hb, hid⟩
  · rcases h.each b t ht with ⟨s, hs, hst⟩ | ⟨hb, hid⟩
    · exact .inl ⟨s, hs, hst.trans htu⟩
    · exact .inr ⟨hb, htu.id ▸ hid⟩
  · exact .inr ⟨h.next.trans hb, h.nextId.trans hid⟩

theorem since_step (c : ShmCtx) (op : ShmOp) : c.Since (op.step c) := by
  rcases c.session_step op with h | ⟨hnext, hid, h⟩
  · refine ⟨h.next.ge, h.nextId.ge, fun b s' hs' => ?_⟩
    obtain ⟨s, hs, hev, -⟩ := h.old b s' hs'
    exact .inl ⟨s, hs, hev⟩
  · refine ⟨by omega, by omega, fun b s' hs' => ?_⟩
    rcases h b s' hs' with hold | ⟨rfl, env, args, src, -, -, rfl⟩
    · exact .inl hold
    · exact .inr ⟨le_refl _, le_refl _⟩

/-- **Along a run skeletons evolve**, and new ones get new addresses and larger ids. -/
theorem session_run (c : ShmCtx) (ops : List ShmOp) :
    c.Since (Lts.run (fun c op => ShmOp.step c op) c ops) := by
  induction ops generalizing c with
  | nil => exact .refl c
  | cons op ops ih => exact (c.since_step op).trans (ih (op.step c))

/-! ## Grants -/

end ShmCtx

/-- The skeleton, and the worker slot, to which `bind` or `activate` answers `NGX_OK`. -/
def ShmOp.grants (c : ShmCtx) : ShmOp → Option (ℕ × ℕ)
  | .bind ufrag slot =>
    if (c.sessionBind ufrag slot).2.1 = .ok then (c.sessionLookup ufrag).map fun a => (a, slot)
    else none
  | .activate ufrag slot =>
    if (c.sessionActivate ufrag slot).2 = .ok then (c.sessionLookup ufrag).map fun a => (a, slot)
    else none
  | _ => none

namespace ShmCtx

/-- A grant is of a skeleton the slot may act on, and leaves it owned by the slot. -/
theorem grants_spec {c : ShmCtx} {op : ShmOp} {a w : ℕ} (h : op.grants c = some (a, w)) :
    (∃ s, c.sessions.get a = some s ∧ s.ownableBy w = true) ∧
      ∃ s', (op.step c).sessions.get a = some s' ∧ s'.ownerSlot = some w := by
  cases op with
  | bind ufrag slot =>
    simp only [ShmOp.grants, ShmOp.step] at h ⊢
    split_ifs at h with hok
    obtain ⟨b, hl, hb⟩ := Option.map_eq_some_iff.1 h
    obtain ⟨rfl, rfl⟩ := Prod.mk.inj hb
    obtain ⟨s, hs, -⟩ := Pool.find?_spec hl
    simp only [sessionBind, hl, hs] at hok ⊢
    split_ifs at hok ⊢ with hown
    · refine ⟨⟨s, rfl, hown⟩, { s with ownerSlot := some slot }, ?_, rfl⟩
      simp [hs]
  | activate ufrag slot =>
    simp only [ShmOp.grants, ShmOp.step] at h ⊢
    split_ifs at h with hok
    obtain ⟨b, hl, hb⟩ := Option.map_eq_some_iff.1 h
    obtain ⟨rfl, rfl⟩ := Prod.mk.inj hb
    obtain ⟨s, hs, -⟩ := Pool.find?_spec hl
    simp only [sessionActivate, hl, hs] at hok ⊢
    split_ifs at hok ⊢ with hown hlinked
    · refine ⟨⟨s, rfl, by simpa using hown⟩, s.activated slot, ?_, rfl⟩
      simp [hs]
    · refine ⟨⟨s, rfl, by simpa using hown⟩, s.subscribed slot, ?_, rfl⟩
      simp [hs]
  | _ => cases h

/-- **Only one worker is ever granted a skeleton.** -/
theorem grant_unique {c : ShmCtx} {op op' : ShmOp} {a w w' : ℕ} (ops : List ShmOp)
    (h : op.grants c = some (a, w))
    (h' : op'.grants (Lts.run (fun c op => ShmOp.step c op) (op.step c) ops) = some (a, w')) :
    w' = w := by
  obtain ⟨-, s, hs, hw⟩ := grants_spec h
  obtain ⟨⟨t, ht, hown⟩, -⟩ := grants_spec h'
  rcases (session_run (op.step c) ops).each a t ht with ⟨s', hs', hst⟩ | ⟨hnew, -⟩
  · obtain rfl := Option.some.inj (hs.symm.trans hs')
    have htw := hst.owner w hw
    simpa [ShmSession.ownableBy, htw, eq_comm] using hown
  · exact absurd (Pool.lt_next hs) (not_lt.2 hnew)

/-! ## Integrity -/

/-- Every skeleton refers to a source that is there and stands in that source's list, once, exactly
    when it was made ready and does not publish; and ids increase with the addresses. -/
structure SkeletonsOk (c : ShmCtx) : Prop where
  source : ∀ a s, c.sessions.get a = some s → (c.sources.get s.source).isSome
  linked : ∀ a s b src, c.sessions.get a = some s → c.sources.get b = some src →
    (a ∈ src.subscribers ↔ s.source = b ∧ s.srtpReady = true ∧ s.publishing = false)
  once : ∀ b src, c.sources.get b = some src → src.subscribers.Nodup
  ids : ∀ a b s t, c.sessions.get a = some s → c.sessions.get b = some t → a < b → s.id < t.id

/-- What the calls keep up: references are live, links agree with readiness, ids increase. -/
structure Sound (c : ShmCtx) : Prop where
  shape : c.Shape
  refs : c.RefsOk
  ready : ∀ a s, c.sessions.get a = some s → s.subLinked = (s.srtpReady && !s.publishing)
  ids : ∀ a b s t, c.sessions.get a = some s → c.sessions.get b = some t → a < b → s.id < t.id

theorem Sound.step {c : ShmCtx} (h : c.Sound) {op : ShmOp} (hop : op.calm = true) :
    (op.step c).Sound := by
  refine ⟨op.shape_step h.shape, ?_, fun a s' hs' => ?_, fun a b s' t' hs' ht' hab => ?_⟩
  · rw [ShmOp.refsOk_step_iff h.shape h.refs]
    cases op <;> first | rfl | simp_all [ShmOp.dangles, dangles, ShmOp.calm]
  · rcases c.session_step op with hk | ⟨-, -, hk⟩
    · obtain ⟨s, hs, hss, -⟩ := hk.old a s' hs'
      exact hss.linked (h.ready a s hs)
    · rcases hk a s' hs' with ⟨s, hs, hss⟩ | ⟨-, env, args, src, -, -, rfl⟩
      · exact hss.linked (h.ready a s hs)
      · rfl
  · rcases c.session_step op with hk | ⟨-, -, hk⟩
    · obtain ⟨s, hs, hss, -⟩ := hk.old a s' hs'
      obtain ⟨t, ht, htt, -⟩ := hk.old b t' ht'
      rw [hss.id, htt.id]
      exact h.ids a b s t hs ht hab
    · rcases hk a s' hs' with ⟨s, hs, hss⟩ | ⟨ha, -⟩
      · rcases hk b t' ht' with ⟨t, ht, htt⟩ | ⟨-, env, args, src, -, -, rfl⟩
        · rw [hss.id, htt.id]
          exact h.ids a b s t hs ht hab
        · rw [hss.id]
          exact h.shape.idBound a s hs
      · rcases hk b t' ht' with ⟨t, ht, -⟩ | ⟨hb, -⟩
        · have hlt := Pool.lt_next ht
          omega
        · omega

theorem sound_init (nworkers : ℕ) (rings : List (Option MediaRing)) :
    (init nworkers rings).Sound := by
  refine ⟨shape_init nworkers rings, refsOk_of_live (shape_init nworkers rings) fun a s hs => ?_,
    fun a s hs => ?_, fun a b s t hs => ?_⟩
  · exact nomatch hs
  · exact nomatch hs
  · exact nomatch hs

theorem Sound.skeletonsOk {c : ShmCtx} (h : c.Sound) : c.SkeletonsOk := by
  refine ⟨h.refs.live, fun a s b src hs hsrc => ?_, h.shape.nodup, h.ids⟩
  have hready := h.ready a s hs
  constructor
  · intro hmem
    obtain ⟨t, ht, hb, hl⟩ := h.shape.listed b src a hsrc hmem
    obtain rfl := Option.some.inj (hs.symm.trans ht)
    rw [hready, Bool.and_eq_true, Bool.not_eq_true'] at hl
    exact ⟨hb, hl⟩
  · rintro ⟨rfl, hr, hp⟩
    have hl : s.subLinked = true := by
      rw [hready, hr, hp]
      rfl
    exact h.shape.inList a s src hs hl hsrc

theorem sound_run {nworkers : ℕ} {rings : List (Option MediaRing)} {ops : List ShmOp}
    (hcalm : ∀ op ∈ ops, op.calm = true) :
    (Lts.run (fun c op => ShmOp.step c op) (init nworkers rings) ops).Sound := by
  have hrun : ∀ c : ShmCtx, c.Sound → (Lts.run (fun c op => ShmOp.step c op) c ops).Sound := by
    induction ops with
    | nil => exact fun c h => h
    | cons op ops ih =>
      exact fun c h => ih (fun o ho => hcalm o (List.mem_cons_of_mem _ ho)) _
        (h.step (hcalm op List.mem_cons_self))
  exact hrun _ (sound_init nworkers rings)

/-- A removal frees the skeleton at `a` for its owner, or while nobody owns it. -/
theorem removed_of_owner {c : ShmCtx} {now slot a : ℕ} {ufrag : Ufrag} {s : ShmSession}
    (hs : c.sessions.get a = some s)
    (h : (c.sessionRemoveIfOwner now ufrag slot).sessions.get a = none) :
    s.ownerSlot = none ∨ s.ownerSlot = some slot := by
  unfold sessionRemoveIfOwner at h
  split at h
  · exact absurd (hs.symm.trans h) (by simp)
  · split at h
    · exact absurd (hs.symm.trans h) (by simp)
    · next b _ t ht =>
      split_ifs at h with hown
      · rw [sessionFree_session] at h
        split_ifs at h with hab
        · subst hab
          obtain rfl := Option.some.inj (hs.symm.trans ht)
          simpa [ShmSession.ownableBy] using hown
        · exact absurd (hs.symm.trans h) (by simp)
      · exact absurd (hs.symm.trans h) (by simp)

end ShmCtx

/-- What a registry promises about skeletons, now and in every run from here: the structure is
    sound, a new skeleton is unowned, an owner stays, one worker is granted a skeleton, a removal
    needs the owner, and later skeletons have larger ids. -/
structure SkeletonsSound (c : ShmCtx) : Prop where
  ok : c.SkeletonsOk
  unowned : ∀ (op : ShmOp) b s', c.sessions.get b = none → (op.step c).sessions.get b = some s' →
    s'.ownerSlot = none
  owner : ∀ (ops : List ShmOp) a s s' w, c.sessions.get a = some s → s.ownerSlot = some w →
    (Lts.run (fun c op => ShmOp.step c op) c ops).sessions.get a = some s' →
      s'.ownerSlot = some w
  granted : ∀ (op op' : ShmOp) (ops : List ShmOp) a w w', op.grants c = some (a, w) →
    op'.grants (Lts.run (fun c op => ShmOp.step c op) (op.step c) ops) = some (a, w') → w' = w
  removed : ∀ now ufrag slot a s, c.sessions.get a = some s →
    (c.sessionRemoveIfOwner now ufrag slot).sessions.get a = none →
      s.ownerSlot = none ∨ s.ownerSlot = some slot
  later : ∀ (ops : List ShmOp) a b s t, c.sessions.get a = some s → c.sessions.get b = none →
    (Lts.run (fun c op => ShmOp.step c op) c ops).sessions.get b = some t → s.id < t.id

/-- **Skeletons have a single owner and keep their structure**, after any calls of any workers that
    found memory in the slab. -/
theorem skeletons_sound {nworkers : ℕ} {rings : List (Option MediaRing)} {ops : List ShmOp}
    (hcalm : ∀ op ∈ ops, op.calm = true) :
    SkeletonsSound (Lts.run (fun c op => ShmOp.step c op) (ShmCtx.init nworkers rings) ops) := by
  have h := @ShmCtx.sound_run nworkers rings ops hcalm
  generalize Lts.run (fun c op => ShmOp.step c op) (ShmCtx.init nworkers rings) ops = c at h
  refine ⟨h.skeletonsOk, fun op b s' hb hs' => ?_, fun ops a s s' w hs hw hs' => ?_,
    fun op op' ops a w w' hg hg' => ShmCtx.grant_unique ops hg hg',
    fun now ufrag slot a s hs hnone => ShmCtx.removed_of_owner hs hnone,
    fun ops a b s t hs hb ht => ?_⟩
  · rcases c.session_step op with hk | ⟨-, -, hk⟩
    · obtain ⟨s, hs, -⟩ := hk.old b s' hs'
      exact nomatch hb.symm.trans hs
    · rcases hk b s' hs' with ⟨s, hs, -⟩ | ⟨-, env, args, src, -, -, rfl⟩
      · exact nomatch hb.symm.trans hs
      · rfl
  · rcases (c.session_run ops).each a s' hs' with ⟨t, ht, hev⟩ | ⟨hnew, -⟩
    · obtain rfl := Option.some.inj (hs.symm.trans ht)
      exact hev.owner w hw
    · exact absurd (Pool.lt_next hs) (not_lt.2 hnew)
  · rcases (c.session_run ops).each b t ht with ⟨u, hu, -⟩ | ⟨-, hid⟩
    · exact nomatch hb.symm.trans hu
    · exact (h.shape.idBound a s hs).trans_le hid

/-- A skeleton bound by worker 1. -/
theorem skeletons_sound_bound :
    SkeletonsSound (Lts.run (fun c op => ShmOp.step c op) (ShmCtx.init 2 [])
      [.sourceGet (Env.at 5) sampleName, .sessionAdd (Env.at 6) (SessionArgs.sample 1 false),
        .bind (sampleUfrag 1) 1]) :=
  skeletons_sound (by decide)

end NginxRtc
