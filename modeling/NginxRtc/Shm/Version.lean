/-
  The version of a subscriber set.

  `subscribers_version` counts the links and unlinks of a source.  `later_step`: no call takes it
  back, and while it stays the same so do the subscribers, their ids and their owners.
-/
import NginxRtc.Shm.Names

namespace NginxRtc

namespace ShmCtx

/-- What a snapshot reads of the skeleton at `b`. -/
def entryAt (c : ShmCtx) (b : ℕ) : Option (ℕ × ℕ) :=
  (c.sessions.get b).bind (sourceSnapshot.ready c)

/-- From `s` in `c` to `s'` in `c'`: the version does not go down, and the same version means the
    same subscribers. -/
structure Later (c c' : ShmCtx) (s s' : ShmSource) : Prop where
  version : s.subscribersVersion ≤ s'.subscribersVersion
  same : s'.subscribersVersion = s.subscribersVersion →
    s'.subscribers = s.subscribers ∧ ∀ b ∈ s.subscribers, c'.entryAt b = c.entryAt b

theorem Later.refl (c : ShmCtx) (s : ShmSource) : c.Later c s s :=
  ⟨le_refl _, fun _ => ⟨rfl, fun _ _ => rfl⟩⟩

theorem Later.trans {c d e : ShmCtx} {s t u : ShmSource} (h : c.Later d s t) (h' : d.Later e t u) :
    c.Later e s u := by
  refine ⟨h.version.trans h'.version, fun he => ?_⟩
  have ht : t.subscribersVersion = s.subscribersVersion :=
    le_antisymm (he ▸ h'.version) h.version
  obtain ⟨hsub, hent⟩ := h.same ht
  obtain ⟨hsub', hent'⟩ := h'.same (he.trans ht.symm)
  exact ⟨hsub'.trans hsub, fun b hb => (hent' b (hsub ▸ hb)).trans (hent b hb)⟩

/-- A call that leaves the subscribers of a source and their skeletons alone. -/
theorem later_of_same {c c' : ShmCtx} {s s' : ShmSource}
    (hv : s'.subscribersVersion = s.subscribersVersion) (hs : s'.subscribers = s.subscribers)
    (hn : c'.nworkers = c.nworkers) (hsess : ∀ b ∈ s.subscribers, c'.sessions.get b = c.sessions.get b) :
    c.Later c' s s' := by
  have hready : sourceSnapshot.ready c' = sourceSnapshot.ready c := by
    funext t
    simp only [sourceSnapshot.ready, hn]
  exact ⟨hv.ge, fun _ => ⟨hs, fun b hb => by rw [entryAt, entryAt, hsess b hb, hready]⟩⟩

/-- A change of the set counts as one. -/
theorem later_of_lt {c c' : ShmCtx} {s s' : ShmSource}
    (hv : s'.subscribersVersion = s.subscribersVersion + 1) : c.Later c' s s' :=
  ⟨by omega, fun he => by omega⟩

/-! ## Moves -/

theorem Shape.later_link {c : ShmCtx} (hc : c.Shape) {a d slot : ℕ} {t : ShmSession}
    {s s' : ShmSource} (h : c.sources.get a = some s)
    (hd : c.sessions.get d = some t) (hfresh : t.subLinked = false)
    (h' : (c.sources.modify t.source (ShmSource.link d (some slot))).get a = some s') :
    c.Later { c with
      sessions := c.sessions.modify d (ShmSession.subscribed slot)
      sources := c.sources.modify t.source (ShmSource.link d (some slot)) } s s' := by
  rw [Pool.get_modify, h] at h'
  split_ifs at h'
  · obtain rfl := Option.some.inj h'
    exact later_of_lt rfl
  · obtain rfl := Option.some.inj h'
    refine later_of_same rfl rfl rfl fun b hb => Pool.get_modify_of_ne ?_ _
    rintro rfl
    obtain ⟨u, hu, -, hlink⟩ := hc.listed a s b h hb
    obtain rfl := Option.some.inj (hd.symm.trans hu)
    exact nomatch hfresh.symm.trans hlink

theorem armGrace_version (now : ℕ) (src : ShmSource) :
    (src.armGrace now).subscribersVersion = src.subscribersVersion := by
  unfold ShmSource.armGrace
  split_ifs <;> rfl

theorem Shape.later_sessionFree {c : ShmCtx} (hc : c.Shape) (now : ℕ) {a d : ℕ} {s s' : ShmSource}
    (h : c.sources.get a = some s) (h' : (c.sessionFree now d).sources.get a = some s') :
    c.Later (c.sessionFree now d) s s' := by
  cases hd : c.sessions.get d with
  | none =>
    have he : c.sessionFree now d = c := by rw [sessionFree, hd]
    rw [he] at h' ⊢
    obtain rfl := Option.some.inj (h.symm.trans h')
    exact .refl c s
  | some t =>
    -- the skeleton freed is on no list but that of its own source
    have hother : (a = t.source → t.subLinked = false) → ∀ b ∈ s.subscribers,
        (c.sessionFree now d).sessions.get b = c.sessions.get b := fun hun b hb => by
      simp only [sessionFree, hd]
      refine Pool.get_free_of_ne ?_
      rintro rfl
      obtain ⟨u, hu, hsrc, hlink⟩ := hc.listed a s b h hb
      obtain rfl := Option.some.inj (hd.symm.trans hu)
      exact nomatch (hun hsrc.symm).symm.trans hlink
    have hn : (c.sessionFree now d).nworkers = c.nworkers := by simp only [sessionFree, hd]
    simp only [sessionFree, hd, Pool.get_modify, h] at h'
    split_ifs at h' with ha
    · obtain rfl := Option.some.inj h'
      cases hl : t.subLinked with
      | true =>
        refine later_of_lt ?_
        simp only [ShmSource.dropSession, hl, if_true, armGrace_version]
        rfl
      | false =>
        refine later_of_same ?_ ?_ hn (hother fun _ => hl)
        · simp [ShmSource.dropSession, hl, armGrace_version]
        · simp [ShmSource.dropSession, hl, ShmSource.armGrace_subscribers]
    · obtain rfl := Option.some.inj h'
      exact later_of_same rfl rfl hn (hother fun he => absurd he ha)

theorem Shape.later_session {c : ShmCtx} (hc : c.Shape) {a d : ℕ} {f : ShmSession → ShmSession}
    (keep : ∀ t, c.sessions.get d = some t → t.Frame (f t)) {s : ShmSource}
    (h : c.sources.get a = some s) :
    c.Later { c with sessions := c.sessions.modify d f } s s := by
  refine ⟨le_refl _, fun _ => ⟨rfl, fun b hb => ?_⟩⟩
  obtain ⟨t, ht, -, hlink⟩ := hc.listed a s b h hb
  by_cases hbd : b = d
  · subst hbd
    have hf := keep t ht
    obtain ⟨howner, hready⟩ := hc.linked b t ht hlink
    obtain ⟨w, hw⟩ := Option.ne_none_iff_exists'.1 howner
    simp only [entryAt, Pool.get_modify_self, ht, Option.map_some, Option.bind_some,
      sourceSnapshot.ready, hready, hf.ready hready, hw, hf.owner w hw, hf.id]
  · simp only [entryAt, Pool.get_modify_of_ne hbd, ht, Option.bind_some, sourceSnapshot.ready]

theorem Shape.later_move {c c' : ShmCtx} (hc : c.Shape) (hm : c.Move c') {a : ℕ}
    {s s' : ShmSource} (h : c.sources.get a = some s) (h' : c'.sources.get a = some s') :
    c.Later c' s s' := by
  cases hm with
  | sources f free keep =>
    simp only [Pool.get_sweep, h, Option.bind_some] at h'
    have hf := keep a s s' h h'
    exact later_of_same hf.version hf.subscribers rfl fun _ _ => rfl
  | newSource env name absent =>
    obtain rfl := Option.some.inj ((Pool.get_alloc_of_some h).symm.trans h')
    exact later_of_same rfl rfl rfl fun _ _ => rfl
  | session d f keep =>
    obtain rfl := Option.some.inj (h.symm.trans h')
    exact hc.later_session keep h
  | link d slot t get own player fresh => exact hc.later_link h get fresh h'
  | drop now d => exact hc.later_sessionFree now h h'

/-- The address was not freed in between: it would not have come back. -/
theorem Shape.later_moves {c c' : ShmCtx} (hc : c.Shape) (hm : c.Moves c') {a : ℕ}
    {s s' : ShmSource} (h : c.sources.get a = some s) (h' : c'.sources.get a = some s') :
    c.Later c' s s' := by
  induction hm generalizing s' with
  | refl =>
    obtain rfl := Option.some.inj (h.symm.trans h')
    exact .refl c s
  | @tail d e hcd hde ih =>
    obtain ⟨t, ht, -⟩ :=
      hde.older.named a s' ((Pool.lt_next h).trans_le (Moves.older hcd).next) h'
    exact (ih ht).trans ((hc.moves hcd).later_move hde ht h')

/-! ## Calls -/

/-- **No call takes a version back**, and an unchanged version means an unchanged set. -/
theorem Shape.later_step {c : ShmCtx} (hc : c.Shape) (op : ShmOp) {a : ℕ} {s s' : ShmSource}
    (h : c.sources.get a = some s) (h' : (op.step c).sources.get a = some s') :
    c.Later (op.step c) s s' := by
  rcases op.step_moves c with hm | ⟨env, args, rfl⟩ | ⟨b, slot, rfl⟩
  · exact hc.later_moves hm h h'
  · have hslab := moves_slabAlloc c env
    simp only [ShmOp.step] at h' ⊢
    rcases sessionAdd_cases c env args with he | he | ⟨src, -, -, he⟩ <;> rw [he] at h' ⊢
    · obtain rfl := Option.some.inj (h.symm.trans h')
      exact .refl c s
    · exact hc.later_moves hslab h h'
    · -- a skeleton just added is not yet on a list
      refine (hc.later_moves hslab h h').trans (later_of_same rfl rfl rfl fun b hb => ?_)
      obtain ⟨t, ht, -⟩ := (hc.moves hslab).listed a s' b h' hb
      exact (Pool.get_alloc_of_some ht).trans ht.symm
  · simp only [ShmOp.step, ShmCtx.setPublisherSlot, Pool.get_modify, h] at h'
    split_ifs at h'
    · obtain rfl := Option.some.inj h'
      exact later_of_same rfl rfl rfl fun _ _ => rfl
    · obtain rfl := Option.some.inj h'
      exact later_of_same rfl rfl rfl fun _ _ => rfl

end ShmCtx

end NginxRtc
