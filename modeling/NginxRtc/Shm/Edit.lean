/-
  What one call writes into a session skeleton.

  Five calls write skeletons: `session_add`, `session_bind`, `session_activate`,
  `session_request_close` and `session_set_state`.  All others only free some (`thins_step`).

  `edit_step`: a skeleton found after a call is what `ShmOp.edit` makes of the one that was there, or
  the one the call added.
-/
import NginxRtc.Shm.Owner

namespace NginxRtc

namespace ShmCtx

/-- No skeleton is new or written to, and no id was given out. -/
structure Thins (c c' : ShmCtx) : Prop where
  get : ∀ b s, c'.sessions.get b = some s → c.sessions.get b = some s
  nextId : c'.nextSessionId = c.nextSessionId

theorem Thins.refl (c : ShmCtx) : c.Thins c := ⟨fun _ _ h => h, rfl⟩

theorem Thins.trans {c d e : ShmCtx} (h : c.Thins d) (h' : d.Thins e) : c.Thins e :=
  ⟨fun b s hs => h.get b s (h'.get b s hs), h'.nextId.trans h.nextId⟩

theorem thins_of_sessions {c c' : ShmCtx} (h : c'.sessions = c.sessions)
    (hid : c'.nextSessionId = c.nextSessionId) : c.Thins c' := ⟨fun _ _ hs => h ▸ hs, hid⟩

theorem thins_modifySource (c : ShmCtx) (name : SourceName) (f : ShmSource → ShmSource) :
    c.Thins (c.modifySource name f) := by
  unfold modifySource
  split <;> exact thins_of_sessions rfl rfl

theorem thins_expire (c : ShmCtx) (now : ℕ) (forced : Bool) : c.Thins (c.expire now forced) where
  get b s hs := by
    rw [expire_session, Option.filter_eq_some_iff] at hs
    exact hs.1
  nextId := (noNew_expire none c now forced).nextId

theorem thins_slabAlloc (c : ShmCtx) (env : Env) : c.Thins (c.slabAlloc env).1 := by
  unfold slabAlloc
  split_ifs
  · exact .refl c
  · exact thins_expire c env.now true

theorem thins_sourceGet (c : ShmCtx) (env : Env) (name : SourceName) :
    c.Thins (c.sourceGet env name).1 := by
  unfold sourceGet
  split
  · exact .refl c
  · split_ifs
    · exact (thins_slabAlloc c env).trans (thins_of_sessions rfl rfl)
    · exact thins_slabAlloc c env

theorem thins_sourceRemove (c : ShmCtx) (name : SourceName) : c.Thins (c.sourceRemove name) := by
  unfold sourceRemove
  split
  · exact .refl c
  · split
    · exact .refl c
    · split_ifs <;> exact thins_of_sessions rfl rfl

theorem thins_sourceTryPublish (c : ShmCtx) (now : ℕ) (name : SourceName) (kind : PublisherKind) :
    c.Thins (c.sourceTryPublish now name kind).1 := by
  unfold sourceTryPublish
  split
  · exact .refl c
  · split_ifs
    · exact .refl c
    · exact thins_modifySource c name _

theorem thins_sourceReleasePublish (c : ShmCtx) (now : ℕ) (name : SourceName)
    (kind : PublisherKind) : c.Thins (c.sourceReleasePublish now name kind) := by
  unfold sourceReleasePublish
  split
  · exact .refl c
  · split_ifs
    · exact .refl c
    · exact thins_modifySource c name _

theorem thins_sessionRemoveIfOwner (c : ShmCtx) (now : ℕ) (ufrag : Ufrag) (slot : ℕ) :
    c.Thins (c.sessionRemoveIfOwner now ufrag slot) := by
  unfold sessionRemoveIfOwner
  split
  · exact .refl c
  · next a ha =>
    split
    · exact .refl c
    · split_ifs
      · refine ⟨fun b s hs => ?_, ?_⟩
        · rw [sessionFree_session] at hs
          split_ifs at hs
          exact hs
        · unfold sessionFree
          split <;> rfl
      · exact .refl c

theorem thins_retransmitAppend (c : ShmCtx) (a : ℕ) (slab : Bool) (rtp : Bytes) (gop : Bool) :
    c.Thins (c.retransmitAppend a slab rtp gop) := by
  unfold retransmitAppend
  split_ifs
  · exact .refl c
  · split
    · exact .refl c
    · split_ifs <;> exact thins_of_sessions rfl rfl

end ShmCtx

/-- The call writes no skeleton. -/
def ShmOp.thins : ShmOp → Bool
  | .sessionAdd .. | .bind .. | .activate .. | .requestClose .. | .setState .. => false
  | _ => true

namespace ShmCtx

theorem thins_step {op : ShmOp} (h : op.thins = true) (c : ShmCtx) : c.Thins (op.step c) := by
  cases op with
  | sourceGet env name => exact thins_sourceGet c env name
  | sourceRemove name => exact thins_sourceRemove c name
  | tryPublish now name kind => exact thins_sourceTryPublish c now name kind
  | releasePublish now name kind => exact thins_sourceReleasePublish c now name kind
  | setPt name videoPt audioPt => exact thins_modifySource c name _
  | setSsrc name videoSsrc audioSsrc => exact thins_modifySource c name _
  | removeIfOwner now ufrag slot => exact thins_sessionRemoveIfOwner c now ufrag slot
  | expire now forced => exact thins_expire c now forced
  | setPublisherSlot a slot => exact thins_of_sessions rfl rfl
  | setStats a stats => exact thins_of_sessions rfl rfl
  | setStatsSeen a stats now => exact thins_of_sessions rfl rfl
  | retransmitAppend a slab rtp gop => exact thins_retransmitAppend c a slab rtp gop
  | sessionAdd env args => exact nomatch h
  | bind ufrag slot => exact nomatch h
  | activate ufrag slot => exact nomatch h
  | requestClose id => exact nomatch h
  | setState ufrag slot state => exact nomatch h

end ShmCtx

/-! ## Writes -/

/-- What the call makes of the skeleton `s` at `b`, if it is there afterwards. -/
def ShmOp.edit (c : ShmCtx) (b : ℕ) (s : ShmSession) : ShmOp → ShmSession
  | .bind ufrag slot =>
    if c.sessionLookup ufrag = some b ∧ s.ownableBy slot = true then { s with ownerSlot := some slot }
    else s
  | .activate ufrag slot =>
    if c.sessionLookup ufrag = some b ∧ s.ownableBy slot = true then
      if s.publishing || s.subLinked then s.activated slot else s.subscribed slot
    else s
  | .requestClose id =>
    if (c.sessions.find? fun t => t.id = id) = some b then { s with closeRequested := true } else s
  | .setState ufrag slot state =>
    if c.sessionLookup ufrag = some b ∧ s.ownableBy slot = true then { s with state := state } else s
  | _ => s

section Edit
variable (c : ShmCtx) (b : ℕ) (s : ShmSession) (op : ShmOp)

@[simp] theorem ShmOp.edit_id : (op.edit c b s).id = s.id := by
  cases op <;> simp only [ShmOp.edit] <;> split_ifs <;> rfl

@[simp] theorem ShmOp.edit_ufrag : (op.edit c b s).iceUfrag = s.iceUfrag := by
  cases op <;> simp only [ShmOp.edit] <;> split_ifs <;> rfl

theorem ShmOp.edit_requests (h : s.closeRequested = true) :
    (op.edit c b s).closeRequested = true := by
  cases op with
  | bind | activate | requestClose | setState =>
    simp only [ShmOp.edit]
    split_ifs <;> first | exact h | rfl
  | _ => exact h

variable {c b s op}

theorem ShmSession.ownableBy_owned {slot w : ℕ} (hw : s.ownerSlot = some w) :
    s.ownableBy slot = true ↔ slot = w := by
  rw [ShmSession.ownableBy, hw]
  simp [eq_comm]

/-- An owner stays. -/
theorem ShmOp.edit_owner {w : ℕ} (hw : s.ownerSlot = some w) :
    (op.edit c b s).ownerSlot = some w := by
  cases op with
  | bind ufrag slot =>
    simp only [ShmOp.edit]
    split_ifs with h
    · exact congrArg some ((ShmSession.ownableBy_owned hw).1 h.2)
    · exact hw
  | activate ufrag slot =>
    simp only [ShmOp.edit]
    split_ifs with h
    · exact congrArg some ((ShmSession.ownableBy_owned hw).1 h.2)
    · exact congrArg some ((ShmSession.ownableBy_owned hw).1 h.2)
    · exact hw
  | requestClose id =>
    simp only [ShmOp.edit]
    split_ifs <;> exact hw
  | setState ufrag slot state =>
    simp only [ShmOp.edit]
    split_ifs <;> exact hw
  | _ => exact hw

/-- A skeleton that is ready has an owner, if that was so before. -/
theorem ShmOp.edit_ready (hs : s.srtpReady = true → s.ownerSlot.isSome) :
    (op.edit c b s).srtpReady = true → (op.edit c b s).ownerSlot.isSome := by
  cases op with
  | bind | activate | requestClose | setState =>
    simp only [ShmOp.edit]
    split_ifs <;> first | exact hs | exact fun _ => rfl
  | _ => exact hs

/-- A worker that does not act neither gets a skeleton nor sees its state change. -/
theorem ShmOp.edit_other {w : ℕ} (hop : op.slot? ≠ some w)
    (hw : (op.edit c b s).ownerSlot = some w) :
    s.ownerSlot = some w ∧ (op.edit c b s).state = s.state := by
  cases op with
  | bind ufrag slot =>
    simp only [ShmOp.edit] at hw ⊢
    split_ifs at hw ⊢
    · exact absurd hw hop
    · exact ⟨hw, rfl⟩
  | activate ufrag slot =>
    simp only [ShmOp.edit] at hw ⊢
    split_ifs at hw ⊢
    · exact absurd hw hop
    · exact absurd hw hop
    · exact ⟨hw, rfl⟩
  | requestClose id =>
    simp only [ShmOp.edit] at hw ⊢
    split_ifs at hw ⊢ <;> exact ⟨hw, rfl⟩
  | setState ufrag slot state =>
    simp only [ShmOp.edit] at hw ⊢
    split_ifs at hw ⊢ with h
    · exact absurd (congrArg some ((ShmSession.ownableBy_owned hw).1 h.2)) hop
    · exact ⟨hw, rfl⟩
  | _ => exact ⟨hw, rfl⟩

end Edit

namespace ShmCtx

/-- **What a call writes into a skeleton**, and which one it adds. -/
theorem edit_step {c : ShmCtx} {op : ShmOp} {b : ℕ} {s' : ShmSession}
    (h : (op.step c).sessions.get b = some s') :
    (∃ s, c.sessions.get b = some s ∧ s' = op.edit c b s) ∨ c.Added op b s' := by
  cases op with
  | sessionAdd env args =>
    rcases sessionAdd_cases c env args with hn | hn | ⟨src, hsrc, -, hn⟩ <;> rw [ShmOp.step, hn] at h
    · exact .inl ⟨s', h, rfl⟩
    · exact .inl ⟨s', (thins_slabAlloc c env).get b s' h, rfl⟩
    · have hslab := noNew_slabAlloc none c env
      simp only [addSkeleton, Pool.get_alloc, hslab.next, hslab.nextId] at h
      split_ifs at h with hb
      · exact .inr ⟨hb, env, args, src, rfl, hsrc, (Option.some.inj h).symm⟩
      · exact .inl ⟨s', (thins_slabAlloc c env).get b s' h, rfl⟩
  | bind ufrag slot =>
    refine .inl ?_
    simp only [ShmOp.step, sessionBind] at h
    cases hl : c.sessionLookup ufrag with
    | none => exact ⟨s', by simpa [hl] using h, by simp [ShmOp.edit, hl]⟩
    | some a =>
      obtain ⟨s, hs, -⟩ := Pool.find?_spec hl
      simp only [hl, hs] at h
      by_cases hb : b = a
      · subst hb
        refine ⟨s, hs, ?_⟩
        split_ifs at h with hown
        · rw [Pool.get_modify, if_pos rfl, hs] at h
          rw [ShmOp.edit, if_pos ⟨hl, hown⟩]
          exact (Option.some.inj h).symm
        · obtain rfl := Option.some.inj (hs.symm.trans h)
          rw [ShmOp.edit, if_neg fun hc => hown hc.2]
      · refine ⟨s', ?_, by simp [ShmOp.edit, hl, Ne.symm hb]⟩
        split_ifs at h
        · simpa [Pool.get_modify, hb] using h
        · exact h
  | activate ufrag slot =>
    refine .inl ?_
    simp only [ShmOp.step, sessionActivate] at h
    cases hl : c.sessionLookup ufrag with
    | none => exact ⟨s', by simpa [hl] using h, by simp [ShmOp.edit, hl]⟩
    | some a =>
      obtain ⟨s, hs, -⟩ := Pool.find?_spec hl
      simp only [hl, hs] at h
      by_cases hb : b = a
      · subst hb
        refine ⟨s, hs, ?_⟩
        split_ifs at h with hown hlinked
        · obtain rfl := Option.some.inj (hs.symm.trans h)
          rw [ShmOp.edit, if_neg fun hc => by simp [hc.2] at hown]
        · rw [Pool.get_modify, if_pos rfl, hs] at h
          rw [ShmOp.edit, if_pos ⟨hl, by simpa using hown⟩, if_pos hlinked]
          exact (Option.some.inj h).symm
        · rw [Pool.get_modify, if_pos rfl, hs] at h
          rw [ShmOp.edit, if_pos ⟨hl, by simpa using hown⟩, if_neg hlinked]
          exact (Option.some.inj h).symm
      · refine ⟨s', ?_, by simp [ShmOp.edit, hl, Ne.symm hb]⟩
        split_ifs at h
        · exact h
        · simpa [Pool.get_modify, hb] using h
        · simpa [Pool.get_modify, hb] using h
  | requestClose id =>
    refine .inl ?_
    simp only [ShmOp.step, sessionRequestClose] at h
    cases hl : c.sessions.find? fun t => t.id = id with
    | none => exact ⟨s', by simpa [hl] using h, by simp [ShmOp.edit, hl]⟩
    | some a =>
      simp only [hl, Pool.get_modify] at h
      split_ifs at h with hb
      · obtain ⟨s, hs, rfl⟩ := Option.map_eq_some_iff.1 h
        exact ⟨s, hs, by simp [ShmOp.edit, hl, hb]⟩
      · exact ⟨s', h, by simp [ShmOp.edit, hl, Ne.symm hb]⟩
  | setState ufrag slot state =>
    refine .inl ?_
    simp only [ShmOp.step, sessionSetState] at h
    cases hl : c.sessionLookup ufrag with
    | none => exact ⟨s', by simpa [hl] using h, by simp [ShmOp.edit, hl]⟩
    | some a =>
      simp only [hl, Pool.get_modify] at h
      split_ifs at h with hb
      · obtain ⟨s, hs, rfl⟩ := Option.map_eq_some_iff.1 h
        exact ⟨s, hs, by simp [ShmOp.edit, hl, hb]⟩
      · exact ⟨s', h, by simp [ShmOp.edit, hl, Ne.symm hb]⟩
  | _ => exact .inl ⟨s', (thins_step rfl c).get b s' h, rfl⟩

end ShmCtx

end NginxRtc
