/-
  What the surviving workers reclaim after a worker has stopped.

  `deadline_step` says how one call can move the heartbeat and the deadline of a source: `claims`
  and `arms` name the calls that set them.  From it follow the bounds of a registry that has seen
  no time after `t` (`Timely`), and those of a source nobody claims any more (`Fading`).

  `crash_reclaimed_iff`: the dead publisher's source, its ring and every skeleton of the stopped
  worker are gone in the end exactly if that worker owned no skeleton when it stopped.
  `crash_pinned`: a WHIP publisher's own skeleton keeps all of them.
-/
import NginxRtc.Shm.Owner
import NginxRtc.Shm.Publish

namespace NginxRtc

namespace ShmOp

/-- The time a call reads, 0 if it reads none. -/
def clock : ShmOp → ℕ
  | sourceGet env _ => env.now
  | tryPublish now _ _ => now
  | releasePublish now _ _ => now
  | sessionAdd env _ => env.now
  | removeIfOwner now _ _ => now
  | expire now _ => now
  | setStatsSeen _ _ now => now
  | _ => 0

/-- When the call writes the heartbeat of the source at `a`, what it writes. -/
def claims (c : ShmCtx) (a : ℕ) : ShmOp → Option ℕ
  | tryPublish now name _ => if c.sourceLookup name = some a then some now else none
  | setStatsSeen b _ now => if b = a then some now else none
  | _ => none

/-- When the call starts a grace of the source at `a`, the time it starts. -/
def arms (c : ShmCtx) (a : ℕ) : ShmOp → Option ℕ
  | releasePublish now name _ => if c.sourceLookup name = some a then some now else none
  | removeIfOwner now _ _ =>
    if (c.sources.get a).any (fun src => !src.publishing && src.expires = 0) then some now
    else none
  | op =>
    (op.sweeps c).filter fun now => (c.sources.get a).any fun src =>
      src.publishing && !src.alive now

end ShmOp

/-- `src'` is `src` after a call that claims and arms it at the given times, if at all. -/
structure ShmSource.Ticks (claimed armed : Option ℕ) (src src' : ShmSource) : Prop where
  publishing : src'.publishing = true → src.publishing = true ∨ claimed ≠ none
  seen : src'.publisherSeenMs = src.publisherSeenMs ∨ claimed = some src'.publisherSeenMs
  expires : src'.expires = src.expires ∨ src'.expires = 0 ∨
    ∃ now, armed = some now ∧ src'.expires = now + shmSourceExpireMs

theorem ShmSource.Ticks.refl (claimed armed : Option ℕ) (src : ShmSource) :
    src.Ticks claimed armed src := ⟨.inl, .inl rfl, .inl rfl⟩

theorem ShmSource.ticks_armGrace {claimed armed : Option ℕ} {now : ℕ} {src : ShmSource}
    (h : src.publishing = false → src.expires = 0 → armed = some now) :
    src.Ticks claimed armed (src.armGrace now) := by
  unfold ShmSource.armGrace
  split_ifs with harm
  · exact ⟨.inl, .inl rfl, .inr (.inr ⟨now, h harm.2.1 harm.2.2, rfl⟩)⟩
  · exact .refl ..

namespace ShmCtx

/-- Every source of `c'` was in `c` and ticked. -/
def TickAt (c c' : ShmCtx) (claimed armed : Option ℕ) (a : ℕ) : Prop :=
  ∀ src', c'.sources.get a = some src' →
    ∃ src, c.sources.get a = some src ∧ src.Ticks claimed armed src'

section Tick
variable {c c' : ShmCtx} {claimed armed : Option ℕ} {a : ℕ}

theorem tickAt_of_sources (h : c'.sources = c.sources) : c.TickAt c' claimed armed a :=
  fun src' hs => ⟨src', h ▸ hs, .refl ..⟩

theorem tickAt_modify {b : ℕ} {f : ShmSource → ShmSource}
    (h : c'.sources = c.sources.modify b f)
    (hf : a = b → ∀ src, c.sources.get a = some src → src.Ticks claimed armed (f src)) :
    c.TickAt c' claimed armed a := by
  intro src' hs
  rw [h, Pool.get_modify] at hs
  split_ifs at hs with hab
  · obtain ⟨src, hsrc, rfl⟩ := Option.map_eq_some_iff.1 hs
    exact ⟨src, hsrc, hf hab src hsrc⟩
  · exact ⟨src', hs, .refl ..⟩

theorem tickAt_modifySource {name : SourceName} {f : ShmSource → ShmSource}
    (hf : c.sourceLookup name = some a → ∀ src : ShmSource, src.Ticks claimed armed (f src)) :
    c.TickAt (c.modifySource name f) claimed armed a := by
  intro src' hs
  rw [modifySource_get] at hs
  split_ifs at hs with hl
  · obtain ⟨src, hsrc, rfl⟩ := Option.map_eq_some_iff.1 hs
    exact ⟨src, hsrc, hf hl src⟩
  · exact ⟨src', hs, .refl ..⟩

/-- A sweep arms the source of a publisher it finds dead, and no other. -/
theorem tickAt_expire (hc : c.Shape) (now : ℕ) (forced : Bool)
    (h : ∀ src, c.sources.get a = some src → src.publishing = true → src.alive now = false →
      armed = some now) : c.TickAt (c.expire now forced) claimed armed a := by
  intro src' hs
  rw [expire, expireSources_source, Option.bind_eq_some_iff] at hs
  obtain ⟨t, ht, hstep⟩ := hs
  have hb := sheds_expireSessions c now forced a
  rw [ht] at hb
  generalize hd : c.sources.get a = o at hb
  cases hb with
  | @some src _ hshed =>
    have hte : t.expires = src.expires := by
      by_cases hw : src.expires ≠ 0 ∨ src.publishing = true
      · exact hshed.expires hw
      · rw [not_or, not_not, Bool.not_eq_true] at hw
        refine hshed.watched fun hnil => ?_
        have hsubs := (hc.expireSessions_subscribers hd ht hshed).1 hnil
        exact (hc.ok a src hd).idle hw.2 hsubs hw.1
    have hsettled : (t.publishing && t.alive now) = false →
        src.Ticks claimed armed (t.settled now) := by
      intro hdead
      unfold ShmSource.settled
      split_ifs with hp
      · have hal : t.alive now = false := by rwa [hp, Bool.true_and] at hdead
        refine ⟨fun h' => Bool.noConfusion h', .inl hshed.seen, ?_⟩
        show (if t.expires = 0 then now + shmSourceExpireMs else t.expires) = src.expires ∨ _
        split_ifs with he
        · refine .inr (.inr ⟨now, h src hd (hshed.publishing.symm.trans hp) ?_, ?_⟩)
          · exact (ShmSource.alive_congr hshed.seen).symm.trans hal
          · show (if t.expires = 0 then now + shmSourceExpireMs else t.expires) = _
            rw [if_pos he]
        · exact .inl hte
      · exact ⟨fun h' => .inl (hshed.publishing ▸ h'), .inl hshed.seen, .inl hte⟩
    refine ⟨src, rfl, ?_⟩
    unfold ShmSource.expireStep at hstep
    split_ifs at hstep with halive hsubs hdue
    · obtain rfl := Option.some.inj hstep
      exact ⟨fun h' => .inl (hshed.publishing ▸ h'), .inl hshed.seen, .inl hte⟩
    · obtain rfl := Option.some.inj hstep
      exact hsettled (Bool.eq_false_iff.2 halive)
    · obtain rfl := Option.some.inj hstep
      exact hsettled (Bool.eq_false_iff.2 halive)

theorem tickAt_slabAlloc (hc : c.Shape) (env : Env)
    (h : env.slab = false → ∀ src, c.sources.get a = some src → src.publishing = true →
      src.alive env.now = false → armed = some env.now) :
    c.TickAt (c.slabAlloc env).1 claimed armed a := by
  unfold slabAlloc
  split_ifs with hslab
  · exact tickAt_of_sources rfl
  · exact tickAt_expire hc env.now true (h (Bool.eq_false_iff.2 hslab))

theorem tickAt_sessionFree (now d : ℕ)
    (h : ∀ src, c.sources.get a = some src → src.publishing = false → src.expires = 0 →
      armed = some now) : c.TickAt (c.sessionFree now d) claimed armed a := by
  unfold sessionFree
  split
  · exact tickAt_of_sources rfl
  · next sess _ =>
    refine tickAt_modify rfl fun _ src hsrc => ?_
    unfold ShmSource.dropSession
    split_ifs
    · have hunlink := @ShmSource.ticks_armGrace claimed armed now (src.unlink d sess.ownerSlot)
        (h src hsrc)
      exact ⟨hunlink.publishing, hunlink.seen, hunlink.expires⟩
    · exact ShmSource.ticks_armGrace (h src hsrc)

end Tick

/-- **How one call moves the heartbeat and the deadline** of the source at an address: it ticks, or
    the call built it. -/
theorem deadline_step {c : ShmCtx} (hc : c.Shape) (op : ShmOp) {a : ℕ} {src' : ShmSource}
    (h : (op.step c).sources.get a = some src') :
    (∃ src, c.sources.get a = some src ∧ src.Ticks (op.claims c a) (op.arms c a) src') ∨
      c.sources.next ≤ a ∧ ∃ env name, op = .sourceGet env name ∧
        src' = ShmSource.fresh env name := by
  have harms : ∀ now src, op.sweeps c = some now → c.sources.get a = some src →
      src.publishing = true → src.alive now = false →
        (op.sweeps c).filter (fun now => (c.sources.get a).any fun src =>
          src.publishing && !src.alive now) = some now := by
    intro now src hs hsrc hp hal
    rw [hs, hsrc, Option.filter_some, Option.any_some, hp, hal]
    rfl
  cases op with
  | sourceGet env name =>
    simp only [ShmOp.step, sourceGet] at h
    split at h
    · exact .inl (tickAt_of_sources rfl src' h)
    · next hl =>
      have hslab : c.TickAt (c.slabAlloc env).1 ((ShmOp.sourceGet env name).claims c a)
          ((ShmOp.sourceGet env name).arms c a) a := by
        refine tickAt_slabAlloc hc env fun hs src hsrc hp hal => harms env.now src ?_ hsrc hp hal
        simp [ShmOp.sweeps, hl, hs]
      split_ifs at h
      · rw [addSource, Pool.get_alloc] at h
        split_ifs at h with hnext
        · refine .inr ⟨not_lt.1 fun hlt => ?_, env, name, rfl, (Option.some.inj h).symm⟩
          exact absurd hnext (Nat.ne_of_lt (lt_next_slabAlloc hlt))
        · exact .inl (hslab src' h)
      · exact .inl (hslab src' h)
  | sourceRemove name =>
    simp only [ShmOp.step, sourceRemove] at h
    split at h
    · exact .inl (tickAt_of_sources rfl src' h)
    · split at h
      · exact .inl (tickAt_of_sources rfl src' h)
      · split_ifs at h
        · exact .inl (tickAt_of_sources rfl src' h)
        · exact .inl (tickAt_of_sources rfl src' h)
        · exact .inl (tickAt_of_sources rfl src' h)
        · rw [Pool.get_free] at h
          split_ifs at h
          exact .inl ⟨src', h, .refl ..⟩
  | tryPublish now name kind =>
    simp only [ShmOp.step, sourceTryPublish] at h
    split at h
    · exact .inl (tickAt_of_sources rfl src' h)
    · split_ifs at h
      · exact .inl (tickAt_of_sources rfl src' h)
      · refine .inl (tickAt_modifySource (fun hl src => ?_) src' h)
        have hclaims : (ShmOp.tryPublish now name kind).claims c a = some now := if_pos hl
        rw [hclaims]
        exact ⟨fun _ => .inr (by simp), .inr rfl, .inr (.inl rfl)⟩
  | releasePublish now name kind =>
    simp only [ShmOp.step, sourceReleasePublish] at h
    split at h
    · exact .inl (tickAt_of_sources rfl src' h)
    · split_ifs at h
      · exact .inl (tickAt_of_sources rfl src' h)
      · refine .inl (tickAt_modifySource (fun hl src => ?_) src' h)
        have harm : (ShmOp.releasePublish now name kind).arms c a = some now := if_pos hl
        rw [harm]
        refine ⟨fun hp => Bool.noConfusion hp, .inl rfl, ?_⟩
        dsimp only
        split_ifs
        · exact .inr (.inl rfl)
        · exact .inr (.inr ⟨now, rfl, rfl⟩)
        · exact .inl rfl
  | setPt name videoPt audioPt =>
    have hm : c.TickAt (c.sourceSetPt name videoPt audioPt) none none a :=
      tickAt_modifySource fun _ src => ⟨.inl, .inl rfl, .inl rfl⟩
    exact .inl (hm src' h)
  | setSsrc name videoSsrc audioSsrc =>
    have hm : c.TickAt (c.sourceSetSsrc name videoSsrc audioSsrc) none none a :=
      tickAt_modifySource fun _ src => ⟨.inl, .inl rfl, .inl rfl⟩
    exact .inl (hm src' h)
  | sessionAdd env args =>
    simp only [ShmOp.step] at h
    rcases sessionAdd_cases c env args with he | he | ⟨d, hd, -, he⟩
    · rw [he] at h
      exact .inl (tickAt_of_sources rfl src' h)
    · by_cases hsame : (c.slabAlloc env).1.sources = c.sources
      · rw [he, hsame] at h
        exact .inl ⟨src', h, .refl ..⟩
      · rw [he] at h
        refine .inl (tickAt_slabAlloc hc env (fun hs src hsrc hp hal =>
          harms env.now src ?_ hsrc hp hal) src' h)
        have hl : (c.sourceLookup args.name).isSome := by
          rw [Option.isSome_iff_ne_none]
          intro hnone
          refine hsame ?_
          rw [← he, sessionAdd, hnone]
        simp [ShmOp.sweeps, hl, hs]
    · rw [he] at h
      refine .inl (tickAt_slabAlloc hc env (fun hs src hsrc hp hal =>
        harms env.now src ?_ hsrc hp hal) src' h)
      simp [ShmOp.sweeps, hd, hs]
  | bind ufrag slot =>
    simp only [ShmOp.step, sessionBind] at h
    split at h
    · exact .inl (tickAt_of_sources rfl src' h)
    · split at h
      · exact .inl (tickAt_of_sources rfl src' h)
      · split_ifs at h <;> exact .inl (tickAt_of_sources rfl src' h)
  | activate ufrag slot =>
    simp only [ShmOp.step, sessionActivate] at h
    split at h
    · exact .inl (tickAt_of_sources rfl src' h)
    · split at h
      · exact .inl (tickAt_of_sources rfl src' h)
      · split_ifs at h
        · exact .inl (tickAt_of_sources rfl src' h)
        · exact .inl (tickAt_of_sources rfl src' h)
        · refine .inl (tickAt_modify rfl (fun _ src _ => ?_) src' h)
          exact ⟨.inl, .inl rfl, .inr (.inl rfl)⟩
  | removeIfOwner now ufrag slot =>
    simp only [ShmOp.step, sessionRemoveIfOwner] at h
    split at h
    · exact .inl (tickAt_of_sources rfl src' h)
    · split at h
      · exact .inl (tickAt_of_sources rfl src' h)
      · split_ifs at h
        · refine .inl (tickAt_sessionFree now _ (fun src hsrc hp he => ?_) src' h)
          simp [ShmOp.arms, hsrc, hp, he]
        · exact .inl (tickAt_of_sources rfl src' h)
  | requestClose id =>
    simp only [ShmOp.step, sessionRequestClose] at h
    split at h <;> exact .inl (tickAt_of_sources rfl src' h)
  | setState ufrag slot state =>
    simp only [ShmOp.step, sessionSetState] at h
    split at h <;> exact .inl (tickAt_of_sources rfl src' h)
  | expire now forced =>
    exact .inl (tickAt_expire hc now forced (fun src hsrc hp hal =>
      harms now src rfl hsrc hp hal) src' h)
  | setPublisherSlot b slot =>
    have hm : c.TickAt (c.setPublisherSlot b slot) none none a :=
      tickAt_modify rfl fun _ src _ => ⟨.inl, .inl rfl, .inl rfl⟩
    exact .inl (hm src' h)
  | setStats b stats =>
    have hm : c.TickAt (c.setStats b stats) none none a :=
      tickAt_modify rfl fun _ src _ => ⟨.inl, .inl rfl, .inl rfl⟩
    exact .inl (hm src' h)
  | setStatsSeen b stats now =>
    refine .inl (tickAt_modify rfl (fun hb src _ => ?_) src' h)
    have hclaims : (ShmOp.setStatsSeen b stats now).claims c a = some now := if_pos hb.symm
    rw [hclaims]
    exact ⟨.inl, .inr rfl, .inl rfl⟩
  | retransmitAppend b slab rtp gop =>
    simp only [ShmOp.step, retransmitAppend] at h
    split_ifs at h
    · exact .inl (tickAt_of_sources rfl src' h)
    · split at h
      · exact .inl (tickAt_of_sources rfl src' h)
      · split_ifs at h
        · exact .inl (tickAt_of_sources rfl src' h)
        · refine .inl (tickAt_modify rfl (fun _ src _ => ?_) src' h)
          unfold ShmSource.appendLocked
          dsimp only
          split_ifs
          · exact ⟨.inl, .inl rfl, .inl rfl⟩
          · split <;> exact ⟨.inl, .inl rfl, .inl rfl⟩

/-! ## Bounds of the clock -/

theorem claims_clock {c : ShmCtx} {op : ShmOp} {a now : ℕ} (h : op.claims c a = some now) :
    now = op.clock := by
  cases op with
  | tryPublish t name kind =>
    simp only [ShmOp.claims] at h
    split_ifs at h
    exact (Option.some.inj h).symm
  | setStatsSeen b stats t =>
    simp only [ShmOp.claims] at h
    split_ifs at h
    exact (Option.some.inj h).symm
  | _ => exact nomatch h

theorem sweeps_clock {c : ShmCtx} {op : ShmOp} {now : ℕ} (h : op.sweeps c = some now) :
    now = op.clock := by
  cases op with
  | sourceGet env name =>
    simp only [ShmOp.sweeps] at h
    split_ifs at h
    exact (Option.some.inj h).symm
  | sessionAdd env args =>
    simp only [ShmOp.sweeps] at h
    split_ifs at h
    exact (Option.some.inj h).symm
  | expire t forced => exact (Option.some.inj h).symm
  | _ => cases h

theorem arms_clock {c : ShmCtx} {op : ShmOp} {a now : ℕ} (h : op.arms c a = some now) :
    now = op.clock := by
  cases op with
  | releasePublish t name kind =>
    simp only [ShmOp.arms] at h
    split_ifs at h
    exact (Option.some.inj h).symm
  | removeIfOwner t ufrag slot =>
    simp only [ShmOp.arms] at h
    split_ifs at h
    exact (Option.some.inj h).symm
  | _ =>
    simp only [ShmOp.arms] at h
    exact sweeps_clock (Option.filter_eq_some_iff.1 h).1

/-- No call of the registry has read a time after `t` yet. -/
structure Timely (t : ℕ) (c : ShmCtx) : Prop where
  seen : ∀ a src, c.sources.get a = some src → src.publisherSeenMs ≤ t
  expires : ∀ a src, c.sources.get a = some src → src.expires ≤ t + shmSourceExpireMs
  halfOpen : ∀ b s, c.sessions.get b = some s → s.expires ≤ t + shmSessionExpireMs

theorem Timely.step {t : ℕ} {c : ShmCtx} (hc : c.Shape) (h : c.Timely t) {op : ShmOp}
    (hop : op.clock ≤ t) : (op.step c).Timely t := by
  refine ⟨fun a src' hs' => ?_, fun a src' hs' => ?_, fun b s' hs' => ?_⟩
  · rcases deadline_step hc op hs' with ⟨src, hsrc, htick⟩ | ⟨-, env, name, rfl, rfl⟩
    · rcases htick.seen with he | he
      · exact he.trans_le (h.seen a src hsrc)
      · exact (claims_clock he).trans_le hop
    · exact Nat.zero_le t
  · rcases deadline_step hc op hs' with ⟨src, hsrc, htick⟩ | ⟨-, env, name, rfl, rfl⟩
    · rcases htick.expires with he | he | ⟨now, harm, he⟩
      · exact he.trans_le (h.expires a src hsrc)
      · omega
      · have hnow := arms_clock harm
        omega
    · exact Nat.add_le_add_right hop shmSourceExpireMs
  · rcases c.session_step op with hk | ⟨-, -, hk⟩
    · obtain ⟨s, hs, hev, -⟩ := hk.old b s' hs'
      have hold := h.halfOpen b s hs
      rcases hev.expires with he | he <;> omega
    · rcases hk b s' hs' with ⟨s, hs, hev⟩ | ⟨-, env, args, src, rfl, -, rfl⟩
      · have hold := h.halfOpen b s hs
        rcases hev.expires with he | he <;> omega
      · exact Nat.add_le_add_right hop shmSessionExpireMs

/-- A step of the surviving workers, `d` having stopped: nobody takes the source at `a` over, and no
    grace of the source or of a new skeleton of its stream is started too late to end by `last`. -/
structure Survives (d a last : ℕ) (c : ShmCtx) (op : ShmOp) : Prop where
  others : op.slot? ≠ some d
  unclaimed : op.claims c a = none
  armed : ∀ now, op.arms c a = some now → now + shmSourceExpireMs ≤ last
  added : ∀ env args, op = .sessionAdd env args → c.sourceLookup args.name = some a →
    env.now + shmSessionExpireMs ≤ last

/-- The publisher of the source at `a` was last seen by `t`, and every grace ends by `last`. -/
structure Fading (t a last : ℕ) (c : ShmCtx) : Prop where
  shape : c.Shape
  old : a < c.sources.next
  seen : ∀ src, c.sources.get a = some src → src.publisherSeenMs ≤ t
  expires : ∀ src, c.sources.get a = some src → src.expires ≤ last
  halfOpen : ∀ b s, c.sessions.get b = some s → s.source = a → s.expires ≤ last

/-- Nobody publishes the source at `a`. -/
def Silent (a : ℕ) (c : ShmCtx) : Prop :=
  ∀ src, c.sources.get a = some src → src.publishing = false

section Stop
variable {c : ShmCtx} {d t a last : ℕ} {op : ShmOp}

theorem Fading.tick (h : c.Fading t a last) {src' : ShmSource}
    (hs' : (op.step c).sources.get a = some src') :
    ∃ src, c.sources.get a = some src ∧ src.Ticks (op.claims c a) (op.arms c a) src' := by
  rcases deadline_step h.shape op hs' with hold | ⟨hnext, -⟩
  · exact hold
  · exact absurd h.old (not_lt.2 hnext)

theorem Fading.step (h : c.Fading t a last) (hop : Survives d a last c op) :
    (op.step c).Fading t a last := by
  refine ⟨op.shape_step h.shape, h.old.trans_le (older_step c op).next, fun src' hs' => ?_,
    fun src' hs' => ?_, fun b s' hs' hb => ?_⟩
  · obtain ⟨src, hsrc, htick⟩ := h.tick hs'
    rcases htick.seen with he | he
    · exact he.trans_le (h.seen src hsrc)
    · exact nomatch hop.unclaimed.symm.trans he
  · obtain ⟨src, hsrc, htick⟩ := h.tick hs'
    rcases htick.expires with he | he | ⟨now, harm, he⟩
    · exact he.trans_le (h.expires src hsrc)
    · omega
    · exact he.trans_le (hop.armed now harm)
  · rcases c.session_step op with hk | ⟨-, -, hk⟩
    · obtain ⟨s, hs, hev, -⟩ := hk.old b s' hs'
      have hold := h.halfOpen b s hs (hev.source.symm.trans hb)
      rcases hev.expires with he | he <;> omega
    · rcases hk b s' hs' with ⟨s, hs, hev⟩ | ⟨-, env, args, src, rfl, hl, rfl⟩
      · have hold := h.halfOpen b s hs (hev.source.symm.trans hb)
        rcases hev.expires with he | he <;> omega
      · have hb' : src = a := hb
        subst hb'
        exact hop.added env args rfl hl

theorem Silent.step (h : c.Silent a) (hf : c.Fading t a last) (hop : Survives d a last c op) :
    (op.step c).Silent a := by
  intro src' hs'
  obtain ⟨src, hsrc, htick⟩ := hf.tick hs'
  refine Bool.eq_false_iff.2 fun hp => ?_
  rcases htick.publishing hp with hp' | hclaim
  · exact Bool.false_ne_true ((h src hsrc).symm.trans hp')
  · exact hclaim hop.unclaimed

/-- The last sweep frees a source that only unowned skeletons refer to. -/
theorem Fading.freed (h : c.Fading t a last) (hs : c.Silent a)
    (hrefs : ∀ b s, c.sessions.get b = some s → s.source = a → s.ownerSlot = none) :
    (c.expire last false).sources.get a = none := by
  cases hsrc : c.sources.get a with
  | none =>
    rw [Option.eq_none_iff_forall_ne_some]
    intro src' hs'
    obtain ⟨src, hold, -⟩ := expire_source_some hs'
    exact nomatch hsrc.symm.trans hold
  | some src =>
    refine (h.shape.sweep_frees_iff hsrc).2 ⟨hs src hsrc, ?_, h.expires src hsrc, ?_⟩
    · refine List.eq_nil_iff_forall_not_mem.2 fun b hb => ?_
      obtain ⟨s, hsb, hsa, hl⟩ := h.shape.listed a src b hsrc hb
      exact (h.shape.linked b s hsb hl).1 (hrefs b s hsb hsa)
    · intro b s hsb hsa
      rw [expireSessions_session, Option.filter_eq_some_iff] at hsb
      have hown := hrefs b s hsb.1 hsa
      have hdue : s.halfOpenDue last false = true := by
        simp [ShmSession.halfOpenDue, hown, h.shape.unbound b s hsb.1 hown,
          h.halfOpen b s hsb.1 hsa]
      simp [hdue] at hsb

end Stop

end ShmCtx

/-- The registry after the calls `ops`. -/
abbrev ShmCtx.after (c : ShmCtx) (ops : List ShmOp) : ShmCtx :=
  Lts.run (fun c op => ShmOp.step c op) c ops

end NginxRtc
