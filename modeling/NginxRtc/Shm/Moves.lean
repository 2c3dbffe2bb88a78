/-
  What the critical sections of the registry do to it.

  `Move c c'` lists the elementary changes: rewriting or freeing sources in place, adding a
  source, rewriting a skeleton in place, linking a skeleton into the subscribers of its source,
  and freeing a skeleton.  Adding a skeleton and recording the publisher's slot stand apart, as
  `addSkeleton` and `setPublisherSlot`: the first may refer to a source that is gone, the second
  changes which viewers count as remote.

  `ShmOp` are the calls workers make, `ShmOp.step` their effect.  `step_moves`: every call but
  those two is a sequence of moves; `sessionAdd_moves`: `session_add` is a sequence of moves,
  followed by adding the skeleton when memory was found.
-/
import Mathlib.Logic.Relation
import NginxRtc.Shm.Sweep

namespace NginxRtc

/-! ## Sources in place -/

/-- The publish flag, its owner tag and the deadline of a source agree. -/
structure ShmSource.Ok (src : ShmSource) : Prop where
  kind : src.publishing = src.publisherKind.isSome
  held : src.publishing = true → src.expires = 0
  idle : src.publishing = false → src.subscribers = [] → src.expires ≠ 0

/-- A rewrite of a source that leaves its name and its viewers alone. -/
structure ShmSource.Frame (src src' : ShmSource) : Prop where
  name : src'.name = src.name
  slot : src'.publisherSlot = src.publisherSlot
  subscribers : src'.subscribers = src.subscribers
  version : src'.subscribersVersion = src.subscribersVersion
  remote : src'.remoteSubscribers = src.remoteSubscribers
  ok : src.Ok → src'.Ok

theorem ShmSource.Frame.refl (src : ShmSource) : src.Frame src :=
  ⟨rfl, rfl, rfl, rfl, rfl, id⟩

theorem ShmSource.Frame.trans {s t u : ShmSource} (h : s.Frame t) (h' : t.Frame u) : s.Frame u where
  name := h'.name.trans h.name
  slot := h'.slot.trans h.slot
  subscribers := h'.subscribers.trans h.subscribers
  version := h'.version.trans h.version
  remote := h'.remote.trans h.remote
  ok := h'.ok ∘ h.ok

theorem ShmSource.fresh_ok (env : Env) (name : SourceName) : (ShmSource.fresh env name).Ok :=
  ⟨rfl, fun h => Bool.noConfusion h, fun _ _ => by simp [ShmSource.fresh, shmSourceExpireMs]⟩

theorem ShmSource.frame_reapPublisher (now : ℕ) (src : ShmSource) :
    src.Frame (src.reapPublisher now) := by
  refine ⟨rfl, rfl, rfl, rfl, rfl, fun _ => ⟨rfl, fun h => Bool.noConfusion h, fun _ _ => ?_⟩⟩
  show (if src.expires = 0 then now + 10000 else src.expires) ≠ 0
  split_ifs with h <;> omega

theorem ShmSource.armGrace_subscribers (now : ℕ) (src : ShmSource) :
    (src.armGrace now).subscribers = src.subscribers := by
  unfold ShmSource.armGrace; split_ifs <;> rfl

theorem ShmSource.frame_armGrace (now : ℕ) (src : ShmSource) : src.Frame (src.armGrace now) := by
  unfold ShmSource.armGrace
  split_ifs with h
  · refine ⟨rfl, rfl, rfl, rfl, rfl, fun hs => ⟨hs.kind, fun hp => ?_, fun _ _ => ?_⟩⟩
    · exact absurd (h.2.1.symm.trans hp) Bool.false_ne_true
    · simp [shmSourceExpireMs]
  · exact .refl src

theorem ShmSource.armGrace_ok {now : ℕ} {src : ShmSource}
    (kind : src.publishing = src.publisherKind.isSome)
    (held : src.publishing = true → src.expires = 0) : (src.armGrace now).Ok := by
  unfold ShmSource.armGrace
  split_ifs with h
  · refine ⟨kind, fun hp => absurd (h.2.1.symm.trans hp) Bool.false_ne_true, fun _ _ => ?_⟩
    simp [shmSourceExpireMs]
  · exact ⟨kind, held, fun hp hs he => h ⟨hs, hp, he⟩⟩

theorem ShmSource.frame_settled (now : ℕ) (src : ShmSource) : src.Frame (src.settled now) := by
  unfold ShmSource.settled
  split_ifs
  · exact src.frame_reapPublisher now
  · exact .refl src

/-- What a sweep keeps it frames. -/
theorem ShmSource.expireStep_some {now : ℕ} {forced referenced : Bool} {src src' : ShmSource}
    (h : src.expireStep now forced referenced = some src') : src.Frame src' := by
  unfold ShmSource.expireStep at h
  split_ifs at h with halive hsubs hdue
  · exact Option.some.inj h ▸ .refl src
  · exact Option.some.inj h ▸ src.frame_settled now
  · exact Option.some.inj h ▸ src.frame_settled now

theorem ShmSource.frame_appendLocked (slab : Bool) (rtp : Bytes) (gop : Bool)
    (src : ShmSource) : src.Frame (src.appendLocked slab rtp gop) := by
  unfold ShmSource.appendLocked
  dsimp only
  split_ifs
  · exact ⟨rfl, rfl, rfl, rfl, rfl, fun h => ⟨h.kind, h.held, h.idle⟩⟩
  · split <;> exact ⟨rfl, rfl, rfl, rfl, rfl, fun h => ⟨h.kind, h.held, h.idle⟩⟩

/-! ## Skeletons in place -/

/-- A rewrite of a skeleton that keeps its identity and its links; an owner, once set, stays. -/
structure ShmSession.Frame (s s' : ShmSession) : Prop where
  source : s'.source = s.source
  linked : s'.subLinked = s.subLinked
  id : s'.id = s.id
  ufrag : s'.iceUfrag = s.iceUfrag
  publishing : s'.publishing = s.publishing
  owner : ∀ w, s.ownerSlot = some w → s'.ownerSlot = some w
  unbound : s'.ownerSlot = none → s'.expires = s.expires
  ready : s.srtpReady = true → s'.srtpReady = true

theorem ShmSession.frame_bound {slot : ℕ} {s : ShmSession} (h : s.ownableBy slot = true) :
    s.Frame { s with ownerSlot := some slot } := by
  refine ⟨rfl, rfl, rfl, rfl, rfl, fun w hw => ?_, (nomatch ·), fun h => h⟩
  simpa [ShmSession.ownableBy, hw, eq_comm] using h

theorem ShmSession.frame_activated {slot : ℕ} {s : ShmSession} (h : s.ownableBy slot = true) :
    s.Frame (s.activated slot) :=
  ⟨rfl, rfl, rfl, rfl, rfl, (ShmSession.frame_bound h).owner, (nomatch ·),
    fun _ => rfl⟩

namespace ShmCtx

/-! ## Elementary changes -/

inductive Move : ShmCtx → ShmCtx → Prop
  /-- Rewrite every source in place, or free it when it is empty and unreferenced. -/
  | sources (c : ShmCtx) (f : ℕ → ShmSource → Option ShmSource)
      (free : ∀ a src, c.sources.get a = some src → f a src = none →
        src.subscribers = [] ∧ c.sourceReferenced a = false)
      (keep : ∀ a src src', c.sources.get a = some src → f a src = some src' → src.Frame src') :
      Move c { c with sources := c.sources.sweep f }
  | newSource (c : ShmCtx) (env : Env) (name : SourceName) (absent : c.sourceLookup name = none) :
      Move c (c.addSource env name)
  | session (c : ShmCtx) (a : ℕ) (f : ShmSession → ShmSession)
      (keep : ∀ s, c.sessions.get a = some s → s.Frame (f s)) :
      Move c { c with sessions := c.sessions.modify a f }
  | link (c : ShmCtx) (a slot : ℕ) (s : ShmSession) (get : c.sessions.get a = some s)
      (own : s.ownableBy slot = true) (player : s.publishing = false)
      (fresh : s.subLinked = false) :
      Move c { c with
        sessions := c.sessions.modify a (ShmSession.subscribed slot)
        sources := c.sources.modify s.source (ShmSource.link a (some slot)) }
  | drop (c : ShmCtx) (now a : ℕ) : Move c (c.sessionFree now a)

/-- A sequence of elementary changes. -/
abbrev Moves : ShmCtx → ShmCtx → Prop := Relation.ReflTransGen Move

theorem moves_refl (c : ShmCtx) : Moves c c := Relation.ReflTransGen.refl

theorem Move.moves {c c' : ShmCtx} (h : Move c c') : Moves c c' := Relation.ReflTransGen.single h

theorem move_modify {c : ShmCtx} {a : ℕ} {f : ShmSource → ShmSource}
    (h : ∀ src, c.sources.get a = some src → src.Frame (f src)) :
    Move c { c with sources := c.sources.modify a f } := by
  refine .sources c (fun b v => some (if b = a then f v else v))
    (fun _ _ _ hn => nomatch hn) fun b src src' hb hs => ?_
  obtain rfl := Option.some.inj hs
  split_ifs with hba
  · exact h src (hba ▸ hb)
  · exact .refl src

theorem move_free {c : ShmCtx} {a : ℕ} {src : ShmSource} (hget : c.sources.get a = some src)
    (hsubs : src.subscribers = []) (href : c.sourceReferenced a = false) :
    Move c { c with sources := c.sources.free a } := by
  refine .sources c (fun b v => if b = a then none else some v) (fun b s hb hn => ?_)
    fun b s s' hb hs => ?_
  · split_ifs at hn with hba
    subst hba
    obtain rfl := Option.some.inj (hget.symm.trans hb)
    exact ⟨hsubs, href⟩
  · split_ifs at hs
    exact Option.some.inj hs ▸ .refl s

/-! ## Sweeps -/

theorem moves_expireSession (c : ShmCtx) (now : ℕ) (forced : Bool) (a : ℕ) :
    Moves c (expireSession now forced c a) := by
  unfold expireSession
  split
  · exact moves_refl c
  · split_ifs
    · exact (Move.drop c now a).moves
    · exact moves_refl c

theorem moves_foldl_expireSession (now : ℕ) (forced : Bool) (as : List ℕ) (c : ShmCtx) :
    Moves c (as.foldl (expireSession now forced) c) := by
  induction as generalizing c with
  | nil => exact moves_refl c
  | cons a as ih => exact (moves_expireSession c now forced a).trans (ih _)

theorem move_expireSources (c : ShmCtx) (now : ℕ) (forced : Bool) :
    Move c (c.expireSources now forced) := by
  refine .sources c _ (fun a src _ hn => ?_) fun a src src' _ hs => ShmSource.expireStep_some hs
  have h := ShmSource.expireStep_none hn
  exact h.2

theorem moves_expire (c : ShmCtx) (now : ℕ) (forced : Bool) : Moves c (c.expire now forced) :=
  (moves_foldl_expireSession now forced _ c).tail (move_expireSources _ now forced)

theorem moves_slabAlloc (c : ShmCtx) (env : Env) : Moves c (c.slabAlloc env).1 := by
  unfold slabAlloc
  split_ifs
  · exact moves_refl c
  · exact moves_expire c env.now true

/-! ## The calls -/

theorem moves_modifySource {c : ShmCtx} {name : SourceName} {f : ShmSource → ShmSource}
    (h : ∀ src, c.source? name = some src → src.Frame (f src)) : Moves c (c.modifySource name f) := by
  unfold modifySource
  split
  · exact moves_refl c
  · next a ha =>
    refine (move_modify fun src hsrc => h src ?_).moves
    rw [source?, ha, Option.bind_some, hsrc]

theorem sourceLookup_eq_none {c : ShmCtx} {name : SourceName} :
    c.sourceLookup name = none ↔ ∀ a src, c.sources.get a = some src → src.name ≠ name := by
  simp only [sourceLookup, Pool.find?_eq_none, decide_eq_false_iff_not, ne_eq]

theorem sourceLookup_spec {c : ShmCtx} {name : SourceName} {a : ℕ}
    (h : c.sourceLookup name = some a) : ∃ src, c.sources.get a = some src ∧ src.name = name := by
  obtain ⟨src, hsrc, hn⟩ := Pool.find?_spec h
  exact ⟨src, hsrc, of_decide_eq_true hn⟩

/-- A sweep brings no name back. -/
theorem sourceLookup_slabAlloc {c : ShmCtx} {name : SourceName} (h : c.sourceLookup name = none)
    (env : Env) : (c.slabAlloc env).1.sourceLookup name = none := by
  unfold slabAlloc
  split_ifs
  · exact h
  · refine sourceLookup_eq_none.2 fun a src hsrc => ?_
    obtain ⟨t, ht, hs⟩ := expire_source_some hsrc
    exact hs.name ▸ sourceLookup_eq_none.1 h a t ht

theorem moves_sourceGet (c : ShmCtx) (env : Env) (name : SourceName) :
    Moves c (c.sourceGet env name).1 := by
  unfold sourceGet
  split
  · exact moves_refl c
  · next ha =>
    split_ifs with hslab
    · exact (moves_slabAlloc c env).tail (.newSource _ env name (sourceLookup_slabAlloc ha env))
    · exact moves_slabAlloc c env

theorem moves_sourceRemove (c : ShmCtx) (name : SourceName) : Moves c (c.sourceRemove name) := by
  unfold sourceRemove
  split
  · exact moves_refl c
  · split
    · exact moves_refl c
    · next src hsrc =>
      split_ifs with hsubs hpub href
      · exact moves_refl c
      · exact moves_refl c
      · exact moves_refl c
      · exact (move_free hsrc (not_not.1 hsubs) (Bool.eq_false_iff.2 href)).moves

theorem moves_sourceTryPublish (c : ShmCtx) (now : ℕ) (name : SourceName) (kind : PublisherKind) :
    Moves c (c.sourceTryPublish now name kind).1 := by
  unfold sourceTryPublish
  split
  · exact moves_refl c
  · split_ifs
    · exact moves_refl c
    · exact moves_modifySource fun src _ =>
        ⟨rfl, rfl, rfl, rfl, rfl, fun _ => ⟨rfl, fun _ => rfl, (nomatch ·)⟩⟩

theorem moves_sourceReleasePublish (c : ShmCtx) (now : ℕ) (name : SourceName)
    (kind : PublisherKind) : Moves c (c.sourceReleasePublish now name kind) := by
  unfold sourceReleasePublish
  split
  · exact moves_refl c
  · split_ifs
    · exact moves_refl c
    · refine moves_modifySource fun src _ =>
        ⟨rfl, rfl, rfl, rfl, rfl, fun _ => ⟨rfl, (nomatch ·), fun _ hs => ?_⟩⟩
      show (if src.subscribers ≠ [] then 0 else if src.expires = 0 then now + 10000 else src.expires) ≠ 0
      rw [if_neg (not_not.2 hs)]
      split_ifs with h <;> omega

theorem moves_sourceSetPt (c : ShmCtx) (name : SourceName) (videoPt audioPt : UInt8) :
    Moves c (c.sourceSetPt name videoPt audioPt) :=
  moves_modifySource fun _ _ =>
    ⟨rfl, rfl, rfl, rfl, rfl, fun h => ⟨h.kind, h.held, h.idle⟩⟩

theorem moves_sourceSetSsrc (c : ShmCtx) (name : SourceName) (videoSsrc audioSsrc : UInt32) :
    Moves c (c.sourceSetSsrc name videoSsrc audioSsrc) :=
  moves_modifySource fun _ _ =>
    ⟨rfl, rfl, rfl, rfl, rfl, fun h => ⟨h.kind, h.held, h.idle⟩⟩

theorem moves_sessionBind (c : ShmCtx) (ufrag : Ufrag) (slot : ℕ) :
    Moves c (c.sessionBind ufrag slot).1 := by
  unfold sessionBind
  split
  · exact moves_refl c
  · split
    · exact moves_refl c
    · next sess hsess =>
      split_ifs with hown
      · refine (Move.session c _ _ fun s hs => ?_).moves
        obtain rfl := Option.some.inj (hsess.symm.trans hs)
        exact ShmSession.frame_bound hown
      · exact moves_refl c

theorem moves_sessionActivate (c : ShmCtx) (ufrag : Ufrag) (slot : ℕ) :
    Moves c (c.sessionActivate ufrag slot).1 := by
  unfold sessionActivate
  split
  · exact moves_refl c
  · split
    · exact moves_refl c
    · next sess hsess =>
      split_ifs with hown hlink
      · exact moves_refl c
      · refine (Move.session c _ _ fun s hs => ?_).moves
        obtain rfl := Option.some.inj (hsess.symm.trans hs)
        exact ShmSession.frame_activated (by simpa using hown)
      · rw [Bool.or_eq_true, not_or, Bool.not_eq_true, Bool.not_eq_true] at hlink
        exact (Move.link c _ slot sess hsess (by simpa using hown) hlink.1 hlink.2).moves

theorem moves_sessionRemoveIfOwner (c : ShmCtx) (now : ℕ) (ufrag : Ufrag) (slot : ℕ) :
    Moves c (c.sessionRemoveIfOwner now ufrag slot) := by
  unfold sessionRemoveIfOwner
  split
  · exact moves_refl c
  · split
    · exact moves_refl c
    · split_ifs
      · exact (Move.drop c now _).moves
      · exact moves_refl c

theorem moves_sessionRequestClose (c : ShmCtx) (id : ℕ) : Moves c (c.sessionRequestClose id).1 := by
  unfold sessionRequestClose
  split
  · exact moves_refl c
  · refine (Move.session c _ _ fun s _ => ?_).moves
    exact ⟨rfl, rfl, rfl, rfl, rfl, fun _ h => h, fun _ => rfl, fun h => h⟩

theorem moves_sessionSetState (c : ShmCtx) (ufrag : Ufrag) (slot : ℕ) (state : SessionState) :
    Moves c (c.sessionSetState ufrag slot state) := by
  unfold sessionSetState
  split
  · exact moves_refl c
  · refine (Move.session c _ _ fun s _ => ?_).moves
    split_ifs <;> exact ⟨rfl, rfl, rfl, rfl, rfl, fun _ h => h, fun _ => rfl, fun h => h⟩

theorem moves_setStats (c : ShmCtx) (a : ℕ) (stats : MediaStats) :
    Moves c (c.setStats a stats) := by
  refine (move_modify fun _ _ => ?_).moves
  exact ⟨rfl, rfl, rfl, rfl, rfl, fun h => ⟨h.kind, h.held, h.idle⟩⟩

theorem moves_setStatsSeen (c : ShmCtx) (a : ℕ) (stats : MediaStats) (now : ℕ) :
    Moves c (c.setStatsSeen a stats now) := by
  refine (move_modify fun _ _ => ?_).moves
  exact ⟨rfl, rfl, rfl, rfl, rfl, fun h => ⟨h.kind, h.held, h.idle⟩⟩

theorem moves_retransmitAppend (c : ShmCtx) (a : ℕ) (slab : Bool) (rtp : Bytes) (gop : Bool) :
    Moves c (c.retransmitAppend a slab rtp gop) := by
  unfold retransmitAppend
  split_ifs
  · exact moves_refl c
  · split
    · exact moves_refl c
    · split_ifs
      · exact moves_refl c
      · exact (move_modify fun src _ => src.frame_appendLocked slab rtp gop).moves

/-- `session_add` sweeps when memory is short, and adds the skeleton when some is found. -/
theorem sessionAdd_cases (c : ShmCtx) (env : Env) (args : SessionArgs) :
    (c.sessionAdd env args).1 = c ∨ (c.sessionAdd env args).1 = (c.slabAlloc env).1 ∨
      ∃ src, c.sourceLookup args.name = some src ∧ (c.slabAlloc env).2 = true ∧
        (c.sessionAdd env args).1 = (c.slabAlloc env).1.addSkeleton env.now src args := by
  unfold sessionAdd
  split
  · exact .inl rfl
  · next src hsrc =>
    split_ifs with hslab
    · exact .inr (.inr ⟨src, hsrc, hslab, rfl⟩)
    · exact .inr (.inl rfl)

end ShmCtx

/-! ## Steps -/

/-- The calls of any number of workers, each one critical section or one lock-free write. -/
inductive ShmOp where
  | sourceGet (env : Env) (name : SourceName)
  | sourceRemove (name : SourceName)
  | tryPublish (now : ℕ) (name : SourceName) (kind : PublisherKind)
  | releasePublish (now : ℕ) (name : SourceName) (kind : PublisherKind)
  | setPt (name : SourceName) (videoPt audioPt : UInt8)
  | setSsrc (name : SourceName) (videoSsrc audioSsrc : UInt32)
  | sessionAdd (env : Env) (args : SessionArgs)
  | bind (ufrag : Ufrag) (slot : ℕ)
  | activate (ufrag : Ufrag) (slot : ℕ)
  | removeIfOwner (now : ℕ) (ufrag : Ufrag) (slot : ℕ)
  | requestClose (id : ℕ)
  | setState (ufrag : Ufrag) (slot : ℕ) (state : SessionState)
  | expire (now : ℕ) (forced : Bool)
  | setPublisherSlot (a slot : ℕ)
  | setStats (a : ℕ) (stats : MediaStats)
  | setStatsSeen (a : ℕ) (stats : MediaStats) (now : ℕ)
  | retransmitAppend (a : ℕ) (slab : Bool) (rtp : Bytes) (gop : Bool)

def ShmOp.step (c : ShmCtx) : ShmOp → ShmCtx
  | .sourceGet env name => (c.sourceGet env name).1
  | .sourceRemove name => c.sourceRemove name
  | .tryPublish now name kind => (c.sourceTryPublish now name kind).1
  | .releasePublish now name kind => c.sourceReleasePublish now name kind
  | .setPt name videoPt audioPt => c.sourceSetPt name videoPt audioPt
  | .setSsrc name videoSsrc audioSsrc => c.sourceSetSsrc name videoSsrc audioSsrc
  | .sessionAdd env args => (c.sessionAdd env args).1
  | .bind ufrag slot => (c.sessionBind ufrag slot).1
  | .activate ufrag slot => (c.sessionActivate ufrag slot).1
  | .removeIfOwner now ufrag slot => c.sessionRemoveIfOwner now ufrag slot
  | .requestClose id => (c.sessionRequestClose id).1
  | .setState ufrag slot state => c.sessionSetState ufrag slot state
  | .expire now forced => c.expire now forced
  | .setPublisherSlot a slot => c.setPublisherSlot a slot
  | .setStats a stats => c.setStats a stats
  | .setStatsSeen a stats now => c.setStatsSeen a stats now
  | .retransmitAppend a slab rtp gop => c.retransmitAppend a slab rtp gop

/-- The registry `ngx_rtc_core_init_zone` sets up. -/
def ShmCtx.init (nworkers : ℕ) (rings : List (Option MediaRing)) : ShmCtx :=
  ⟨Pool.empty, Pool.empty, rings, 1, nworkers⟩

/-- **Every call is a sequence of moves**, `session_add` and the slot write apart. -/
theorem ShmOp.step_moves (c : ShmCtx) (op : ShmOp) :
    c.Moves (op.step c) ∨ (∃ env args, op = .sessionAdd env args) ∨
      ∃ a slot, op = .setPublisherSlot a slot := by
  cases op with
  | sourceGet env name => exact .inl (c.moves_sourceGet env name)
  | sourceRemove name => exact .inl (c.moves_sourceRemove name)
  | tryPublish now name kind => exact .inl (c.moves_sourceTryPublish now name kind)
  | releasePublish now name kind => exact .inl (c.moves_sourceReleasePublish now name kind)
  | setPt name videoPt audioPt => exact .inl (c.moves_sourceSetPt name videoPt audioPt)
  | setSsrc name videoSsrc audioSsrc => exact .inl (c.moves_sourceSetSsrc name videoSsrc audioSsrc)
  | sessionAdd env args => exact .inr (.inl ⟨env, args, rfl⟩)
  | bind ufrag slot => exact .inl (c.moves_sessionBind ufrag slot)
  | activate ufrag slot => exact .inl (c.moves_sessionActivate ufrag slot)
  | removeIfOwner now ufrag slot => exact .inl (c.moves_sessionRemoveIfOwner now ufrag slot)
  | requestClose id => exact .inl (c.moves_sessionRequestClose id)
  | setState ufrag slot state => exact .inl (c.moves_sessionSetState ufrag slot state)
  | expire now forced => exact .inl (c.moves_expire now forced)
  | setPublisherSlot a slot => exact .inr (.inr ⟨a, slot, rfl⟩)
  | setStats a stats => exact .inl (c.moves_setStats a stats)
  | setStatsSeen a stats now => exact .inl (c.moves_setStatsSeen a stats now)
  | retransmitAppend a slab rtp gop => exact .inl (c.moves_retransmitAppend a slab rtp gop)

end NginxRtc
