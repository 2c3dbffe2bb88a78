/-
  Closing a session, and who publishes its source.

  The local source mirrors the claim of its publisher: tag, flag and cached pointer agree with each
  other in every state a worker can reach (`mirrored_step`).  The close of a session releases the
  claim on the tag of the source alone.

  `close_keeps_owner_iff`: the close of a session leaves the ownership of its source as it was
  exactly when the source is not tagged as published over WHIP; so it does for a player, too.
-/
import NginxRtc.Worker.Acts

namespace NginxRtc

/-! ## Every local source mirrors its claim -/

namespace Worker

def Mirrored (w : Worker) : Prop := ∀ a src, w.sources.get a = some src → src.Mirrored

variable {w w' : Worker}

theorem Mirrored.modifySource (h : w.Mirrored) (a : ℕ) {f : Source → Source}
    (hf : ∀ src, w.sources.get a = some src → src.Mirrored → (f src).Mirrored) :
    (w.modifySource a f).Mirrored := by
  intro b v hv
  simp only [Worker.modifySource, Pool.get_modify] at hv
  split_ifs at hv with hb
  · subst hb
    obtain ⟨src, hsrc, rfl⟩ := Option.map_eq_some_iff.1 hv
    exact hf src hsrc (h b src hsrc)
  · exact h b v hv

theorem Mirrored.drops (h : w.Mirrored) (hd : w.Drops w') : w'.Mirrored := by
  intro a src hsrc
  rcases hd.sources a with he | ⟨hn, -⟩
  · exact h a src (he ▸ hsrc)
  · exact nomatch hn.symm.trans hsrc

theorem Mirrored.sourceRemove (h : w.Mirrored) (name : SourceName) : (w.sourceRemove name).Mirrored :=
  h.drops (drops_sourceRemove w name)

theorem Mirrored.sourceCreate (h : w.Mirrored) (alloc : Bool) (name : SourceName) :
    (w.sourceCreate alloc name).1.Mirrored := by
  unfold Worker.sourceCreate
  split
  · exact h
  · split_ifs
    · intro a src hsrc
      rw [Pool.get_alloc] at hsrc
      split_ifs at hsrc
      · exact Option.some.inj hsrc ▸ Source.fresh_mirrored name
      · exact h a src hsrc
    · exact h

theorem Mirrored.unlink (h : w.Mirrored) (src sess : ℕ) : (w.unlink src sess).Mirrored :=
  h.modifySource src fun _ _ hm => ⟨hm.kind, hm.idle⟩

theorem Mirrored.subscribe (h : w.Mirrored) (src sess : ℕ) : (w.subscribe src sess).Mirrored :=
  h.modifySource src fun _ _ hm => ⟨hm.kind, hm.idle⟩

theorem Mirrored.unsubscribe (h : w.Mirrored) (src sess : ℕ) : (w.unsubscribe src sess).Mirrored := by
  rcases w.unsubscribe_cases src sess with he | ⟨-, hd⟩
  · rwa [he]
  · exact (h.unlink src sess).drops hd

theorem Mirrored.leave (h : w.Mirrored) (a : ℕ) (sess : Session) : (w.leave a sess).Mirrored := by
  unfold Worker.leave
  split
  · exact h
  · exact h.unsubscribe _ a

theorem detach_sources (w : Worker) (closeEv : Bool) (a : ℕ) (sess : Session) :
    (w.detach closeEv a sess).sources = w.sources := by
  unfold Worker.detach
  split <;> rfl

theorem Mirrored.detach (h : w.Mirrored) (closeEv : Bool) (a : ℕ) (sess : Session) :
    (w.detach closeEv a sess).Mirrored := by
  intro b src hsrc
  rw [detach_sources] at hsrc
  exact h b src hsrc

end Worker

theorem Source.Mirrored.of_claim {v v' : Source} (h : v.Mirrored) (hc : v'.claim = v.claim) :
    v'.Mirrored := by
  simp only [Source.claim, SourceClaim.mk.injEq] at hc
  obtain ⟨-, hp, hk, hs, -⟩ := hc
  refine ⟨?_, fun hi => ?_⟩
  · rw [hp, hk]
    exact h.kind
  · rw [hs]
    exact h.idle (hp ▸ hi)

theorem Source.Mirrored.identity {src : Source} (h : src.Mirrored) (vs as : UInt32) (vp ap : UInt8) :
    (src.setIdentity vs as vp ap).Mirrored := ⟨h.kind, h.idle⟩

theorem publishClaim_mirrored (sh : Option ShmCtx) (env : Env) (src : Source)
    (kind : PublisherKind) : (publishClaim sh env src kind).2.1.Mirrored := by
  cases sh with
  | none => exact ⟨rfl, fun _ => rfl⟩
  | some c => exact publishClaimIn_mirrored c env src kind

theorem publishRelease_mirrored (sh : Option ShmCtx) (now : ℕ) {src : Source} (h : src.Mirrored) :
    (publishRelease sh now src).2.Mirrored := by
  unfold publishRelease
  split
  · exact h
  · exact src.unclaimed_mirrored
  · exact h
  · exact publishReleaseIn_mirrored _ now h

theorem streamShmSource_mirrored (sh : Option ShmCtx) (now : ℕ) {src : Source} (h : src.Mirrored) :
    (streamShmSource sh now src).2.1.Mirrored := by
  cases sh with
  | none => exact h
  | some c => exact streamShmSourceIn_mirrored c now h

theorem rtmpSyncShm_mirrored (sh : Option ShmCtx) (slot : ℕ) (env : Env) {src : Source}
    (h : src.Mirrored) : (rtmpSyncShm sh slot env src).2.1.Mirrored := by
  cases sh with
  | none => exact h
  | some c => exact rtmpSyncShmIn_mirrored c slot env h

theorem refreshSnap_mirrored (c : ShmCtx) {src : Source} (h : src.Mirrored) :
    (src.refreshSnap c).Mirrored := by
  unfold Source.refreshSnap
  split_ifs
  · exact ⟨h.kind, h.idle⟩
  · exact h

theorem broadcastRtp_mirrored (c : ShmCtx) (w : Worker) {src : Source} (h : src.Mirrored)
    (rtp : Bytes) (isVideo gop : Bool) : (broadcastRtp c w src rtp isVideo gop).src.Mirrored := by
  have hr := refreshSnap_mirrored c h
  unfold broadcastRtp
  split_ifs
  · exact h
  · exact hr
  · exact ⟨hr.kind, hr.idle⟩

namespace Proc

/-- Every local source mirrors its claim. -/
def Mirrored (p : Proc) : Prop := p.w.Mirrored

variable {p : Proc}

theorem Mirrored.of_sources {p' : Proc} (h : p.Mirrored) (hs : p'.w.sources = p.w.sources) :
    p'.Mirrored := fun a src hsrc => h a src (hs ▸ hsrc)

theorem Mirrored.upd (h : p.Mirrored) {f : Worker → Worker} (hf : (f p.w).sources = p.w.sources) :
    (p.upd f).Mirrored := h.of_sources hf

theorem Mirrored.atSource {β : Type} (h : p.Mirrored) (a : ℕ) (d : β)
    {f : Option ShmCtx → Source → Option ShmCtx × Source × β}
    (hf : ∀ sh src, src.Mirrored → (f sh src).2.1.Mirrored) : (p.atSource a d f).1.Mirrored := by
  unfold Proc.atSource
  split
  · exact h
  · next src hsrc => exact Worker.Mirrored.modifySource h a fun _ _ _ => hf p.sh src (h a src hsrc)

theorem Mirrored.claim (h : p.Mirrored) (env : Env) (a : ℕ) (kind : PublisherKind) :
    (p.claim env a kind).1.Mirrored :=
  h.atSource a _ fun sh src _ => publishClaim_mirrored sh env src kind

theorem Mirrored.release (h : p.Mirrored) (now a : ℕ) : (p.release now a).Mirrored :=
  h.atSource a _ fun sh _ hs => publishRelease_mirrored sh now hs

theorem Mirrored.releaseOwned (h : p.Mirrored) (now : ℕ) (sess : Session) :
    (p.releaseOwned now sess).Mirrored := by
  unfold Proc.releaseOwned
  split
  · exact h
  · split_ifs
    · exact h.release now _
    · exact h

theorem Mirrored.sessionClose (h : p.Mirrored) (now : ℕ) (heap : Heap) (ev : SessionEvent) (a : ℕ) :
    (p.sessionClose now heap ev a).Mirrored := by
  unfold Proc.sessionClose
  split
  · exact h
  · next sess _ =>
    have hd : Mirrored (p.upd fun w => (w.detach heap.closeEv a sess).modifySession a
        (Session.dispatch ev none)) := Worker.Mirrored.detach h heap.closeEv a sess
    exact Worker.Mirrored.leave (hd.releaseOwned now sess) a sess

/-! ### Datagrams -/

theorem Mirrored.attachSource (h : p.Mirrored) (env : Env) (heap : Heap) (snap : SessionSnapshot) :
    (p.attachSource env heap snap).1.Mirrored := by
  unfold Proc.attachSource
  split
  · exact h
  · split
    · exact h
    · next name vs as vp ap _ _ w src created hw =>
      have hc : w.Mirrored := by
        have := Worker.Mirrored.sourceCreate h heap.source name
        rwa [hw] at this
      refine Mirrored.atSource (p := ⟨p.sh, w⟩) hc src () fun sh v hv => ?_
      split
      · exact adoptIn_mirrored ..
      · exact hv.identity ..

theorem Mirrored.attachFromShm (h : p.Mirrored) (env : Env) (heap : Heap) (ufrag : Ufrag) :
    (p.attachFromShm env heap ufrag).1.Mirrored := by
  unfold Proc.attachFromShm
  split
  · exact h
  · split_ifs
    · exact h
    · split
      · exact h
      · exact Mirrored.attachSource (p := ⟨some _, p.w⟩) h env heap _

/-! ### Acts -/

theorem Mirrored.broadcast (h : p.Mirrored) (a : ℕ) (rtp : Bytes) (isVideo gop : Bool) :
    (p.broadcast a rtp isVideo gop).Mirrored := by
  refine h.atSource a () fun sh v hv => ?_
  cases sh with
  | none => exact hv
  | some c => exact broadcastRtp_mirrored c p.w hv rtp isVideo gop

/-- **No act sets a mirror askew.** -/
theorem Mirrored.act {T : ℕ → Prop} {kept : SourceName → Prop} {q : Proc} (h : p.Mirrored)
    (ha : Act T kept p q) : q.Mirrored := by
  cases ha with
  | conns f hsources _ => exact h.of_sources hsources
  | source a f hf =>
    exact Worker.Mirrored.modifySource h a fun v _ hv => hv.of_claim (hf v)
  | subscribe x a _ => exact Worker.Mirrored.subscribe h x a
  | create alloc name => exact Worker.Mirrored.sourceCreate h alloc name
  | remove name => exact Worker.Mirrored.sourceRemove h name
  | broadcast a rtp isVideo gop => exact h.broadcast a rtp isVideo gop
  | claim env a kind _ => exact h.claim env a kind
  | renew now a _ => exact h.atSource a none fun sh _ hv => streamShmSource_mirrored sh now hv
  | sync slot env a _ => exact h.atSource a Rc.error fun sh _ hv => rtmpSyncShm_mirrored sh slot env hv
  | attach env heap ufrag _ => exact h.attachFromShm env heap ufrag
  | release now a _ => exact h.release now a
  | _ => exact h

theorem Mirrored.acts {T : ℕ → Prop} {kept : SourceName → Prop} {q : Proc} (h : p.Mirrored)
    (ha : Acts T kept p q) : q.Mirrored := by
  induction ha with
  | refl => exact h
  | tail _ hq ih => exact ih.act hq

theorem Mirrored.handles {T : ℕ → Prop} {kept : SourceName → Prop} {C : ℕ → Prop} {q : Proc}
    (h : p.Mirrored) (hh : Handles T kept C p q) : q.Mirrored := by
  cases hh with
  | acts ha => exact h.acts ha
  | settles hs =>
    cases hs with
    | calm ha => exact h.acts ha.acts
    | @closes _ ha now heap ev a _ => exact (h.acts ha.acts).sessionClose now heap ev a

theorem mirrored_init (slot : ℕ) (sh : Option ShmCtx) : (init slot sh).Mirrored :=
  fun a _ hsrc => nomatch (Pool.get_empty a).symm.trans hsrc

/-- **Every handler keeps the mirrors consistent.** -/
theorem mirrored_step (e : ProcEvent) (h : p.Mirrored) : (p.step e).Mirrored :=
  h.handles (handles_step p e.timed_any (steady_none p e))

end Proc

/-! ## Ownership -/

/-- Who publishes, as the local source says: tag, flag and cached pointer.  A source that was freed
    has no publisher. -/
def localOwner : Option Source → Option PublisherKind × Bool × Option ℕ
  | none => (none, false, none)
  | some src => (src.publisherKind, src.publishing, src.shmSrc)

/-- Who publishes the name, as the registry says. -/
def sharedOwner (sh : Option ShmCtx) (name : SourceName) : Option (Option PublisherKind × Bool) :=
  sh.bind fun c => (c.source? name).map fun src => (src.publisherKind, src.publishing)

/-- What a local source that is not publishing says, once it is freed. -/
theorem Source.Mirrored.localOwner_idle {src : Source} (h : src.Mirrored)
    (hp : src.publishing = false) : localOwner (some src) = localOwner none := by
  have hk : src.publisherKind = none := by
    have := h.kind
    rw [hp] at this
    simpa using this.symm
  simp only [localOwner, hk, hp, h.idle hp]

theorem Worker.Drops.localOwner {w w' : Worker} (hd : w.Drops w') (h : w.Mirrored) (s : ℕ) :
    localOwner (w'.sources.get s) = localOwner (w.sources.get s) := by
  rcases hd.sources s with he | ⟨hn, hrem⟩
  · rw [he]
  · cases hv : w.sources.get s with
    | none => rw [hn]
    | some v =>
      have hp : v.publishing = false := by
        have := hrem v hv
        simp only [Worker.removable, Bool.and_eq_true, Bool.not_eq_true'] at this
        exact this.1.1.2
      rw [hn, (h s v hv).localOwner_idle hp]

/-- A session that leaves does not change who publishes. -/
theorem Worker.Mirrored.localOwner_leave {w : Worker} (h : w.Mirrored) (a : ℕ) (sess : Session)
    (s : ℕ) : localOwner ((w.leave a sess).sources.get s) = localOwner (w.sources.get s) := by
  unfold Worker.leave
  split
  · rfl
  · next src _ =>
    show localOwner ((w.unsubscribe src a).sources.get s) = _
    rcases w.unsubscribe_cases src a with he | ⟨-, hd⟩
    · rw [he]
    · rw [hd.localOwner (h.unlink src a) s, Worker.unlink, Pool.get_modify]
      split_ifs
      · cases w.sources.get s <;> rfl
      · rfl

/-- Freeing a skeleton does not change who publishes. -/
theorem sharedOwner_removeIfOwner (sh : Option ShmCtx) (now slot : ℕ) (ufrag : Ufrag)
    (name : SourceName) :
    sharedOwner (sh.map fun c => (ShmOp.removeIfOwner now ufrag slot).step c) name =
      sharedOwner sh name := by
  cases sh with
  | none => rfl
  | some c =>
    have hfree : ∀ d, sharedOwner (some (c.sessionFree now d)) name = sharedOwner (some c) name := by
      intro d
      have hl : (c.sessionFree now d).sourceLookup name = c.sourceLookup name := by
        unfold ShmCtx.sessionFree
        split
        · rfl
        · next t _ =>
          refine Pool.find?_modify _ _ fun v => ?_
          have hn : (ShmSource.dropSession now d t v).name = v.name :=
            (ShmSource.shed_dropSession now d t v).name
          rw [hn]
      simp only [sharedOwner, Option.bind_some, ShmCtx.source?, hl]
      cases hlk : c.sourceLookup name with
      | none => rfl
      | some b =>
        have hb := ShmCtx.sheds_sessionFree c now d b
        simp only [Option.bind_some]
        generalize c.sources.get b = o at hb
        generalize (c.sessionFree now d).sources.get b = o' at hb
        cases hb with
        | none => rfl
        | some hshed => simp only [Option.map_some, hshed.kind, hshed.publishing]
    simp only [Option.map_some, ShmOp.step, ShmCtx.sessionRemoveIfOwner]
    split
    · rfl
    · split
      · rfl
      · split_ifs
        · exact hfree _
        · rfl

namespace Proc

variable {p : Proc}

/-- The ownership of the source of the session is the same in `p` and `p'`. -/
def KeepsOwner (p p' : Proc) (sess : Session) : Prop :=
  ∀ s v, sess.source = some s → p.w.sources.get s = some v →
    localOwner (p'.w.sources.get s) = localOwner (some v) ∧
      sharedOwner p'.sh v.name = sharedOwner p.sh v.name

theorem release_get {now s : ℕ} {v : Source} (h : p.w.sources.get s = some v) :
    (p.release now s).w.sources.get s = some (publishRelease p.sh now v).2 := by
  simp only [release, atSource, h, Worker.modifySource, Pool.get_modify_self, Option.map_some]

theorem publishRelease_owner (sh : Option ShmCtx) (now : ℕ) {v : Source} {kind : PublisherKind}
    (h : v.publisherKind = some kind) :
    localOwner (some (publishRelease sh now v).2) = (none, false, none) := by
  cases sh with
  | none => simp only [publishRelease, h]; rfl
  | some c => simp only [publishRelease, publishReleaseIn, h]; rfl

theorem detach_others (w : Worker) (closeEv : Bool) {a b : ℕ} (hb : b ≠ a) (sess : Session) :
    (w.detach closeEv a sess).sessions.get b = w.sessions.get b := by
  unfold Worker.detach
  split
  · rfl
  · exact Pool.get_modify_of_ne hb _

theorem sessionClose_none {a : ℕ} (hget : p.w.sessions.get a = none) (now : ℕ) (heap : Heap)
    (ev : SessionEvent) : p.sessionClose now heap ev a = p := by
  simp only [sessionClose, hget]

/-- What a close does once the session is detached, which touches no source and no other session. -/
theorem sessionClose_eq {a : ℕ} {sess : Session} (hget : p.w.sessions.get a = some sess) (now : ℕ)
    (heap : Heap) (ev : SessionEvent) :
    ∃ w : Worker, w.sources = p.w.sources ∧
      (∀ b, b ≠ a → w.sessions.get b = p.w.sessions.get b) ∧
      p.sessionClose now heap ev a = ((releaseOwned ⟨p.sh, w⟩ now sess).upd fun w =>
        w.leave a sess).call (.removeIfOwner now sess.iceUfrag p.w.slot) := by
  refine ⟨(p.w.detach heap.closeEv a sess).modifySession a (Session.dispatch ev none),
    Worker.detach_sources .., fun b hb => ?_, ?_⟩
  · exact (Pool.get_modify_of_ne hb _).trans (detach_others p.w heap.closeEv hb sess)
  · simp only [sessionClose, hget, upd]

/-- The local ownership after a close: that after the release, if there was one. -/
theorem sessionClose_localOwner (hm : p.Mirrored) {now a : ℕ} {heap : Heap} {ev : SessionEvent}
    {sess : Session} (hget : p.w.sessions.get a = some sess) {s : ℕ} {v : Source}
    (hs : sess.source = some s) (hv : p.w.sources.get s = some v) :
    localOwner ((p.sessionClose now heap ev a).w.sources.get s) =
      if v.publisherKind = some .whip then (none, false, none) else localOwner (some v) := by
  obtain ⟨w, hsrc, -, he⟩ := sessionClose_eq hget now heap ev
  have h₁ : Mirrored ⟨p.sh, w⟩ := hm.of_sources hsrc
  have hv₁ : w.sources.get s = some v := by rw [hsrc, hv]
  rw [he]
  show localOwner (((releaseOwned ⟨p.sh, w⟩ now sess).w.leave a sess).sources.get s) = _
  rw [Worker.Mirrored.localOwner_leave (h₁.releaseOwned now sess)]
  simp only [releaseOwned, hs, kindAt, hv₁, Option.bind_some]
  split_ifs with hk
  · rw [release_get hv₁, publishRelease_owner _ _ hk]
  · rw [hv₁]

theorem sessionClose_sharedOwner {now a : ℕ} {heap : Heap} {ev : SessionEvent} {sess : Session}
    (hget : p.w.sessions.get a = some sess) {s : ℕ} {v : Source} (hs : sess.source = some s)
    (hv : p.w.sources.get s = some v) (hk : v.publisherKind ≠ some .whip) (name : SourceName) :
    sharedOwner (p.sessionClose now heap ev a).sh name = sharedOwner p.sh name := by
  obtain ⟨w, hsrc, -, he⟩ := sessionClose_eq hget now heap ev
  have hv₁ : w.sources.get s = some v := by rw [hsrc, hv]
  simp only [he, call, upd]
  rw [sharedOwner_removeIfOwner]
  simp only [releaseOwned, hs, kindAt, hv₁, Option.bind_some, if_neg hk]

/-- **The close of a session**, of a player as of a publisher, keeps the ownership of its source
    exactly when the source is not tagged as published over WHIP. -/
theorem close_keeps_owner_iff {slot : ℕ} {sh : Option ShmCtx} {p : Proc}
    (h : Lts.Reachable step (init slot sh) p) {a : ℕ} {sess : Session}
    (hget : p.w.sessions.get a = some sess) (now : ℕ) (heap : Heap) (ev : SessionEvent) :
    KeepsOwner p (p.sessionClose now heap ev a) sess ↔ sess.source.bind p.kindAt ≠ some .whip := by
  have hm : p.Mirrored :=
    h.induction (P := Mirrored) (mirrored_init slot sh) fun _ e hp => mirrored_step e hp
  constructor
  · intro hkeep hk
    obtain ⟨s, hs, hkind⟩ := Option.bind_eq_some_iff.1 hk
    obtain ⟨v, hv, hkv⟩ := Option.bind_eq_some_iff.1 hkind
    have hlocal := (hkeep s v hs hv).1
    rw [sessionClose_localOwner hm hget hs hv, if_pos hkv] at hlocal
    have hfst : none = v.publisherKind := congrArg Prod.fst hlocal
    exact nomatch hfst.trans hkv
  · intro hk s v hs hv
    have hkv : v.publisherKind ≠ some .whip := fun he =>
      hk (by rw [hs, Option.bind_some, kindAt, hv, Option.bind_some, he])
    rw [sessionClose_localOwner hm hget hs hv, if_neg hkv]
    exact ⟨rfl, sessionClose_sharedOwner hget hs hv hkv v.name⟩

/-- A player, and then a WHIP publisher of the same stream, on worker 0 at time 5. -/
def samplePlayerAndPublisher : Proc :=
  Lts.run step (init 0 (some (ShmCtx.init 1 []))) [.play (sampleRequest 1), .whip (sampleRequest 2)]

/-- The close of a player of a stream that nobody publishes. -/
theorem close_keeps_owner_idle :
    ∃ sess, (Lts.run step (init 0 (some (ShmCtx.init 1 [])))
        [.play (sampleRequest 1)]).w.sessions.get 0 = some sess ∧
      KeepsOwner (Lts.run step (init 0 (some (ShmCtx.init 1 []))) [.play (sampleRequest 1)])
        ((Lts.run step (init 0 (some (ShmCtx.init 1 [])))
          [.play (sampleRequest 1)]).sessionClose 9 Heap.ample .rtcpBye 0) sess :=
  ⟨_, rfl, (close_keeps_owner_iff ⟨_, rfl⟩ rfl 9 Heap.ample .rtcpBye).2 (by decide)⟩

/-- A player of a stream published over WHIP on the same worker leaves: the stream is no longer
    published, in the worker or in the registry. -/
theorem close_player_ends_publish :
    ∃ sess, samplePlayerAndPublisher.w.sessions.get 0 = some sess ∧ sess.publishing = false ∧
      sharedOwner samplePlayerAndPublisher.sh sampleName = some (some .whip, true) ∧
      sharedOwner (samplePlayerAndPublisher.sessionClose 9 Heap.ample .rtcpBye 0).sh sampleName =
        some (none, false) ∧
      ¬ KeepsOwner samplePlayerAndPublisher
        (samplePlayerAndPublisher.sessionClose 9 Heap.ample .rtcpBye 0) sess := by
  refine ⟨_, rfl, rfl, by decide, by decide, fun h => ?_⟩
  exact absurd (h 0 _ rfl rfl).2 (by decide)

end Proc

end NginxRtc
