/-
  Handlers that leave sessions and skeletons alone.

  `Proc.Quiet p q`: between `p` and `q` no session of the worker came, went or changed its user name,
  its state or its DTLS context, and no skeleton is new or written to.  Publishing, media, and the
  source side of all requests are of this kind.

  `Has.run`: a property of the registry that no call breaks, no handler breaks.
-/
import NginxRtc.Shm.Edit
import NginxRtc.Worker.Acts

namespace NginxRtc

/-- Of a session: its user name, its state, and its DTLS context. -/
def Session.face (s : Session) : Ufrag × SessionState × Option Bool := (s.iceUfrag, s.fsm, s.dtls)

theorem Session.face_eq {s t : Session} (h : s.face = t.face) :
    s.iceUfrag = t.iceUfrag ∧ s.fsm = t.fsm ∧ s.dtls = t.dtls :=
  ⟨congrArg Prod.fst h, congrArg (fun f => f.2.1) h, congrArg (fun f => f.2.2) h⟩

/-- No skeleton is new or written to. -/
def ThinSh (sh sh' : Option ShmCtx) : Prop := ∀ c', sh' = some c' → ∃ c, sh = some c ∧ c.Thins c'

theorem ThinSh.refl (sh : Option ShmCtx) : ThinSh sh sh := fun c h => ⟨c, h, .refl c⟩

theorem ThinSh.trans {sh sh' sh'' : Option ShmCtx} (h : ThinSh sh sh') (h' : ThinSh sh' sh'') :
    ThinSh sh sh'' := fun e he => by
  obtain ⟨d, hd, hde⟩ := h' e he
  obtain ⟨c, hc, hcd⟩ := h d hd
  exact ⟨c, hc, hcd.trans hde⟩

theorem thinSh_some {c c' : ShmCtx} (h : c.Thins c') : ThinSh (some c) (some c') := fun _ he =>
  ⟨c, rfl, Option.some.inj he ▸ h⟩

theorem thinSh_call (sh : Option ShmCtx) {op : ShmOp} (hop : op.thins = true) :
    ThinSh sh (sh.map fun c => op.step c) := fun c' h => by
  obtain ⟨c, hc, rfl⟩ := Option.map_eq_some_iff.1 h
  exact ⟨c, hc, c.thins_step hop⟩

/-! ## Calls on a local source -/

theorem thinSh_publishClaim (sh : Option ShmCtx) (env : Env) (v : Source) (kind : PublisherKind) :
    ThinSh sh (publishClaim sh env v kind).1 := by
  cases sh with
  | none => exact .refl none
  | some c =>
    refine thinSh_some ?_
    rw [publishClaimIn_sh]
    exact c.thins_sourceTryPublish env.now v.name kind

theorem thinSh_publishRelease (sh : Option ShmCtx) (now : ℕ) (v : Source) :
    ThinSh sh (publishRelease sh now v).1 := by
  unfold publishRelease publishReleaseIn
  split
  · exact .refl none
  · exact .refl none
  · exact .refl _
  · next c kind hk =>
    rw [hk]
    exact thinSh_some ((c.thins_sourceReleasePublish now v.name kind).trans
      (ShmCtx.thins_sourceRemove _ v.name))

theorem thinSh_streamShmSource (sh : Option ShmCtx) (now : ℕ) (v : Source) :
    ThinSh sh (streamShmSource sh now v).1 := by
  cases sh with
  | none => exact .refl none
  | some c =>
    refine thinSh_some ?_
    have htry := c.thins_sourceTryPublish now v.name .whip
    unfold streamShmSourceIn
    split
    · exact .refl c
    · split_ifs
      · exact .refl c
      · split <;> next he => rw [he] at htry; exact htry

theorem thinSh_rtmpSyncShm (sh : Option ShmCtx) (slot : ℕ) (env : Env) (v : Source) :
    ThinSh sh (rtmpSyncShm sh slot env v).1 := by
  cases sh with
  | none => exact .refl none
  | some c =>
    refine thinSh_some ?_
    have hclaim : c.Thins (publishClaimIn c env v .rtmp).1 := by
      rw [publishClaimIn_sh]
      exact c.thins_sourceTryPublish env.now v.name .rtmp
    have hrecord : ∀ (d : ShmCtx) (u : Source), d.Thins (rtmpRecordIn d slot env.now u).1 := by
      intro d u
      unfold rtmpRecordIn
      split <;> exact ShmCtx.thins_of_sessions rfl rfl
    unfold rtmpSyncShmIn
    split
    · exact ShmCtx.thins_of_sessions rfl rfl
    · split
      · next he => exact he ▸ hclaim
      · next he => exact (he ▸ hclaim).trans (hrecord _ _)

theorem thinSh_broadcastRtp (c : ShmCtx) (w : Worker) (v : Source) (rtp : Bytes)
    (isVideo gop : Bool) : c.Thins (broadcastRtp c w v rtp isVideo gop).sh := by
  unfold broadcastRtp
  split_ifs <;> exact ShmCtx.thins_of_sessions rfl rfl

namespace Proc

/-! ## Handlers that leave sessions and skeletons alone -/

/-- No session changed its face or came or went, and no skeleton is new or written to. -/
structure Quiet (p q : Proc) : Prop where
  slot : q.w.slot = p.w.slot
  face : ∀ a, (q.w.sessions.get a).map Session.face = (p.w.sessions.get a).map Session.face
  registry : ThinSh p.sh q.sh

section Quiet
variable {p q r : Proc}

theorem Quiet.refl (p : Proc) : p.Quiet p := ⟨rfl, fun _ => rfl, .refl _⟩

theorem Quiet.trans (h : p.Quiet q) (h' : q.Quiet r) : p.Quiet r :=
  ⟨h'.slot.trans h.slot, fun a => (h'.face a).trans (h.face a), h.registry.trans h'.registry⟩

/-- A session of `q` was in `p`. -/
theorem Quiet.before (h : p.Quiet q) {a : ℕ} {t : Session} (ht : q.w.sessions.get a = some t) :
    ∃ u, p.w.sessions.get a = some u ∧ u.face = t.face := by
  have hf := h.face a
  rw [ht] at hf
  exact Option.map_eq_some_iff.1 hf.symm

/-- A session of `p` is still in `q`. -/
theorem Quiet.after (h : p.Quiet q) {a : ℕ} {t : Session} (ht : p.w.sessions.get a = some t) :
    ∃ u, q.w.sessions.get a = some u ∧ u.face = t.face := by
  have hf := h.face a
  rw [ht] at hf
  exact Option.map_eq_some_iff.1 hf

theorem quiet_call (p : Proc) {op : ShmOp} (hop : op.thins = true) : p.Quiet (p.call op) :=
  ⟨rfl, fun _ => rfl, thinSh_call p.sh hop⟩

theorem quiet_upd (p : Proc) {w : Worker} (hslot : w.slot = p.w.slot)
    (hs : w.sessions = p.w.sessions) : p.Quiet ⟨p.sh, w⟩ := ⟨hslot, fun _ => by rw [hs], .refl _⟩

theorem face_modifySession (w : Worker) (a : ℕ) {f : Session → Session}
    (hf : ∀ s, (f s).face = s.face) (b : ℕ) :
    ((w.modifySession a f).sessions.get b).map Session.face = (w.sessions.get b).map Session.face := by
  show ((w.sessions.modify a f).get b).map _ = _
  rw [Pool.get_modify]
  split_ifs
  · rw [Option.map_map]
    exact congrArg (Option.map · _) (funext hf)
  · rfl

theorem face_subscribe (w : Worker) (src a b : ℕ) :
    ((w.subscribe src a).sessions.get b).map Session.face = (w.sessions.get b).map Session.face :=
  face_modifySession w a (f := fun s => { s with source := some src, subLinked := true })
    (fun _ => rfl) b

theorem quiet_modifySession (p : Proc) (a : ℕ) {f : Session → Session}
    (hf : ∀ s, (f s).face = s.face) : p.Quiet (p.upd fun w => w.modifySession a f) :=
  ⟨rfl, face_modifySession p.w a hf, .refl _⟩

theorem quiet_modifySource (p : Proc) (a : ℕ) (f : Source → Source) :
    p.Quiet (p.upd fun w => w.modifySource a f) := quiet_upd p rfl rfl

theorem quiet_atSource {β : Type} (p : Proc) (a : ℕ) (d : β)
    {f : Option ShmCtx → Source → Option ShmCtx × Source × β}
    (hf : ∀ v, ThinSh p.sh (f p.sh v).1) : p.Quiet (p.atSource a d f).1 := by
  unfold Proc.atSource
  split
  · exact .refl p
  · exact ⟨rfl, fun _ => rfl, hf _⟩

theorem quiet_sourceCreate (p : Proc) {alloc created : Bool} {name : SourceName} {w : Worker}
    {x : Option ℕ} (h : p.w.sourceCreate alloc name = (w, x, created)) : p.Quiet ⟨p.sh, w⟩ := by
  have hw : w = (p.w.sourceCreate alloc name).1 := congrArg Prod.fst h.symm
  subst hw
  unfold Worker.sourceCreate
  split
  · exact .refl p
  · split_ifs
    · exact quiet_upd p rfl rfl
    · exact .refl p

theorem quiet_sourceRemove (p : Proc) (name : SourceName) :
    p.Quiet (p.upd fun w => w.sourceRemove name) :=
  quiet_upd p (Worker.drops_sourceRemove p.w name).slot (Worker.drops_sourceRemove p.w name).sessions

theorem quiet_rollback (p : Proc) (created : Bool) (name : SourceName) :
    p.Quiet (p.rollback created name) := by
  unfold Proc.rollback
  split_ifs
  · exact quiet_sourceRemove p name
  · exact .refl p

theorem quiet_claim (p : Proc) (env : Env) (a : ℕ) (kind : PublisherKind) :
    p.Quiet (p.claim env a kind).1 :=
  quiet_atSource p a Rc.error fun v => thinSh_publishClaim p.sh env v kind

theorem quiet_release (p : Proc) (now a : ℕ) : p.Quiet (p.release now a) :=
  quiet_atSource p a () fun v => thinSh_publishRelease p.sh now v

theorem quiet_releaseOwned (p : Proc) (now : ℕ) (sess : Session) :
    p.Quiet (p.releaseOwned now sess) := by
  unfold Proc.releaseOwned
  split
  · exact .refl p
  · split_ifs
    · exact quiet_release p now _
    · exact .refl p

theorem quiet_shmSourceGet (p : Proc) (env : Env) (name : SourceName) :
    p.Quiet (p.shmSourceGet env name).1 := by
  refine ⟨by rw [shmSourceGet_w], fun a => by rw [shmSourceGet_w], ?_⟩
  unfold Proc.shmSourceGet
  split
  · exact .refl _
  · next c hc =>
    rw [hc]
    exact thinSh_some (c.thins_sourceGet env name)

theorem quiet_takeIdentity (p : Proc) (offer : Offer) (name : SourceName) (src : ℕ) (b : Option ℕ) :
    p.Quiet (p.takeIdentity offer name src b) := by
  unfold Proc.takeIdentity
  split
  · split
    · exact .refl p
    · exact (quiet_modifySource p src _).trans (quiet_call _ rfl)
  · exact .refl p

/-! ### Media -/

theorem quiet_broadcast (p : Proc) (a : ℕ) (rtp : Bytes) (isVideo gop : Bool) :
    p.Quiet (p.broadcast a rtp isVideo gop) :=
  quiet_atSource p a () fun v => by
    cases hc : p.sh with
    | none => exact .refl none
    | some c => exact thinSh_some (thinSh_broadcastRtp c p.w v rtp isVideo gop)

theorem quiet_forward (p : Proc) (now a : ℕ) (rtp : Bytes) (isVideo gop : Bool) :
    p.Quiet (p.forward now a rtp isVideo gop).1 := by
  have hrenew : p.Quiet ((p.publishRtp a rtp isVideo gop).renew now a).1 :=
    ((quiet_broadcast p a rtp isVideo gop).trans (quiet_modifySource _ a _)).trans
      (quiet_atSource _ a none fun v => thinSh_streamShmSource _ now v)
  refine hrenew.trans ?_
  show Quiet _ (Proc.shmStats _ a _)
  unfold Proc.shmStats
  split
  · exact .refl _
  · split
    · exact .refl _
    · exact quiet_call _ rfl

theorem quiet_whipEmit (now : ℕ) (slab : Bool) (a : ℕ) (p : Proc) (pkt : Bytes × Bool) :
    p.Quiet (whipEmit now slab a p pkt) := by
  have hf := quiet_forward p now a pkt.1 true pkt.2
  unfold Proc.whipEmit
  split
  · next he =>
    rw [he] at hf
    exact hf
  · next he =>
    rw [he] at hf
    exact hf.trans (quiet_call _ rfl)

theorem quiet_learnSsrc (p : Proc) (a : ℕ) (isVideo : Bool) (ssrc : UInt32) :
    p.Quiet (p.learnSsrc a isVideo ssrc) := by
  unfold Proc.learnSsrc
  split
  · split_ifs
    · exact (quiet_modifySource p a _).trans (quiet_call _ rfl)
    · exact (quiet_modifySource p a _).trans (quiet_call _ rfl)
    · exact .refl p
  · exact .refl p

theorem quiet_touch (p : Proc) (now a : ℕ) :
    p.Quiet (p.upd fun w => w.modifySession a fun s => { s with lastActive := now }) :=
  quiet_modifySession p a fun _ => rfl

theorem quiet_onSrtp (p : Proc) (now : ℕ) (slab : Bool) (c : ℕ) (plain : Option Bytes)
    (emitted : List (Bytes × Bool)) : p.Quiet (p.onSrtp now slab c plain emitted) := by
  have hemit : ∀ (pkts : List (Bytes × Bool)) (q : Proc) (a : ℕ),
      q.Quiet (pkts.foldl (whipEmit now slab a) q) := by
    intro pkts
    induction pkts with
    | nil => exact fun q _ => .refl q
    | cons pkt pkts ih => exact fun q a => (quiet_whipEmit now slab a q pkt).trans (ih _ a)
  unfold Proc.onSrtp
  split
  · exact .refl p
  · next a _ =>
    split
    · split
      · exact .refl p
      · split_ifs
        · exact .refl p
        · exact ((quiet_touch p now a).trans (quiet_learnSsrc _ _ _ _)).trans (hemit _ _ _)
        · exact ((quiet_touch p now a).trans (quiet_learnSsrc _ _ _ _)).trans (quiet_forward _ _ _ _ _ _)
        · exact quiet_touch p now a
    · exact .refl p

theorem quiet_rtmpSync (p : Proc) (env : Env) (heap : Heap) (name : SourceName) :
    p.Quiet (p.rtmpSync env heap name).1 := by
  unfold Proc.rtmpSync
  split
  · exact .refl p
  · next w src created hw =>
    have hsync := (quiet_sourceCreate p hw).trans (quiet_atSource ⟨p.sh, w⟩ src Rc.error
      (f := fun sh v => rtmpSyncShm sh p.w.slot env v) fun v =>
        thinSh_rtmpSyncShm p.sh p.w.slot env v)
    split <;> next he => rw [he] at hsync; exact hsync

theorem quiet_rtmpAudio (p : Proc) (env : Env) (heap : Heap) (name : SourceName)
    (header : Option Bool) : p.Quiet (p.rtmpAudio env heap name header) := by
  have hsync := quiet_rtmpSync p env heap name
  unfold Proc.rtmpAudio
  split
  · next he =>
    rw [he] at hsync
    exact hsync.trans (quiet_modifySource _ _ _)
  · next he _ =>
    rw [he] at hsync
    exact hsync

theorem quiet_rtmpRelease (p : Proc) (now : ℕ) (name : SourceName) :
    p.Quiet (p.rtmpRelease now name) := by
  unfold Proc.rtmpRelease
  split
  · exact .refl p
  · split_ifs
    · exact ((quiet_modifySource p _ _).trans (quiet_release _ now _)).trans (quiet_sourceRemove _ name)
    · exact quiet_modifySource p _ _

theorem quiet_finalize (p : Proc) (c : ℕ) : p.Quiet (p.finalize c) := by
  unfold Proc.finalize
  split_ifs
  · exact quiet_upd p rfl rfl
  · exact .refl p

theorem quiet_attachSource (p : Proc) (env : Env) (heap : Heap) (snap : SessionSnapshot) :
    p.Quiet (p.attachSource env heap snap).1 := by
  unfold Proc.attachSource
  split
  · exact .refl p
  · split
    · exact .refl p
    · next w src created hw =>
      refine (quiet_sourceCreate p hw).trans (quiet_atSource ⟨p.sh, w⟩ src () fun v => ?_)
      split
      · next c hc _ =>
        rw [hc]
        exact thinSh_some (c.thins_sourceGet env _)
      · exact .refl _

end Quiet

/-! ## What every registry call keeps -/

/-- A property of the registry that no call breaks. -/
structure Lasting (P : ShmCtx → Prop) : Prop where
  call : ∀ c (op : ShmOp), P c → P (op.step c)
  thins : ∀ c c' : ShmCtx, c.Thins c' → P c → P c'

/-- The property holds, if there is a registry. -/
def Has (P : ShmCtx → Prop) (p : Proc) : Prop := ∀ c, p.sh = some c → P c

section Has
variable {P : ShmCtx → Prop} {p q : Proc}

theorem Has.quiet (hP : Lasting P) (h : p.Has P) (hq : p.Quiet q) : q.Has P := fun c' hc' => by
  obtain ⟨c, hc, hthin⟩ := hq.registry c' hc'
  exact hP.thins c c' hthin (h c hc)

theorem Has.call (hP : Lasting P) (h : p.Has P) (op : ShmOp) : (p.call op).Has P := fun c' hc' => by
  obtain ⟨c, hc, rfl⟩ := Option.map_eq_some_iff.1 hc'
  exact hP.call c op (h c hc)

theorem Has.attach (hP : Lasting P) (h : p.Has P) (env : Env) (heap : Heap) (ufrag : Ufrag) :
    (p.attachFromShm env heap ufrag).1.Has P := by
  unfold Proc.attachFromShm
  split
  · exact h
  · next c hc =>
    split_ifs
    · exact h
    · split
      · exact h
      · next c' rc snap he =>
        have hbind := hP.call c (.bind ufrag p.w.slot) (h c hc)
        rw [ShmOp.step, he] at hbind
        have hq := quiet_attachSource ⟨some c', p.w⟩ env heap snap
        have hhas : Has P ⟨some c', p.w⟩ := fun d hd => Option.some.inj hd ▸ hbind
        have hattached := hhas.quiet hP hq
        exact hattached

theorem Has.act {T : ℕ → Prop} {kept : SourceName → Prop} (hP : Lasting P) (h : p.Has P)
    (ha : Act T kept p q) : q.Has P := by
  cases ha with
  | call op _ => exact h.call hP op
  | broadcast a rtp isVideo gop => exact h.quiet hP (quiet_broadcast p a rtp isVideo gop)
  | claim env a kind _ => exact h.quiet hP (quiet_claim p env a kind)
  | renew now a _ => exact h.quiet hP (quiet_atSource p a none fun v => thinSh_streamShmSource _ now v)
  | sync slot env a _ =>
    exact h.quiet hP (quiet_atSource p a Rc.error fun v => thinSh_rtmpSyncShm _ slot env v)
  | attach env heap ufrag _ => exact h.attach hP env heap ufrag
  | release now a _ => exact h.quiet hP (quiet_release p now a)
  | _ => exact h

theorem Has.acts {T : ℕ → Prop} {kept : SourceName → Prop} (hP : Lasting P) (h : p.Has P)
    (ha : Acts T kept p q) : q.Has P := by
  induction ha with
  | refl => exact h
  | tail _ hq ih => exact ih.act hP hq

theorem Has.sessionClose (hP : Lasting P) (h : p.Has P) (now : ℕ) (heap : Heap) (ev : SessionEvent)
    (a : ℕ) : (p.sessionClose now heap ev a).Has P := by
  unfold Proc.sessionClose
  split
  · exact h
  · next sess _ =>
    have hd : Has P (p.upd fun w => (w.detach heap.closeEv a sess).modifySession a
        (Session.dispatch ev none)) := h
    exact Has.call hP (hd.quiet hP (quiet_releaseOwned _ now sess)) _

/-- **No handler breaks a property that no call breaks.** -/
theorem Has.step (hP : Lasting P) (h : p.Has P) (e : ProcEvent) : (p.step e).Has P := by
  have hh := handles_step (T := fun _ => True) p e.timed_any (steady_none p e)
  generalize p.step e = q at hh
  cases hh with
  | acts ha => exact h.acts hP ha
  | settles hs =>
    cases hs with
    | calm ha => exact h.acts hP ha.acts
    | @closes q ha now heap ev a _ => exact (h.acts hP ha.acts).sessionClose hP now heap ev a

theorem Has.run (hP : Lasting P) (h : p.Has P) (es : List ProcEvent) :
    (Lts.run Proc.step p es).Has P := by
  induction es generalizing p with
  | nil => exact h
  | cons e es ih => exact ih (h.step hP e)

end Has

end Proc

end NginxRtc
