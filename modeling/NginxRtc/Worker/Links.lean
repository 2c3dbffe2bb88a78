/-
  Connections and sessions that refer to each other.

  A binding points the session at the connection and the connection's context at the session; a
  close undoes one pair and posts the finalization of one connection.  `Paired` says that the two
  directions agree and that no session is bound to a connection about to be finalized.

  `paired_step`: every handler keeps that, when a binding is safe.  `links_ok`: so no context and
  no session of a run refers to a partner that is gone, as long as each authenticated binding finds
  the connection and the session free or already paired with each other, and the connection not
  posted for finalization.
-/
import NginxRtc.Worker.Stream

namespace NginxRtc

namespace Worker

/-- Both directions of every binding agree, and no bound connection is about to go. -/
structure Paired (w : Worker) : Prop where
  ctx : ∀ c s, w.getCtx c = some s → ∃ sess, w.sessions.get s = some sess ∧ sess.conn = some c
  conn : ∀ s sess c, w.sessions.get s = some sess → sess.conn = some c →
    w.getCtx c = some s ∧ c ∉ w.posted

/-- No context refers to a session that was freed, no session to a connection that was finalized. -/
structure LinksOk (w : Worker) : Prop where
  ctx : ∀ c s, w.getCtx c = some s → (w.sessions.get s).isSome
  conn : ∀ s sess c, w.sessions.get s = some sess → sess.conn = some c → (w.conns.get c).isSome

theorem Paired.linksOk {w : Worker} (h : w.Paired) : w.LinksOk where
  ctx c s hc := by
    obtain ⟨sess, hs, -⟩ := h.ctx c s hc
    rw [hs]
    rfl
  conn s sess c hs hc := by
    obtain ⟨k, hk, -⟩ := Option.bind_eq_some_iff.1 (h.conn s sess c hs hc).1
    rw [hk]
    rfl

/-! ## Changes that bind nothing -/

/-- `w'` has the connections of `w` and its bound sessions; any other session is unbound. -/
structure Links (w w' : Worker) : Prop where
  conns : w'.conns = w.conns
  posted : w'.posted = w.posted
  bound : ∀ s sess c, w.sessions.get s = some sess → sess.conn = some c →
    ∃ sess', w'.sessions.get s = some sess' ∧ sess'.conn = some c
  back : ∀ s sess' c, w'.sessions.get s = some sess' → sess'.conn = some c →
    ∃ sess, w.sessions.get s = some sess ∧ sess.conn = some c

theorem Links.refl (w : Worker) : w.Links w :=
  ⟨rfl, rfl, fun _ sess _ h hc => ⟨sess, h, hc⟩, fun _ sess _ h hc => ⟨sess, h, hc⟩⟩

theorem Links.trans {u v w : Worker} (h : u.Links v) (h' : v.Links w) : u.Links w where
  conns := h'.conns.trans h.conns
  posted := h'.posted.trans h.posted
  bound s sess c hs hc := by
    obtain ⟨t, ht, htc⟩ := h.bound s sess c hs hc
    exact h'.bound s t c ht htc
  back s sess c hs hc := by
    obtain ⟨t, ht, htc⟩ := h'.back s sess c hs hc
    exact h.back s t c ht htc

theorem Links.getCtx {w w' : Worker} (h : w.Links w') (c : ℕ) : w'.getCtx c = w.getCtx c := by
  rw [Worker.getCtx, Worker.getCtx, h.conns]

theorem Paired.links {w w' : Worker} (h : w.Paired) (hl : w.Links w') : w'.Paired where
  ctx c s hc := by
    obtain ⟨sess, hs, hsc⟩ := h.ctx c s (hl.getCtx c ▸ hc)
    exact hl.bound s sess c hs hsc
  conn s sess' c hs hc := by
    obtain ⟨sess, hs', hsc⟩ := hl.back s sess' c hs hc
    rw [hl.getCtx, hl.posted]
    exact h.conn s sess c hs' hsc

variable {w w' : Worker}

theorem links_of_sessions (hs : w'.sessions = w.sessions) (hc : w'.conns = w.conns)
    (hp : w'.posted = w.posted) : w.Links w' :=
  ⟨hc, hp, fun _ sess _ h hc => ⟨sess, hs ▸ h, hc⟩, fun _ sess _ h hc => ⟨sess, hs ▸ h, hc⟩⟩

theorem Drops.links (h : w.Drops w') : w.Links w' := links_of_sessions h.sessions h.conns h.posted

theorem links_modifySession (w : Worker) (a : ℕ) {f : Session → Session}
    (hf : ∀ s, w.sessions.get a = some s → (f s).conn = s.conn) : w.Links (w.modifySession a f) where
  conns := rfl
  posted := rfl
  bound s sess c hs hc := by
    simp only [Worker.modifySession, Pool.get_modify]
    split_ifs with hsa
    · subst hsa
      exact ⟨f sess, by rw [hs, Option.map_some], (hf sess hs).trans hc⟩
    · exact ⟨sess, hs, hc⟩
  back s sess' c hs hc := by
    simp only [Worker.modifySession, Pool.get_modify] at hs
    split_ifs at hs with hsa
    · subst hsa
      obtain ⟨sess, hs', rfl⟩ := Option.map_eq_some_iff.1 hs
      exact ⟨sess, hs', (hf sess hs').symm.trans hc⟩
    · exact ⟨sess', hs, hc⟩

theorem links_sessionAdd (w : Worker) {sess : Session} (hn : sess.conn = none) :
    w.Links (w.sessionAdd sess) where
  conns := rfl
  posted := rfl
  bound _ s _ hs hc := ⟨s, Pool.get_alloc_of_some hs, hc⟩
  back a s c hs hc := by
    simp only [Worker.sessionAdd, Pool.get_alloc] at hs
    split_ifs at hs
    · obtain rfl := Option.some.inj hs
      exact nomatch hn.symm.trans hc
    · exact ⟨s, hs, hc⟩

/-- An unbound session is freed. -/
theorem links_sessionRemove (w : Worker) {a : ℕ}
    (hn : ∀ s, w.sessions.get a = some s → s.conn = none) : w.Links (w.sessionRemove a) where
  conns := rfl
  posted := rfl
  bound s sess c hs hc := by
    refine ⟨sess, ?_, hc⟩
    rw [Worker.sessionRemove, Pool.get_free_of_ne, hs]
    rintro rfl
    exact nomatch (hn sess hs).symm.trans hc
  back s sess c hs hc := by
    simp only [Worker.sessionRemove, Pool.get_free] at hs
    split_ifs at hs
    exact ⟨sess, hs, hc⟩

theorem links_subscribe (w : Worker) (src a : ℕ) : w.Links (w.subscribe src a) :=
  (links_modifySession w a (f := fun s => { s with source := some src, subLinked := true })
    fun _ _ => rfl).trans (links_of_sessions rfl rfl rfl)

theorem links_unsubscribe (w : Worker) (src a : ℕ) : w.Links (w.unsubscribe src a) := by
  have hu : w.Links (w.unlink src a) :=
    (links_modifySession w a (f := fun s => { s with source := none, subLinked := false })
      fun _ _ => rfl).trans (links_of_sessions rfl rfl rfl)
  rcases w.unsubscribe_cases src a with he | ⟨-, hd⟩
  · rw [he]
    exact .refl w
  · exact hu.trans hd.links

theorem links_leave (w : Worker) {a : ℕ} (sess : Session)
    (hn : ∀ s, w.sessions.get a = some s → s.conn = none) : w.Links (w.leave a sess) := by
  unfold Worker.leave
  split
  · exact links_sessionRemove w hn
  · next src _ =>
    refine (links_unsubscribe w src a).trans (links_sessionRemove _ fun s hs => ?_)
    cases hc : s.conn with
    | none => rfl
    | some c =>
      obtain ⟨t, ht, htc⟩ := (links_unsubscribe w src a).back a s c hs hc
      exact nomatch (hn t ht).symm.trans htc

theorem links_sourceCreate (w : Worker) (alloc : Bool) (name : SourceName) :
    w.Links (w.sourceCreate alloc name).1 := by
  unfold Worker.sourceCreate
  split
  · exact .refl w
  · split_ifs
    · exact links_of_sessions rfl rfl rfl
    · exact .refl w

/-! ## Binding, closing, finalizing -/

theorem getCtx_setCtx (w : Worker) (c d : ℕ) (ctx : Option ℕ) :
    (w.setCtx c ctx).getCtx d =
      if d = c then (w.conns.get d).bind fun _ => ctx else w.getCtx d := by
  simp only [Worker.getCtx, Worker.setCtx, Pool.get_modify]
  split_ifs
  · cases w.conns.get d <;> rfl
  · rfl

/-- The connection is alive and free, or already paired with the session. -/
structure Bindable (w : Worker) (c a : ℕ) (sess : Session) : Prop where
  live : (w.conns.get c).isSome
  ctx : w.getCtx c = none ∨ w.getCtx c = some a
  conn : sess.conn = none ∨ sess.conn = some c
  kept : c ∉ w.posted

/-- A safe binding pairs the session with the connection. -/
theorem Paired.bind (h : w.Paired) {c a : ℕ} {sess : Session} (hget : w.sessions.get a = some sess)
    (hb : w.Bindable c a sess) {f : Session → Session} (hf : (f sess).conn = some c) :
    ((w.modifySession a f).setCtx c (some a)).Paired where
  ctx d s hd := by
    obtain ⟨k, hk⟩ := Option.isSome_iff_exists.1 hb.live
    show ∃ sess', (w.sessions.modify a f).get s = some sess' ∧ sess'.conn = some d
    rw [getCtx_setCtx] at hd
    split_ifs at hd with hdc
    · subst hdc
      simp only [Worker.modifySession, hk, Option.bind_some, Option.some.injEq] at hd
      subst hd
      exact ⟨f sess, by rw [Pool.get_modify_self, hget, Option.map_some], hf⟩
    · obtain ⟨t, ht, htd⟩ := h.ctx d s hd
      have hsa : s ≠ a := by
        rintro rfl
        obtain rfl := Option.some.inj (ht.symm.trans hget)
        rcases hb.conn with hn | hc
        · exact nomatch hn.symm.trans htd
        · exact hdc (Option.some.inj (htd.symm.trans hc))
      exact ⟨t, by rw [Pool.get_modify_of_ne hsa, ht], htd⟩
  conn s sess' d hs hd := by
    have hs : (w.sessions.modify a f).get s = some sess' := hs
    rw [getCtx_setCtx]
    by_cases hsa : s = a
    · subst hsa
      rw [Pool.get_modify_self, hget, Option.map_some] at hs
      obtain rfl := Option.some.inj hs
      obtain rfl := Option.some.inj (hf.symm.trans hd)
      obtain ⟨k, hk⟩ := Option.isSome_iff_exists.1 hb.live
      exact ⟨by rw [if_pos rfl]; simp [Worker.modifySession, hk], hb.kept⟩
    · rw [Pool.get_modify_of_ne hsa] at hs
      obtain ⟨hctx, hkept⟩ := h.conn s sess' d hs hd
      have hdc : d ≠ c := by
        rintro rfl
        rcases hb.ctx with hn | hc
        · exact nomatch hn.symm.trans hctx
        · exact hsa (Option.some.inj (hctx.symm.trans hc))
      exact ⟨by rw [if_neg hdc]; exact hctx, hkept⟩

/-- A close takes the pair apart, and the session is unbound afterwards. -/
theorem Paired.detach (h : w.Paired) {a : ℕ} {sess : Session} (hget : w.sessions.get a = some sess)
    (closeEv : Bool) :
    (w.detach closeEv a sess).Paired ∧
      ∀ s, (w.detach closeEv a sess).sessions.get a = some s → s.conn = none := by
  unfold Worker.detach
  cases hc : sess.conn with
  | none =>
    refine ⟨h, fun s hs => ?_⟩
    obtain rfl := Option.some.inj (hget.symm.trans hs)
    exact hc
  | some c =>
    obtain ⟨hctx, hkept⟩ := h.conn a sess c hget hc
    -- no other session is bound to the connection
    have hother : ∀ s t, s ≠ a → w.sessions.get s = some t → t.conn ≠ some c := fun s t hs ht htc =>
      hs (Option.some.inj ((h.conn s t c ht htc).1.symm.trans hctx))
    refine ⟨⟨fun d s hd => ?_, fun s t d ht htd => ?_⟩, fun s hs => ?_⟩
    · have hd : ((w.modifySession a fun s => { s with conn := none }).setCtx c none).getCtx d =
          some s := hd
      rw [getCtx_setCtx] at hd
      split_ifs at hd with hdc
      · cases hk : (w.modifySession a fun s => { s with conn := none }).conns.get d with
        | none => rw [hk] at hd; exact nomatch hd
        | some k => rw [hk] at hd; exact nomatch hd
      · obtain ⟨t, ht, htd⟩ := h.ctx d s hd
        have hsa : s ≠ a := by
          rintro rfl
          obtain rfl := Option.some.inj (ht.symm.trans hget)
          exact hdc (Option.some.inj (htd.symm.trans hc))
        refine ⟨t, ?_, htd⟩
        show (w.sessions.modify a _).get s = some t
        rw [Pool.get_modify_of_ne hsa, ht]
    · have ht' : (w.sessions.modify a fun s => { s with conn := none }).get s = some t := ht
      rw [Pool.get_modify] at ht'
      split_ifs at ht' with hsa
      · obtain ⟨u, -, rfl⟩ := Option.map_eq_some_iff.1 ht'
        exact nomatch htd
      · obtain ⟨hd, hp⟩ := h.conn s t d ht' htd
        have hdc : d ≠ c := by
          rintro rfl
          exact hother s t hsa ht' htd
        refine ⟨?_, ?_⟩
        · show ((w.modifySession a fun s => { s with conn := none }).setCtx c none).getCtx d = some s
          rw [getCtx_setCtx, if_neg hdc]
          exact hd
        · show d ∉ if closeEv then w.posted ++ [c] else w.posted
          split_ifs
          · simp [hp, hdc]
          · exact hp
    · have hs : (w.sessions.modify a fun s => { s with conn := none }).get a = some s := hs
      rw [Pool.get_modify_self, hget, Option.map_some] at hs
      obtain rfl := Option.some.inj hs
      rfl

theorem Paired.finalize (h : w.Paired) {c : ℕ} (hc : c ∈ w.posted) :
    Paired { w with conns := w.conns.free c, posted := w.posted.erase c } where
  ctx d s hd := by
    simp only [Worker.getCtx, Pool.get_free] at hd
    split_ifs at hd
    · exact nomatch hd
    · exact h.ctx d s hd
  conn s sess d hs hd := by
    obtain ⟨hctx, hkept⟩ := h.conn s sess d hs hd
    have hdc : d ≠ c := fun he => hkept (he ▸ hc)
    refine ⟨?_, fun hm => hkept (List.mem_of_mem_erase hm)⟩
    simp only [Worker.getCtx, Pool.get_free_of_ne hdc]
    exact hctx

theorem Paired.accept (h : w.Paired) : w.accept.Paired where
  ctx d s hd := by
    simp only [Worker.getCtx, Worker.accept, Pool.get_alloc] at hd
    split_ifs at hd
    · exact nomatch hd
    · exact h.ctx d s hd
  conn s sess d hs hd := by
    obtain ⟨hctx, hkept⟩ := h.conn s sess d hs hd
    obtain ⟨k, hk, hks⟩ := Option.bind_eq_some_iff.1 hctx
    refine ⟨?_, hkept⟩
    simp only [Worker.getCtx, Worker.accept, Pool.get_alloc_of_some hk, Option.bind_some, hks]

end Worker

namespace Proc

variable {p p' : Proc}

/-! ## Handlers that bind nothing -/

theorem atSource_links {β : Type} (p : Proc) (a : ℕ) (d : β)
    (f : Option ShmCtx → Source → Option ShmCtx × Source × β) :
    p.w.Links (p.atSource a d f).1.w := by
  unfold Proc.atSource
  split
  · exact .refl _
  · exact Worker.links_of_sessions rfl rfl rfl

theorem claim_links (p : Proc) (env : Env) (a : ℕ) (kind : PublisherKind) :
    p.w.Links (p.claim env a kind).1.w :=
  atSource_links p a Rc.error _

theorem release_links (p : Proc) (now a : ℕ) : p.w.Links (p.release now a).w :=
  atSource_links p a () _

theorem releaseOwned_links (p : Proc) (now : ℕ) (sess : Session) :
    p.w.Links (p.releaseOwned now sess).w := by
  unfold Proc.releaseOwned
  split
  · exact .refl _
  · split_ifs
    · exact release_links p now _
    · exact .refl _

theorem rollback_links (p : Proc) (created : Bool) (name : SourceName) :
    p.w.Links (p.rollback created name).w := by
  unfold Proc.rollback
  split_ifs
  · exact (Worker.drops_sourceRemove p.w name).links
  · exact .refl _

theorem publishState_links (p : Proc) (a : ℕ) : p.w.Links (p.publishState a).w := by
  rw [publishState_w]
  exact .refl _

theorem touch_links (p : Proc) (now a : ℕ) :
    p.w.Links (p.upd fun w => w.modifySession a fun s => { s with lastActive := now }).w :=
  Worker.links_modifySession p.w a fun _ _ => rfl

theorem attachSource_links (p : Proc) (env : Env) (heap : Heap) (snap : SessionSnapshot) :
    p.w.Links (p.attachSource env heap snap).1.w := by
  unfold Proc.attachSource
  split
  · exact .refl _
  · next name _ _ _ _ _ =>
    have hc := Worker.links_sourceCreate p.w heap.source name
    split
    · exact .refl _
    · next hw =>
      rw [hw] at hc
      exact hc.trans (atSource_links ⟨p.sh, _⟩ _ () _)

theorem learnSsrc_links (p : Proc) (a : ℕ) (isVideo : Bool) (ssrc : UInt32) :
    p.w.Links (p.learnSsrc a isVideo ssrc).w := by
  unfold Proc.learnSsrc
  split
  · split_ifs
    · exact Worker.links_of_sessions rfl rfl rfl
    · exact Worker.links_of_sessions rfl rfl rfl
    · exact .refl _
  · exact .refl _

theorem forward_links (p : Proc) (now a : ℕ) (rtp : Bytes) (isVideo gop : Bool) :
    p.w.Links (p.forward now a rtp isVideo gop).1.w := by
  have hb : p.w.Links (p.publishRtp a rtp isVideo gop).w :=
    (atSource_links p a () _).trans (Worker.links_of_sessions rfl rfl rfl)
  have hr := hb.trans (atSource_links (p.publishRtp a rtp isVideo gop) a none
    fun sh src => streamShmSource sh now src)
  simp only [Proc.forward, mirrorStats, shmStats_w]
  exact hr

theorem whipEmit_links (now : ℕ) (slab : Bool) (a : ℕ) (p : Proc) (pkt : Bytes × Bool) :
    p.w.Links (whipEmit now slab a p pkt).w := by
  have hf := forward_links p now a pkt.1 true pkt.2
  unfold Proc.whipEmit
  split <;> next he => rw [he] at hf; exact hf

theorem onSrtp_links (p : Proc) (now : ℕ) (slab : Bool) (c : ℕ) (plain : Option Bytes)
    (emitted : List (Bytes × Bool)) : p.w.Links (p.onSrtp now slab c plain emitted).w := by
  have hemit : ∀ (pkts : List (Bytes × Bool)) (q : Proc) (a : ℕ), p.w.Links q.w →
      p.w.Links (pkts.foldl (whipEmit now slab a) q).w := by
    intro pkts
    induction pkts with
    | nil => exact fun _ _ hq => hq
    | cons pkt pkts ih => exact fun q a hq => ih _ a (hq.trans (whipEmit_links now slab a q pkt))
  unfold Proc.onSrtp
  split
  · exact .refl _
  · next a _ =>
    have ht := touch_links p now a
    split
    · split
      · exact .refl _
      · split_ifs
        · exact .refl _
        · exact hemit _ _ _ (ht.trans (learnSsrc_links _ _ true _))
        · exact (ht.trans (learnSsrc_links _ _ false _)).trans (forward_links _ now _ _ false false)
        · exact ht
    · exact .refl _

/-! ### Requests and RTMP -/

theorem takeIdentity_links (p : Proc) (offer : Offer) (name : SourceName) (src : ℕ) (b : Option ℕ) :
    p.w.Links (p.takeIdentity offer name src b).w := by
  unfold Proc.takeIdentity
  split
  · split
    · exact .refl _
    · exact Worker.links_of_sessions rfl rfl rfl
  · exact .refl _

theorem openSession_links (p : Proc) (r : Request) (src : ℕ) (publishing : Bool) :
    p.w.Links (p.openSession r src publishing).w := by
  unfold Proc.openSession
  split
  · exact .refl _
  · exact Worker.links_sessionAdd p.w rfl

theorem addSkeleton_links (p : Proc) (envAdd : Env) (name : SourceName) (a : ℕ) :
    p.w.Links (p.addSkeleton envAdd name a).w := by
  unfold Proc.addSkeleton
  split
  · dsimp only
    split
    · exact .refl _
    · exact Worker.links_modifySession p.w a fun _ _ => rfl
  · exact .refl _

theorem shmSourceGet_links (p : Proc) (env : Env) (name : SourceName) :
    p.w.Links (p.shmSourceGet env name).1.w := by
  rw [shmSourceGet_w]
  exact .refl _

theorem play_links (p : Proc) (r : Request) : p.w.Links (p.play r).w := by
  have hc := Worker.links_sourceCreate p.w r.heap.source r.name
  unfold Proc.play
  split
  · exact .refl _
  · next w src created hw =>
    rw [hw] at hc
    have hg := hc.trans (shmSourceGet_links ⟨p.sh, w⟩ r.env r.name)
    have ht := hg.trans (takeIdentity_links _ r.offer r.name src
      (Proc.shmSourceGet ⟨p.sh, w⟩ r.env r.name).2)
    unfold Proc.play.playOn
    split_ifs
    · exact (ht.trans (openSession_links _ r src false)).trans (addSkeleton_links _ r.envAdd r.name _)
    · exact ht.trans (rollback_links _ created r.name)

theorem whipGranted_links (p : Proc) (r : Request) (src : ℕ) (created : Bool) :
    p.w.Links (p.whipGranted r src created).w := by
  have hi : p.w.Links (Proc.whipGranted.identified p r src).w := takeIdentity_links p _ _ src _
  have hr : p.w.Links (Proc.whipGranted.registered p r src).w := by
    have hg := (hi.trans (openSession_links _ r src true)).trans
      (shmSourceGet_links ((Proc.whipGranted.identified p r src).openSession r src true) r.env r.name)
    unfold Proc.whipGranted.registered
    split
    · next he => rw [he] at hg; exact hg
    · next he => rw [he] at hg; exact hg.trans (addSkeleton_links _ r.envAdd r.name _)
  unfold Proc.whipGranted
  split_ifs
  · exact hr
  · have hrel := hr.trans (release_links (Proc.whipGranted.registered p r src) r.env.now src)
    -- the session of the failed request was allocated unbound
    refine (hrel.trans (Worker.links_sessionRemove _ (a := p.w.sessions.next) fun s hs => ?_)).trans
      (rollback_links (Proc.upd _ fun w => w.sessionRemove p.w.sessions.next) created r.name)
    cases hc : s.conn with
    | none => rfl
    | some c =>
      obtain ⟨t, ht, -⟩ := hrel.back _ s c hs hc
      exact nomatch (Pool.get_next p.w.sessions).symm.trans ht
  · exact (hi.trans (release_links _ r.env.now src)).trans (rollback_links _ created r.name)

theorem whip_links (p : Proc) (r : Request) : p.w.Links (p.whip r).w := by
  have hc := Worker.links_sourceCreate p.w r.heap.source r.name
  unfold Proc.whip
  split
  · exact .refl _
  · next w src created hw =>
    rw [hw] at hc
    have hcl : p.w.Links (Proc.claim ⟨p.sh, w⟩ r.env src .whip).1.w :=
      hc.trans (claim_links ⟨p.sh, w⟩ r.env src .whip)
    split_ifs
    · exact hc.trans (rollback_links ⟨p.sh, w⟩ created r.name)
    · split
      · next he => rw [he] at hcl; exact hcl.trans (rollback_links _ created r.name)
      · next he => rw [he] at hcl; exact hcl.trans (whipGranted_links _ r src created)

theorem rtmpSync_links (p : Proc) (env : Env) (heap : Heap) (name : SourceName) :
    p.w.Links (p.rtmpSync env heap name).1.w := by
  have hc := Worker.links_sourceCreate p.w heap.source name
  unfold Proc.rtmpSync
  split
  · exact .refl _
  · next w src created hw =>
    rw [hw] at hc
    have hs := hc.trans (atSource_links ⟨p.sh, w⟩ src Rc.error
      fun sh v => rtmpSyncShm sh p.w.slot env v)
    split <;> next he => rw [he] at hs; exact hs

theorem rtmpAudio_links (p : Proc) (env : Env) (heap : Heap) (name : SourceName)
    (header : Option Bool) : p.w.Links (p.rtmpAudio env heap name header).w := by
  have hs := rtmpSync_links p env heap name
  unfold Proc.rtmpAudio
  split
  · next he =>
    rw [he] at hs
    exact hs.trans (Worker.links_of_sessions rfl rfl rfl)
  · next he _ => rw [he] at hs; exact hs

theorem rtmpRelease_links (p : Proc) (now : ℕ) (name : SourceName) :
    p.w.Links (p.rtmpRelease now name).w := by
  unfold Proc.rtmpRelease
  split
  · exact .refl _
  · next src _ =>
    have ha : p.w.Links
        (p.upd fun w => w.modifySource src fun s => { s with audioCtx := false }).w :=
      Worker.links_of_sessions rfl rfl rfl
    split_ifs
    · exact (ha.trans (release_links _ now src)).trans (Worker.drops_sourceRemove _ name).links
    · exact ha

/-! ## Handlers that close or bind -/

/-- The connections and sessions of this worker agree. -/
def Paired (p : Proc) : Prop := p.w.Paired

theorem Paired.links (h : p.Paired) (hl : p.w.Links p'.w) : p'.Paired := Worker.Paired.links h hl

theorem Paired.sessionClose (h : p.Paired) (now : ℕ) (heap : Heap) (ev : SessionEvent) (a : ℕ) :
    (p.sessionClose now heap ev a).Paired := by
  unfold Proc.sessionClose
  split
  · exact h
  · next sess hget =>
    obtain ⟨hd, hn⟩ := Worker.Paired.detach h hget heap.closeEv
    have hdisp : (p.w.detach heap.closeEv a sess).Links
        ((p.w.detach heap.closeEv a sess).modifySession a (Session.dispatch ev none)) :=
      Worker.links_modifySession _ a fun _ _ => rfl
    have hrel := hdisp.trans (releaseOwned_links (p.upd fun w =>
      (w.detach heap.closeEv a sess).modifySession a (Session.dispatch ev none)) now sess)
    refine hd.links (hrel.trans (Worker.links_leave _ sess fun s hs => ?_))
    cases hc : s.conn with
    | none => rfl
    | some c =>
      obtain ⟨t, ht, htc⟩ := hrel.back a s c hs hc
      exact nomatch (hn t ht).symm.trans htc

theorem Paired.finalize (h : p.Paired) (c : ℕ) : (p.finalize c).Paired := by
  unfold Proc.finalize
  split_ifs with hc
  · exact Worker.Paired.finalize h hc
  · exact h

theorem Paired.dtlsDone (h : p.Paired) (now a : ℕ) (keys : Bool) : (p.dtlsDone now a keys).Paired := by
  unfold Proc.dtlsDone
  split_ifs
  · exact h.links (Worker.links_modifySession p.w a fun _ _ => rfl)
  · split
    · exact h
    · next sess _ =>
      have hm : p.w.Links (p.w.modifySession a fun s =>
          { (s.dispatch .dtlsHandshakeDone none) with lastActive := now }) :=
        Worker.links_modifySession p.w a fun _ _ => rfl
      simp only [Proc.Paired, call, upd]
      split
      · exact Worker.Paired.links h (hm.trans (Worker.links_subscribe _ _ a))
      · exact Worker.Paired.links h hm

theorem Paired.dtlsFinish (h : p.Paired) (now : ℕ) (heap : Heap) (a : ℕ) (sess : Session)
    (v : DtlsVerdict) : (p.dtlsFinish now heap a sess v).Paired := by
  have hclose : ∀ q : Proc, q.Paired →
      (Proc.dtlsFinish.closeIfPending now heap a q).Paired := fun q hq => by
    unfold Proc.dtlsFinish.closeIfPending
    split_ifs
    · exact hq.sessionClose now heap .close a
    · exact hq
  unfold Proc.dtlsFinish
  split_ifs
  · have hm : (p.upd fun w => w.modifySession a fun s => { s with dtls := some true }).Paired :=
      h.links (Worker.links_modifySession p.w a fun _ _ => rfl)
    exact hclose _ (hm.dtlsDone now a v.keys)
  · exact hclose _ h

theorem Paired.dtlsFeed (h : p.Paired) (now : ℕ) (heap : Heap) (a : ℕ) (v : DtlsVerdict) :
    (p.dtlsFeed now heap a v).Paired := by
  have ht : (p.upd fun w => w.modifySession a fun s => { s with lastActive := now }).Paired :=
    h.links (touch_links p now a)
  unfold Proc.dtlsFeed
  split
  · exact h
  · split_ifs
    · exact ht.sessionClose now heap .close a
    · exact ht.dtlsFinish now heap a _ v

/-- The session of a DTLS datagram is already bound to the connection the datagram came in on. -/
theorem Paired.rebind (h : p.Paired) {c a : ℕ} (hctx : p.w.getCtx c = some a) {f : Session → Session}
    (hf : ∀ s, (f s).conn = some c) : (p.upd fun w => w.modifySession a f).Paired := by
  refine h.links (Worker.links_modifySession p.w a fun s hs => ?_)
  obtain ⟨t, ht, htc⟩ := h.ctx c a hctx
  obtain rfl := Option.some.inj (ht.symm.trans hs)
  exact (hf t).trans htc.symm

theorem Paired.onDtls (h : p.Paired) (now : ℕ) (heap : Heap) (c : ℕ) (data : Bytes)
    (v : DtlsVerdict) : (p.onDtls now heap c data v).Paired := by
  unfold Proc.onDtls
  split
  · exact h
  · next a hctx =>
    split
    · exact h
    · have hm : p.w.Links (p.upd fun w => w.modifySession a
          (Session.dispatch .dtlsPacket (some ⟨some c, some data⟩))).w :=
        Worker.links_modifySession p.w a fun _ _ => rfl
      have hd := hm.trans (publishState_links _ a)
      have hctx' := (hd.getCtx c).trans hctx
      split_ifs
      · exact h
      · exact ((h.links hd).rebind hctx' fun _ => rfl).dtlsFeed now heap a v
      · exact ((h.links hd).rebind hctx' fun _ => rfl).sessionClose now heap .close a
      · exact h.dtlsFeed now heap a v

theorem Paired.dtlsTimer (h : p.Paired) (now : ℕ) (heap : Heap) (a : ℕ) (v : DtlsVerdict) :
    (p.dtlsTimer now heap a v).Paired := by
  unfold Proc.dtlsTimer
  split
  · exact h
  · split_ifs
    · exact h.dtlsFinish now heap a _ v
    · exact h.sessionClose now heap .timeout a
    · exact h

theorem Paired.onRtcp (h : p.Paired) (now : ℕ) (heap : Heap) (c : ℕ) (plain : Option Bool) :
    (p.onRtcp now heap c plain).Paired := by
  unfold Proc.onRtcp
  split
  · exact h
  · next a _ =>
    split
    · exact h
    · split_ifs
      · exact h
      · exact Paired.sessionClose (h.links (touch_links p now a)) now heap .rtcpBye a
      · exact h.links (touch_links p now a)

theorem Paired.reapSession (h : p.Paired) (conf : StreamConf) (now : ℕ) (heap : Heap) (a : ℕ) :
    (Proc.reapSession conf now heap p a).Paired := by
  unfold Proc.reapSession
  split
  · exact h
  · split_ifs
    · exact h.sessionClose now heap .close a
    · exact h.sessionClose now heap .timeout a
    · exact h

/-! ## Bindings -/

theorem attachFromShm_links (p : Proc) (env : Env) (heap : Heap) (ufrag : Ufrag) :
    p.w.Links (p.attachFromShm env heap ufrag).1.w := by
  unfold Proc.attachFromShm
  split
  · exact .refl _
  · split_ifs
    · exact .refl _
    · split
      · exact .refl _
      · exact (attachSource_links ⟨some _, p.w⟩ env heap _).trans (Worker.links_sessionAdd _ rfl)

/-- The password a binding is verified under: that of the session of this worker, or that of the
    skeleton this worker attaches. -/
def bindingPwd (p : Proc) (heap : Heap) (ufrag : Ufrag) : Option Pwd :=
  match p.w.sessionFind ufrag with
  | some a => (p.w.sessions.get a).map Session.icePwd
  | none =>
    if heap.session then
      p.sh.bind fun c => (c.sessionBind ufrag p.w.slot).2.2.map SessionSnapshot.icePwd
    else none

/-- An authenticated binding finds the connection in no other session's hands and not posted for
    finalization, and the session on no other connection. -/
def BindSafe (p : Proc) : ProcEvent → Prop
  | .stun _ heap c ufrag verified =>
    (p.bindingPwd heap ufrag).any verified = true →
      c ∉ p.w.posted ∧
        (p.w.getCtx c = none ∨ p.w.getCtx c = p.w.sessionFind ufrag) ∧
          (((p.w.sessionFind ufrag).bind p.w.sessions.get).bind Session.conn = none ∨
            ((p.w.sessionFind ufrag).bind p.w.sessions.get).bind Session.conn = some c)
  | _ => True

/-- The session an attach builds: unbound, with the password of the skeleton. -/
theorem attachFromShm_some {env : Env} {heap : Heap} {ufrag : Ufrag} {a : ℕ}
    (hf : p.w.sessionFind ufrag = none) (h : p.attachFromShm env heap ufrag = (p', some a)) :
    ∃ sess, p'.w.sessions.get a = some sess ∧ sess.conn = none ∧
      p.bindingPwd heap ufrag = some sess.icePwd := by
  unfold Proc.attachFromShm at h
  split at h
  · exact nomatch (Prod.mk.inj h).2
  · next c hsh =>
    split_ifs at h with hheap
    · exact nomatch (Prod.mk.inj h).2
    · split at h
      · exact nomatch (Prod.mk.inj h).2
      · next c' rc snap hbind =>
        obtain ⟨rfl, ha⟩ := Prod.mk.inj h
        obtain rfl := Option.some.inj ha
        have hn : p.w.sessions.next =
            (Proc.attachSource ⟨some c', p.w⟩ env heap snap).1.w.sessions.next :=
          (congrArg Pool.next (attachSource_sessions ⟨some c', p.w⟩ env heap snap)).symm
        refine ⟨{ Session.ofSnapshot env.now snap with
          source := (Proc.attachSource ⟨some c', p.w⟩ env heap snap).2 }, ?_, rfl, ?_⟩
        · rw [hn]
          exact Pool.get_alloc_self _ _
        simp only [Bool.not_eq_true', Bool.not_eq_false] at hheap
        simp only [bindingPwd, hf, hheap, hsh, if_true, Option.bind_some, hbind, Option.map_some]
        rfl

theorem Paired.bindConn (h : p.Paired) {now c a : ℕ} {sess : Session}
    (hget : p.w.sessions.get a = some sess) (hb : p.w.Bindable c a sess) :
    (p.bindConn now c a).Paired := by
  simp only [Proc.Paired, Proc.bindConn, upd, publishState_w]
  exact Worker.Paired.bind h hget hb rfl

theorem Paired.onStun (h : p.Paired) {env : Env} {heap : Heap} {c : ℕ} {ufrag : Ufrag}
    {verified : Pwd → Bool} (hlive : (p.w.conns.get c).isSome)
    (hg : BindSafe p (.stun env heap c ufrag verified)) :
    (p.onStun env heap c ufrag verified).Paired := by
  unfold Proc.onStun Proc.findOrAttach
  cases hf : p.w.sessionFind ufrag with
  | some a =>
    obtain ⟨sess, hget, -⟩ := Pool.find?_spec hf
    simp only [hget]
    split_ifs with hv
    · simp only [BindSafe, bindingPwd, hf, hget, Option.map_some, Option.bind_some, Option.any_some]
        at hg
      obtain ⟨hkept, hctx, hconn⟩ := hg hv
      exact h.bindConn hget ⟨hlive, hctx, hconn, hkept⟩
    · exact h
  | none =>
    have hl := attachFromShm_links p env heap ufrag
    dsimp only
    split
    · next p' he => rw [he] at hl; exact h.links hl
    · next p' a he =>
      rw [he] at hl
      obtain ⟨sess, hget, hconn, hpwd⟩ := attachFromShm_some hf he
      simp only [hget]
      split_ifs with hv
      · simp only [BindSafe, hpwd, hf, Option.any_some, Option.bind_none, or_self] at hg
        obtain ⟨hkept, hctx, -⟩ := hg hv
        exact (h.links hl).bindConn hget
          ⟨hl.conns ▸ hlive, .inl ((hl.getCtx c).trans hctx), .inl hconn, hl.posted ▸ hkept⟩
      · exact h.links hl

theorem paired_init (slot : ℕ) (sh : Option ShmCtx) : (init slot sh).Paired where
  ctx _ _ hc := nomatch hc
  conn s _ _ hs := nomatch (Pool.get_empty s).symm.trans hs

/-- Every handler keeps the two directions in agreement, if the bindings it makes are safe. -/
theorem paired_step (e : ProcEvent) (h : p.Paired) (hg : BindSafe p e) : (p.step e).Paired := by
  cases e with
  | play r => exact h.links (play_links p r)
  | whip r => exact h.links (whip_links p r)
  | accept => exact Worker.Paired.accept h
  | stun env heap c ufrag verified =>
    simp only [Proc.step]
    split_ifs with hlive
    · exact h.onStun hlive hg
    · exact h
  | dtls now heap c data v => exact h.onDtls now heap c data v
  | dtlsTimer now heap a v => exact h.dtlsTimer now heap a v
  | rtcp now heap c plain => exact h.onRtcp now heap c plain
  | srtp now slab c plain emitted => exact h.links (onSrtp_links p now slab c plain emitted)
  | reap conf now heap a => exact h.reapSession conf now heap a
  | finalize c => exact h.finalize c
  | rtmpVideo env heap name => exact h.links (rtmpSync_links p env heap name)
  | rtmpAudio env heap name header => exact h.links (rtmpAudio_links p env heap name header)
  | rtmpRelease now name => exact h.links (rtmpRelease_links p now name)
  | others op => exact h

/-- **No context and no session refers to a dead partner**, in any state of a run whose
    authenticated bindings are all safe. -/
theorem links_ok {slot : ℕ} {sh : Option ShmCtx} {es : List ProcEvent}
    (h : Lts.Along step BindSafe (init slot sh) es) :
    Lts.Visits step (fun p => p.w.LinksOk) (init slot sh) es :=
  (Lts.visits_of_step (fun _ e hp hg => paired_step e hp hg) (paired_init slot sh) h).mono
    fun _ hp => Worker.Paired.linksOk hp

/-- A binding of the sample session on connection `c`. -/
def sampleBinding (c : ℕ) : ProcEvent :=
  .stun (Env.at 5) Heap.ample c (sampleUfrag 1) fun pwd => decide (pwd = samplePwd)

/-- A player is bound, its binding repeated, reaped and its connection finalized. -/
theorem links_ok_player :
    Lts.Visits step (fun p => p.w.LinksOk) (init 0 (some (ShmCtx.init 1 [])))
      [.play (sampleRequest 1), .accept, sampleBinding 0, sampleBinding 0,
        .reap StreamConf.default 20000 Heap.ample 0, .finalize 0] :=
  links_ok ⟨trivial, trivial, fun _ => by decide, fun _ => by decide, trivial, trivial, trivial⟩

/-- A player is bound on a second connection and then reaped: the context of the first still holds
    the freed session. -/
theorem links_rebound_dangle :
    ¬ Lts.Visits step (fun p => p.w.LinksOk) (init 0 (some (ShmCtx.init 1 [])))
      [.play (sampleRequest 1), .accept, .accept, sampleBinding 0, sampleBinding 1,
        .reap StreamConf.default 20000 Heap.ample 0] := by
  intro h
  exact absurd (h.last.ctx 0 0 (by decide)) (by decide)

end Proc

end NginxRtc
