/-
  What a handler can do to a live WHIP publish.

  The shared source at `a` is published over WHIP and its heartbeat is good at time `t`, when the
  handler runs.  The handler ends that publish only by closing a session of the stream while the
  local source of its worker carries the tag, or by a WHIP request for the stream that fails after
  its claim.

  `goesOn_step`: every other handler leaves the publish as it is, with its heartbeat or a new one.
-/
import NginxRtc.Worker.Close

namespace NginxRtc

theorem ShmSource.Still.alive {t : ℕ} (ht : 0 < t) {src src' : ShmSource} (h : src.alive t = true)
    (hs : src.Still t src') : src'.alive t = true := by
  have hgrace : 0 < shmPublishGraceMs := by decide
  simp only [ShmSource.alive, Bool.and_eq_true, decide_eq_true_eq] at h ⊢
  rcases hs.seen with he | he <;> rw [he]
  · exact h
  · exact ⟨Nat.pos_iff_ne_zero.1 ht, by omega⟩

namespace Proc

section GoesOn
variable (name : SourceName) (a t : ℕ)

/-- The live publish by the source at `a` goes on. -/
def GoesOn (p p' : Proc) : Prop :=
  ∀ c src, p.sh = some c → c.sources.get a = some src → src.Held name .whip →
    src.alive t = true → ∃ c', p'.sh = some c' ∧ c'.StillAt a t src

variable {name a t} {p q r : Proc}

theorem goesOn_of_sh (h : q.sh = p.sh) : GoesOn name a t p q := fun c _ hc hget _ _ =>
  ⟨c, h ▸ hc, ShmCtx.stillAt_of_get hget⟩

/-- A change of the worker first. -/
theorem GoesOn.trans_sh (h : q.sh = p.sh) (h' : GoesOn name a t q r) : GoesOn name a t p r :=
  fun c src hc => h' c src (h ▸ hc)

theorem GoesOn.trans (ht : 0 < t) (h : GoesOn name a t p q) (h' : GoesOn name a t q r) :
    GoesOn name a t p r := by
  intro c src hc hget hheld halive
  obtain ⟨c', hc', src', hget', hst⟩ := h c src hc hget hheld halive
  obtain ⟨c'', hc'', src'', hget'', hst'⟩ :=
    h' c' src' hc' hget' (hheld.still hst) (hst.alive ht halive)
  exact ⟨c'', hc'', src'', hget'', hst.trans hst'⟩

/-! ### Single acts -/

theorem goesOn_call (p : Proc) {op : ShmOp} (h : op.Plain (· = t) (· = name)) :
    GoesOn name a t p (p.call op) := by
  intro c src hc hget hheld halive
  have hrel : op.releases c a = false := by
    cases op with
    | releasePublish now n kind =>
      simp only [ShmOp.releases, hget, Option.any_some, hheld.name, Bool.and_eq_false_iff,
        decide_eq_false_iff_not]
      exact .inl fun he => h.releases now n kind rfl he.symm
    | _ => rfl
  refine ⟨op.step c, by rw [call, hc, Option.map_some], ?_⟩
  refine ShmCtx.still_step op h.beat hget hheld.publishing hheld.kind hrel ?_
  rw [ShmOp.reaps]
  cases hs : op.sweeps c with
  | none => rfl
  | some now =>
    obtain rfl : now = t := h.sweeps c now hs
    simp [hget, halive]

/-- A call made on a local source. -/
theorem goesOn_atSource {β : Type} (p : Proc) (x : ℕ) (d : β)
    {f : Option ShmCtx → Source → Option ShmCtx × Source × β}
    (hf : ∀ c v src, p.w.sources.get x = some v → c.sources.get a = some src →
      src.Held name .whip → src.alive t = true →
        ∃ c', (f (some c) v).1 = some c' ∧ c'.StillAt a t src) :
    GoesOn name a t p (p.atSource x d f).1 := by
  unfold Proc.atSource
  cases hv : p.w.sources.get x with
  | none => exact goesOn_of_sh rfl
  | some v =>
    intro c src hc hget hheld halive
    simp only [hc]
    exact hf c v src hv hget hheld halive

theorem goesOn_claim (p : Proc) {env : Env} (ht : env.now = t) (x : ℕ) (kind : PublisherKind) :
    GoesOn name a t p (p.claim env x kind).1 := by
  subst ht
  exact goesOn_atSource p x _ fun c v src _ hget hheld _ =>
    ⟨_, rfl, publishClaimIn_still hget hheld env v kind⟩

theorem goesOn_renew (p : Proc) (x : ℕ) : GoesOn name a t p (p.renew t x).1 := by
  refine goesOn_atSource p x none fun c v src _ hget hheld _ => ⟨_, rfl, ?_⟩
  rcases streamShmSourceIn_sh c t v with he | he <;> rw [he]
  · exact ShmCtx.stillAt_of_get hget
  · exact ShmCtx.stillAt_tryPublish t v.name hget hheld.publishing hheld.kind

theorem goesOn_sync (p : Proc) (slot : ℕ) {env : Env} (ht : env.now = t) (x : ℕ) :
    GoesOn name a t p (p.atSource x .error fun sh v => rtmpSyncShm sh slot env v).1 := by
  subst ht
  exact goesOn_atSource p x Rc.error fun c v src _ hget hheld _ =>
    ⟨_, rfl, rtmpSyncShmIn_still hget hheld slot env v⟩

theorem broadcastRtp_sources (c : ShmCtx) (w : Worker) (v : Source) (rtp : Bytes)
    (isVideo gop : Bool) : (broadcastRtp c w v rtp isVideo gop).sh.sources = c.sources := by
  unfold broadcastRtp
  split_ifs <;> rfl

theorem goesOn_broadcast (p : Proc) (x : ℕ) (rtp : Bytes) (isVideo gop : Bool) :
    GoesOn name a t p (p.broadcast x rtp isVideo gop) := by
  refine goesOn_atSource p x () fun c v src _ hget _ _ => ⟨_, rfl, src, ?_, .refl t src⟩
  rw [broadcastRtp_sources, hget]

/-- The release of another name, or of another kind. -/
theorem goesOn_release (p : Proc) (now x : ℕ)
    (h : ∀ v, p.w.sources.get x = some v → v.publisherKind = some .whip → v.name ≠ name) :
    GoesOn name a t p (p.release now x) := by
  refine goesOn_atSource p x () fun c v src hv hget hheld _ => ?_
  cases hk : v.publisherKind with
  | none => exact ⟨c, by simp only [publishRelease, hk], ShmCtx.stillAt_of_get hget⟩
  | some kind =>
    have hno : (ShmOp.releasePublish now v.name kind).releases c a = false := by
      simp only [ShmOp.releases, hget, Option.any_some, hheld.name, hheld.kind,
        Bool.and_eq_false_iff, decide_eq_false_iff_not, Option.some.injEq]
      by_cases hw : kind = .whip
      · subst hw
        exact .inl fun he => h v hv hk he.symm
      · exact .inr fun he => hw he.symm
    obtain ⟨src', hget', hst⟩ := @ShmCtx.stillAt_releasePublish _ _ _ t now _ _ hget hno
    obtain ⟨src'', hget'', hst'⟩ := ShmCtx.stillAt_sourceRemove (t := t) v.name hget'
      (hst.publishing.trans hheld.publishing)
    refine ⟨_, by simp only [publishRelease, hk]; rfl, src'', ?_, hst.trans hst'⟩
    simpa only [publishReleaseIn, hk] using hget''

theorem stillAt_adoptIn {c : ShmCtx} {src : ShmSource} (hget : c.sources.get a = some src)
    (hheld : src.Held name .whip) (halive : src.alive t = true) {env : Env} (ht : env.now = t)
    (v : Source) : (adoptIn c env v).1.StillAt a t src := by
  refine ShmCtx.stillAt_sourceGet hget hheld.publishing ?_
  simp only [ShmOp.reaps, ShmOp.sweeps]
  split_ifs
  · simp [hget, ht, halive]
  · rfl

theorem goesOn_attachSource (p : Proc) {env : Env} (ht : env.now = t) (heap : Heap)
    (snap : SessionSnapshot) : GoesOn name a t p (p.attachSource env heap snap).1 := by
  unfold Proc.attachSource
  split
  · exact goesOn_of_sh rfl
  · split
    · exact goesOn_of_sh rfl
    · next w x _ _ =>
      refine GoesOn.trans_sh (q := ⟨p.sh, w⟩) rfl (goesOn_atSource _ x () fun c v src _ hget hheld halive => ?_)
      cases hp : snap.publishing with
      | true => exact ⟨_, rfl, stillAt_adoptIn hget hheld halive ht _⟩
      | false => exact ⟨c, rfl, ShmCtx.stillAt_of_get hget⟩

theorem goesOn_attach (ht0 : 0 < t) (p : Proc) {env : Env} (ht : env.now = t) (heap : Heap)
    (ufrag : Ufrag) : GoesOn name a t p (p.attachFromShm env heap ufrag).1 := by
  unfold Proc.attachFromShm
  split
  · exact goesOn_of_sh rfl
  · next c hc =>
    split_ifs
    · exact goesOn_of_sh rfl
    · split
      · exact goesOn_of_sh rfl
      · next c' _ snap hb =>
        have hbind : GoesOn name a t p (p.call (.bind ufrag p.w.slot)) :=
          goesOn_call p (ShmOp.plain_of_idle rfl (fun _ => rfl) fun _ _ _ => (nomatch ·))
        have hp : p.call (.bind ufrag p.w.slot) = ⟨some c', p.w⟩ := by
          simp only [call, hc, Option.map_some, ShmOp.step, hb]
        rw [hp] at hbind
        exact hbind.trans ht0 ((goesOn_attachSource _ ht heap snap).trans ht0 (goesOn_of_sh rfl))

/-- **No act ends the publish** that leaves its claim alone. -/
theorem GoesOn.act (ht : 0 < t) (h : Act (· = t) (· = name) p q) : GoesOn name a t p q := by
  cases h with
  | call op h => exact goesOn_call p h
  | broadcast x rtp isVideo gop => exact goesOn_broadcast p x rtp isVideo gop
  | claim env x kind h => exact goesOn_claim p h x kind
  | renew now x h => exact h ▸ goesOn_renew p x
  | sync slot env x h => exact goesOn_sync p slot h x
  | attach env heap ufrag h => exact goesOn_attach ht p h heap ufrag
  | release now x h =>
    refine goesOn_release p now x fun v hv hk hn => ?_
    exact nomatch hk.symm.trans (h v hv hn)
  | _ => exact goesOn_of_sh rfl

theorem GoesOn.acts (ht : 0 < t) (h : Acts (· = t) (· = name) p q) : GoesOn name a t p q := by
  induction h with
  | refl => exact goesOn_of_sh rfl
  | tail _ hq ih => exact ih.trans ht (.act ht hq)

/-! ### Closes -/

/-- The session at `b` is of the stream, and its local source carries the WHIP tag. -/
def tagged (name : SourceName) (p : Proc) (b : ℕ) : Bool :=
  (p.w.sessions.get b).any fun s => s.source.any fun x => (p.w.sources.get x).any fun v =>
    v.name = name && v.publisherKind = some .whip

/-- The event closes such a session. -/
def closesTagged (name : SourceName) (p : Proc) (e : ProcEvent) : Bool :=
  (p.closes e).any (p.tagged name)

theorem Calm.tagged {T : ℕ → Prop} {kept : SourceName → Prop} (h : Calm T kept p q)
    (name : SourceName) (b : ℕ) : q.tagged name b = p.tagged name b := by
  have hx : ∀ x, (q.w.sources.get x).any (fun v =>
      v.name = name && v.publisherKind = some .whip) = (p.w.sources.get x).any fun v =>
        v.name = name && v.publisherKind = some .whip := by
    intro x
    have hc := congrArg (Option.any fun k => k.name = name && k.kind = some .whip) (h.claims x)
    rw [Option.any_map, Option.any_map] at hc
    exact hc
  have hb := congrArg (Option.any fun k => k.1.any fun x => (p.w.sources.get x).any fun v =>
    v.name = name && v.publisherKind = some .whip) (h.streams b)
  rw [Option.any_map, Option.any_map] at hb
  simp only [Proc.tagged, hx]
  exact hb

theorem goesOn_releaseOwned (p : Proc) (now : ℕ) (s : Session)
    (h : ∀ x v, s.source = some x → p.w.sources.get x = some v →
      v.publisherKind = some .whip → v.name ≠ name) :
    GoesOn name a t p (p.releaseOwned now s) := by
  unfold Proc.releaseOwned
  split
  · exact goesOn_of_sh rfl
  · next x hx =>
    split_ifs
    · exact goesOn_release p now x fun v hv hk => h x v hx hv hk
    · exact goesOn_of_sh rfl

/-- The close of a session, other than one of the stream on a tagged worker. -/
theorem goesOn_sessionClose (ht : 0 < t) (p : Proc) (now : ℕ) (heap : Heap) (ev : SessionEvent)
    {b : ℕ} (hb : p.tagged name b = false) : GoesOn name a t p (p.sessionClose now heap ev b) := by
  cases hs : p.w.sessions.get b with
  | none =>
    rw [sessionClose_none hs]
    exact goesOn_of_sh rfl
  | some s =>
    obtain ⟨w, hsrc, -, he⟩ := sessionClose_eq hs now heap ev
    rw [he]
    have hd : GoesOn name a t p ⟨p.sh, w⟩ := goesOn_of_sh rfl
    have hr := hd.trans ht (goesOn_releaseOwned _ now s fun x v hx hv hk hn => ?_)
    · exact (hr.trans ht (goesOn_of_sh rfl)).trans ht
        (goesOn_call _ (ShmOp.plain_of_idle rfl (fun _ => rfl) fun _ _ _ => (nomatch ·)))
    · rw [hsrc] at hv
      simp [tagged, hs, hx, hv, hk, hn] at hb

/-- **Every other handler leaves the publish as it is.** -/
theorem goesOn_step (ht : 0 < t) (p : Proc) {e : ProcEvent} (htime : e.Timed (· = t))
    (hs : p.Steady (· = name) e) (hc : p.closesTagged name e = false) :
    GoesOn name a t p (p.step e) := by
  have hh := handles_step p htime hs
  generalize p.step e = q at hh
  cases hh with
  | acts h => exact .acts ht h
  | settles h =>
    cases h with
    | calm h => exact .acts ht h.acts
    | @closes q h now heap ev b hb =>
      refine GoesOn.trans ht (.acts ht h.acts) (goesOn_sessionClose ht q now heap ev ?_)
      rw [h.tagged name b]
      simpa only [closesTagged, hb, Option.any_some] using hc

end GoesOn

end Proc

end NginxRtc
