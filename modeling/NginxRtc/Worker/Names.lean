/-
  The names of sources over time, seen by one worker.

  A local source never changes its name and a session never changes its stream.  A cached pointer
  leads to a shared source of the same name, or to one that is gone: `Source.Aimed`.  Addresses are
  given out once, here and in the registry, so all this stays true while other requests and other
  workers make and free sources.

  `Ages p q`: from `p` to `q` nothing was renamed.  `ages_step`, `ages_run`: every handler, every
  run.  `sessionClose_others`: the close of a session releases no other name than that of its source.
-/
import NginxRtc.Shm.Ownership
import NginxRtc.Worker.Held
import NginxRtc.Worker.Shaped

namespace NginxRtc

/-! ## Registries over time -/

/-- A registry after another, if there is one: no source was renamed. -/
def OlderSh (sh sh' : Option ShmCtx) : Prop := ∀ c', sh' = some c' → ∃ c, sh = some c ∧ c.Older c'

theorem OlderSh.refl (sh : Option ShmCtx) : OlderSh sh sh := fun c h => ⟨c, h, .refl c⟩

theorem OlderSh.trans {sh sh' sh'' : Option ShmCtx} (h : OlderSh sh sh') (h' : OlderSh sh' sh'') :
    OlderSh sh sh'' := by
  intro c'' hc''
  obtain ⟨c', hc', ho'⟩ := h' c'' hc''
  obtain ⟨c, hc, ho⟩ := h c' hc'
  exact ⟨c, hc, ho.trans ho'⟩

theorem olderSh_some {c c' : ShmCtx} (h : c.Older c') : OlderSh (some c) (some c') :=
  fun _ he => ⟨c, rfl, Option.some.inj he ▸ h⟩

theorem olderSh_call (sh : Option ShmCtx) (op : ShmOp) : OlderSh sh (sh.map fun c => op.step c) := by
  intro c' hc'
  obtain ⟨c, hc, rfl⟩ := Option.map_eq_some_iff.1 hc'
  exact ⟨c, hc, ShmCtx.older_step c op⟩

/-- A source that is found or made has the name that was asked for. -/
theorem ShmCtx.sourceGet_named {c : ShmCtx} {env : Env} {name : SourceName} {a : ℕ}
    (h : (c.sourceGet env name).2 = some a) :
    a < (c.sourceGet env name).1.sources.next ∧
      ∀ src, (c.sourceGet env name).1.sources.get a = some src → src.name = name := by
  unfold sourceGet at h ⊢
  cases hl : c.sourceLookup name with
  | some b =>
    simp only [hl] at h ⊢
    obtain rfl := Option.some.inj h
    obtain ⟨t, ht, hn⟩ := sourceLookup_spec hl
    exact ⟨Pool.lt_next ht, fun src hs => Option.some.inj (ht.symm.trans hs) ▸ hn⟩
  | none =>
    simp only [hl] at h ⊢
    split_ifs at h ⊢
    obtain rfl := Option.some.inj h
    refine ⟨Nat.lt_succ_self _, fun src hs => ?_⟩
    rw [addSource, Pool.get_alloc_self] at hs
    exact (Option.some.inj hs) ▸ rfl

/-! ## Cached pointers -/

namespace Source

/-- The cached pointer of a local source leads to the shared source of its name, or to none. -/
def Aimed (sh : Option ShmCtx) (v : Source) : Prop :=
  ∀ c a, sh = some c → v.shmSrc = some a →
    a < c.sources.next ∧ ∀ src, c.sources.get a = some src → src.name = v.name

variable {sh sh' : Option ShmCtx} {v u : Source}

theorem aimed_of_none (h : v.shmSrc = none) : v.Aimed sh := fun _ _ _ ha => nomatch h.symm.trans ha

theorem Aimed.older (h : v.Aimed sh) (ho : OlderSh sh sh') : v.Aimed sh' := by
  intro c' a hc' ha
  obtain ⟨c, hc, hold⟩ := ho c' hc'
  obtain ⟨hlt, hname⟩ := h c a hc ha
  refine ⟨hlt.trans_le hold.next, fun src' hsrc' => ?_⟩
  obtain ⟨src, hsrc, hn⟩ := hold.named a src' hlt hsrc'
  exact hn.trans (hname src hsrc)

theorem Aimed.congr (h : v.Aimed sh) (hn : u.name = v.name) (hs : u.shmSrc = v.shmSrc) :
    u.Aimed sh := by
  intro c a hc ha
  obtain ⟨hlt, hname⟩ := h c a hc (hs ▸ ha)
  exact ⟨hlt, fun src hsrc => (hname src hsrc).trans hn.symm⟩

theorem aimed_lookup {c : ShmCtx} {a : ℕ} (hl : c.sourceLookup v.name = some a)
    (hs : v.shmSrc = some a) : v.Aimed (some c) := by
  intro c' b hc' hb
  obtain rfl := Option.some.inj hc'
  obtain rfl := Option.some.inj (hs.symm.trans hb)
  obtain ⟨t, ht, hn⟩ := ShmCtx.sourceLookup_spec hl
  exact ⟨Pool.lt_next ht, fun src hsrc => Option.some.inj (ht.symm.trans hsrc) ▸ hn⟩

/-- What a publish call does: the registry gets older, the name stays and the pointer is aimed. -/
structure Steered (sh : Option ShmCtx) (v : Source) (sh' : Option ShmCtx) (u : Source) : Prop where
  older : OlderSh sh sh'
  name : u.name = v.name
  aimed : v.Aimed sh → u.Aimed sh'

theorem Steered.same (sh : Option ShmCtx) (hn : u.name = v.name) (hs : u.shmSrc = v.shmSrc) :
    v.Steered sh sh u := ⟨.refl sh, hn, fun h => h.congr hn hs⟩

theorem Steered.cleared (sh : Option ShmCtx) (hn : u.name = v.name) (hs : u.shmSrc = none) :
    v.Steered sh sh u := ⟨.refl sh, hn, fun _ => aimed_of_none hs⟩

theorem Steered.trans {sh'' : Option ShmCtx} {t : Source} (h : v.Steered sh sh' u)
    (h' : u.Steered sh' sh'' t) : v.Steered sh sh'' t :=
  ⟨h.older.trans h'.older, h'.name.trans h.name, fun ha => h'.aimed (h.aimed ha)⟩

end Source

theorem ShmCtx.older_claimSource (c : ShmCtx) (now : ℕ) (name : SourceName) (kind : PublisherKind) :
    c.Older (c.claimSource now name kind) := by
  unfold ShmCtx.claimSource ShmCtx.modifySource
  split
  · exact .refl c
  · exact ShmCtx.older_modify c _ fun _ => rfl

theorem publishClaim_steered (sh : Option ShmCtx) (env : Env) (v : Source) (kind : PublisherKind) :
    v.Steered sh (publishClaim sh env v kind).1 (publishClaim sh env v kind).2.1 := by
  cases sh with
  | none => exact .cleared none rfl rfl
  | some c =>
    simp only [publishClaim]
    rcases publishClaimIn_cases c env v kind with
      ⟨-, he⟩ | ⟨_, _, _, -, -, -, -, he⟩ | ⟨a, _, hl, -, -, -, he⟩ <;> rw [he]
    · exact .cleared _ rfl rfl
    · exact .cleared _ rfl rfl
    · refine ⟨olderSh_some (c.older_claimSource env.now v.name kind), rfl, fun _ => ?_⟩
      refine Source.aimed_lookup (a := a) ?_ rfl
      rw [ShmCtx.sourceLookup_claimSource]
      exact hl

theorem publishRelease_steered (sh : Option ShmCtx) (now : ℕ) (v : Source) :
    v.Steered sh (publishRelease sh now v).1 (publishRelease sh now v).2 := by
  cases sh with
  | none =>
    cases hk : v.publisherKind with
    | none =>
      simp only [publishRelease, hk]
      exact .same none rfl rfl
    | some kind =>
      simp only [publishRelease, hk]
      exact .cleared none rfl rfl
  | some c =>
    cases hk : v.publisherKind with
    | none =>
      simp only [publishRelease, hk]
      exact .same _ rfl rfl
    | some kind =>
      simp only [publishRelease, publishReleaseIn, hk]
      refine ⟨olderSh_some ?_, rfl, fun _ => Source.aimed_of_none rfl⟩
      exact (ShmCtx.older_step c (.releasePublish now v.name kind)).trans
        (ShmCtx.older_step _ (.sourceRemove v.name))

theorem streamShmSource_steered (sh : Option ShmCtx) (now : ℕ) (v : Source) :
    v.Steered sh (streamShmSource sh now v).1 (streamShmSource sh now v).2.1 := by
  cases sh with
  | none => exact .same none rfl rfl
  | some c =>
    simp only [streamShmSource]
    rcases streamShmSourceIn_cases c now v with
      ⟨-, he⟩ | ⟨_, -, -, he⟩ | ⟨_, _, _, -, -, -, -, -, -, he⟩ | ⟨_, -, -, -, he⟩ <;> rw [he]
    · exact .same _ rfl rfl
    · exact .same _ rfl rfl
    · have ho := olderSh_some (c.older_claimSource now v.name .whip)
      exact ⟨ho, rfl, fun h => (h.older ho).congr rfl rfl⟩
    · exact .cleared _ rfl rfl

theorem rtmpRecordIn_steered (c : ShmCtx) (slot now : ℕ) (v : Source) :
    v.Steered (some c) (some (rtmpRecordIn c slot now v).1) (rtmpRecordIn c slot now v).2 := by
  unfold rtmpRecordIn
  split
  · exact .same _ rfl rfl
  · next a _ =>
    have ho : OlderSh (some c) (some ((c.setPublisherSlot a slot).setStatsSeen a v.stats now)) :=
      olderSh_some ((ShmCtx.older_step c (.setPublisherSlot a slot)).trans
        (ShmCtx.older_step _ (.setStatsSeen a v.stats now)))
    exact ⟨ho, v.syncFrom_name _, fun h => (h.older ho).congr (v.syncFrom_name _) (v.syncFrom_shmSrc _)⟩

theorem rtmpSyncShm_steered (sh : Option ShmCtx) (slot : ℕ) (env : Env) (v : Source) :
    v.Steered sh (rtmpSyncShm sh slot env v).1 (rtmpSyncShm sh slot env v).2.1 := by
  cases sh with
  | none => exact .same none rfl rfl
  | some c =>
    simp only [rtmpSyncShm]
    by_cases hf : v.publisherKind = some .rtmp ∧ v.shmSrc ≠ none ∧ v.inWindow env.now = true
    · obtain ⟨a, ha⟩ := Option.ne_none_iff_exists'.1 hf.2.1
      rw [rtmpSyncShmIn_fast hf.1 ha hf.2.2]
      have ho := olderSh_some (ShmCtx.older_step c (.setStatsSeen a v.stats env.now))
      exact ⟨ho, rfl, fun h => h.older ho⟩
    · have hclaim := publishClaim_steered (some c) env v .rtmp
      rw [rtmpSyncShmIn_slow hf]
      split_ifs
      · exact hclaim
      · exact hclaim.trans (rtmpRecordIn_steered _ slot env.now _)

theorem adoptIn_steered (c : ShmCtx) (env : Env) (v : Source) :
    v.Steered (some c) (some (adoptIn c env v).1) (adoptIn c env v).2 := by
  refine ⟨olderSh_some (ShmCtx.older_step c (.sourceGet env v.name)), rfl, fun _ => ?_⟩
  intro d a hd ha
  obtain rfl := Option.some.inj hd
  exact ShmCtx.sourceGet_named ha

/-- A packet moves neither the name of its source nor any shared source. -/
theorem broadcastRtp_steered (c : ShmCtx) (w : Worker) (v : Source) (rtp : Bytes)
    (isVideo gop : Bool) : v.Steered (some c) (some (broadcastRtp c w v rtp isVideo gop).sh)
      (broadcastRtp c w v rtp isVideo gop).src := by
  have hsrc := Proc.broadcastRtp_sources c w v rtp isVideo gop
  have hc := broadcastRtp_claim c w v rtp isVideo gop
  simp only [Source.claim, SourceClaim.mk.injEq] at hc
  have ho : c.Older (broadcastRtp c w v rtp isVideo gop).sh :=
    ⟨(congrArg Pool.next hsrc).ge, fun a s _ hs => ⟨s, hsrc ▸ hs, rfl⟩⟩
  exact ⟨olderSh_some ho, hc.1, fun h => (h.older (olderSh_some ho)).congr hc.1 hc.2.2.2.1⟩

/-! ## Handlers -/

namespace Proc

/-- Every cached pointer of the worker is aimed. -/
def Aimed (p : Proc) : Prop := ∀ x v, p.w.sources.get x = some v → v.Aimed p.sh

/-- From `p` to `q` no source was renamed, no session changed its stream, and aimed pointers stay so. -/
structure Ages (p q : Proc) : Prop where
  registry : OlderSh p.sh q.sh
  sources : p.w.sources.Older Source.name q.w.sources
  sessions : p.w.sessions.Older Session.stream q.w.sessions
  aimed : p.Aimed → q.Aimed

section Ages
variable {p q r : Proc}

theorem Ages.refl (p : Proc) : p.Ages p := ⟨.refl _, .refl _ _, .refl _ _, id⟩

theorem Ages.trans (h : p.Ages q) (h' : q.Ages r) : p.Ages r where
  registry := h.registry.trans h'.registry
  sources := h.sources.trans h'.sources
  sessions := h.sessions.trans h'.sessions
  aimed := h'.aimed ∘ h.aimed

/-- A change of this worker alone: what it does to pointers. -/
theorem ages_upd (p : Proc) {w : Worker} (hsources : p.w.sources.Older Source.name w.sources)
    (hsessions : p.w.sessions.Older Session.stream w.sessions)
    (haimed : ∀ x u, w.sources.get x = some u → u.shmSrc = none ∨
      ∃ v, p.w.sources.get x = some v ∧ u.name = v.name ∧ u.shmSrc = v.shmSrc) :
    p.Ages ⟨p.sh, w⟩ := by
  refine ⟨.refl _, hsources, hsessions, fun h x u hu => ?_⟩
  rcases haimed x u hu with hn | ⟨v, hv, hname, hs⟩
  · exact Source.aimed_of_none hn
  · exact (h x v hv).congr hname hs

/-- A change of sessions and connections. -/
theorem ages_sessions (p : Proc) {w : Worker} (hsources : w.sources = p.w.sources)
    (hsessions : p.w.sessions.Older Session.stream w.sessions) : p.Ages ⟨p.sh, w⟩ :=
  ages_upd p (hsources ▸ .refl _ _) hsessions fun _ u hu => .inr ⟨u, hsources ▸ hu, rfl, rfl⟩

theorem ages_call (p : Proc) (op : ShmOp) : p.Ages (p.call op) :=
  have ho : OlderSh p.sh (p.call op).sh := olderSh_call p.sh op
  ⟨ho, .refl _ _, .refl _ _, fun h x v hv => (h x v hv).older ho⟩

/-- A removal keeps what it does not free. -/
theorem drops_kept {w w' : Worker} (h : w.Drops w') {x : ℕ} {v : Source}
    (hv : w'.sources.get x = some v) : w.sources.get x = some v := by
  rcases h.sources x with he | ⟨hn, -⟩
  · exact he ▸ hv
  · exact nomatch hn.symm.trans hv

theorem sourceRemove_next (w : Worker) (name : SourceName) :
    (w.sourceRemove name).sources.next = w.sources.next := by
  unfold Worker.sourceRemove
  split
  · rfl
  · split
    · rfl
    · split_ifs <;> rfl

theorem ages_remove (p : Proc) (name : SourceName) : p.Ages (p.upd fun w => w.sourceRemove name) := by
  have hd := Worker.drops_sourceRemove p.w name
  refine ages_upd p ⟨(sourceRemove_next p.w name).ge, fun x v _ hv => ⟨v, drops_kept hd hv, rfl⟩⟩
    (hd.sessions ▸ .refl _ _) fun x v hv => .inr ⟨v, drops_kept hd hv, rfl, rfl⟩

theorem ages_create (p : Proc) (alloc : Bool) (name : SourceName) :
    p.Ages ⟨p.sh, (p.w.sourceCreate alloc name).1⟩ := by
  unfold Worker.sourceCreate
  split
  · exact .refl p
  · split_ifs
    · refine ages_upd p (Pool.older_alloc _ _ _) (.refl _ _) fun x u hu => ?_
      simp only [Pool.get_alloc] at hu
      split_ifs at hu
      · exact .inl (Option.some.inj hu ▸ rfl)
      · exact .inr ⟨u, hu, rfl, rfl⟩
    · exact .refl p

/-- An edit of one source that keeps its name and its pointer. -/
theorem ages_modifySource (p : Proc) (x : ℕ) {w : Worker} {f : Source → Source}
    (hw : w.sources = p.w.sources.modify x f)
    (hf : ∀ v, (f v).name = v.name ∧ (f v).shmSrc = v.shmSrc)
    (hsessions : p.w.sessions.Older Session.stream w.sessions) : p.Ages ⟨p.sh, w⟩ := by
  refine ages_upd p (hw ▸ Pool.older_modify _ x fun v _ => (hf v).1) hsessions fun y u hu => .inr ?_
  rw [hw, Pool.get_modify] at hu
  split_ifs at hu with hy
  · subst hy
    obtain ⟨v, hv, rfl⟩ := Option.map_eq_some_iff.1 hu
    exact ⟨v, hv, hf v⟩
  · exact ⟨u, hu, rfl, rfl⟩

/-- A call made on a local source. -/
theorem ages_atSource {β : Type} (p : Proc) (x : ℕ) (d : β)
    {f : Option ShmCtx → Source → Option ShmCtx × Source × β}
    (hf : ∀ v : Source, v.Steered p.sh (f p.sh v).1 (f p.sh v).2.1) : p.Ages (p.atSource x d f).1 := by
  unfold Proc.atSource
  split
  · exact .refl p
  · next v hv =>
    have hs := hf v
    refine ⟨hs.older, Pool.older_modify _ x fun u hu => ?_, .refl _ _, fun h y u hu => ?_⟩
    · exact Option.some.inj (hv.symm.trans hu) ▸ hs.name
    · simp only [Worker.modifySource, Pool.get_modify] at hu
      split_ifs at hu with hy
      · subst hy
        rw [hv] at hu
        exact Option.some.inj hu ▸ hs.aimed (h y v hv)
      · exact (h y u hu).older hs.older

theorem ages_broadcast (p : Proc) (x : ℕ) (rtp : Bytes) (isVideo gop : Bool) :
    p.Ages (p.broadcast x rtp isVideo gop) := by
  refine ages_atSource p x () fun v => ?_
  cases p.sh with
  | none => exact .same none rfl rfl
  | some c => exact broadcastRtp_steered c p.w v rtp isVideo gop

theorem ages_attachSource (p : Proc) (env : Env) (heap : Heap) (snap : SessionSnapshot) :
    p.Ages (p.attachSource env heap snap).1 := by
  unfold Proc.attachSource
  split
  · exact .refl p
  · next name vs as vp ap _ =>
    split
    · exact .refl p
    · next w x _ hw =>
      have hc := ages_create p heap.source name
      rw [hw] at hc
      refine hc.trans (ages_atSource _ x () fun v => ?_)
      split
      · next c hsh _ =>
        rw [show p.sh = some c from hsh]
        have hi : v.Steered (some c) (some c) (v.setIdentity vs as vp ap) := .same _ rfl rfl
        exact hi.trans (adoptIn_steered c env _)
      · exact .same _ rfl rfl

theorem ages_attachFromShm (p : Proc) (env : Env) (heap : Heap) (ufrag : Ufrag) :
    p.Ages (p.attachFromShm env heap ufrag).1 := by
  unfold Proc.attachFromShm
  split
  · exact .refl p
  · next c hc =>
    split_ifs
    · exact .refl p
    · split
      · exact .refl p
      · next c' _ snap hb =>
        have hbind : p.Ages ⟨some c', p.w⟩ := by
          have h := ages_call p (.bind ufrag p.w.slot)
          simp only [call, hc, Option.map_some, ShmOp.step, hb] at h
          exact h
        refine (hbind.trans (ages_attachSource _ env heap snap)).trans (ages_sessions _ rfl ?_)
        exact Pool.older_alloc _ _ _

/-- **No act renames anything.** -/
theorem Ages.act {T : ℕ → Prop} {kept : SourceName → Prop} (h : Act T kept p q) : p.Ages q := by
  cases h with
  | call op h => exact ages_call p op
  | conns f hsources hsessions => exact ages_sessions p hsources (hsessions ▸ .refl _ _)
  | session a f h => exact ages_sessions p rfl (Pool.older_modify _ a fun s _ => h s)
  | source x f h =>
    refine ages_modifySource p x rfl (fun v => ?_) (.refl _ _)
    have hv := h v
    simp only [Source.claim, SourceClaim.mk.injEq] at hv
    exact ⟨hv.1, hv.2.2.2.1⟩
  | subscribe x a h =>
    obtain ⟨s, hs, hx⟩ := h
    refine ages_modifySource p x rfl (fun v => ⟨rfl, rfl⟩) (Pool.older_modify _ a fun t ht => ?_)
    obtain rfl := Option.some.inj (hs.symm.trans ht)
    simp only [Session.stream, hx]
  | enter sess => exact ages_sessions p rfl (Pool.older_alloc _ _ _)
  | create alloc name => exact ages_create p alloc name
  | remove name => exact ages_remove p name
  | broadcast x rtp isVideo gop => exact ages_broadcast p x rtp isVideo gop
  | claim env x kind h => exact ages_atSource p x _ fun v => publishClaim_steered p.sh env v kind
  | renew now x h => exact ages_atSource p x none fun v => streamShmSource_steered p.sh now v
  | sync slot env x h =>
    exact ages_atSource p x Rc.error fun v => rtmpSyncShm_steered p.sh slot env v
  | attach env heap ufrag h => exact ages_attachFromShm p env heap ufrag
  | release now x h => exact ages_atSource p x () fun v => publishRelease_steered p.sh now v
  | drop a => exact ages_sessions p rfl (Pool.older_free _ _ a)

theorem Ages.acts {T : ℕ → Prop} {kept : SourceName → Prop} (h : Acts T kept p q) : p.Ages q := by
  induction h with
  | refl => exact .refl p
  | tail _ hq ih => exact ih.trans (.act hq)

/-! ### Closes -/

theorem ages_release (p : Proc) (now x : ℕ) : p.Ages (p.release now x) :=
  ages_atSource p x () fun v => publishRelease_steered p.sh now v

theorem ages_releaseOwned (p : Proc) (now : ℕ) (s : Session) : p.Ages (p.releaseOwned now s) := by
  unfold Proc.releaseOwned
  split
  · exact .refl p
  · split_ifs
    · exact ages_release p now _
    · exact .refl p

/-- A session that leaves forgets its stream, but is freed with it. -/
theorem ages_leave (p : Proc) (a : ℕ) (sess : Session) : p.Ages (p.upd fun w => w.leave a sess) := by
  unfold Worker.leave
  split
  · exact ages_sessions p rfl (Pool.older_free _ _ a)
  · next x _ =>
    rcases p.w.unsubscribe_cases x a with he | ⟨-, hd⟩
    · simp only [upd, he]
      exact ages_sessions p rfl (Pool.older_free _ _ a)
    · have hnext : (p.w.unsubscribe x a).sources.next = p.w.sources.next := by
        unfold Worker.unsubscribe
        split
        · rfl
        · split_ifs
          · rfl
          · split
            · rfl
            · split_ifs
              · exact sourceRemove_next _ _
              · rfl
      have hkept : ∀ y u, (p.w.unsubscribe x a).sources.get y = some u →
          ∃ v, p.w.sources.get y = some v ∧ u.name = v.name ∧ u.shmSrc = v.shmSrc := by
        intro y u hu
        have hold := drops_kept hd hu
        simp only [Worker.unlink, Pool.get_modify] at hold
        split_ifs at hold with hy
        · subst hy
          obtain ⟨v, hv, rfl⟩ := Option.map_eq_some_iff.1 hold
          exact ⟨v, hv, rfl, rfl⟩
        · exact ⟨u, hold, rfl, rfl⟩
      refine ages_upd p ⟨hnext.ge, fun y u _ hu => ?_⟩ ⟨?_, fun b t _ ht => ?_⟩
        fun y u hu => .inr (hkept y u hu)
      · obtain ⟨v, hv, hn, -⟩ := hkept y u hu
        exact ⟨v, hv, hn⟩
      · exact (congrArg Pool.next hd.sessions).ge
      · simp only [Worker.sessionRemove, Pool.get_free] at ht
        split_ifs at ht with hb
        rw [hd.sessions, Worker.unlink, Pool.get_modify_of_ne hb] at ht
        exact ⟨t, ht, rfl⟩

theorem older_detach (w : Worker) (closeEv : Bool) (a : ℕ) (sess : Session) :
    w.sessions.Older Session.stream (w.detach closeEv a sess).sessions := by
  unfold Worker.detach
  split
  · exact .refl _ _
  · exact Pool.older_modify _ a fun _ _ => rfl

theorem ages_sessionClose (p : Proc) (now : ℕ) (heap : Heap) (ev : SessionEvent) (a : ℕ) :
    p.Ages (p.sessionClose now heap ev a) := by
  unfold Proc.sessionClose
  split
  · exact .refl p
  · next sess _ =>
    have hd : p.Ages (p.upd fun w => (w.detach heap.closeEv a sess).modifySession a
        (Session.dispatch ev none)) :=
      ages_sessions p (Worker.detach_sources ..) ((older_detach p.w heap.closeEv a sess).trans
        (Pool.older_modify _ a fun s _ => dispatch_stream ev none s))
    exact ((hd.trans (ages_releaseOwned _ now sess)).trans (ages_leave _ a sess)).trans
      (ages_call _ _)

/-- **Every handler** leaves all names as they are. -/
theorem ages_step (p : Proc) (e : ProcEvent) : p.Ages (p.step e) := by
  have hh := handles_step (T := fun _ => True) p e.timed_any (steady_none p e)
  generalize p.step e = q at hh
  cases hh with
  | acts h => exact .acts h
  | settles h =>
    cases h with
    | calm h => exact .acts h.acts
    | @closes q h now heap ev b _ => exact (Ages.acts h.acts).trans (ages_sessionClose q now heap ev b)

theorem ages_run (p : Proc) (es : List ProcEvent) : p.Ages (Lts.run step p es) := by
  induction es generalizing p with
  | nil => exact .refl p
  | cons e es ih => exact (ages_step p e).trans (ih _)

theorem aimed_init (slot : ℕ) (sh : Option ShmCtx) : (init slot sh).Aimed := fun _ _ h => nomatch h

end Ages

/-! ## What a close leaves to other names -/

/-- The publishers of the name are the same in both registries. -/
def Alike (name : SourceName) (c d : ShmCtx) : Prop := c.Fades d name ∧ c.Lasts d name

section Closes
variable {p : Proc} {c d : ShmCtx} {name : SourceName}

theorem Alike.refl (name : SourceName) (c : ShmCtx) : Alike name c c := ⟨.refl c name, .refl c name⟩

theorem Alike.trans {e : ShmCtx} (h : Alike name c d) (h' : Alike name d e) : Alike name c e :=
  ⟨h.1.trans h'.1, h.2.trans h'.2⟩

theorem alike_sheds (h : c.Sheds d) : Alike name c d := by
  constructor
  · rintro kind seen ⟨a, t, ht, hn, hk, hs⟩
    have ha := h a
    rw [ht] at ha
    generalize hg : c.sources.get a = o at ha
    cases ha with
    | some hshed =>
      exact ⟨a, _, hg, hshed.name.symm.trans hn, hshed.kind.symm.trans hk, hshed.seen.symm.trans hs⟩
  · rintro kind seen ⟨a, t, ht, hn, hk, hs⟩
    have ha := h a
    rw [ht] at ha
    generalize hg : d.sources.get a = o at ha
    cases ha with
    | some hshed =>
      exact ⟨a, _, hg, hshed.name.trans hn, hshed.kind.trans hk, hshed.seen.trans hs⟩

theorem alike_removeIfOwner (c : ShmCtx) (now : ℕ) (ufrag : Ufrag) (slot : ℕ) :
    Alike name c (c.sessionRemoveIfOwner now ufrag slot) := by
  unfold ShmCtx.sessionRemoveIfOwner
  split
  · exact .refl name c
  · split
    · exact .refl name c
    · split_ifs
      · exact alike_sheds (ShmCtx.sheds_sessionFree c now _)
      · exact .refl name c

theorem alike_release {v : Source} (hc : c.Shape) (now : ℕ) :
    ∃ d, (publishRelease (some c) now v).1 = some d ∧ ∀ name, v.name ≠ name → Alike name c d := by
  cases hk : v.publisherKind with
  | none => exact ⟨c, by simp only [publishRelease, hk], fun name _ => .refl name c⟩
  | some kind =>
    refine ⟨_, by simp only [publishRelease, publishReleaseIn, hk]; rfl, fun name hv => ?_⟩
    have hshape : (c.sourceReleasePublish now v.name kind).Shape :=
      (ShmOp.releasePublish now v.name kind).shape_step hc
    exact (show Alike name c _ from ShmCtx.publishes_release now kind hv).trans
      (hshape.publishes_sourceRemove v.name)

/-- **The close of a session** leaves the publishers of every name alone but that of its source. -/
theorem sessionClose_others (hs : p.Shaped) (hc : p.sh = some c) (now : ℕ) (heap : Heap)
    (ev : SessionEvent) (b : ℕ) :
    ∃ d, (p.sessionClose now heap ev b).sh = some d ∧
      ∀ name, (∀ s x v, p.w.sessions.get b = some s → s.source = some x →
        p.w.sources.get x = some v → v.name ≠ name) → Alike name c d := by
  cases hsess : p.w.sessions.get b with
  | none =>
    rw [sessionClose_none hsess]
    exact ⟨c, hc, fun name _ => .refl name c⟩
  | some sess =>
    obtain ⟨w, hsrc, -, he⟩ := sessionClose_eq hsess now heap ev
    simp only [he, upd, call]
    obtain ⟨d, hd, ha⟩ : ∃ d, (Proc.releaseOwned ⟨p.sh, w⟩ now sess).sh = some d ∧
        ∀ name, (∀ x v, sess.source = some x → p.w.sources.get x = some v → v.name ≠ name) →
          Alike name c d := by
      unfold Proc.releaseOwned
      split
      · exact ⟨c, hc, fun name _ => .refl name c⟩
      · next x hx =>
        split_ifs
        · unfold Proc.release Proc.atSource
          simp only [hsrc]
          cases hv : p.w.sources.get x with
          | none => exact ⟨c, hc, fun name _ => .refl name c⟩
          | some v =>
            simp only [hc]
            obtain ⟨d, hd, ha⟩ := alike_release (v := v) (hs c hc) now
            exact ⟨d, hd, fun name h => ha name (h x v hx hv)⟩
        · exact ⟨c, hc, fun name _ => .refl name c⟩
    refine ⟨_, by rw [hd, Option.map_some], fun name h => ?_⟩
    exact (ha name fun x v => h sess x v rfl).trans (alike_removeIfOwner d now _ _)

end Closes

end Proc

end NginxRtc
