/-
  Publish attempts that fail: what they leave behind.

  An RTMP message is refused, or a WHIP request ends in an error, after the handler has built the
  local source and asked for the claim.  `Attempting` follows the source of the attempt through the
  handler; everything else about the local sources stays.

  `refused_rtmp`, `failed_whip`: the local sources after the attempt.  `failed_attempt`: with the
  registry, in any state of a run.
-/
import NginxRtc.Shm.Ownership
import NginxRtc.Worker.Close
import NginxRtc.Worker.Lifetime
import NginxRtc.Worker.Shaped

namespace NginxRtc

/-! ## The source of an attempt -/

/-- What the steps of an attempt leave of the source `v`: all but its claim and its identity. -/
structure Source.Tried (v u : Source) (kind : Option PublisherKind) : Prop where
  name : u.name = v.name
  kind : u.publisherKind = kind
  subscribers : u.subscribers = v.subscribers
  audioCtx : u.audioCtx = v.audioCtx
  mirrored : u.Mirrored

namespace Worker

/-- On the way from `w₀` the attempt has touched the source at `a` alone, which was `v`. -/
structure Attempting (w₀ : Worker) (a : ℕ) (v : Source) (kind : Option PublisherKind)
    (w : Worker) : Prop where
  source : ∃ u, w.sources.get a = some u ∧ v.Tried u kind
  others : ∀ b, b ≠ a → w.sources.get b = w₀.sources.get b

variable {w₀ w w' : Worker} {a : ℕ} {v : Source} {kind kind' : Option PublisherKind}

theorem Attempting.of_sources (h : w₀.Attempting a v kind w) (hs : w'.sources = w.sources) :
    w₀.Attempting a v kind w' := ⟨hs.symm ▸ h.source, hs.symm ▸ h.others⟩

/-- The source of the attempt is rewritten. -/
theorem Attempting.modifySource (h : w₀.Attempting a v kind w) {f : Source → Source}
    (hf : ∀ u, w.sources.get a = some u → v.Tried u kind → v.Tried (f u) kind') :
    w₀.Attempting a v kind' (w.modifySource a f) := by
  obtain ⟨u, hu, ht⟩ := h.source
  refine ⟨⟨f u, ?_, hf u hu ht⟩, fun b hb => ?_⟩
  · simp only [Worker.modifySource, Pool.get_modify_self, hu, Option.map_some]
  · rw [← h.others b hb]
    exact Pool.get_modify_of_ne hb f

/-- The local source of an attempt on `name`: `v` at `a`, fresh if the attempt created it. -/
structure Started (w w₀ : Worker) (name : SourceName) (a : ℕ) (created : Bool) (v : Source) :
    Prop where
  source : w₀.sources.get a = some v
  named : v.name = name
  same : created = false → w₀ = w
  new : created = true → w.sources.get a = none ∧ v = Source.fresh name ∧
    ∀ b u, w.sources.get b = some u → u.name ≠ name
  others : ∀ b, b ≠ a → w₀.sources.get b = w.sources.get b
  lookup : w₀.sourceLookup name = some a
  sessions : w₀.sessions = w.sessions

theorem started_sourceCreate {alloc created : Bool} {name : SourceName}
    (h : w.sourceCreate alloc name = (w₀, some a, created)) :
    ∃ v, w.Started w₀ name a created v := by
  rcases sourceCreate_cases h with ⟨rfl, rfl, hl⟩ | ⟨rfl, rfl, hl, rfl⟩
  · obtain ⟨v, hv, hn⟩ := sourceLookup_spec hl
    exact ⟨v, hv, hn, fun _ => rfl, (nomatch ·), fun _ _ => rfl, hl, rfl⟩
  · have hno := sourceLookup_eq_none.1 hl
    refine ⟨Source.fresh name, Pool.get_alloc_self _ _, rfl, (nomatch ·),
      fun _ => ⟨Pool.get_next _, rfl, hno⟩, fun b hb => ?_, ?_, rfl⟩
    · rw [Pool.get_alloc, if_neg hb]
    · refine Pool.find?_eq_of_unique (Pool.get_alloc_self _ _) (decide_eq_true rfl) fun b u hb hn => ?_
      rw [Pool.get_alloc] at hb
      split_ifs at hb with he
      · exact he
      · exact absurd (of_decide_eq_true hn) (hno b u hb)

theorem Started.mirrored {name : SourceName} {created : Bool} (h : w.Started w₀ name a created v)
    (hm : w.Mirrored) : v.Mirrored := by
  cases created with
  | false => exact hm a v (h.same rfl ▸ h.source)
  | true =>
    rw [(h.new rfl).2.1]
    exact Source.fresh_mirrored name

theorem Started.attempting {name : SourceName} {created : Bool}
    (h : w.Started w₀ name a created v) (hm : w.Mirrored) :
    w₀.Attempting a v v.publisherKind w₀ :=
  ⟨⟨v, h.source, rfl, rfl, rfl, rfl, h.mirrored hm⟩, fun _ _ => rfl⟩

/-- An attempt does not change which source the name finds. -/
theorem Attempting.sourceLookup {name : SourceName} {created : Bool}
    (hst : w.Started w₀ name a created v) (h : w₀.Attempting a v kind w')
    (hcreated : created = true) : w'.sourceLookup name = some a := by
  obtain ⟨u, hu, ht⟩ := h.source
  refine Pool.find?_eq_of_unique hu (decide_eq_true (ht.name.trans hst.named)) fun b t hb hn => ?_
  by_contra hne
  rw [h.others b hne, hst.others b hne] at hb
  exact (hst.new hcreated).2.2 b t hb (of_decide_eq_true hn)

end Worker

/-- The local sources after an attempt on `name` that came to nothing: the mirror of each is as
    before, but one that said WHIP for the name may have been cleared. -/
structure Worker.Undone (w w' : Worker) (name : SourceName) : Prop where
  sources : ∀ a, (w'.sources.get a).map Source.name = (w.sources.get a).map Source.name
  owner : ∀ a, localOwner (w'.sources.get a) = localOwner (w.sources.get a) ∨
    (∃ v, w.sources.get a = some v ∧ v.name = name ∧ v.publisherKind = some .whip) ∧
      localOwner (w'.sources.get a) = localOwner none
theorem Source.Mirrored.localOwner_free {u : Source} (h : u.Mirrored) (hk : u.publisherKind = none) :
    localOwner (some u) = localOwner none :=
  h.localOwner_idle (by rw [h.kind, hk]; rfl)

/-- **The undo of an attempt** whose claim is gone: a source it created is freed, the one it found
    stays. -/
theorem Worker.Attempting.undone {w w₀ w' : Worker} {name : SourceName} {a : ℕ} {created : Bool}
    {v : Source} (hst : w.Started w₀ name a created v) (hm : w.Mirrored)
    (hk : v.publisherKind = none ∨ v.publisherKind = some .whip) (h : w₀.Attempting a v none w')
    (hfree : created = true → ∀ b s, w'.sessions.get b = some s → s.source ≠ some a) :
    w.Undone (if created then w'.sourceRemove name else w') name := by
  obtain ⟨u, hu, ht⟩ := h.source
  have hothers : ∀ b, b ≠ a → w'.sources.get b = w.sources.get b :=
    fun b hb => (h.others b hb).trans (hst.others b hb)
  cases created with
  | false =>
    have hv : w.sources.get a = some v := by rw [← hst.same rfl, hst.source]
    refine ⟨fun b => ?_, fun b => ?_⟩ <;> by_cases hb : b = a
    · subst hb
      simp only [Bool.false_eq_true, if_false, hu, hv, Option.map_some, ht.name]
    · simp only [Bool.false_eq_true, if_false, hothers b hb]
    · subst hb
      simp only [Bool.false_eq_true, if_false, hu, hv, ht.mirrored.localOwner_free ht.kind]
      rcases hk with hk | hk
      · exact .inl ((hst.mirrored hm).localOwner_free hk).symm
      · exact .inr ⟨⟨v, rfl, hst.named, hk⟩, trivial⟩
    · simp only [Bool.false_eq_true, if_false, hothers b hb, true_or]
  | true =>
    obtain ⟨hnone, rfl, -⟩ := hst.new rfl
    have hheld : w'.hasHolder a = false := by
      simp only [hasHolder, List.any_eq_false, Prod.forall, Pool.mem_cells_iff, decide_eq_true_eq]
      exact hfree rfl
    have hidle : u.publishing = false := by rw [ht.mirrored.kind, ht.kind]; rfl
    have hrem : w'.removable a u = true := by
      rw [removable, ht.subscribers, ht.audioCtx, hidle, hheld]
      rfl
    have hget : ∀ b, (w'.sourceRemove name).sources.get b = w.sources.get b := by
      intro b
      simp only [Worker.sourceRemove, h.sourceLookup hst rfl, hu, hrem, if_true, Pool.get_free]
      split_ifs with hb
      · rw [hb, hnone]
      · exact hothers b hb
    exact ⟨fun b => by rw [if_pos rfl, hget], fun b => .inl (by rw [if_pos rfl, hget])⟩
/-! ## The steps of an attempt -/

namespace Proc

variable {p : Proc} {w₀ : Worker} {a : ℕ} {v : Source} {kind : Option PublisherKind}

open Worker (Attempting)

/-- A call on the source of the attempt. -/
theorem attempting_atSource {β : Type} (h : w₀.Attempting a v kind p.w) (d : β)
    {f : Option ShmCtx → Source → Option ShmCtx × Source × β} {kind' : Option PublisherKind}
    (hf : ∀ u, p.w.sources.get a = some u → v.Tried u kind → v.Tried (f p.sh u).2.1 kind') :
    w₀.Attempting a v kind' (p.atSource a d f).1.w := by
  obtain ⟨u, hu, ht⟩ := h.source
  unfold Proc.atSource
  rw [hu]
  refine Worker.Attempting.modifySource h fun u' hu' ht' => ?_
  obtain rfl := Option.some.inj (hu.symm.trans hu')
  exact hf u hu ht'

/-- The tag of a source whose claim by `k` was answered. -/
def tagAfter (k : PublisherKind) : Rc → Option PublisherKind
  | .busy => none
  | _ => some k

/-- A claim tags the source, or clears its tag when it is refused. -/
theorem tried_claim (sh : Option ShmCtx) (env : Env) (k : PublisherKind) {u : Source}
    (ht : v.Tried u kind) :
    v.Tried (publishClaim sh env u k).2.1 (tagAfter k (publishClaim sh env u k).2.2) := by
  have hm := publishClaim_mirrored sh env u k
  cases sh with
  | none => exact ⟨ht.name, rfl, ht.subscribers, ht.audioCtx, hm⟩
  | some c =>
    simp only [publishClaim] at hm ⊢
    rcases publishClaimIn_cases c env u k with
      ⟨-, he⟩ | ⟨_, _, _, -, -, -, -, he⟩ | ⟨_, _, -, -, -, -, he⟩ <;> rw [he] at hm ⊢ <;>
      exact ⟨ht.name, rfl, ht.subscribers, ht.audioCtx, hm⟩

theorem tried_release (sh : Option ShmCtx) (now : ℕ) {u : Source} (ht : v.Tried u (some .whip)) :
    v.Tried (publishRelease sh now u).2 none := by
  cases sh <;> simp only [publishRelease, publishReleaseIn, ht.kind] <;>
    exact ⟨ht.name, rfl, ht.subscribers, ht.audioCtx, u.unclaimed_mirrored⟩

theorem attempting_claim (h : w₀.Attempting a v kind p.w) (env : Env) (k : PublisherKind) :
    w₀.Attempting a v (tagAfter k (p.claim env a k).2) (p.claim env a k).1.w := by
  obtain ⟨u, hu, -⟩ := h.source
  have hrc : (p.claim env a k).2 = (publishClaim p.sh env u k).2.2 := by
    simp only [Proc.claim, Proc.atSource, hu]
  rw [hrc]
  refine attempting_atSource h Rc.error fun u' hu' ht => ?_
  obtain rfl := Option.some.inj (hu.symm.trans hu')
  exact tried_claim p.sh env k ht

theorem attempting_release (h : w₀.Attempting a v (some .whip) p.w) (now : ℕ) :
    w₀.Attempting a v none (p.release now a).w :=
  attempting_atSource h () fun _ _ ht => tried_release p.sh now ht

theorem attempting_takeIdentity (h : w₀.Attempting a v kind p.w) (offer : Offer)
    (name : SourceName) (b : Option ℕ) :
    w₀.Attempting a v kind (p.takeIdentity offer name a b).w := by
  unfold Proc.takeIdentity
  split
  · split
    · exact h
    · exact Worker.Attempting.modifySource h fun u _ ht =>
        ⟨ht.name, ht.kind, ht.subscribers, ht.audioCtx, ht.mirrored.identity ..⟩
  · exact h

theorem attempting_registered {r : Request}
    (h : w₀.Attempting a v kind (Proc.whipGranted.identified p r a).w) :
    w₀.Attempting a v kind (Proc.whipGranted.registered p r a).w :=
  h.of_sources (registered_sources p r a)

/-- The session of the request is the only one the registration adds. -/
theorem registered_sessions {r : Request} {b : ℕ} (hb : b ≠ p.w.sessions.next) :
    (Proc.whipGranted.registered p r a).w.sessions.get b = p.w.sessions.get b := by
  have hi : (Proc.whipGranted.identified p r a).w.sessions = p.w.sessions :=
    takeIdentity_sessions ..
  have hopen : ((Proc.whipGranted.identified p r a).openSession r a true).w.sessions.get b =
      p.w.sessions.get b := by
    unfold Proc.openSession
    split
    · rw [hi]
    · simp only [upd, Worker.sessionAdd, Pool.get_alloc, hi, if_neg hb]
  have hg : (((Proc.whipGranted.identified p r a).openSession r a true).shmSourceGet r.env
      r.name).1.w.sessions.get b = p.w.sessions.get b := by rw [shmSourceGet_w, hopen]
  unfold Proc.whipGranted.registered
  split
  · next he => rw [he] at hg; exact hg
  · next he =>
    rw [he] at hg
    unfold Proc.addSkeleton
    split
    · dsimp only
      split
      · exact hg
      · simp only [Worker.modifySession, Pool.get_modify_of_ne hb]
        exact hg
    · exact hg

/-! ## Requests -/

/-- The WHIP request ends in an error. -/
def whipFails (p : Proc) (r : Request) : Prop :=
  match p.w.sourceCreate r.heap.source r.name with
  | (_, none, _) => True
  | (w, some src, _) =>
    Proc.kindAt ⟨p.sh, w⟩ src = some .rtmp ∨
      (Proc.claim ⟨p.sh, w⟩ r.env src .whip).2 = .busy ∨ r.heap.session = false ∨ r.answer = false

/-- The WHIP request is refused because RTMP publishes the name. -/
def whipRefused (p : Proc) (r : Request) : Prop :=
  match p.w.sourceCreate r.heap.source r.name with
  | (_, none, _) => False
  | (w, some src, _) =>
    Proc.kindAt ⟨p.sh, w⟩ src = some .rtmp ∨ (Proc.claim ⟨p.sh, w⟩ r.env src .whip).2 = .busy

/-- Only live sources are held by sessions. -/
def HoldsLive (p : Proc) : Prop :=
  ∀ b s a, p.w.sessions.get b = some s → s.source = some a → (p.w.sources.get a).isSome
theorem claim_sessions (p : Proc) (env : Env) (a : ℕ) (k : PublisherKind) :
    (p.claim env a k).1.w.sessions = p.w.sessions := atSource_sessions p a _ _

theorem rollback_w (p : Proc) (created : Bool) (name : SourceName) :
    (p.rollback created name).w = if created then p.w.sourceRemove name else p.w := by
  unfold Proc.rollback
  split_ifs <;> rfl

theorem rollback_sh (p : Proc) (created : Bool) (name : SourceName) :
    (p.rollback created name).sh = p.sh := by
  cases created <;> rfl

/-- A request that fails after its claim was granted. -/
theorem failed_granted {w : Worker} {r : Request} {created : Bool} (hm : w.Mirrored)
    (hst : w.Started w₀ r.name a created v)
    (hk : v.publisherKind = none ∨ v.publisherKind = some .whip)
    (hc : w₀.Attempting a v (some .whip) p.w)
    (hunheld : created = true → ∀ b s, p.w.sessions.get b = some s → s.source ≠ some a)
    (hf : r.heap.session = false ∨ r.answer = false) :
    w.Undone (p.whipGranted r a created).w r.name := by
  have hi : w₀.Attempting a v (some .whip) (Proc.whipGranted.identified p r a).w :=
    attempting_takeIdentity hc r.offer r.name _
  unfold Proc.whipGranted
  split_ifs with hsess hans
  · rw [hsess, hans] at hf
    exact hf.elim (nomatch ·) (nomatch ·)
  · rw [rollback_w]
    have hrel : w₀.Attempting a v none (((Proc.whipGranted.registered p r a).release r.env.now
        a).upd fun w => w.sessionRemove p.w.sessions.next).w :=
      (attempting_release (attempting_registered hi) r.env.now).of_sources rfl
    refine hrel.undone hst hm hk fun hcr b s hs => ?_
    simp only [upd, Worker.sessionRemove, Pool.get_free] at hs
    split_ifs at hs with hb
    rw [Proc.release, atSource_sessions, registered_sessions hb] at hs
    exact hunheld hcr b s hs
  · rw [rollback_w]
    refine (attempting_release hi r.env.now).undone hst hm hk fun hcr b s hs => ?_
    rw [Proc.release, atSource_sessions, Proc.whipGranted.identified, takeIdentity_sessions] at hs
    exact hunheld hcr b s hs

/-- **A WHIP request that fails** leaves the local sources as they were, but for the mirror of a
    WHIP publisher of the name. -/
theorem failed_whip (hm : p.Mirrored) (hl : p.HoldsLive) {r : Request} (hf : p.whipFails r) :
    p.w.Undone (p.whip r).w r.name := by
  unfold Proc.whipFails at hf
  unfold Proc.whip
  split
  · exact ⟨fun _ => rfl, fun _ => .inl rfl⟩
  · next w src created hw =>
    rw [hw] at hf
    dsimp only at hf
    obtain ⟨v, hst⟩ := Worker.started_sourceCreate hw
    have hunheld : created = true → ∀ b s, p.w.sessions.get b = some s → s.source ≠ some src := by
      intro hc b s hs hsrc
      have hlive := hl b s src hs hsrc
      rw [(hst.new hc).1] at hlive
      cases hlive
    have hkind : Proc.kindAt ⟨p.sh, w⟩ src = v.publisherKind := by
      rw [Proc.kindAt, hst.source, Option.bind_some]
    split_ifs with hrtmp
    · -- an RTMP tag was there before, so nothing was created
      cases created with
      | true =>
        rw [hkind, (hst.new rfl).2.1] at hrtmp
        cases hrtmp
      | false =>
        rw [Proc.rollback, if_neg Bool.false_ne_true]
        show p.w.Undone w r.name
        rw [hst.same rfl]
        exact ⟨fun _ => rfl, fun _ => .inl rfl⟩
    · have hk : v.publisherKind = none ∨ v.publisherKind = some .whip := by
        rw [hkind] at hrtmp
        cases hv : v.publisherKind with
        | none => exact .inl rfl
        | some k => cases k <;> simp_all
      have hc := attempting_claim (p := ⟨p.sh, w⟩) (hst.attempting hm) r.env .whip
      have hcs := claim_sessions ⟨p.sh, w⟩ r.env src .whip
      split
      · next q he =>
        rw [he] at hc hcs
        rw [rollback_w]
        exact hc.undone hst hm hk fun hcr b s hs => hunheld hcr b s (by rwa [hcs, hst.sessions] at hs)
      · next q rc hbusy he =>
        rw [he] at hc hcs hf
        have hc : w.Attempting src v (some .whip) q.w := by
          cases rc with
          | busy => exact absurd rfl hbusy
          | _ => exact hc
        have hf : r.heap.session = false ∨ r.answer = false := by
          rcases hf with hf | hf | hf
          · exact absurd hf hrtmp
          · exact absurd hf hbusy
          · exact hf
        refine failed_granted hm hst hk hc (fun hcr b s hs => hunheld hcr b s ?_) hf
        rwa [hcs, hst.sessions] at hs
/-! ## RTMP -/

/-- The publish of a connection over RTMP whose first message is refused: the message, an audio
    message when `audio` says what its header was, and the end of the connection. -/
def rtmpRefusal (p : Proc) (env : Env) (heap : Heap) (name : SourceName)
    (audio : Option (Option Bool)) (now : ℕ) : Proc :=
  (match audio with
    | none => p.step (.rtmpVideo env heap name)
    | some header => p.step (.rtmpAudio env heap name header)).rtmpRelease now name

/-- An audio message that is refused does what a video message does. -/
theorem rtmpAudio_refused {env : Env} {heap : Heap} {name : SourceName}
    (h : (p.rtmpSync env heap name).2 = none) (header : Option Bool) :
    p.rtmpAudio env heap name header = (p.rtmpSync env heap name).1 := by
  unfold Proc.rtmpAudio
  split
  · next he => rw [he] at h; exact nomatch h
  · next he _ => rw [he]

theorem rtmpSyncShm_refused {sh : Option ShmCtx} {slot : ℕ} {env : Env} {u : Source}
    (h : (rtmpSyncShm sh slot env u).2.2 ≠ .ok) :
    (rtmpSyncShm sh slot env u).1 = sh ∧ (rtmpSyncShm sh slot env u).2.1 = u.unclaimed := by
  cases sh with
  | none => exact absurd rfl h
  | some c =>
    simp only [rtmpSyncShm] at h ⊢
    by_cases hw : u.publisherKind = some .rtmp ∧ u.shmSrc ≠ none ∧ u.inWindow env.now = true
    · obtain ⟨a, ha⟩ := Option.ne_none_iff_exists'.1 hw.2.1
      rw [rtmpSyncShmIn_fast hw.1 ha hw.2.2] at h
      exact absurd rfl h
    · rw [rtmpSyncShmIn_slow hw] at h ⊢
      split_ifs at h ⊢ with hb
      · rcases publishClaimIn_cases c env u .rtmp with
          ⟨-, he⟩ | ⟨_, _, _, -, -, -, -, he⟩ | ⟨_, _, -, -, -, -, he⟩ <;> rw [he] at hb ⊢
        · cases hb
        · exact ⟨rfl, rfl⟩
        · cases hb
      · exact absurd rfl h

/-- **A message that is refused** has built the source, and cleared its mirror. -/
theorem rtmpSync_refused {env : Env} {heap : Heap} {name : SourceName}
    (h : (p.rtmpSync env heap name).2 = none) :
    ((p.rtmpSync env heap name).1 = p ∧ p.w.sourceLookup name = none) ∨
      ∃ w a created v, p.w.Started w name a created v ∧
        (p.rtmpSync env heap name).1 = ⟨p.sh, w.modifySource a Source.unclaimed⟩ := by
  unfold Proc.rtmpSync at h ⊢
  cases hw : p.w.sourceCreate heap.source name with
  | mk w r =>
    obtain ⟨o, created⟩ := r
    cases o with
    | none =>
      refine .inl ⟨rfl, ?_⟩
      unfold Worker.sourceCreate at hw
      cases hl : p.w.sourceLookup name with
      | none => rfl
      | some b => simp [hl] at hw
    | some a =>
      obtain ⟨v, hst⟩ := Worker.started_sourceCreate hw
      refine .inr ⟨w, a, created, v, hst, ?_⟩
      simp only [hw, Proc.atSource, hst.source] at h ⊢
      cases hrc : (rtmpSyncShm p.sh p.w.slot env v).2.2 with
      | ok => simp [hrc] at h
      | _ =>
        have hne : (rtmpSyncShm p.sh p.w.slot env v).2.2 ≠ .ok := by
          rw [hrc]
          exact fun he => by cases he
        obtain ⟨hsh, hu⟩ := rtmpSyncShm_refused hne
        simp only [hsh, hu, Worker.modifySource]
        rw [Pool.modify_congr (g := Source.unclaimed)]
        intro u hu'
        rw [← Option.some.inj (hst.source.symm.trans hu')]

/-- The local sources after a refused RTMP publish of `name`: those that were there stay, with
    their mirrors but the one of the name; one that came is of the name, and has no mirror. -/
structure Refused (w w' : Worker) (name : SourceName) : Prop where
  kept : ∀ a v, w.sources.get a = some v → ∃ u, w'.sources.get a = some u ∧ u.name = v.name ∧
    (localOwner (some u) = localOwner (some v) ∨
      v.name = name ∧ localOwner (some u) = localOwner none)
  came : ∀ a u, w.sources.get a = none → w'.sources.get a = some u →
    u.name = name ∧ localOwner (some u) = localOwner none

/-- **A refused RTMP publish** leaves the registry as it is, and the local sources of all other
    names. -/
theorem refused_rtmp {env : Env} {heap : Heap} {name : SourceName}
    (h : (p.rtmpSync env heap name).2 = none) (audio : Option (Option Bool)) (now : ℕ) :
    (p.rtmpRefusal env heap name audio now).sh = p.sh ∧
      Refused p.w (p.rtmpRefusal env heap name audio now).w name := by
  have hmsg : p.rtmpRefusal env heap name audio now =
      (p.rtmpSync env heap name).1.rtmpRelease now name := by
    cases audio with
    | none => rfl
    | some header => exact congrArg (·.rtmpRelease now name) (rtmpAudio_refused h header)
  rw [hmsg]
  rcases rtmpSync_refused h with ⟨he, hl⟩ | ⟨w, a, created, v, hst, he⟩
  · rw [he, Proc.rtmpRelease, hl]
    exact ⟨rfl, fun a v hv => ⟨v, hv, rfl, .inl rfl⟩, fun a u hn hs => by cases hn.symm.trans hs⟩
  · have hl : (w.modifySource a Source.unclaimed).sourceLookup name = some a :=
      (Pool.find?_modify (f := Source.unclaimed) w.sources a fun _ => rfl).trans hst.lookup
    have hget : (w.modifySource a Source.unclaimed).sources.get a = some v.unclaimed := by
      simp only [Worker.modifySource, Pool.get_modify_self, hst.source, Option.map_some]
    have hk : Proc.kindAt ⟨p.sh, w.modifySource a Source.unclaimed⟩ a ≠ some .rtmp := by
      rw [Proc.kindAt, hget]
      exact fun he => by cases he
    have hrel : Proc.rtmpRelease ⟨p.sh, w.modifySource a Source.unclaimed⟩ now name =
        ⟨p.sh, (w.modifySource a Source.unclaimed).modifySource a fun s =>
          { s with audioCtx := false }⟩ := by
      rw [Proc.rtmpRelease, hl]
      dsimp only
      rw [if_neg hk]
      rfl
    have hsrc : ∀ b, ((w.modifySource a Source.unclaimed).modifySource a fun s =>
        { s with audioCtx := false }).sources.get b =
          if b = a then some { v.unclaimed with audioCtx := false } else p.w.sources.get b := by
      intro b
      split_ifs with hb
      · subst hb
        simp only [Worker.modifySource, Pool.get_modify_self, hst.source, Option.map_some]
      · simp only [Worker.modifySource, Pool.get_modify_of_ne hb]
        exact hst.others b hb
    rw [he, hrel]
    refine ⟨rfl, fun b u hu => ?_, fun b u hn hu => ?_⟩
    · rw [hsrc]
      split_ifs with hb
      · subst hb
        cases created with
        | true => cases (hst.new rfl).1.symm.trans hu
        | false =>
          have hsame := hst.source
          rw [hst.same rfl] at hsame
          obtain rfl := Option.some.inj (hsame.symm.trans hu)
          exact ⟨_, rfl, rfl, .inr ⟨hst.named, rfl⟩⟩
      · exact ⟨u, hu, rfl, .inl rfl⟩
    · rw [hsrc] at hu
      split_ifs at hu with hb
      · rw [← Option.some.inj hu]
        exact ⟨hst.named, rfl⟩
      · cases hn.symm.trans hu
/-! ## The registry after a request -/

/-- The slab holds out during the request, or the sweep it forces finds the publisher of `n`
    alive. -/
def Spares (r : Request) (c : ShmCtx) (n : SourceName) : Prop :=
  (r.env.slab = false → c.Spared r.env.now n) ∧ (r.envAdd.slab = false → c.Spared r.envAdd.now n)

/-- From `c` to `c'` nobody came to publish `n`, and nobody went whom the request spares. -/
def Keeps (r : Request) (c c' : ShmCtx) (n : SourceName) : Prop :=
  c.Fades c' n ∧ (Spares r c n → c.Lasts c' n)

theorem Keeps.refl (r : Request) (c : ShmCtx) (n : SourceName) : Keeps r c c n :=
  ⟨.refl c n, fun _ => .refl c n⟩

theorem Keeps.trans {r : Request} {c c' d : ShmCtx} {n : SourceName} (h : Keeps r c c' n)
    (h' : Keeps r c' d n) : Keeps r c d n :=
  ⟨h.1.trans h'.1, fun hs => (h.2 hs).trans
    (h'.2 ⟨fun he => (hs.1 he).fades h.1, fun he => (hs.2 he).fades h.1⟩)⟩

theorem Keeps.of_both {r : Request} {c c' : ShmCtx} {n : SourceName}
    (h : c.Fades c' n ∧ c.Lasts c' n) : Keeps r c c' n := ⟨h.1, fun _ => h.2⟩

theorem takeIdentity_keeps {c : ShmCtx} (hsh : p.sh = some c) (r : Request) (offer : Offer)
    (name : SourceName) (src : ℕ) (b : Option ℕ) :
    ∃ c', (p.takeIdentity offer name src b).sh = some c' ∧ ∀ n, Keeps r c c' n := by
  unfold Proc.takeIdentity
  rw [hsh]
  cases b with
  | none => exact ⟨c, hsh, Keeps.refl r c⟩
  | some b =>
    dsimp only
    split
    · exact ⟨c, hsh, Keeps.refl r c⟩
    · refine ⟨c.sourceSetPt name offer.videoPt offer.audioPt, ?_,
        fun n => .of_both (ShmCtx.publishes_setPt name _ _)⟩
      simp only [Proc.call, upd, hsh, Option.map_some, ShmOp.step]

theorem addSkeleton_keeps {c : ShmCtx} (hsh : p.sh = some c) (hc : c.Shape) (r : Request)
    (name : SourceName) (b : ℕ) :
    ∃ c', (p.addSkeleton r.envAdd name b).sh = some c' ∧ ∀ n, Keeps r c c' n := by
  unfold Proc.addSkeleton
  rw [hsh]
  cases p.w.sessions.get b with
  | none => exact ⟨c, hsh, Keeps.refl r c⟩
  | some sess =>
    exact ⟨_, rfl, fun n => ⟨ShmCtx.fades_sessionAdd c n r.envAdd _,
      fun hs => hc.lasts_sessionAdd hs.2 _⟩⟩

theorem shmSourceGet_keeps {c : ShmCtx} (hsh : p.sh = some c) (hc : c.Shape) (r : Request)
    (name : SourceName) :
    ∃ c', (p.shmSourceGet r.env name).1.sh = some c' ∧ ∀ n, Keeps r c c' n := by
  unfold Proc.shmSourceGet
  rw [hsh]
  exact ⟨_, rfl, fun n => ⟨ShmCtx.fades_sourceGet c n r.env name,
    fun hs => hc.lasts_sourceGet hs.1 name⟩⟩

theorem openSession_sh (p : Proc) (r : Request) (src : ℕ) (publishing : Bool) :
    (p.openSession r src publishing).sh = p.sh := by
  unfold Proc.openSession
  split <;> rfl

theorem registered_keeps {c : ShmCtx} (hs : p.Shaped) (hsh : p.sh = some c) (r : Request) (a : ℕ) :
    ∃ c', (Proc.whipGranted.registered p r a).sh = some c' ∧ ∀ n, Keeps r c c' n := by
  obtain ⟨c₁, hsh₁, hk₁⟩ := takeIdentity_keeps hsh r r.offer r.name a
    ((p.w.sources.get a).bind Source.shmSrc)
  have hsi := hs.free (calm_identified p r a).acts
  have hopen : ((Proc.whipGranted.identified p r a).openSession r a true).sh = some c₁ :=
    (openSession_sh _ r a true).trans hsh₁
  have hso := hsi.free (acts_openSession _ r a true)
  obtain ⟨c₂, hsh₂, hk₂⟩ := shmSourceGet_keeps hopen (hso c₁ hopen) r r.name
  have hsg := hso.free (acts_shmSourceGet _ r.env trivial r.name)
  unfold Proc.whipGranted.registered
  split
  · next he =>
    rw [he] at hsh₂
    exact ⟨c₂, hsh₂, fun n => (hk₁ n).trans (hk₂ n)⟩
  · next he =>
    rw [he] at hsh₂ hsg
    obtain ⟨c₃, hsh₃, hk₃⟩ := addSkeleton_keeps hsh₂ (hsg c₂ hsh₂) r r.name p.w.sessions.next
    exact ⟨c₃, hsh₃, fun n => ((hk₁ n).trans (hk₂ n)).trans (hk₃ n)⟩

/-- The release of a failed request: other names keep their publisher; a name that only WHIP could
    publish is left without one. -/
theorem release_keeps {c : ShmCtx} (hs : p.Shaped) (hsh : p.sh = some c)
    (h : w₀.Attempting a v (some .whip) p.w) (r : Request) (now : ℕ) :
    ∃ c', (p.release now a).sh = some c' ∧ (∀ n, v.name ≠ n → Keeps r c c' n) ∧
      ((∀ k seen, c.Publishes v.name k seen → k = .whip) →
        ∀ k seen, ¬ c'.Publishes v.name k seen) := by
  obtain ⟨u, hu, ht⟩ := h.source
  have hrel : (p.release now a).sh =
      some ((c.sourceReleasePublish now v.name .whip).sourceRemove v.name) := by
    simp only [Proc.release, Proc.atSource, hu, hsh, publishRelease, publishReleaseIn, ht.kind,
      ht.name]
  have hshape : (c.sourceReleasePublish now v.name .whip).Shape :=
    (ShmOp.releasePublish now v.name .whip).shape_step (hs c hsh)
  refine ⟨_, hrel, fun n hn => ?_, fun honly k seen hp => ?_⟩
  · exact (Keeps.of_both (ShmCtx.publishes_release now .whip hn)).trans
      (.of_both (hshape.publishes_sourceRemove v.name))
  · exact (hs c hsh).unpublished_release honly now k seen
      ((hshape.publishes_sourceRemove v.name).1 k seen hp)

theorem failed_granted_keeps {c : ShmCtx} (hs : p.Shaped) (hsh : p.sh = some c) {r : Request}
    (h : w₀.Attempting a v (some .whip) p.w) (created : Bool)
    (hf : r.heap.session = false ∨ r.answer = false) :
    ∃ c', (p.whipGranted r a created).sh = some c' ∧ (∀ n, v.name ≠ n → Keeps r c c' n) ∧
      ((∀ k seen, c.Publishes v.name k seen → k = .whip) →
        ∀ k seen, ¬ c'.Publishes v.name k seen) := by
  have hi : w₀.Attempting a v (some .whip) (Proc.whipGranted.identified p r a).w :=
    attempting_takeIdentity h r.offer r.name _
  -- what the steps before the release keep, the release keeps or finishes
  have hjoin : ∀ q : Proc, q.Shaped → w₀.Attempting a v (some .whip) q.w → ∀ c₁, q.sh = some c₁ →
      (∀ n, Keeps r c c₁ n) → ∃ c', (q.release r.env.now a).sh = some c' ∧
        (∀ n, v.name ≠ n → Keeps r c c' n) ∧
          ((∀ k seen, c.Publishes v.name k seen → k = .whip) →
            ∀ k seen, ¬ c'.Publishes v.name k seen) := by
    intro q hq hatt c₁ hsh₁ hk₁
    obtain ⟨c', hsh', hk', hnone⟩ := release_keeps hq hsh₁ hatt r r.env.now
    exact ⟨c', hsh', fun n hn => (hk₁ n).trans (hk' n hn), fun honly => hnone fun k seen hp =>
      honly k seen ((hk₁ v.name).1 k seen hp)⟩
  unfold Proc.whipGranted
  split_ifs with hsess hans
  · rw [hsess, hans] at hf
    exact hf.elim (nomatch ·) (nomatch ·)
  · rw [rollback_sh]
    obtain ⟨c₁, hsh₁, hk₁⟩ := registered_keeps hs hsh r a
    exact hjoin _ (hs.free (acts_registered p trivial trivial a)) (attempting_registered hi) c₁ hsh₁ hk₁
  · rw [rollback_sh]
    obtain ⟨c₁, hsh₁, hk₁⟩ := takeIdentity_keeps hsh r r.offer r.name a
      ((p.w.sources.get a).bind Source.shmSrc)
    exact hjoin _ (hs.free (calm_identified p r a).acts) hi c₁ hsh₁ hk₁

/-- A granted claim by WHIP: nobody else published the name, and nobody else does. -/
theorem claimed_alone {c : ShmCtx} (hc : c.Shape) {env : Env} {u : Source}
    (hok : (publishClaimIn c env u .whip).2.2 ≠ .busy) :
    (∀ k seen, c.Publishes u.name k seen → k = .whip) ∧
      (∀ k seen, (publishClaimIn c env u .whip).1.Publishes u.name k seen → k = .whip) ∧
      ∀ n, u.name ≠ n → c.Fades (publishClaimIn c env u .whip).1 n ∧
        c.Lasts (publishClaimIn c env u .whip).1 n := by
  rcases publishClaimIn_cases c env u .whip with
    ⟨hl, he⟩ | ⟨_, _, _, -, -, -, -, he⟩ | ⟨b, s, hl, hs, hn, hfree, he⟩
  · have hno : ∀ k seen, ¬ c.Publishes u.name k seen := by
      rintro k seen ⟨a, src, hsrc, hname, -⟩
      exact ShmCtx.sourceLookup_eq_none.1 hl a src hsrc hname
    rw [he]
    exact ⟨fun k seen hp => (hno k seen hp).elim, fun k seen hp => (hno k seen hp).elim,
      fun n _ => ⟨.refl c n, .refl c n⟩⟩
  · rw [he] at hok
    exact absurd rfl hok
  · have hbefore : ∀ k seen, c.Publishes u.name k seen → k = .whip := by
      rintro k seen ⟨a, src, hsrc, hname, hk, -⟩
      have hab := hc.names a b src s hsrc hs (hname.trans hn.symm)
      subst hab
      obtain rfl := Option.some.inj (hs.symm.trans hsrc)
      rcases hfree with hnone | hwhip
      · exact nomatch hnone.symm.trans hk
      · exact (Option.some.inj (hwhip.symm.trans hk)).symm
    rw [he]
    refine ⟨hbefore, ?_, fun n hne => ShmCtx.publishes_claimSource env.now .whip hne⟩
    rintro k seen ⟨a, src, hsrc, hname, hk, hseen⟩
    rw [ShmCtx.claimSource, ShmCtx.modifySource_get, hl] at hsrc
    split_ifs at hsrc with hab
    · obtain ⟨t, -, rfl⟩ := Option.map_eq_some_iff.1 hsrc
      exact (Option.some.inj hk).symm
    · exact hbefore k seen ⟨a, src, hsrc, hname, hk, hseen⟩

/-- **A WHIP request that fails** leaves the publishers of other names in the registry as they were,
    as far as the slab holds out, and that of its own name unless it was WHIP. -/
theorem failed_whip_keeps (hs : p.Shaped) (hm : p.Mirrored) {r : Request} (hf : p.whipFails r)
    {c : ShmCtx} (hsh : p.sh = some c) :
    ∃ c', (p.whip r).sh = some c' ∧ ∀ n, Spares r c n →
      (n = r.name → ∀ seen, ¬ c.Publishes n .whip seen) → c'.publisherOf n = c.publisherOf n := by
  have hshape : (p.whip r).Shaped := shaped_step (.whip r) hs
  unfold Proc.whipFails at hf
  unfold Proc.whip at hshape ⊢
  cases hw : p.w.sourceCreate r.heap.source r.name with
  | mk w o =>
    obtain ⟨o, created⟩ := o
    rw [hw] at hf hshape
    cases o with
    | none => exact ⟨c, hsh, fun n _ _ => rfl⟩
    | some src =>
      dsimp only at hf hshape ⊢
      obtain ⟨v, hst⟩ := Worker.started_sourceCreate hw
      split_ifs with hrtmp
      · exact ⟨c, (rollback_sh _ created _).trans hsh, fun n _ _ => rfl⟩
      · rw [if_neg hrtmp] at hshape
        have hc := attempting_claim (p := ⟨p.sh, w⟩) (hst.attempting hm) r.env .whip
        have hclaimed : Shaped (Proc.claim ⟨p.sh, w⟩ r.env src .whip).1 :=
          Shaped.claim (p := ⟨p.sh, w⟩) hs r.env src .whip
        have hout : Proc.claim ⟨p.sh, w⟩ r.env src .whip =
            (⟨some (publishClaimIn c r.env v .whip).1, w.modifySource src fun _ =>
              (publishClaimIn c r.env v .whip).2.1⟩, (publishClaimIn c r.env v .whip).2.2) := by
          simp only [Proc.claim, Proc.atSource, hst.source, hsh, publishClaim]
        rw [hout] at hf hc hshape hclaimed ⊢
        by_cases hbusy : (publishClaimIn c r.env v .whip).2.2 = .busy
        · have hsame : (publishClaimIn c r.env v .whip).1 = c := by
            rcases publishClaimIn_cases c r.env v .whip with
              ⟨-, he⟩ | ⟨_, _, _, -, -, -, -, he⟩ | ⟨_, _, -, -, -, -, he⟩ <;> rw [he] at hbusy ⊢
            · cases hbusy
          simp only [hbusy, rollback_sh, hsame]
          exact ⟨c, rfl, fun n _ _ => rfl⟩
        · obtain ⟨hbefore, hafter, hother⟩ := claimed_alone (hs c hsh) hbusy
          have hrc : (publishClaimIn c r.env v .whip).2.2 = .ok :=
            (publishClaimIn_rc c r.env v .whip).resolve_left hbusy
          have hans : r.heap.session = false ∨ r.answer = false :=
            (hf.resolve_left hrtmp).resolve_left hbusy
          simp only [hrc] at hc hshape ⊢
          obtain ⟨c', hsh', hk', hnone⟩ := failed_granted_keeps hclaimed rfl hc created hans
          refine ⟨c', hsh', fun n hspare hwhip => ?_⟩
          have hshape' : c'.Shape := hshape c' hsh'
          by_cases hn : n = r.name
          · subst hn
            rw [hst.named] at hnone hbefore hafter
            rw [hshape'.publisherOf_none (hnone hafter), (hs c hsh).publisherOf_none]
            intro k seen hp
            obtain rfl := hbefore k seen hp
            exact hwhip rfl seen hp
          · have hne : v.name ≠ n := fun he => hn (he.symm.trans hst.named)
            have hk := (Keeps.of_both (hother n hne)).trans (hk' n hne)
            exact (hs c hsh).publisherOf_congr hshape' hk.1 (hk.2 hspare)

/-- A claim that is refused leaves the registry as it is. -/
theorem claim_busy_sh {env : Env} {k : PublisherKind} (h : (p.claim env a k).2 = .busy) :
    (p.claim env a k).1.sh = p.sh := by
  unfold Proc.claim Proc.atSource at h ⊢
  split
  · rfl
  · next u hu =>
    rw [hu] at h
    cases hsh : p.sh with
    | none => simp [hsh, publishClaim] at h
    | some c =>
      simp only [hsh, publishClaim] at h ⊢
      rcases publishClaimIn_cases c env u k with
        ⟨-, he⟩ | ⟨_, _, _, -, -, -, -, he⟩ | ⟨_, _, -, -, -, -, he⟩ <;> rw [he] at h ⊢
      cases h

/-- A WHIP request that is refused leaves the registry as it is. -/
theorem refused_whip {r : Request} (hr : p.whipRefused r) : (p.whip r).sh = p.sh := by
  unfold Proc.whipRefused at hr
  unfold Proc.whip
  split
  · rfl
  · next w src created hw =>
    rw [hw] at hr
    split_ifs with hrtmp
    · exact rollback_sh _ _ _
    · have hbusy : (Proc.claim ⟨p.sh, w⟩ r.env src .whip).2 = .busy := hr.resolve_left hrtmp
      have hsh := claim_busy_sh hbusy
      split
      · next he =>
        rw [he] at hsh
        exact (rollback_sh _ _ _).trans hsh
      · next hne he =>
        rw [he] at hbusy
        exact absurd hbusy hne

theorem holdsLive_of_reachable {slot : ℕ} {sh : Option ShmCtx}
    (h : Lts.Reachable step (init slot sh) p) : p.HoldsLive := by
  obtain ⟨es, rfl⟩ := h
  intro b s a hs hsrc
  obtain ⟨ops, hops, hm⟩ := traced_run (init slot sh) es Core.init (Core.models_init slot)
  have hlive := hm.ok.holder b s.core a (by rw [hm.session, hs]; rfl) hsrc
  rwa [hm.isSome_source] at hlive

/-- **Publish attempts that fail**, in any state of a run.  A refused RTMP publish leaves the
    registry as it is, and every local source with its mirror, but for the mirror of its name; a
    local source it added is of its name and published by nobody.  A WHIP request that ends in an
    error leaves the same local sources with the same mirrors, but for a mirror that says WHIP for
    its name.  In the registry it leaves everything if it was refused; else it leaves every
    publisher whom a sweep it forced finds alive, that of its own name unless it was WHIP. -/
theorem failed_attempts {nworkers : ℕ} {rings : List (Option MediaRing)} {slot : ℕ}
    {sh : Option ShmCtx} (hsh : ∀ c, sh = some c → c.Reachable nworkers rings)
    (hp : Lts.Reachable step (init slot sh) p) :
    (∀ env heap name audio now, (p.rtmpSync env heap name).2 = none →
      (p.rtmpRefusal env heap name audio now).sh = p.sh ∧
        Refused p.w (p.rtmpRefusal env heap name audio now).w name) ∧
    ∀ r, p.whipFails r →
      p.w.Undone (p.whip r).w r.name ∧ (p.whipRefused r → (p.whip r).sh = p.sh) ∧
        ∀ c, p.sh = some c → ∃ c', (p.whip r).sh = some c' ∧ ∀ n, Spares r c n →
          (n = r.name → ∀ seen, ¬ c.Publishes n .whip seen) → c'.publisherOf n = c.publisherOf n := by
  have hm : p.Mirrored :=
    hp.induction (P := Mirrored) (mirrored_init slot sh) fun _ e h => mirrored_step e h
  have hs : p.Shaped := by
    obtain ⟨es, rfl⟩ := hp
    exact shaped_run (p := init slot sh) (fun c hc => (hsh c hc).shape) es
  refine ⟨fun env heap name audio now h => refused_rtmp h audio now, fun r hf => ?_⟩
  exact ⟨failed_whip hm (holdsLive_of_reachable hp) hf, refused_whip,
    fun c hc => failed_whip_keeps hs hm hf hc⟩

/-- An RTMP publish refused next to a WHIP publisher, and a WHIP request whose answer fails for a
    name that nobody publishes. -/
theorem failed_attempts_sample :
    (samplePlayerAndPublisher.rtmpSync (Env.at 6) Heap.ample sampleName).2 = none ∧
      (samplePlayerAndPublisher.rtmpRefusal (Env.at 6) Heap.ample sampleName none 7).sh =
        samplePlayerAndPublisher.sh ∧
      samplePlayerAndPublisher.w.Undone
        (samplePlayerAndPublisher.whip { sampleRequest 3 with answer := false }).w sampleName := by
  have hsh : ∀ c, some (ShmCtx.init 1 []) = some c → c.Reachable 1 [] := by
    intro c hc
    exact ⟨[], Option.some.inj hc⟩
  have hrefused : (samplePlayerAndPublisher.rtmpSync (Env.at 6) Heap.ample sampleName).2 = none := by
    decide
  have hfails : samplePlayerAndPublisher.whipFails { sampleRequest 3 with answer := false } :=
    Or.inr (Or.inr (Or.inr rfl))
  have h := failed_attempts (p := samplePlayerAndPublisher) hsh ⟨_, rfl⟩
  exact ⟨hrefused, (h.1 _ _ _ none 7 hrefused).1, (h.2 _ hfails).1⟩

/-- The sample worker, on which another worker published the stream `c/d` at time 5 and was not heard
    of since. -/
def sampleAbandoned : Proc :=
  Lts.run step (init 0 (some (ShmCtx.init 1 [])))
    [.others (.sourceGet (Env.at 5) ⟨[99, 47, 100], by decide, by decide⟩),
      .others (.tryPublish 5 ⟨[99, 47, 100], by decide, by decide⟩ .rtmp)]

/-- An RTMP publish is refused because the name is published over WHIP on the same worker: the
    worker forgets that it holds the publish.  A WHIP request fails after the slab ran out: the
    sweep has taken the publish of another stream from its silent publisher. -/
theorem failed_attempts_leave_traces :
    ((samplePlayerAndPublisher.rtmpSync (Env.at 6) Heap.ample sampleName).2 = none ∧
      localOwner (samplePlayerAndPublisher.w.sources.get 0) = (some .whip, true, some 0) ∧
      localOwner ((samplePlayerAndPublisher.rtmpRefusal (Env.at 6) Heap.ample sampleName none
        7).w.sources.get 0) = (none, false, none)) ∧
    (sampleAbandoned.sh.map fun c => c.publisherOf ⟨[99, 47, 100], by decide, by decide⟩) =
        some (some .rtmp, true) ∧
      ((sampleAbandoned.whip { sampleRequest 3 with
        env := ⟨20000, false, true, 0, 0⟩, envAdd := Env.at 20000, answer := false }).sh.map fun c =>
          c.publisherOf ⟨[99, 47, 100], by decide, by decide⟩) = some (none, false) := by
  decide

end Proc

end NginxRtc
