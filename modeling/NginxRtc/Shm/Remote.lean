/-
  The count of remote viewers of a source.

  `remote_subscribers` is kept up to date one viewer at a time, against the `publisher_slot` of
  the moment.  `RemoteExact`: it is the number of linked viewers that another worker than the
  publisher's owns, so that the retransmit ring is skipped exactly when there is none.

  `remoteExact_iff`: a run keeps it exactly if each write of the slot finds as many viewers on
  the new slot as on the old one (`slotBalanced`).  `remoteExact_lost`: a run that loses it.
-/
import Mathlib.Data.List.Count
import NginxRtc.Shm.Shape

namespace NginxRtc

/-- How many members of a list are not owned by `slot`. -/
def remoteCount (owner : ℕ → Option ℕ) (slot : Option ℕ) (subs : List ℕ) : ℕ :=
  subs.countP fun b => owner b ≠ slot

theorem remoteCount_congr {o o' : ℕ → Option ℕ} (slot : Option ℕ) {subs : List ℕ}
    (h : ∀ d ∈ subs, o d = o' d) : remoteCount o slot subs = remoteCount o' slot subs :=
  List.countP_congr fun d hd => by rw [h d hd]

theorem remoteCount_cons (o : ℕ → Option ℕ) (slot : Option ℕ) (a : ℕ) (subs : List ℕ) :
    remoteCount o slot (a :: subs) =
      if o a ≠ slot then remoteCount o slot subs + 1 else remoteCount o slot subs := by
  unfold remoteCount
  split_ifs with h
  · exact List.countP_cons_of_pos (by simpa using h)
  · exact List.countP_cons_of_neg (by simpa using h)

theorem remoteCount_erase (o : ℕ → Option ℕ) (slot : Option ℕ) {a : ℕ} {subs : List ℕ}
    (ha : a ∈ subs) :
    remoteCount o slot (subs.erase a) =
      if o a ≠ slot then remoteCount o slot subs - 1 else remoteCount o slot subs := by
  unfold remoteCount
  rw [List.countP_erase]
  by_cases h : o a = slot <;> simp [ha, h]

namespace ShmCtx

/-- The worker that owns the skeleton at `b`. -/
def owner (c : ShmCtx) (b : ℕ) : Option ℕ := (c.sessions.get b).bind fun s => s.ownerSlot

/-- How many linked viewers of `src` worker `w` owns. -/
def viewersOf (c : ShmCtx) (src : ShmSource) (w : Option ℕ) : ℕ :=
  src.subscribers.countP fun b => c.owner b = w

/-- How many linked viewers of `src` are owned by another worker than the publisher's. -/
def remoteViewers (c : ShmCtx) (src : ShmSource) : ℕ :=
  remoteCount c.owner src.publisherSlot src.subscribers

/-- The counter of every source is exact. -/
def RemoteCounted (c : ShmCtx) : Prop :=
  ∀ a src, c.sources.get a = some src → src.remoteSubscribers = c.remoteViewers src

/-- The counter of every source is exact, and an append of a packet of admissible length to its
    retransmit ring is skipped exactly when it has no remote viewer. -/
def RemoteExact (c : ShmCtx) : Prop :=
  ∀ a src, c.sources.get a = some src → src.remoteSubscribers = c.remoteViewers src ∧
    ∀ slab rtp gop, 0 < rtp.length → rtp.length ≤ ringRtpMax →
      (c.retransmitAppend a slab rtp gop = c ↔ c.remoteViewers src = 0)

/-- Recording `slot` as the publisher's leaves as many viewers local as before. -/
def slotBalanced (c : ShmCtx) (a slot : ℕ) : Bool :=
  (c.sources.get a).all fun src =>
    c.viewersOf src (some slot) = c.viewersOf src src.publisherSlot

end ShmCtx

def ShmOp.slotBalanced (c : ShmCtx) : ShmOp → Bool
  | .setPublisherSlot a slot => c.slotBalanced a slot
  | _ => true

namespace ShmCtx

/-! ## Counting -/

theorem remoteViewers_add (c : ShmCtx) (src : ShmSource) :
    c.viewersOf src src.publisherSlot + c.remoteViewers src = src.subscribers.length := by
  rw [viewersOf, remoteViewers, remoteCount,
    List.length_eq_countP_add_countP fun b => c.owner b = src.publisherSlot]
  simp

theorem remoteViewers_congr {c c' : ShmCtx} {src src' : ShmSource}
    (hsubs : src'.subscribers = src.subscribers) (hslot : src'.publisherSlot = src.publisherSlot)
    (howner : ∀ d ∈ src.subscribers, c'.owner d = c.owner d) :
    c'.remoteViewers src' = c.remoteViewers src := by
  rw [remoteViewers, remoteViewers, hsubs, hslot]
  exact remoteCount_congr _ howner

/-- Appending counts the append that takes the lock. -/
theorem retransmitAppend_eq_self {c : ShmCtx} {a : ℕ} {src : ShmSource}
    (hsrc : c.sources.get a = some src) {slab : Bool} {rtp : Bytes} {gop : Bool}
    (h0 : 0 < rtp.length) (h1 : rtp.length ≤ ringRtpMax) :
    c.retransmitAppend a slab rtp gop = c ↔ src.remoteSubscribers = 0 := by
  have hlen : ¬ (rtp.length = 0 ∨ ringRtpMax < rtp.length) := by omega
  unfold retransmitAppend
  rw [if_neg hlen, hsrc]
  dsimp only
  split_ifs with hr
  · exact iff_of_true rfl hr
  · refine iff_of_false (fun he => ?_) hr
    have hget := congrArg (fun d : ShmCtx => (d.sources.get a).map fun s => s.retxAppendLocked) he
    have hstep : (src.appendLocked slab rtp gop).retxAppendLocked = src.retxAppendLocked + 1 := by
      unfold ShmSource.appendLocked
      dsimp only
      split_ifs
      split <;> rfl
    simp only [Pool.get_modify_self, hsrc, Option.map_some, hstep, Option.some.injEq] at hget
    omega

theorem remoteExact_iff_counted {c : ShmCtx} : c.RemoteExact ↔ c.RemoteCounted := by
  refine ⟨fun h a src hsrc => (h a src hsrc).1, fun h a src hsrc => ⟨h a src hsrc, ?_⟩⟩
  intro slab rtp gop h0 h1
  rw [retransmitAppend_eq_self hsrc h0 h1, h a src hsrc]

/-! ## Moves keep the count -/

theorem RemoteCounted.sources {c : ShmCtx} (h : c.RemoteCounted)
    {f : ℕ → ShmSource → Option ShmSource}
    (keep : ∀ a src src', c.sources.get a = some src → f a src = some src' → src.Frame src') :
    RemoteCounted { c with sources := c.sources.sweep f } := by
  intro a t ht
  obtain ⟨s, hs, hst⟩ := Option.bind_eq_some_iff.1 ((Pool.get_sweep ..).symm.trans ht)
  have fs := keep a s t hs hst
  rw [fs.remote, h a s hs]
  exact (remoteViewers_congr fs.subscribers fs.slot fun d _ => rfl).symm

theorem RemoteCounted.newSource {c : ShmCtx} (h : c.RemoteCounted) (env : Env)
    (name : SourceName) : (c.addSource env name).RemoteCounted := by
  intro a t ht
  simp only [addSource, Pool.get_alloc] at ht
  split_ifs at ht
  · obtain rfl := Option.some.inj ht
    rfl
  · exact h a t ht

theorem RemoteCounted.session {c : ShmCtx} (hc : c.Shape) (h : c.RemoteCounted) {a : ℕ}
    {f : ShmSession → ShmSession} (keep : ∀ s, c.sessions.get a = some s → s.Frame (f s)) :
    RemoteCounted { c with sessions := c.sessions.modify a f } := by
  intro b src hsrc
  rw [h b src hsrc]
  refine (remoteViewers_congr rfl rfl fun d hd => ?_).symm
  -- a listed skeleton is bound, and a bound skeleton keeps its owner
  obtain ⟨s, hs, -, hl⟩ := hc.listed b src d hsrc hd
  obtain ⟨w, hw⟩ := Option.ne_none_iff_exists'.1 (hc.linked d s hs hl).1
  simp only [owner, Pool.get_modify]
  split_ifs with hda
  · rw [hs, Option.map_some, Option.bind_some, Option.bind_some, hw]
    exact (keep s (hda ▸ hs)).owner w hw
  · rfl

theorem RemoteCounted.link {c : ShmCtx} (hc : c.Shape) (h : c.RemoteCounted) {a slot : ℕ}
    {sess : ShmSession} (get : c.sessions.get a = some sess) (fresh : sess.subLinked = false) :
    RemoteCounted { c with
      sessions := c.sessions.modify a (ShmSession.subscribed slot)
      sources := c.sources.modify sess.source (ShmSource.link a (some slot)) } := by
  generalize hc' : { c with
      sessions := c.sessions.modify a (ShmSession.subscribed slot)
      sources := c.sources.modify sess.source (ShmSource.link a (some slot)) } = c'
  have others : ∀ b src, c.sources.get b = some src → ∀ d ∈ src.subscribers,
      c'.owner d = c.owner d := by
    intro b src hsrc d hd
    obtain ⟨s, hs, -, hl⟩ := hc.listed b src d hsrc hd
    have hda : d ≠ a := by
      rintro rfl
      obtain rfl := Option.some.inj (get.symm.trans hs)
      exact Bool.false_ne_true (fresh.symm.trans hl)
    subst hc'
    simp only [owner, Pool.get_modify_of_ne hda]
  have self : c'.owner a = some slot := by
    subst hc'
    simp only [owner, Pool.get_modify_self, get]
    rfl
  intro b t ht
  have ht' : (c.sources.modify sess.source (ShmSource.link a (some slot))).get b = some t := by
    rw [← ht, ← hc']
  rw [Pool.get_modify] at ht'
  split_ifs at ht'
  · obtain ⟨src, hsrc, rfl⟩ := Option.map_eq_some_iff.1 ht'
    have hcons : c'.remoteViewers (src.link a (some slot)) =
        if some slot ≠ src.publisherSlot then c.remoteViewers src + 1 else c.remoteViewers src := by
      have hc := remoteCount_cons c'.owner src.publisherSlot a src.subscribers
      rwa [self, remoteCount_congr _ (others b src hsrc)] at hc
    rw [hcons, ← h b src hsrc]
    rfl
  · rw [h b t ht']
    exact (remoteViewers_congr rfl rfl (others b t ht')).symm

theorem RemoteCounted.drop {c : ShmCtx} (hc : c.Shape) (h : c.RemoteCounted) (now a : ℕ) :
    (c.sessionFree now a).RemoteCounted := by
  cases get : c.sessions.get a with
  | none =>
    rw [sessionFree, get]
    exact h
  | some sess =>
    have others : ∀ d, d ≠ a → (c.sessionFree now a).owner d = c.owner d := fun d hd => by
      rw [owner, sessionFree_session, if_neg hd, owner]
    -- the freed skeleton is only in the list of its own source
    have notListed : ∀ b src, c.sources.get b = some src → a ∈ src.subscribers →
        b = sess.source ∧ sess.subLinked = true := by
      intro b src hsrc ha
      obtain ⟨s, hs, hb, hl⟩ := hc.listed b src a hsrc ha
      obtain rfl := Option.some.inj (get.symm.trans hs)
      exact ⟨hb.symm, hl⟩
    intro b t ht
    have ht' : (c.sources.modify sess.source (ShmSource.dropSession now a sess)).get b = some t := by
      rw [← ht, sessionFree, get]
    rw [Pool.get_modify] at ht'
    split_ifs at ht' with hb
    · obtain ⟨src, hsrc, rfl⟩ := Option.map_eq_some_iff.1 ht'
      have hunlink : ∀ s : ShmSource, (s.armGrace now).remoteSubscribers = s.remoteSubscribers ∧
          (c.sessionFree now a).remoteViewers (s.armGrace now) =
            (c.sessionFree now a).remoteViewers s := fun s => by
        unfold ShmSource.armGrace
        split_ifs <;> exact ⟨rfl, rfl⟩
      unfold ShmSource.dropSession
      rw [(hunlink _).1, (hunlink _).2]
      cases hl : sess.subLinked with
      | true =>
        have hmem : a ∈ src.subscribers := hc.inList a sess src get hl (hb ▸ hsrc)
        have hrest : ∀ d ∈ src.subscribers.erase a,
            (c.sessionFree now a).owner d = c.owner d := fun d hd =>
          others d ((hc.nodup b src hsrc).mem_erase_iff.1 hd).1
        have hcount : (c.sessionFree now a).remoteViewers (src.unlink a sess.ownerSlot) =
            remoteCount c.owner src.publisherSlot (src.subscribers.erase a) :=
          remoteCount_congr _ hrest
        have hself : c.owner a = sess.ownerSlot := by rw [owner, get, Option.bind_some]
        simp only [↓reduceIte, hcount, remoteCount_erase c.owner _ hmem, hself]
        simp only [ShmSource.unlink, h b src hsrc, remoteViewers]
      | false =>
        simp only [Bool.false_eq_true, ↓reduceIte, h b src hsrc]
        refine (remoteViewers_congr rfl rfl fun d hd => others d ?_).symm
        rintro rfl
        exact Bool.false_ne_true (hl.symm.trans (notListed b src hsrc hd).2)
    · rw [h b t ht']
      refine (remoteViewers_congr rfl rfl fun d hd => others d ?_).symm
      rintro rfl
      exact hb (notListed b t ht' hd).1

theorem RemoteCounted.move {c c' : ShmCtx} (hc : c.Shape) (h : c.RemoteCounted)
    (hm : c.Move c') : c'.RemoteCounted := by
  cases hm with
  | sources f free keep => exact h.sources keep
  | newSource env name absent => exact h.newSource env name
  | session a f keep => exact h.session hc keep
  | link a slot s get own player fresh => exact h.link hc get fresh
  | drop now a => exact h.drop hc now a

theorem RemoteCounted.moves {c c' : ShmCtx} (hc : c.Shape) (h : c.RemoteCounted)
    (hm : c.Moves c') : c'.RemoteCounted := by
  induction hm with
  | refl => exact h
  | tail hmoves hstep ih => exact ih.move (hc.moves hmoves) hstep

/-! ## The two other calls -/

theorem RemoteCounted.addSkeleton {c : ShmCtx} (hc : c.Shape) (h : c.RemoteCounted) (now src : ℕ)
    (args : SessionArgs) : (c.addSkeleton now src args).RemoteCounted := by
  intro b t ht
  refine (h b t ht).trans (remoteViewers_congr rfl rfl fun d hd => ?_).symm
  obtain ⟨s, hs, -⟩ := hc.listed b t d ht hd
  simp only [owner, ShmCtx.addSkeleton, Pool.get_alloc_of_some hs, hs]

theorem RemoteCounted.sessionAdd {c : ShmCtx} (hc : c.Shape) (h : c.RemoteCounted) (env : Env)
    (args : SessionArgs) : (c.sessionAdd env args).1.RemoteCounted := by
  have hslab := h.moves hc (c.moves_slabAlloc env)
  rcases c.sessionAdd_cases env args with he | he | ⟨src, -, -, he⟩
  · rwa [he]
  · rwa [he]
  · rw [he]
    exact hslab.addSkeleton (hc.moves (c.moves_slabAlloc env)) env.now src args

/-- **One write of the slot** keeps the count exactly when it is balanced. -/
theorem RemoteCounted.setPublisherSlot_iff {c : ShmCtx} (h : c.RemoteCounted) (a slot : ℕ) :
    (c.setPublisherSlot a slot).RemoteCounted ↔ c.slotBalanced a slot = true := by
  have other : ∀ b t, b ≠ a → (c.setPublisherSlot a slot).sources.get b = some t →
      t.remoteSubscribers = (c.setPublisherSlot a slot).remoteViewers t := by
    intro b t hb ht
    rw [setPublisherSlot, Pool.get_modify_of_ne hb] at ht
    exact h b t ht
  cases hsrc : c.sources.get a with
  | none =>
    refine iff_of_true (fun b t ht => ?_) (by simp [slotBalanced, hsrc])
    refine other b t (fun hb => ?_) ht
    rw [setPublisherSlot, hb, Pool.get_modify_self, hsrc] at ht
    cases ht
  | some src =>
    have hget : (c.setPublisherSlot a slot).sources.get a =
        some { src with publisherSlot := some slot } := by
      rw [setPublisherSlot, Pool.get_modify_self, hsrc]
      rfl
    -- the new slot leaves as many viewers remote as the old one
    have hcount : src.remoteSubscribers =
          (c.setPublisherSlot a slot).remoteViewers { src with publisherSlot := some slot } ↔
        c.viewersOf src (some slot) = c.viewersOf src src.publisherSlot := by
      have hold := c.remoteViewers_add src
      have hnew := c.remoteViewers_add { src with publisherSlot := some slot }
      have hexact := h a src hsrc
      simp only [viewersOf, remoteViewers] at hold hnew hexact ⊢
      constructor
      · intro he
        change _ = remoteCount c.owner (some slot) src.subscribers at he
        omega
      · intro he
        change _ = remoteCount c.owner (some slot) src.subscribers
        omega
    rw [slotBalanced, hsrc, Option.all_some, decide_eq_true_eq, ← hcount]
    refine ⟨fun hr => hr a _ hget, fun he b t ht => ?_⟩
    by_cases hb : b = a
    · rw [hb, hget] at ht
      exact Option.some.inj ht ▸ he
    · exact other b t hb ht

end ShmCtx

theorem ShmOp.remoteCounted_step_iff {c : ShmCtx} (hc : c.Shape) (h : c.RemoteCounted)
    (op : ShmOp) : (op.step c).RemoteCounted ↔ op.slotBalanced c = true := by
  rcases op.step_moves c with hm | ⟨env, args, rfl⟩ | ⟨a, slot, rfl⟩
  · by_cases hslot : ∃ a slot, op = .setPublisherSlot a slot
    · obtain ⟨a, slot, rfl⟩ := hslot
      exact h.setPublisherSlot_iff a slot
    · refine iff_of_true (h.moves hc hm) ?_
      cases op <;> first | rfl | exact absurd ⟨_, _, rfl⟩ hslot
  · exact iff_of_true (h.sessionAdd hc env args) rfl
  · exact h.setPublisherSlot_iff a slot

/-- **A run keeps the count of remote viewers exact exactly if its slot writes are balanced.** -/
theorem remoteExact_iff (nworkers : ℕ) (rings : List (Option MediaRing)) (ops : List ShmOp) :
    Lts.Visits (fun c op => ShmOp.step c op) ShmCtx.RemoteExact (ShmCtx.init nworkers rings) ops ↔
      Lts.Along (fun c op => ShmOp.step c op) (fun c op => ShmOp.slotBalanced c op = true)
        (ShmCtx.init nworkers rings) ops := by
  refine Lts.visits_iff_along (I := ShmCtx.Shape) (fun c op hc => op.shape_step hc)
    (fun c op hc h => ?_) (ShmCtx.shape_init nworkers rings) ?_
  · rw [ShmCtx.remoteExact_iff_counted] at h ⊢
    exact op.remoteCounted_step_iff hc h
  · exact ShmCtx.remoteExact_iff_counted.2 fun a src hsrc => nomatch hsrc

/-- A viewer joins on worker 1 while no publisher is known, and counts as remote; then the stream is
    published on worker 1, and the counter still says that one viewer is remote. -/
theorem remoteExact_lost :
    ¬ Lts.Visits (fun c op => ShmOp.step c op) ShmCtx.RemoteExact (ShmCtx.init 2 [])
      [.sourceGet (Env.at 5) sampleName,
        .sessionAdd (Env.at 6) (SessionArgs.sample 1 false),
        .bind (sampleUfrag 1) 1, .activate (sampleUfrag 1) 1,
        .tryPublish 7 sampleName .rtmp, .setPublisherSlot 0 1] := by
  intro h
  exact absurd (h.last 0 _ rfl).1 (by decide)

end NginxRtc
