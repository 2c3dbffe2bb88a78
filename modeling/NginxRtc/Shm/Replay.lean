/-
  The shared retransmit ring of a stream, fed by its publisher and read by viewers on other workers.

  `retransmitGet` and `retransmitReplayGop` are the two readers (`ngx_rtc_shm.c`).  The publisher's
  appends are gated by the number of remote viewers, so what the ring holds is what was published
  only while the gate stayed open.

  `ringsKept_step`: no other call touches the ring.  `Fed`: the ring holds the packets published
  last.  `retransmit_faithful`: in every run, lookups and replays answer from the published stream as long
  as no packet is skipped while the ring holds packets, and a replay finds a keyframe in the ring.
-/
import NginxRtc.Shm.Shape

namespace NginxRtc

/-- `ngx_rtc_shm_retransmit_reset`. -/
def ShmSource.resetRing (src : ShmSource) : ShmSource :=
  { src with retransmit := src.retransmit.map RetransmitRing.reset }

namespace ShmCtx

/-- `ngx_rtc_shm_retransmit_reset`. -/
def retransmitReset (c : ShmCtx) (name : SourceName) : ShmCtx :=
  c.modifySource name ShmSource.resetRing

/-- The retransmit ring of the stream. -/
def ring? (c : ShmCtx) (name : SourceName) : Option RetransmitRing :=
  (c.source? name).bind ShmSource.retransmit

/-- `ngx_rtc_shm_retransmit_get`, into a buffer of `outCap` bytes; `none` is `NGX_DECLINED`. -/
def retransmitGet (c : ShmCtx) (name : SourceName) (seq : UInt16) (outCap : ℕ) : Option Bytes :=
  match c.ring? name with
  | none => none
  | some r =>
    match r.cache.find RetransmitSlot.key seq.toBitVec with
    | none => none
    | some s => if s.len ≤ outCap then some s.data else none

/-- `ngx_rtc_shm_retransmit_replay_gop`: the result, and the packets handed to the callback.  `buf`
    says whether the copy buffer was allocated, `accept` which packets the callback takes; `none`
    is `-1`. -/
def retransmitReplayGop (c : ShmCtx) (name : SourceName) (buf : Bool) (accept : ℕ → Bool) :
    Option (ℕ × List RetransmitSlot) :=
  if !buf then none
  else
    match c.ring? name with
    | none => none
    | some r =>
      let copy := CacheRing.upTo RetransmitSlot.closes r.cache.replay
      some (copy.length, CacheRing.burst accept RetransmitSlot.closes 0 copy)

/-! ## What the other calls do to a ring -/

/-- Every ring of `c'` was there before, at the same address. -/
def RingsKept (c c' : ShmCtx) : Prop :=
  ∀ a src' r, c'.sources.get a = some src' → src'.retransmit = some r →
    ∃ src, c.sources.get a = some src ∧ src.retransmit = some r

theorem RingsKept.refl (c : ShmCtx) : c.RingsKept c := fun _ src _ h hr => ⟨src, h, hr⟩

theorem RingsKept.trans {c d e : ShmCtx} (h : c.RingsKept d) (h' : d.RingsKept e) :
    c.RingsKept e := by
  intro a src' r hsrc' hr
  obtain ⟨t, ht, hrt⟩ := h' a src' r hsrc' hr
  exact h a t r ht hrt

theorem ringsKept_modify (c : ShmCtx) (b : ℕ) {f : ShmSource → ShmSource}
    (hf : ∀ src, (f src).retransmit = src.retransmit) :
    c.RingsKept { c with sources := c.sources.modify b f } := by
  intro a src' r h hr
  rw [Pool.get_modify] at h
  split_ifs at h
  · obtain ⟨src, hsrc, rfl⟩ := Option.map_eq_some_iff.1 h
    exact ⟨src, hsrc, (hf src).symm.trans hr⟩
  · exact ⟨src', h, hr⟩

theorem ringsKept_modifySource (c : ShmCtx) (name : SourceName) {f : ShmSource → ShmSource}
    (hf : ∀ src, (f src).retransmit = src.retransmit) : c.RingsKept (c.modifySource name f) := by
  unfold modifySource
  split
  · exact .refl c
  · exact ringsKept_modify c _ hf

theorem armGrace_retransmit (now : ℕ) (src : ShmSource) :
    (src.armGrace now).retransmit = src.retransmit := by
  unfold ShmSource.armGrace
  split_ifs <;> rfl

theorem ringsKept_sessionFree (c : ShmCtx) (now a : ℕ) : c.RingsKept (c.sessionFree now a) := by
  unfold sessionFree
  split
  · exact .refl c
  · next sess _ =>
    refine ringsKept_modify c sess.source (f := ShmSource.dropSession now a sess) fun src => ?_
    unfold ShmSource.dropSession
    split_ifs <;> exact armGrace_retransmit now _

theorem expireStep_retransmit {now : ℕ} {forced referenced : Bool} {src src' : ShmSource}
    (h : src.expireStep now forced referenced = some src') : src'.retransmit = src.retransmit := by
  have hs : (src.settled now).retransmit = src.retransmit := by
    unfold ShmSource.settled
    split_ifs <;> rfl
  unfold ShmSource.expireStep at h
  split_ifs at h <;> obtain rfl := Option.some.inj h
  · rfl
  · exact hs
  · exact hs

theorem ringsKept_expire (c : ShmCtx) (now : ℕ) (forced : Bool) :
    c.RingsKept (c.expire now forced) := by
  have hfold : ∀ (as : List ℕ) (d : ShmCtx),
      d.RingsKept (as.foldl (expireSession now forced) d) := by
    intro as
    induction as with
    | nil => exact .refl
    | cons a as ih =>
      intro d
      refine RingsKept.trans ?_ (ih _)
      unfold expireSession
      split
      · exact .refl d
      · split_ifs
        · exact ringsKept_sessionFree d now a
        · exact .refl d
  refine (hfold c.sessions.addrs c).trans fun a src' r h hr => ?_
  rw [expire, expireSources_source, Option.bind_eq_some_iff] at h
  obtain ⟨src, hsrc, hstep⟩ := h
  exact ⟨src, hsrc, (expireStep_retransmit hstep).symm.trans hr⟩

theorem ringsKept_slabAlloc (c : ShmCtx) (env : Env) : c.RingsKept (c.slabAlloc env).1 := by
  unfold slabAlloc
  split_ifs
  · exact .refl c
  · exact ringsKept_expire c env.now true

theorem ringsKept_of_sources {c c' : ShmCtx} (h : c'.sources = c.sources) : c.RingsKept c' :=
  fun _ src _ hs hr => ⟨src, h ▸ hs, hr⟩

theorem ringsKept_addSource (c : ShmCtx) (env : Env) (name : SourceName) :
    c.RingsKept (c.addSource env name) := by
  intro a src' r h hr
  rw [addSource, Pool.get_alloc] at h
  split_ifs at h
  · obtain rfl := Option.some.inj h
    cases hr
  · exact ⟨src', h, hr⟩

theorem ringsKept_sourceRemove (c : ShmCtx) (name : SourceName) :
    c.RingsKept (c.sourceRemove name) := by
  unfold sourceRemove
  split
  · exact .refl c
  · split
    · exact .refl c
    · split_ifs
      · exact .refl c
      · exact .refl c
      · exact .refl c
      · intro a src' r h hr
        rw [Pool.get_free] at h
        split_ifs at h
        exact ⟨src', h, hr⟩

/-- **Only an append touches a retransmit ring.** -/
theorem ringsKept_step (c : ShmCtx) {op : ShmOp}
    (hop : ∀ a slab rtp gop, op ≠ .retransmitAppend a slab rtp gop) : c.RingsKept (op.step c) := by
  cases op with
  | sourceGet env name =>
    simp only [ShmOp.step, sourceGet]
    split
    · exact .refl c
    · split_ifs
      · exact (ringsKept_slabAlloc c env).trans (ringsKept_addSource _ env name)
      · exact ringsKept_slabAlloc c env
  | sourceRemove name => exact ringsKept_sourceRemove c name
  | tryPublish now name kind =>
    simp only [ShmOp.step, sourceTryPublish]
    split
    · exact .refl c
    · split_ifs
      · exact .refl c
      · exact ringsKept_modifySource c name fun _ => rfl
  | releasePublish now name kind =>
    simp only [ShmOp.step, sourceReleasePublish]
    split
    · exact .refl c
    · split_ifs
      · exact .refl c
      · exact ringsKept_modifySource c name fun _ => rfl
  | setPt name videoPt audioPt => exact ringsKept_modifySource c name fun _ => rfl
  | setSsrc name videoSsrc audioSsrc => exact ringsKept_modifySource c name fun _ => rfl
  | sessionAdd env args =>
    have hslab := ringsKept_slabAlloc c env
    rcases sessionAdd_cases c env args with h | h | ⟨src, -, -, h⟩
    · exact (congrArg c.RingsKept h).mpr (.refl c)
    · exact (congrArg c.RingsKept h).mpr hslab
    · exact (congrArg c.RingsKept h).mpr hslab
  | bind ufrag slot =>
    refine ringsKept_of_sources ?_
    simp only [ShmOp.step, sessionBind]
    split
    · rfl
    · split
      · rfl
      · split_ifs <;> rfl
  | activate ufrag slot =>
    simp only [ShmOp.step, sessionActivate]
    split
    · exact .refl c
    · next a _ =>
      split
      · exact .refl c
      · next sess _ =>
        have hlink := ringsKept_modify c sess.source (f := ShmSource.link a (some slot)) fun _ => rfl
        split_ifs
        · exact .refl c
        · exact ringsKept_of_sources rfl
        · exact hlink
  | removeIfOwner now ufrag slot =>
    simp only [ShmOp.step, sessionRemoveIfOwner]
    split
    · exact .refl c
    · split
      · exact .refl c
      · split_ifs
        · exact ringsKept_sessionFree c now _
        · exact .refl c
  | requestClose id =>
    refine ringsKept_of_sources ?_
    simp only [ShmOp.step, sessionRequestClose]
    split <;> rfl
  | setState ufrag slot state =>
    refine ringsKept_of_sources ?_
    simp only [ShmOp.step, sessionSetState]
    split <;> rfl
  | expire now forced => exact ringsKept_expire c now forced
  | setPublisherSlot a slot => exact ringsKept_modify c a fun _ => rfl
  | setStats a stats => exact ringsKept_modify c a fun _ => rfl
  | setStatsSeen a stats now => exact ringsKept_modify c a fun _ => rfl
  | retransmitAppend a slab rtp gop => exact absurd rfl (hop a slab rtp gop)

/-- **What an append does to the ring**: it leaves it alone, when nobody is remote or the packet
    fits no slot, or pushes the packet, into a new ring if there was none. -/
theorem ring_append {c : ShmCtx} {a : ℕ} {slab gop : Bool} {rtp : Bytes} {src' : ShmSource}
    {r' : RetransmitRing} (h : (c.retransmitAppend a slab rtp gop).sources.get a = some src')
    (hr : src'.retransmit = some r') :
    ∃ src, c.sources.get a = some src ∧
      ((src.retransmit = some r' ∧
          ¬ (src.remoteSubscribers ≠ 0 ∧ rtp.length ≠ 0 ∧ rtp.length ≤ ringRtpMax)) ∨
        ∃ r, (src.retransmit = some r ∨ src.retransmit = none ∧ r = RetransmitRing.alloc) ∧
          r' = r.push rtp gop) := by
  unfold retransmitAppend at h
  split_ifs at h with hlen
  · exact ⟨src', h, .inl ⟨hr, by omega⟩⟩
  · split at h
    · next hnone => exact absurd (hnone.symm.trans h) (by simp)
    · next src hsrc =>
      split_ifs at h with hrem
      · exact ⟨src', h, .inl ⟨hr, by simp_all⟩⟩
      · refine ⟨src, hsrc, .inr ?_⟩
        have hsome : src' = src.appendLocked slab rtp gop := by
          simpa [Pool.get_modify, hsrc, eq_comm] using h
        subst hsome
        unfold ShmSource.appendLocked at hr
        simp only [hrem, if_false] at hr
        split at hr
        · next r hold => exact ⟨r, .inl hold, (Option.some.inj hr).symm⟩
        · next hold => exact ⟨_, .inr ⟨hold, rfl⟩, (Option.some.inj hr).symm⟩
        · next hold => exact absurd (hold.symm.trans hr) (by simp)

/-- An append to another source leaves the ring at `a` alone. -/
theorem get_append_ne (c : ShmCtx) {a b : ℕ} (hb : b ≠ a) (slab : Bool) (rtp : Bytes) (gop : Bool) :
    (c.retransmitAppend b slab rtp gop).sources.get a = c.sources.get a := by
  unfold retransmitAppend
  split_ifs
  · rfl
  · split
    · rfl
    · split_ifs
      · rfl
      · simp only [Pool.get_modify, if_neg hb.symm]

end ShmCtx

/-! ## One publish generation -/

/-- The registry, and what the publisher of the source at one address has published. -/
structure Feed where
  sh : ShmCtx
  published : List RetransmitSlot

/-- A call of any worker, or one of the two readers. -/
inductive FeedEvent where
  | call (op : ShmOp)
  | get (seq : UInt16) (outCap : ℕ)
  | replay (buf : Bool) (accept : ℕ → Bool)

namespace Feed

variable {a : ℕ} {first : UInt16} {s : Feed}

/-- The packets a call publishes into the source at `a`. -/
def publishes (a : ℕ) : ShmOp → List RetransmitSlot
  | .retransmitAppend b _ rtp gop => if b = a then [⟨rtp.length, gop, rtp⟩] else []
  | _ => []

def step (a : ℕ) (s : Feed) : FeedEvent → Feed
  | .call op => ⟨op.step s.sh, s.published ++ publishes a op⟩
  | _ => s

/-- The published packets carry consecutive sequence numbers from `first` on. -/
def Numbered (a : ℕ) (first : UInt16) (s : Feed) : FeedEvent → Prop
  | .call op => ∀ p ∈ publishes a op, rtpSeq p.data = first + UInt16.ofNat s.published.length
  | _ => True

/-- The ring of the source at `a` holds packets. -/
def holds (s : Feed) (a : ℕ) : Bool :=
  ((s.sh.sources.get a).bind ShmSource.retransmit).any fun r => r.count ≠ 0

/-- No packet is skipped while the ring holds packets: there are remote viewers, and the packet
    fits a slot.  And a replay finds a keyframe in a ring that holds packets. -/
def Careful (a : ℕ) (s : Feed) : FeedEvent → Prop
  | .call op =>
    ∀ p ∈ publishes a op, s.holds a = true →
      (s.sh.sources.get a).any (fun src => src.remoteSubscribers ≠ 0) = true ∧
        p.len ≠ 0 ∧ p.len ≤ ringRtpMax
  | .replay _ _ =>
    s.holds a = true →
      ((s.sh.sources.get a).bind ShmSource.retransmit).any
        (fun r => r.cache.recent.any RetransmitSlot.isGopStart) = true
  | .get _ _ => True

instance Numbered.instDecidable : ∀ e : FeedEvent, Decidable (s.Numbered a first e)
  | .call op => inferInstanceAs
      (Decidable (∀ p ∈ publishes a op, rtpSeq p.data = first + UInt16.ofNat s.published.length))
  | .get .. => instDecidableTrue
  | .replay .. => instDecidableTrue

instance Careful.instDecidable : ∀ e : FeedEvent, Decidable (s.Careful a e)
  | .call op => inferInstanceAs
      (Decidable (∀ p ∈ publishes a op, s.holds a = true →
        (s.sh.sources.get a).any (fun src => src.remoteSubscribers ≠ 0) = true ∧
          p.len ≠ 0 ∧ p.len ≤ ringRtpMax))
  | .get .. => instDecidableTrue
  | .replay .. => inferInstanceAs
      (Decidable (s.holds a = true →
        ((s.sh.sources.get a).bind ShmSource.retransmit).any
          (fun r => r.cache.recent.any RetransmitSlot.isGopStart) = true))

/-- A hit is the last packet published with that number. -/
def Latest (published : List RetransmitSlot) (seq : UInt16) (rtp : Bytes) : Prop :=
  ∃ pre p post, published = pre ++ p :: post ∧ p.data = rtp ∧ rtpSeq rtp = seq ∧
    ∀ q ∈ post, rtpSeq q.data ≠ seq

/-- The packets follow each other in the published stream, from its last keyframe on. -/
def FromKeyframe (published out : List RetransmitSlot) : Prop :=
  ∃ pre g mid post, out = g :: mid ∧ published = pre ++ out ++ post ∧ g.isGopStart = true ∧
    ∀ q ∈ mid ++ post, q.isGopStart = false

/-- What the readers promise, while the source is the registered one. -/
def Answers (a : ℕ) (name : SourceName) (s : Feed) : FeedEvent → Prop
  | .call _ => True
  | .get seq outCap =>
    s.sh.sourceLookup name = some a → ∀ rtp, s.sh.retransmitGet name seq outCap = some rtp →
      Latest s.published seq rtp
  | .replay buf accept =>
    s.sh.sourceLookup name = some a → ∀ n out,
      s.sh.retransmitReplayGop name buf accept = some (n, out) → out ≠ [] →
        FromKeyframe s.published out

/-- The ring holds the packets published last. -/
structure Fed (a : ℕ) (first : UInt16) (s : Feed) : Prop where
  numbered : ∀ i p, s.published[i]? = some p → rtpSeq p.data = first + UInt16.ofNat i
  recent : ∀ src r, s.sh.sources.get a = some src → src.retransmit = some r →
    r.cache.recent <:+ s.published
  marked : ∀ src r, s.sh.sources.get a = some src → src.retransmit = some r →
    r.cache.Marked RetransmitSlot.isGopStart

theorem Fed.numbered_append (h : s.Fed a first) {op : ShmOp}
    (hn : s.Numbered a first (.call op)) :
    ∀ i p, (s.published ++ publishes a op)[i]? = some p → rtpSeq p.data = first + UInt16.ofNat i := by
  intro i p hp
  rcases lt_or_ge i s.published.length with hi | hi
  · rw [List.getElem?_append_left hi] at hp
    exact h.numbered i p hp
  · rw [List.getElem?_append_right hi] at hp
    have hmem := List.mem_of_getElem? hp
    have hlen : (publishes a op).length ≤ 1 := by
      unfold publishes
      split
      · split_ifs <;> simp
      · simp
    have hlt := (List.getElem?_eq_some_iff.1 hp).1
    obtain rfl : i = s.published.length := by omega
    exact hn p hmem

theorem publishes_append_self (slab : Bool) (rtp : Bytes) (gop : Bool) :
    publishes a (.retransmitAppend a slab rtp gop) = [⟨rtp.length, gop, rtp⟩] := if_pos rfl

theorem publishes_eq_nil {op : ShmOp} (hop : ∀ slab rtp gop, op ≠ .retransmitAppend a slab rtp gop) :
    publishes a op = [] := by
  unfold publishes
  split
  · next b slab rtp gop =>
    refine if_neg ?_
    rintro rfl
    exact hop slab rtp gop rfl
  · rfl

/-- A call that is not an append at `a` keeps the ring there. -/
theorem ring_kept (c : ShmCtx) {op : ShmOp}
    (hop : ∀ slab rtp gop, op ≠ .retransmitAppend a slab rtp gop) {src' : ShmSource}
    {r : RetransmitRing} (h : (op.step c).sources.get a = some src')
    (hr : src'.retransmit = some r) :
    ∃ src, c.sources.get a = some src ∧ src.retransmit = some r := by
  by_cases happ : ∃ b slab rtp gop, op = .retransmitAppend b slab rtp gop
  · obtain ⟨b, slab, rtp, gop, rfl⟩ := happ
    have hb : b ≠ a := by
      rintro rfl
      exact hop slab rtp gop rfl
    refine ⟨src', ?_, hr⟩
    rw [← c.get_append_ne hb slab rtp gop]
    exact h
  · refine c.ringsKept_step ?_ a src' r h hr
    rintro b slab rtp gop rfl
    exact happ ⟨b, slab, rtp, gop, rfl⟩

theorem recent_of_not_holds {src : ShmSource} {r : RetransmitRing} (hsrc : s.sh.sources.get a = some src)
    (hr : src.retransmit = some r) (h : ¬ s.holds a = true) : r.cache.recent = [] := by
  have h0 : r.count = 0 := by simpa [holds, hsrc, hr] using h
  refine List.eq_nil_of_length_eq_zero ?_
  rw [CacheRing.length_recent]
  exact congrArg UInt64.toNat h0

/-- **A careful step keeps the ring fed.** -/
theorem Fed.step (h : s.Fed a first) {e : FeedEvent} (hn : s.Numbered a first e)
    (hc : s.Careful a e) : (s.step a e).Fed a first := by
  cases e with
  | get seq outCap => exact h
  | replay buf accept => exact h
  | call op =>
    have hnum := h.numbered_append hn
    by_cases hop : ∃ slab rtp gop, op = .retransmitAppend a slab rtp gop
    · obtain ⟨slab, rtp, gop, rfl⟩ := hop
      rw [publishes_append_self] at hnum
      have hring : ∀ src' r', (s.sh.retransmitAppend a slab rtp gop).sources.get a = some src' →
          src'.retransmit = some r' →
          r'.cache.recent <:+ s.published ++ [⟨rtp.length, gop, rtp⟩] ∧
            r'.cache.Marked RetransmitSlot.isGopStart := by
        intro src' r' hsrc' hr'
        obtain ⟨src, hsrc, ⟨hr, hskip⟩ | ⟨r, hold, rfl⟩⟩ := ShmCtx.ring_append hsrc' hr'
        · -- a skipped packet: the ring was empty
          have hempty : r'.cache.recent = [] := by
            refine recent_of_not_holds hsrc hr fun hh => hskip ?_
            obtain ⟨hrem, hpos, hfits⟩ := hc ⟨rtp.length, gop, rtp⟩ (by simp [publishes]) hh
            exact ⟨by simpa [hsrc] using hrem, hpos, hfits⟩
          rw [hempty]
          exact ⟨List.nil_suffix, CacheRing.marked_of_recent hempty⟩
        · have hr : r.cache.recent <:+ s.published ∧ r.cache.Marked RetransmitSlot.isGopStart := by
            rcases hold with hold | ⟨-, rfl⟩
            · exact ⟨h.recent src r hsrc hold, h.marked src r hsrc hold⟩
            · rw [RetransmitRing.recent_alloc]
              exact ⟨List.nil_suffix, CacheRing.marked_of_recent RetransmitRing.recent_alloc⟩
          rw [RetransmitRing.cache_push]
          exact ⟨CacheRing.recent_suffix_push hr.1 _ _, hr.2.push ⟨rtp.length, gop, rtp⟩⟩
      refine ⟨?_, ?_, ?_⟩
      · simpa only [Feed.step, publishes_append_self] using hnum
      · intro src r hs hr
        simp only [Feed.step, publishes_append_self]
        exact (hring src r hs hr).1
      · exact fun src r hs hr => (hring src r hs hr).2
    · have hne : ∀ slab rtp gop, op ≠ .retransmitAppend a slab rtp gop := fun slab rtp gop he =>
        hop ⟨slab, rtp, gop, he⟩
      have hpub := publishes_eq_nil hne
      refine ⟨hnum, fun src' r hsrc' hr => ?_, fun src' r hsrc' hr => ?_⟩
      · obtain ⟨src, hsrc, hold⟩ := ring_kept s.sh hne hsrc' hr
        simpa only [Feed.step, hpub, List.append_nil] using h.recent src r hsrc hold
      · obtain ⟨src, hsrc, hold⟩ := ring_kept s.sh hne hsrc' hr
        exact h.marked src r hsrc hold

/-! ## Answers -/

theorem source_of_ring? {c : ShmCtx} {name : SourceName} {r : RetransmitRing}
    (hl : c.sourceLookup name = some a) (h : c.ring? name = some r) :
    ∃ src, c.sources.get a = some src ∧ src.retransmit = some r := by
  unfold ShmCtx.ring? ShmCtx.source? at h
  rw [hl, Option.bind_some] at h
  exact Option.bind_eq_some_iff.1 h

/-- Numbers fewer than `2 ^ 16` apart are different. -/
theorem number_ne {i j : ℕ} (hij : i < j) (hj : j < i + 2 ^ 16) :
    first + UInt16.ofNat j ≠ first + UInt16.ofNat i := by
  intro h
  have hofNat : UInt16.ofNat j = UInt16.ofNat i := by grind
  have hmod := congrArg UInt16.toNat hofNat
  rw [UInt16.toNat_ofNat', UInt16.toNat_ofNat'] at hmod
  omega

/-- A hit is the last packet published with its number. -/
theorem Fed.latest (h : s.Fed a first) {name : SourceName} (hl : s.sh.sourceLookup name = some a)
    {seq : UInt16} {outCap : ℕ} {rtp : Bytes} (hget : s.sh.retransmitGet name seq outCap = some rtp) :
    Latest s.published seq rtp := by
  unfold ShmCtx.retransmitGet at hget
  split at hget
  · contradiction
  · next r hr =>
    split at hget
    · contradiction
    · next v hfind =>
      split_ifs at hget
      obtain rfl := Option.some.inj hget
      obtain ⟨src, hsrc, hring⟩ := source_of_ring? hl hr
      obtain ⟨hkey, v₀, -, hv⟩ := CacheRing.find_some hfind
      obtain ⟨old, hold⟩ := h.recent src r hsrc hring
      have hlen : r.cache.recent.length ≤ 2 ^ 16 := by
        obtain ⟨k, hk, hcap⟩ := r.pow
        have hpow : 2 ^ k ≤ 2 ^ 16 := Nat.pow_le_pow_right Nat.two_pos hk
        have hfill := r.fill
        rw [CacheRing.length_recent]
        exact hfill.trans (hcap ▸ hpow)
      generalize (seq.toBitVec - v₀.key).toNat = i at hv
      obtain ⟨hi, rfl⟩ := List.getElem?_eq_some_iff.1 hv
      refine ⟨old ++ r.cache.recent.take i, _, r.cache.recent.drop (i + 1), ?_, rfl,
        UInt16.toBitVec_inj.1 hkey, fun q hq hseq => ?_⟩
      · rw [← hold, List.append_assoc, List.getElem_cons_drop, List.take_append_drop]
      · obtain ⟨j, hj⟩ := List.mem_iff_getElem?.1 hq
        rw [List.getElem?_drop] at hj
        have hlt := (List.getElem?_eq_some_iff.1 hj).1
        have hpub : ∀ {m : ℕ} {p : RetransmitSlot}, r.cache.recent[m]? = some p →
            rtpSeq p.data = first + UInt16.ofNat (old.length + m) := by
          intro m p hp
          refine h.numbered _ p ?_
          rw [← hold, List.getElem?_append_right (Nat.le_add_right ..), Nat.add_sub_cancel_left]
          exact hp
        have hne := @number_ne first (old.length + i) (old.length + (i + 1 + j)) (by omega)
          (by omega)
        refine hne ?_
        rw [← hpub hj, ← hpub hv, hseq]
        exact (UInt16.toBitVec_inj.1 hkey).symm

/-- What a replay hands out follows the last keyframe published. -/
theorem Fed.fromKeyframe (h : s.Fed a first) {name : SourceName}
    (hl : s.sh.sourceLookup name = some a) {buf : Bool} {accept : ℕ → Bool}
    (hc : s.Careful a (.replay buf accept)) {n : ℕ} {out : List RetransmitSlot}
    (hrep : s.sh.retransmitReplayGop name buf accept = some (n, out)) (hne : out ≠ []) :
    FromKeyframe s.published out := by
  unfold ShmCtx.retransmitReplayGop at hrep
  split_ifs at hrep
  split at hrep
  · contradiction
  · next r hr =>
    dsimp only at hrep
    rw [CacheRing.burst_upTo, Option.some.injEq, Prod.mk.injEq] at hrep
    obtain ⟨-, hout⟩ := hrep
    obtain ⟨src, hsrc, hring⟩ := source_of_ring? hl hr
    have hpre := CacheRing.burst_prefix accept RetransmitSlot.closes 0 r.cache.replay
    rw [hout] at hpre
    have hreplay : r.cache.replay ≠ [] := by
      intro hnil
      rw [hnil] at hpre
      exact hne (List.prefix_nil.1 hpre)
    have hsome := mt r.cache.replay_eq_nil_iff.2 hreplay
    rw [CacheRing.Idle, not_or, not_or, not_not] at hsome
    obtain ⟨hunw, hcount, -⟩ := hsome
    have hholds : s.holds a = true := by
      have hcount' : r.count ≠ 0 := fun h0 => hcount (congrArg UInt64.toNat h0)
      simpa [holds, hsrc, hring] using hcount'
    have hgop : r.cache.recent.any RetransmitSlot.isGopStart = true := by
      have hany := hc hholds
      rw [hsrc, Option.bind_some, hring, Option.any_some] at hany
      exact hany
    obtain ⟨pre, g, post, hrec, hg, hpost⟩ := CacheRing.exists_last_marked hgop
    rw [CacheRing.replay_eq (h.marked src r hsrc hring) hunw hrec hg hpost] at hpre
    obtain ⟨old, hold⟩ := h.recent src r hsrc hring
    obtain ⟨rest, hrest⟩ := hpre
    cases out with
    | nil => exact absurd rfl hne
    | cons x mid =>
      obtain ⟨rfl, hmid⟩ := List.cons.inj hrest
      refine ⟨old ++ pre, x, mid, rest, rfl, ?_, hg, ?_⟩
      · rw [← hold, hrec, ← hrest, List.append_assoc, List.append_assoc]
      · have hmid' : mid ++ rest = post := hmid
        exact hmid'.symm ▸ hpost

theorem Fed.answers (h : s.Fed a first) (name : SourceName) {e : FeedEvent}
    (hc : s.Careful a e) : s.Answers a name e := by
  cases e with
  | call op => trivial
  | get seq outCap => exact fun hl rtp hget => h.latest hl hget
  | replay buf accept => exact fun hl n out hrep hne => h.fromKeyframe hl hc hrep hne

/-- A replay from the last keyframe starts at the keyframe published last. -/
theorem FromKeyframe.newest {published out : List RetransmitSlot}
    (h : FromKeyframe published out) :
    (published.filter RetransmitSlot.isGopStart).getLast? = out.head? := by
  obtain ⟨pre, g, mid, post, rfl, rfl, hg, hpost⟩ := h
  have hnone : (mid ++ post).filter RetransmitSlot.isGopStart = [] := by
    rw [List.filter_eq_nil_iff]
    intro q hq
    simp [hpost q hq]
  rw [List.append_assoc, List.cons_append, List.filter_append, List.filter_cons_of_pos hg, hnone]
  simp

theorem fed_start {sh : ShmCtx} (hempty : holds ⟨sh, []⟩ a = false) : Fed a first ⟨sh, []⟩ := by
  have hrec : ∀ src r, sh.sources.get a = some src → src.retransmit = some r →
      r.cache.recent = [] := fun src r hsrc hr =>
    recent_of_not_holds (s := ⟨sh, []⟩) hsrc hr (by simp [hempty])
  refine ⟨fun i p hp => ?_, fun src r hsrc hr => ?_, fun src r hsrc hr => ?_⟩
  · exact absurd hp (by simp)
  · rw [hrec src r hsrc hr]
  · exact CacheRing.marked_of_recent (hrec src r hsrc hr)

/-- **The retransmit ring is faithful** in every run, from the start of a publish generation on, in
    which no packet is skipped while the ring holds packets and every replay finds a keyframe. -/
theorem retransmit_faithful (a : ℕ) (first : UInt16) (name : SourceName) {sh : ShmCtx}
    (hempty : holds ⟨sh, []⟩ a = false) {es : List FeedEvent}
    (hn : Lts.Along (step a) (fun s e => s.Numbered a first e) ⟨sh, []⟩ es)
    (hc : Lts.Along (step a) (fun s e => s.Careful a e) ⟨sh, []⟩ es) :
    Lts.Along (step a) (fun s e => s.Answers a name e) ⟨sh, []⟩ es :=
  Lts.along_of_step (P := fun s => s.Fed a first)
    (G := fun s e => s.Numbered a first e ∧ s.Careful a e)
    (fun _ _ h hg => h.step hg.1 hg.2) (fun _ _ h hg => h.answers name hg.2)
    (fed_start hempty) (hn.and hc)

/-! ### Worked runs -/

/-- A one-packet access unit. -/
def sampleUnit (seq : UInt8) : Bytes := [0x80, 0xe6, 0, seq, 0, 0, 0, 0, 0, 0, 0, 1, 0x65]

/-- The viewer `b` joins on worker 1. -/
def sampleJoin (b : UInt8) : List FeedEvent :=
  [.call (.sessionAdd (Env.at 6) (SessionArgs.sample b false)), .call (.bind (sampleUfrag b) 1),
    .call (.activate (sampleUfrag b) 1)]

/-- The sample stream, which worker 0 starts to publish. -/
def sampleStart : Feed :=
  ⟨(((ShmCtx.init 2 []).sourceGet (Env.at 5) sampleName).1.sourceTryPublish 5 sampleName .rtmp).1,
    []⟩

theorem retransmit_faithful_join :
    Lts.Along (step 0) (fun s e => s.Answers 0 sampleName e) sampleStart
      (sampleJoin 1 ++ [.call (.retransmitAppend 0 true (sampleUnit 0) true), .get 0 1500,
        .replay true fun _ => true]) :=
  retransmit_faithful 0 0 sampleName (by decide) (by decide +kernel)
    (by decide +kernel)

/-- A keyframe is stored for a viewer that then leaves, the next one is skipped, and a replay to the
    next viewer starts at the old one. -/
theorem retransmit_stale :
    Lts.Along (step 0) (fun s e => s.Numbered 0 0 e) sampleStart
        (sampleJoin 1 ++ [.call (.retransmitAppend 0 true (sampleUnit 0) true),
          .call (.removeIfOwner 7 (sampleUfrag 1) 1),
          .call (.retransmitAppend 0 true (sampleUnit 1) true)] ++ sampleJoin 2 ++
          [.replay true fun _ => true]) ∧
      ¬ Lts.Along (step 0) (fun s e => s.Answers 0 sampleName e) sampleStart
        (sampleJoin 1 ++ [.call (.retransmitAppend 0 true (sampleUnit 0) true),
          .call (.removeIfOwner 7 (sampleUfrag 1) 1),
          .call (.retransmitAppend 0 true (sampleUnit 1) true)] ++ sampleJoin 2 ++
          [.replay true fun _ => true]) := by
  refine ⟨by decide +kernel, fun h => ?_⟩
  have hlast := (Lts.along_append.1 h).2.1 (by decide +kernel) 1
    [⟨13, true, sampleUnit 0⟩] (by decide +kernel) (by simp)
  exact absurd hlast.newest (by decide +kernel)

end Feed

end NginxRtc
