/-
  Publish generations of one stream over all workers.

  Every worker has an in-process GOP ring for the stream and all of them share the retransmit ring;
  a generation starts with an AVC sequence header on some worker (`ngx_rtmp_rtc_av`), or when a WHIP
  publishing session is accepted or attached.  `since` keeps what was pushed since the last start.
  Publishers push and readers read in any order: nothing is assumed about who publishes where.

  `isolated_run`: no NACK answer and no replay delivers a packet of an earlier generation in a run
  in which each start finds empty the rings it does not reset.  `isolated_stale`: a WHIP start
  resets none, and a packet of the generation before is served.
-/
import NginxRtc.Shm.Names
import NginxRtc.Worker.GopRing

namespace NginxRtc

/-- `sh` is `none` without a configured zone. -/
structure Generation where
  sh : Option ShmCtx
  rings : ℕ → RtpRing
  since : List Bytes

inductive GenerationEvent where
  /-- An AVC sequence header on worker `w`. -/
  | avcHeader (w : ℕ)
  /-- A WHIP publishing session accepted or attached on worker `w`: the reorder buffer is cleared,
      no ring is. -/
  | whipStart (w : ℕ)
  /-- A publisher on worker `w` pushes a packet into its GOP ring. -/
  | push (w : ℕ) (slots : BitVec 32) (alloc : Bool) (rtp : Bytes) (gop : Bool)
  /-- Any registry call of any worker, appends to the shared ring among them. -/
  | call (op : ShmOp)
  /-- Worker `w` frees its source of the stream. -/
  | drop (w : ℕ)
  | nack (w : ℕ) (seq : UInt16)
  | replay (w : ℕ) (buf : Bool) (accept : ℕ → Bool)

namespace Generation

variable {name : SourceName} {s : Generation}

/-- Every retransmit ring of the stream holds only packets of `since`. -/
def SharedFresh (name : SourceName) (since : List Bytes) (c : ShmCtx) : Prop :=
  ∀ a src r, c.sources.get a = some src → src.name = name → src.retransmit = some r →
    ∀ p ∈ r.cache.recent, p.data ∈ since

/-- The packet a registry call appends to the stream. -/
def appended (name : SourceName) (c : ShmCtx) : ShmOp → List Bytes
  | .retransmitAppend a _ rtp _ =>
    if (c.sources.get a).any (fun src => src.name = name) then [rtp] else []
  | _ => []

def step (name : SourceName) (s : Generation) : GenerationEvent → Generation
  | .avcHeader w =>
    { sh := s.sh.map fun c => c.retransmitReset name
      rings := Function.update s.rings w (s.rings w).reset
      since := [] }
  | .whipStart _ => { s with since := [] }
  | .push w slots alloc rtp gop =>
    { s with
      rings := Function.update s.rings w ((s.rings w).push slots alloc rtp gop)
      since := rtp :: s.since }
  | .call op =>
    { s with
      sh := s.sh.map op.step
      since := (s.sh.elim [] fun c => appended name c op) ++ s.since }
  | .drop w => { s with rings := Function.update s.rings w none }
  | .nack .. => s
  | .replay .. => s

/-- What a reader hands to its viewer. -/
def delivered (name : SourceName) (s : Generation) : GenerationEvent → List Bytes
  | .nack w seq => (streamRetransmit s.sh name (s.rings w) seq).toList
  | .replay w buf accept =>
    (streamReplayGop s.sh name (s.rings w) buf accept).2.map RetransmitSlot.data
  | _ => []

/-- Only packets pushed since the last start are delivered. -/
def Isolated (name : SourceName) (s : Generation) (e : GenerationEvent) : Prop :=
  ∀ rtp ∈ s.delivered name e, rtp ∈ s.since

/-- A start finds empty the rings it does not reset. -/
def Clean (name : SourceName) (s : Generation) : GenerationEvent → Prop
  | .avcHeader w => ∀ v, v ≠ w → (s.rings v).recent = []
  | .whipStart _ =>
    (∀ v, (s.rings v).recent = []) ∧
      ∀ c r, s.sh = some c → c.ring? name = some r → r.cache.recent = []
  | _ => True

/-- The registry is well formed, and every ring holds only packets of `since`. -/
structure Fresh (name : SourceName) (s : Generation) : Prop where
  shape : ∀ c, s.sh = some c → c.Shape
  locals : ∀ w, ∀ p ∈ (s.rings w).recent, p.data ∈ s.since
  shared : ∀ c, s.sh = some c → SharedFresh name s.since c

/-! ## What a reader delivers -/

theorem mem_of_find {w : ℕ} {r : CacheRing w RetransmitSlot} {seq : BitVec 16} {v : RetransmitSlot}
    (h : r.find RetransmitSlot.key seq = some v) : v ∈ r.recent := by
  obtain ⟨_, _, _, hv⟩ := CacheRing.find_some h
  exact List.mem_of_getElem? hv

theorem mem_of_burst {w : ℕ} {r : CacheRing w RetransmitSlot} {accept : ℕ → Bool}
    {p : RetransmitSlot} (h : p ∈ CacheRing.burst accept RetransmitSlot.closes 0 r.replay) :
    p ∈ r.recent :=
  r.replay_suffix.subset ((CacheRing.burst_prefix ..).subset h)

/-- The packets of the shared ring. -/
theorem mem_of_retransmitGet {c : ShmCtx} {seq : UInt16} {outCap : ℕ} {rtp : Bytes}
    (h : c.retransmitGet name seq outCap = some rtp) :
    ∃ r, c.ring? name = some r ∧ ∃ p ∈ r.cache.recent, p.data = rtp := by
  unfold ShmCtx.retransmitGet at h
  split at h
  · contradiction
  · next r hr =>
    split at h
    · contradiction
    · next v hv =>
      split_ifs at h
      exact ⟨r, hr, v, mem_of_find hv, Option.some.inj h⟩

theorem mem_of_retransmitReplayGop {c : ShmCtx} {buf : Bool} {accept : ℕ → Bool} {n : ℕ}
    {out : List RetransmitSlot} (h : c.retransmitReplayGop name buf accept = some (n, out))
    {p : RetransmitSlot} (hp : p ∈ out) : ∃ r, c.ring? name = some r ∧ p ∈ r.cache.recent := by
  unfold ShmCtx.retransmitReplayGop at h
  split_ifs at h
  split at h
  · contradiction
  · next r hr =>
    dsimp only at h
    rw [CacheRing.burst_upTo, Option.some.injEq, Prod.mk.injEq] at h
    obtain ⟨-, rfl⟩ := h
    exact ⟨r, hr, mem_of_burst hp⟩

/-- **Readers deliver retained packets**, of the ring of their worker or of the shared one. -/
theorem delivered_retained {e : GenerationEvent} {rtp : Bytes} (h : rtp ∈ s.delivered name e) :
    (∃ w, ∃ p ∈ (s.rings w).recent, p.data = rtp) ∨
      ∃ c r, s.sh = some c ∧ c.ring? name = some r ∧ ∃ p ∈ r.cache.recent, p.data = rtp := by
  cases e with
  | nack w seq =>
    rw [delivered, Option.mem_toList, streamRetransmit] at h
    split_ifs at h
    · obtain ⟨p, hp, rfl⟩ := Option.map_eq_some_iff.1 h
      obtain ⟨r, hr, hfind⟩ := Option.bind_eq_some_iff.1 hp
      refine .inl ⟨w, p, ?_, rfl⟩
      rw [hr]
      exact mem_of_find hfind
    · obtain ⟨c, hc, hget⟩ := Option.bind_eq_some_iff.1 h
      obtain ⟨r, hr, p, hp, hd⟩ := mem_of_retransmitGet hget
      exact .inr ⟨c, r, hc, hr, p, hp, hd⟩
  | replay w buf accept =>
    rw [delivered, List.mem_map] at h
    obtain ⟨p, hp, rfl⟩ := h
    unfold streamReplayGop at hp
    split_ifs at hp
    · refine .inl ⟨w, p, ?_, rfl⟩
      cases hr : s.rings w with
      | none =>
        rw [hr] at hp
        exact absurd hp (List.not_mem_nil)
      | some r =>
        rw [hr] at hp
        exact mem_of_burst hp
    · split at hp
      · exact absurd hp (List.not_mem_nil)
      · next c hc =>
        split at hp
        · exact absurd hp (List.not_mem_nil)
        · next n out hout =>
          obtain ⟨r, hr, hmem⟩ := mem_of_retransmitReplayGop hout hp
          exact .inr ⟨c, r, hc, hr, p, hmem, rfl⟩
  | avcHeader w => exact absurd h (List.not_mem_nil)
  | whipStart w => exact absurd h (List.not_mem_nil)
  | push w slots alloc rtp gop => exact absurd h (List.not_mem_nil)
  | call op => exact absurd h (List.not_mem_nil)
  | drop w => exact absurd h (List.not_mem_nil)

theorem Fresh.isolated (h : s.Fresh name) (e : GenerationEvent) : s.Isolated name e := by
  intro rtp hrtp
  rcases delivered_retained hrtp with ⟨w, p, hp, rfl⟩ | ⟨c, r, hc, hr, p, hp, rfl⟩
  · exact h.locals w p hp
  · obtain ⟨src, hsrc, hring⟩ := Option.bind_eq_some_iff.1 hr
    obtain ⟨a, -, ha, hn⟩ := ShmCtx.source?_eq_some hsrc
    exact h.shared c hc a src r ha hn hring p hp

/-! ## What each event leaves in the rings -/

theorem recent_reset (ring : RtpRing) : ring.reset.recent = [] := by
  cases ring with
  | none => rfl
  | some r => exact r.recent_clear

theorem mem_recent_push {slots : BitVec 32} {ring : RtpRing} {alloc : Bool} {rtp : Bytes}
    {gop : Bool} {p : RetransmitSlot} (h : p ∈ (ring.push slots alloc rtp gop).recent) :
    p ∈ ring.recent ∨ p.data = rtp := by
  unfold RtpRing.push at h
  split_ifs at h
  · exact .inl h
  · split at h
    · exact .inl h
    · next r hr =>
      have hold : ∀ q ∈ r.recent, q ∈ ring.recent := by
        intro q hq
        unfold RtpRing.reserve at hr
        cases ring with
        | none =>
          dsimp only at hr
          split_ifs at hr
          obtain rfl := Option.some.inj hr
          exact hq
        | some t =>
          dsimp only at hr
          split_ifs at hr
          obtain rfl := Option.some.inj hr
          exact hq
      have hmem : p ∈ (r.recent ++ [(⟨rtp.length, gop, rtp⟩ : RetransmitSlot)]) := by
        have hp : p ∈ (r.push (⟨rtp.length, gop, rtp⟩ : RetransmitSlot) gop).recent := h
        rw [CacheRing.recent_push] at hp
        exact List.mem_of_mem_drop hp
      rw [List.mem_append, List.mem_singleton] at hmem
      rcases hmem with hmem | rfl
      · exact .inl (hold p hmem)
      · exact .inr rfl

/-- A source of the stream keeps its name through a call. -/
theorem named_step {c : ShmCtx} (op : ShmOp) {a : ℕ} {src src' : ShmSource}
    (h : c.sources.get a = some src) (h' : (op.step c).sources.get a = some src') :
    src'.name = src.name := by
  obtain ⟨t, ht, hn⟩ := (ShmCtx.older_step c op).named a src' (Pool.lt_next h) h'
  obtain rfl := Option.some.inj (h.symm.trans ht)
  exact hn

theorem SharedFresh.call {since : List Bytes} {c : ShmCtx} (h : SharedFresh name since c)
    (op : ShmOp) : SharedFresh name (appended name c op ++ since) (op.step c) := by
  intro a src' r' hsrc' hn hr' p hp
  rw [List.mem_append]
  by_cases hop : ∃ slab rtp gop, op = .retransmitAppend a slab rtp gop
  · obtain ⟨slab, rtp, gop, rfl⟩ := hop
    obtain ⟨src, hsrc, ⟨hr, -⟩ | ⟨r, hold, rfl⟩⟩ := ShmCtx.ring_append hsrc' hr'
    · exact .inr (h a src r' hsrc ((named_step _ hsrc hsrc').symm.trans hn) hr p hp)
    · have hname : src.name = name := (named_step _ hsrc hsrc').symm.trans hn
      rw [RetransmitRing.cache_push, CacheRing.recent_push] at hp
      have hmem := List.mem_of_mem_drop hp
      rw [List.mem_append, List.mem_singleton] at hmem
      rcases hmem with hmem | rfl
      · rcases hold with hold | ⟨-, rfl⟩
        · exact .inr (h a src r hsrc hname hold p hmem)
        · exact absurd hmem (List.not_mem_nil)
      · refine .inl ?_
        simp [appended, hsrc, hname]
  · have hne : ∀ slab rtp gop, op ≠ .retransmitAppend a slab rtp gop := fun slab rtp gop he =>
      hop ⟨slab, rtp, gop, he⟩
    obtain ⟨src, hsrc, hr⟩ := Feed.ring_kept c hne hsrc' hr'
    exact .inr (h a src r' hsrc ((named_step _ hsrc hsrc').symm.trans hn) hr p hp)

/-- A source of the stream is the one its name finds. -/
theorem ring?_of_get {c : ShmCtx} (hc : c.Shape) {a : ℕ} {src : ShmSource} {r : RetransmitRing}
    (hsrc : c.sources.get a = some src) (hn : src.name = name) (hr : src.retransmit = some r) :
    c.ring? name = some r := by
  have hl := hc.lookup_of_get hsrc
  rw [hn] at hl
  rw [ShmCtx.ring?, ShmCtx.source?_of_lookup hl, hsrc, Option.bind_some, hr]

theorem sharedFresh_of_empty {c : ShmCtx} (hc : c.Shape)
    (h : ∀ r, c.ring? name = some r → r.cache.recent = []) (since : List Bytes) :
    SharedFresh name since c := by
  intro a src r hsrc hn hr p hp
  rw [h r (ring?_of_get hc hsrc hn hr)] at hp
  exact absurd hp (List.not_mem_nil)

theorem shape_retransmitReset {c : ShmCtx} (hc : c.Shape) (n : SourceName) :
    (c.retransmitReset n).Shape :=
  hc.moves (ShmCtx.moves_modifySource fun _ _ =>
    ⟨rfl, rfl, rfl, rfl, rfl, fun h => ⟨h.kind, h.held, h.idle⟩⟩)

theorem ring?_retransmitReset {c : ShmCtx} {r' : RetransmitRing}
    (h : (c.retransmitReset name).ring? name = some r') : r'.cache.recent = [] := by
  obtain ⟨src', hsrc', hr'⟩ := Option.bind_eq_some_iff.1 h
  obtain ⟨a, hl, ha, -⟩ := ShmCtx.source?_eq_some hsrc'
  have hname : ∀ src : ShmSource, src.resetRing.name = src.name := fun _ => rfl
  rw [ShmCtx.retransmitReset, ShmCtx.sourceLookup_modifySource _ _ _ hname] at hl
  rw [ShmCtx.retransmitReset, ShmCtx.modifySource_get, if_pos hl] at ha
  obtain ⟨src, -, rfl⟩ := Option.map_eq_some_iff.1 ha
  obtain ⟨r, -, rfl⟩ := Option.map_eq_some_iff.1 hr'
  exact r.recent_reset

/-- **A clean step keeps every ring fresh.** -/
theorem Fresh.step (h : s.Fresh name) {e : GenerationEvent} (hc : s.Clean name e) :
    (s.step name e).Fresh name := by
  cases e with
  | avcHeader w =>
    have hreset : ∀ c, s.sh = some c → (c.retransmitReset name).Shape := fun c hsh =>
      shape_retransmitReset (h.shape c hsh) name
    refine ⟨fun c' hsh => ?_, fun v p hp => ?_, fun c' hsh => ?_⟩
    · obtain ⟨c, hc', rfl⟩ := Option.map_eq_some_iff.1 hsh
      exact hreset c hc'
    · simp only [Generation.step] at hp
      rcases eq_or_ne v w with rfl | hv
      · rw [Function.update_self, recent_reset] at hp
        exact absurd hp (List.not_mem_nil)
      · rw [Function.update_of_ne hv, hc v hv] at hp
        exact absurd hp (List.not_mem_nil)
    · obtain ⟨c, hc', rfl⟩ := Option.map_eq_some_iff.1 hsh
      exact sharedFresh_of_empty (hreset c hc') (fun _ hr => ring?_retransmitReset hr) []
  | whipStart w =>
    obtain ⟨hlocal, hshared⟩ := hc
    refine ⟨h.shape, fun v p hp => ?_, fun c hsh => ?_⟩
    · have hp' : p ∈ (s.rings v).recent := hp
      rw [hlocal v] at hp'
      exact absurd hp' (List.not_mem_nil)
    · exact sharedFresh_of_empty (h.shape c hsh) (fun r hr => hshared c r hsh hr) []
  | push w slots alloc rtp gop =>
    refine ⟨h.shape, fun v p hp => ?_, fun c hsh a src r hsrc hn hr p hp => ?_⟩
    · simp only [Generation.step, List.mem_cons] at hp ⊢
      rcases eq_or_ne v w with rfl | hv
      · rw [Function.update_self] at hp
        rcases mem_recent_push hp with hold | hnew
        · exact .inr (h.locals v p hold)
        · exact .inl hnew
      · rw [Function.update_of_ne hv] at hp
        exact .inr (h.locals v p hp)
    · exact List.mem_cons_of_mem _ (h.shared c hsh a src r hsrc hn hr p hp)
  | call op =>
    refine ⟨fun c' hsh => ?_, fun v p hp => ?_, fun c' hsh => ?_⟩
    · obtain ⟨c, hc', rfl⟩ := Option.map_eq_some_iff.1 hsh
      exact op.shape_step (h.shape c hc')
    · exact List.mem_append_right _ (h.locals v p hp)
    · obtain ⟨c, hc', rfl⟩ := Option.map_eq_some_iff.1 hsh
      simp only [Generation.step, hc', Option.elim_some]
      exact (h.shared c hc').call op
  | drop w =>
    refine ⟨h.shape, fun v p hp => ?_, h.shared⟩
    simp only [Generation.step] at hp
    rcases eq_or_ne v w with rfl | hv
    · rw [Function.update_self] at hp
      exact absurd hp (List.not_mem_nil)
    · rw [Function.update_of_ne hv] at hp
      exact h.locals v p hp
  | nack w seq => exact h
  | replay w buf accept => exact h

/-- The processes have just started; `zone` is the configured zone, if there is one. -/
def start (zone : Option (ℕ × List (Option MediaRing))) : Generation :=
  ⟨zone.map fun z => ShmCtx.init z.1 z.2, fun _ => none, []⟩

theorem fresh_start (name : SourceName) (zone : Option (ℕ × List (Option MediaRing))) :
    (start zone).Fresh name := by
  refine ⟨fun c hsh => ?_, fun w p hp => absurd hp (List.not_mem_nil), fun c hsh => ?_⟩
  · obtain ⟨z, -, rfl⟩ := Option.map_eq_some_iff.1 hsh
    exact ShmCtx.shape_init z.1 z.2
  · obtain ⟨z, -, rfl⟩ := Option.map_eq_some_iff.1 hsh
    intro a src r hsrc
    exact nomatch hsrc

/-- **No packet of an earlier generation is delivered** in a run whose starts find empty the rings
    they do not reset. -/
theorem isolated_run (name : SourceName) (zone : Option (ℕ × List (Option MediaRing)))
    {es : List GenerationEvent}
    (hc : Lts.Along (step name) (fun s e => s.Clean name e) (start zone) es) :
    Lts.Along (step name) (fun s e => s.Isolated name e) (start zone) es :=
  Lts.along_of_step (P := fun s => s.Fresh name) (fun _ _ h hg => h.step hg)
    (fun _ e h _ => h.isolated e) (fresh_start name zone) hc

/-- An RTMP publisher starts over on worker 0, where the viewers are. -/
theorem isolated_run_header :
    Lts.Along (step sampleName) (fun s e => s.Isolated sampleName e) (start none)
      [.avcHeader 0, .push 0 4 true (Feed.sampleUnit 0) true, .avcHeader 0,
        .push 0 4 true (Feed.sampleUnit 1) true, .nack 0 1, .replay 0 true fun _ => true] := by
  refine isolated_run sampleName none ⟨fun v hv => rfl, trivial, fun v hv => ?_, trivial, trivial,
    trivial, trivial⟩
  simp only [step, Function.update_of_ne hv]
  rfl

/-- A WHIP session is accepted again on worker 0, and a NACK is answered with a packet of the one
    before. -/
theorem isolated_stale :
    ¬ Lts.Along (step sampleName) (fun s e => s.Isolated sampleName e) (start none)
      [.whipStart 0, .push 0 4 true (Feed.sampleUnit 0) true, .whipStart 0, .nack 0 0] := by
  rintro ⟨-, -, -, h, -⟩
  have hmem := h (Feed.sampleUnit 0) (by decide +kernel)
  exact absurd hmem (List.not_mem_nil)

end Generation

end NginxRtc
