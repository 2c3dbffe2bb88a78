/-
  The snapshot of a broadcast, one shared read at a time.

  A broadcast compares the version of its snapshot without a lock, copies the subscribers under
  the pool mutex, and reads the version once more, without a lock, to store it beside the copy.
  Other workers add, bind, activate and free sessions in between.

  `refresh_run`: with nobody in between the three steps are `refreshSnap`.
  `snapshot_coherent`: after a broadcast, a snapshot of the current version lists exactly the
  linked subscribers, in every run where the subscriber set does not change between the copy and
  the version stored with it.
-/
import NginxRtc.Shm.Version
import NginxRtc.Worker.Broadcast

namespace NginxRtc

/-! ## Steps -/

/-- Where the publisher's worker stands: outside, about to copy, about to store the version. -/
inductive SnapPc where
  | idle
  | copy
  | store
deriving DecidableEq

/-- The calls of other workers on sessions, and the sweeps; a slot is the number of a worker. -/
inductive SubOp (n : ℕ) where
  | add (env : Env) (args : SessionArgs)
  | bind (ufrag : Ufrag) (slot : Fin n)
  | activate (ufrag : Ufrag) (slot : Fin n)
  | leave (now : ℕ) (ufrag : Ufrag) (slot : Fin n)
  | expire (now : ℕ) (forced : Bool)

def SubOp.op {n : ℕ} : SubOp n → ShmOp
  | add env args => .sessionAdd env args
  | bind ufrag slot => .bind ufrag slot
  | activate ufrag slot => .activate ufrag slot
  | leave now ufrag slot => .removeIfOwner now ufrag slot
  | expire now forced => .expire now forced

/-- The steps of a broadcast, and the calls of other workers. -/
inductive SnapEvent (n : ℕ) where
  | check
  | copy
  | store
  | sub (op : SubOp n)

structure Snapshots where
  sh : ShmCtx
  src : Source
  pc : SnapPc

namespace Snapshots

variable {n : ℕ}

/-- The stream just created, and the source of its publisher. -/
def start (n : ℕ) (rings : List (Option MediaRing)) (env : Env) (name : SourceName) : Snapshots where
  sh := (ShmCtx.init n rings).addSource env name
  src := { Source.fresh name with shmSrc := some 0 }
  pc := .idle

def step (s : Snapshots) : SnapEvent n → Snapshots
  | .check => if s.pc = .idle ∧ s.src.snapStale s.sh then { s with pc := .copy } else s
  | .copy =>
    if s.pc = .copy then
      { s with src := { s.src with snap := s.sh.sourceSnapshot s.src.name sourceMaxSnapshot }, pc := .store }
    else s
  | .store =>
    if s.pc = .store then
      { s with
        src := { s.src with snapVersion := (s.src.sharedVersion s.sh).getD s.src.snapVersion }
        pc := .idle }
    else s
  | .sub op => { s with sh := op.op.step s.sh }

/-- With nobody in between, a broadcast refreshes its snapshot as `refreshSnap` does. -/
theorem refresh_run (s : Snapshots) (h : s.pc = .idle) :
    (Lts.run step s
      (if s.src.snapStale s.sh then [.check, .copy, .store] else [(.check : SnapEvent n)])).src =
      s.src.refreshSnap s.sh := by
  unfold Source.refreshSnap
  split_ifs with hst
  · simp [step, h, hst, Source.sharedVersion]
  · simp [step, h, hst]

/-! ## Owners -/

end Snapshots

namespace ShmCtx

/-- Sessions are owned by running workers. -/
def Owned (c : ShmCtx) : Prop :=
  ∀ b t w, c.sessions.get b = some t → t.ownerSlot = some w → w < c.nworkers

theorem Moves.nworkers {c c' : ShmCtx} (h : c.Moves c') : c'.nworkers = c.nworkers := by
  induction h with
  | refl => rfl
  | tail _ hm ih =>
    rw [← ih]
    cases hm with
    | drop now a => unfold sessionFree; split <;> rfl
    | _ => rfl

theorem Owned.of_sessions {c c' : ShmCtx} (h : c.Owned) (hn : c'.nworkers = c.nworkers)
    (hs : ∀ b t', c'.sessions.get b = some t' →
      (∃ t, c.sessions.get b = some t ∧ t'.ownerSlot = t.ownerSlot) ∨
        ∀ w, t'.ownerSlot = some w → w < c.nworkers) : c'.Owned := by
  intro b t' w ht' hw
  rw [hn]
  rcases hs b t' ht' with ⟨t, ht, ho⟩ | ho
  · exact h b t w ht (ho ▸ hw)
  · exact ho w hw

theorem Owned.modify {c : ShmCtx} (h : c.Owned) (a : ℕ) {f : ShmSession → ShmSession} {slot : ℕ}
    (hslot : slot < c.nworkers) (hf : ∀ t, (f t).ownerSlot = some slot) (sources : Pool ShmSource) :
    Owned { c with sessions := c.sessions.modify a f, sources := sources } := by
  refine h.of_sessions rfl fun b t' ht' => ?_
  simp only [Pool.get_modify] at ht'
  split_ifs at ht'
  · obtain ⟨t, -, rfl⟩ := Option.map_eq_some_iff.1 ht'
    refine .inr fun w hw => ?_
    rw [hf] at hw
    exact Option.some.inj hw ▸ hslot
  · exact .inl ⟨t', ht', rfl⟩

theorem Owned.expire {c : ShmCtx} (h : c.Owned) (now : ℕ) (forced : Bool) :
    (c.expire now forced).Owned := by
  refine h.of_sessions (Moves.nworkers (moves_expire c now forced)) fun b t' ht' => ?_
  rw [expire_session, Option.filter_eq_some_iff] at ht'
  exact .inl ⟨t', ht'.1, rfl⟩

theorem Owned.slabAlloc {c : ShmCtx} (h : c.Owned) (env : Env) : (c.slabAlloc env).1.Owned := by
  unfold ShmCtx.slabAlloc
  split_ifs
  · exact h
  · exact h.expire env.now true

theorem Owned.sub {c : ShmCtx} (h : c.Owned) {n : ℕ} (hn : c.nworkers = n) (op : SubOp n) :
    (op.op.step c).Owned := by
  cases op with
  | add env args =>
    simp only [SubOp.op, ShmOp.step]
    rcases sessionAdd_cases c env args with he | he | ⟨src, -, -, he⟩ <;> rw [he]
    · exact h
    · exact h.slabAlloc env
    · refine (h.slabAlloc env).of_sessions rfl fun b t' ht' => ?_
      simp only [addSkeleton, Pool.get_alloc] at ht'
      split_ifs at ht'
      · obtain rfl := Option.some.inj ht'
        exact .inr fun w hw => by cases hw
      · exact .inl ⟨t', ht', rfl⟩
  | bind ufrag slot =>
    simp only [SubOp.op, ShmOp.step, sessionBind]
    split
    · exact h
    · split
      · exact h
      · split_ifs
        · exact h.modify _ (hn ▸ slot.isLt) (fun _ => rfl) _
        · exact h
  | activate ufrag slot =>
    simp only [SubOp.op, ShmOp.step, sessionActivate]
    split
    · exact h
    · split
      · exact h
      · split_ifs
        · exact h
        · exact h.modify _ (hn ▸ slot.isLt) (fun _ => rfl) _
        · exact h.modify _ (hn ▸ slot.isLt) (fun _ => rfl) _
  | leave now ufrag slot =>
    simp only [SubOp.op, ShmOp.step, sessionRemoveIfOwner]
    split
    · exact h
    · split
      · exact h
      · split_ifs
        · refine h.of_sessions (Moves.nworkers (Move.drop c now _).moves) fun b t' ht' => ?_
          rw [sessionFree_session] at ht'
          split_ifs at ht'
          exact .inl ⟨t', ht', rfl⟩
        · exact h
  | expire now forced => exact h.expire now forced

theorem nworkers_sub (c : ShmCtx) {n : ℕ} (op : SubOp n) :
    (op.op.step c).nworkers = c.nworkers := by
  rcases op.op.step_moves c with hm | ⟨env, args, he⟩ | ⟨a, slot, he⟩
  · exact Moves.nworkers hm
  · rw [he]
    simp only [ShmOp.step]
    have hslab := Moves.nworkers (moves_slabAlloc c env)
    rcases sessionAdd_cases c env args with h | h | ⟨src, -, -, h⟩ <;> rw [h]
    · exact hslab
    · exact hslab
  · cases op <;> cases he

end ShmCtx

/-! ## Linked subscribers -/

namespace ShmCtx

/-- The ids and owners of the linked subscribers of a source. -/
def linked (c : ShmCtx) (v : ShmSource) : List (ℕ × Option ℕ) :=
  v.subscribers.filterMap fun b => (c.sessions.get b).map fun t => (t.id, t.ownerSlot)

/-- What a snapshot of the source finds, its limit apart. -/
def viewOf (c : ShmCtx) (v : ShmSource) : List (ℕ × ℕ) := v.subscribers.filterMap c.entryAt

theorem Shape.sourceSnapshot_eq {c : ShmCtx} (hc : c.Shape) {a : ℕ} {v : ShmSource}
    (h : c.sources.get a = some v) (max : ℕ) :
    c.sourceSnapshot v.name max = (c.viewOf v).take max := by
  rw [sourceSnapshot, source?_of_lookup (hc.lookup_of_get h), h]
  rfl

theorem Later.viewOf {c c' : ShmCtx} {v v' : ShmSource} (h : c.Later c' v v')
    (he : v'.subscribersVersion = v.subscribersVersion) : c'.viewOf v' = c.viewOf v := by
  obtain ⟨hs, hent⟩ := h.same he
  rw [ShmCtx.viewOf, ShmCtx.viewOf, hs]
  exact List.filterMap_congr hent

/-- The view shows every linked subscriber. -/
theorem Shape.entryAt_listed {c : ShmCtx} (hc : c.Shape) (ho : c.Owned) {a b : ℕ} {v : ShmSource}
    (h : c.sources.get a = some v) (hb : b ∈ v.subscribers) :
    ∃ id w, c.entryAt b = some (id, w) ∧
      (c.sessions.get b).map (fun t => (t.id, t.ownerSlot)) = some (id, some w) := by
  obtain ⟨t, ht, -, hlink⟩ := hc.listed a v b h hb
  obtain ⟨howner, hready⟩ := hc.linked b t ht hlink
  obtain ⟨w, hw⟩ := Option.ne_none_iff_exists'.1 howner
  refine ⟨t.id, w, ?_, by rw [ht, Option.map_some, hw]⟩
  simp only [entryAt, ht, Option.bind_some, sourceSnapshot.ready, hready, if_true, hw,
    ho b t w ht hw]

theorem Shape.viewOf_linked {c : ShmCtx} (hc : c.Shape) (ho : c.Owned) {a : ℕ} {v : ShmSource}
    (h : c.sources.get a = some v) :
    (c.viewOf v).map (fun p => (p.1, some p.2)) = c.linked v ∧
      (c.viewOf v).length = v.subscribers.length := by
  have hall : ∀ b ∈ v.subscribers, ∃ id w, c.entryAt b = some (id, w) ∧
      (c.sessions.get b).map (fun t => (t.id, t.ownerSlot)) = some (id, some w) :=
    fun b hb => hc.entryAt_listed ho h hb
  unfold viewOf ShmCtx.linked
  revert hall
  induction v.subscribers with
  | nil => exact fun _ => ⟨rfl, rfl⟩
  | cons b bs ih =>
    intro hall
    obtain ⟨id, w, he, hl⟩ := hall b (List.mem_cons_self ..)
    obtain ⟨ih₁, ih₂⟩ := ih fun d hd => hall d (List.mem_cons_of_mem b hd)
    simp only [List.filterMap_cons, he, hl, List.map_cons, List.length_cons, ih₁, ih₂, and_self]

end ShmCtx

namespace Snapshots

variable {n : ℕ} {name : SourceName}

/-! ## Coherence -/

/-- After a broadcast: a snapshot whose version is the current one lists exactly the linked
    subscribers of the shared source, when there are at most 256. -/
def Coherent (s : Snapshots) : Prop :=
  s.pc = .idle → ∀ a v, s.src.shmSrc = some a → s.sh.sources.get a = some v →
    s.src.snapVersion = v.subscribersVersion → v.subscribers.length ≤ sourceMaxSnapshot →
    s.src.snap.map (fun p => (p.1, some p.2)) = s.sh.linked v

/-- No call of another worker changes the subscriber set between the copy and the version stored
    with it. -/
def Undisturbed (s : Snapshots) : SnapEvent n → Prop
  | .sub op => s.pc = .store → ∀ a v v', s.src.shmSrc = some a → s.sh.sources.get a = some v →
    (op.op.step s.sh).sources.get a = some v' → v'.subscribersVersion = v.subscribersVersion
  | _ => True

/-- The snapshot is never ahead of the source, and right when it is not behind or was just
    copied. -/
structure Follows (s : Snapshots) (v : ShmSource) : Prop where
  name : v.name = s.src.name
  behind : s.src.snapVersion ≤ v.subscribersVersion
  right : s.pc = .store ∨ s.src.snapVersion = v.subscribersVersion →
    s.src.snap = (s.sh.viewOf v).take sourceMaxSnapshot

structure Following (n : ℕ) (s : Snapshots) : Prop where
  shape : s.sh.Shape
  owned : s.sh.Owned
  workers : s.sh.nworkers = n
  known : ∀ a, s.src.shmSrc = some a → a < s.sh.sources.next
  follows : ∀ a v, s.src.shmSrc = some a → s.sh.sources.get a = some v → s.Follows v

theorem Following.coherent {s : Snapshots} (h : Following n s) : s.Coherent := by
  intro _ a v ha hv heq hle
  obtain ⟨hmap, hlen⟩ := h.shape.viewOf_linked h.owned hv
  rw [(h.follows a v ha hv).right (.inr heq), List.take_of_length_le (by rwa [hlen]), hmap]

theorem following_start (rings : List (Option MediaRing)) (env : Env) :
    Following n (start n rings env name) where
  shape := (ShmCtx.shape_init n rings).newSource rfl
  owned _ _ _ h := nomatch h
  workers := rfl
  known a ha := Option.some.inj ha ▸ Nat.one_pos
  follows a v ha hv := by
    obtain rfl := Option.some.inj ha
    obtain rfl := Option.some.inj hv
    exact ⟨rfl, le_refl _, fun _ => rfl⟩

/-- The version a snapshot is compared with is that of the source its pointer leads to. -/
theorem sharedVersion_eq {c : ShmCtx} {src : Source} {a : ℕ} {v : ShmSource}
    (ha : src.shmSrc = some a) (hv : c.sources.get a = some v) :
    src.sharedVersion c = some v.subscribersVersion := by
  rw [Source.sharedVersion, ha, Option.bind_some, hv, Option.map_some]

theorem Following.step {s : Snapshots} (h : Following n s) (e : SnapEvent n)
    (hg : s.Undisturbed e) : Following n (s.step e) := by
  cases e with
  | check =>
    simp only [Snapshots.step]
    split_ifs with hc
    · refine ⟨h.shape, h.owned, h.workers, h.known, fun a v ha hv => ?_⟩
      have hf := h.follows a v ha hv
      refine ⟨hf.name, hf.behind, ?_⟩
      rintro (hpc | heq)
      · exact nomatch hpc
      · exact hf.right (.inr heq)
    · exact h
  | copy =>
    simp only [Snapshots.step]
    split_ifs
    · refine ⟨h.shape, h.owned, h.workers, h.known, fun a v ha hv => ?_⟩
      have hf := h.follows a v ha hv
      refine ⟨hf.name, hf.behind, fun _ => ?_⟩
      show s.sh.sourceSnapshot s.src.name sourceMaxSnapshot = _
      rw [← hf.name]
      exact h.shape.sourceSnapshot_eq hv _
    · exact h
  | store =>
    simp only [Snapshots.step]
    split_ifs with hpc
    · refine ⟨h.shape, h.owned, h.workers, h.known, fun a v ha hv => ?_⟩
      have hf := h.follows a v ha hv
      refine ⟨hf.name, ?_, fun _ => hf.right (.inl hpc)⟩
      show (s.src.sharedVersion s.sh).getD s.src.snapVersion ≤ v.subscribersVersion
      have hsh : s.src.sharedVersion s.sh = some v.subscribersVersion := sharedVersion_eq ha hv
      rw [hsh]
      exact le_refl _
    · exact h
  | sub op =>
    have hshape := op.op.shape_step h.shape
    have holder := s.sh.older_step op.op
    refine ⟨hshape, h.owned.sub h.workers op, (s.sh.nworkers_sub op).trans h.workers,
      fun a ha => (h.known a ha).trans_le holder.next, fun a v' ha hv' => ?_⟩
    obtain ⟨v, hv, hname⟩ := holder.named a v' (h.known a ha) hv'
    have hf := h.follows a v ha hv
    have hlater := h.shape.later_step op.op hv hv'
    refine ⟨hname.trans hf.name, hf.behind.trans hlater.version, fun hr => ?_⟩
    -- the set has not changed since the snapshot was right
    have heq : v'.subscribersVersion = v.subscribersVersion ∧
        (s.pc = .store ∨ s.src.snapVersion = v.subscribersVersion) := by
      rcases hr with hpc | heq
      · exact ⟨hg hpc a v v' ha hv hv', .inl hpc⟩
      · have hle := hlater.version
        have hbehind := hf.behind
        have heq : s.src.snapVersion = v'.subscribersVersion := heq
        exact ⟨by omega, .inr (by omega)⟩
    show s.src.snap = ((op.op.step s.sh).viewOf v').take sourceMaxSnapshot
    rw [hlater.viewOf heq.1]
    exact hf.right heq.2

/-- **A broadcast's snapshot is coherent** in every run where the subscriber set does not change
    between a copy and the version stored with it. -/
theorem snapshot_coherent {rings : List (Option MediaRing)} {env : Env} {name : SourceName}
    {es : List (SnapEvent n)}
    (h : Lts.Along step Undisturbed (start n rings env name) es) :
    Lts.Visits step Coherent (start n rings env name) es :=
  (Lts.visits_of_step (fun _ e hs hg => hs.step e hg) (following_start rings env) h).mono
    fun _ hs => hs.coherent

/-- A viewer of worker 1 joins the sample stream. -/
def sampleJoin (b : UInt8) : List (SnapEvent 2) :=
  [.sub (.add (Env.at 6) (SessionArgs.sample b false)), .sub (.bind (sampleUfrag b) 1),
    .sub (.activate (sampleUfrag b) 1)]

/-- Two broadcasts, and a viewer who joins before each of them. -/
theorem snapshot_coherent_joins :
    Lts.Visits step Coherent (start 2 [] (Env.at 5) sampleName)
      (sampleJoin 1 ++ [.check, .copy, .store] ++ sampleJoin 2 ++ [.check, .copy, .store]) :=
  snapshot_coherent (by
    refine ⟨?_, ?_, ?_, trivial, trivial, trivial, ?_, ?_, ?_, trivial, trivial, trivial, trivial⟩
    all_goals exact fun hpc => nomatch hpc)

/-- A viewer who joins between the copy and the version stored with it is left out. -/
theorem snapshot_incoherent :
    ¬ Lts.Visits step Coherent (start 2 [] (Env.at 5) sampleName)
      (sampleJoin 1 ++ [.check, .copy] ++ sampleJoin 2 ++ [.store]) := by
  intro h
  exact absurd (h.last rfl 0 _ rfl rfl rfl (by decide)) (by decide)

end Snapshots

end NginxRtc
