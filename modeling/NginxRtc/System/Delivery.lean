/-
  The media plane of all workers (`ngx_rtc_broadcast_rtp`, `ngx_rtc_stream_drain_ring`).

  A worker that publishes a stream sends each packet to its own viewers and then goes through the
  rings of the others; every worker takes the entries out of its ring one at a time.  Between two
  such steps anything else may happen: registry calls of all workers, joins, closes and new sources
  on any of them, steps of other broadcasts.

  `broadcast_alone`: without anything in between, the steps of a broadcast are `broadcastRtp`.
  `media_in_order`: in every run each viewer is sent the packets of one stream only, and of each
  worker that broadcasts it in the order of the broadcasts, none twice.
-/
import Mathlib.Logic.Function.Basic
import NginxRtc.Shm.Owner
import NginxRtc.Worker.Broadcast

namespace NginxRtc

/-! ## Where a viewer belongs -/

namespace ShmCtx

/-- The id was given out, and a skeleton that still has it is owned by worker `i` and subscribes to the
    stream `name`. -/
structure Settled (c : ShmCtx) (id i : ℕ) (name : SourceName) : Prop where
  given : id < c.nextSessionId
  owner : ∀ a s, c.sessions.get a = some s → s.id = id → s.ownerSlot = some i
  stream : ∀ a s src, c.sessions.get a = some s → s.id = id → c.sources.get s.source = some src →
    src.name = name

theorem Moves.rings {c c' : ShmCtx} (h : c.Moves c') :
    c'.rings = c.rings ∧ c'.nworkers = c.nworkers := by
  induction h with
  | refl => exact ⟨rfl, rfl⟩
  | tail _ hm ih =>
    rw [← ih.1, ← ih.2]
    cases hm with
    | drop now a =>
      unfold sessionFree
      split <;> exact ⟨rfl, rfl⟩
    | _ => exact ⟨rfl, rfl⟩

/-- No call touches a media ring. -/
theorem step_rings (c : ShmCtx) (op : ShmOp) :
    (op.step c).rings = c.rings ∧ (op.step c).nworkers = c.nworkers := by
  rcases op.step_moves c with hm | ⟨env, args, rfl⟩ | ⟨a, slot, rfl⟩
  · exact Moves.rings hm
  · have hslab := Moves.rings (moves_slabAlloc c env)
    rcases sessionAdd_cases c env args with h | h | ⟨src, -, -, h⟩
    · exact (congrArg (fun d : ShmCtx => d.rings = c.rings ∧ d.nworkers = c.nworkers) h).mpr ⟨rfl, rfl⟩
    · exact (congrArg (fun d : ShmCtx => d.rings = c.rings ∧ d.nworkers = c.nworkers) h).mpr hslab
    · exact (congrArg (fun d : ShmCtx => d.rings = c.rings ∧ d.nworkers = c.nworkers) h).mpr hslab
  · exact ⟨rfl, rfl⟩

/-- **A viewer stays where it belongs**, whatever call is made. -/
theorem Settled.step {c : ShmCtx} (hc : c.Shape) {id i : ℕ} {name : SourceName}
    (h : c.Settled id i name) (op : ShmOp) : (op.step c).Settled id i name := by
  have holder := c.older_step op
  have hevolved : ∀ a s s', c.sessions.get a = some s → s.Evolves s' → s'.id = id →
      s'.ownerSlot = some i ∧
        ∀ src, (op.step c).sources.get s'.source = some src → src.name = name := by
    intro a s s' hs hev hid
    have hsid := hev.id.symm.trans hid
    refine ⟨hev.owner i (h.owner a s hs hsid), fun src hsrc => ?_⟩
    rw [hev.source] at hsrc
    obtain ⟨t, ht, hname⟩ := holder.named _ src (hc.bound a s hs) hsrc
    exact hname.trans (h.stream a s t hs hsid ht)
  rcases c.session_step op with hnew | ⟨-, hnextId, hold⟩
  · exact
      { given := hnew.nextId ▸ h.given
        owner := fun a s' hs' hid => by
          obtain ⟨s, hs, hev, -⟩ := hnew.old a s' hs'
          exact (hevolved a s s' hs hev hid).1
        stream := fun a s' src hs' hid hsrc => by
          obtain ⟨s, hs, hev, -⟩ := hnew.old a s' hs'
          exact (hevolved a s s' hs hev hid).2 src hsrc }
  · have hfresh : ∀ a s', c.Added op a s' → s'.id ≠ id := by
      rintro a s' ⟨-, env, args, src, -, -, rfl⟩ hid
      have hgiven := h.given
      rw [← hid] at hgiven
      exact Nat.lt_irrefl c.nextSessionId hgiven
    exact
      { given := hnextId ▸ Nat.lt_succ_of_lt h.given
        owner := fun a s' hs' hid => by
          rcases hold a s' hs' with ⟨s, hs, hev⟩ | hadded
          · exact (hevolved a s s' hs hev hid).1
          · exact absurd hid (hfresh a s' hadded)
        stream := fun a s' src hs' hid hsrc => by
          rcases hold a s' hs' with ⟨s, hs, hev⟩ | hadded
          · exact (hevolved a s s' hs hev hid).2 src hsrc
          · exact absurd hid (hfresh a s' hadded) }

/-- A ready subscriber and its skeleton. -/
theorem readySubscribers_spec {c : ShmCtx} (hc : c.Shape) {name : SourceName} {id i : ℕ}
    (h : (id, i) ∈ c.readySubscribers name) :
    ∃ a s src, c.sessions.get a = some s ∧ s.id = id ∧ s.ownerSlot = some i ∧
      c.sources.get s.source = some src ∧ src.name = name := by
  unfold readySubscribers at h
  split at h
  · exact absurd h List.not_mem_nil
  · next src hsrc =>
    obtain ⟨b, -, hget, hname⟩ := source?_eq_some hsrc
    obtain ⟨a, ha, hready⟩ := List.mem_filterMap.1 h
    obtain ⟨s, hs, hready⟩ := Option.bind_eq_some_iff.1 hready
    obtain ⟨s', hs', hlisted, -⟩ := hc.listed b src a hget ha
    obtain rfl := Option.some.inj (hs.symm.trans hs')
    unfold sourceSnapshot.ready at hready
    split_ifs at hready
    obtain ⟨w, hw, hready⟩ := Option.bind_eq_some_iff.1 hready
    split_ifs at hready
    obtain ⟨rfl, rfl⟩ := Prod.mk.inj (Option.some.inj hready)
    exact ⟨a, s, src, hs, rfl, hw, hlisted ▸ hget, hname⟩

/-- A ready subscriber belongs to its owner and its stream. -/
theorem Shape.settled {c : ShmCtx} (hc : c.Shape) {name : SourceName} {id i : ℕ}
    (h : (id, i) ∈ c.readySubscribers name) : c.Settled id i name := by
  obtain ⟨a, s, src, hs, rfl, howner, hsrc, hname⟩ := readySubscribers_spec hc h
  refine ⟨hc.idBound a s hs, fun b t ht hid => ?_, fun b t u ht hid hu => ?_⟩
  · obtain rfl := hc.ids b a t s ht hs hid
    obtain rfl := Option.some.inj (hs.symm.trans ht)
    exact howner
  · obtain rfl := hc.ids b a t s ht hs hid
    obtain rfl := Option.some.inj (hs.symm.trans ht)
    obtain rfl := Option.some.inj (hsrc.symm.trans hu)
    exact hname

/-- The rings play no part in this. -/
theorem Shape.withRings {c : ShmCtx} (h : c.Shape) (rings : List (Option MediaRing)) :
    Shape { c with rings := rings } :=
  ⟨h.names, h.ok, h.nodup, h.listed, h.inList, h.linked, h.unbound, h.bound, h.ids, h.idBound⟩

theorem Settled.withRings {c : ShmCtx} {id i : ℕ} {name : SourceName} (h : c.Settled id i name)
    (rings : List (Option MediaRing)) : Settled { c with rings := rings } id i name :=
  ⟨h.given, h.owner, h.stream⟩

/-- And to no other. -/
theorem Settled.agree {c : ShmCtx} (hc : c.Shape) {id i i' : ℕ} {name name' : SourceName}
    (h : c.Settled id i name) (h' : (id, i') ∈ c.readySubscribers name') :
    i' = i ∧ name' = name := by
  obtain ⟨a, s, src, hs, hid, howner, hsrc, hname⟩ := readySubscribers_spec hc h'
  exact ⟨Option.some.inj (howner.symm.trans (h.owner a s hs hid)),
    hname.symm.trans (h.stream a s src hs hid hsrc)⟩

end ShmCtx

/-! ## The plane -/

/-- A packet given to a broadcast, and the stream it is of. -/
structure Airing where
  name : SourceName
  rtp : Bytes

/-- The worker that broadcast a packet, and the number of the broadcast there. -/
abbrev AirTag := ℕ × ℕ

/-- A broadcast under way: the next ring it comes to, and the address of the source. -/
structure Job where
  fan : Fan
  next : ℕ
  a : ℕ

/-- The registry with the rings, and the workers, each of which may be in the middle of a broadcast;
    and of what has happened: the broadcasts of each worker, those whose entry each ring took, how
    many entries were taken out of it, the packets each viewer was sent, and the worker and stream
    of every viewer that was in a snapshot. -/
structure MediaPlane where
  c : ShmCtx
  workers : ℕ → Worker
  busy : ℕ → Option Job
  aired : ℕ → List Airing
  accepted : ℕ → List AirTag
  taken : ℕ → ℕ
  heard : ℕ → List (AirTag × Bytes)
  home : ℕ → Option (ℕ × SourceName)

/-- What happens next: a registry call; something else on worker `j`, whose state is `w` then; a packet
    of the source at `a` on worker `j`, the next ring of its broadcast, an entry of its own ring. -/
inductive PlaneEvent where
  | registry (op : ShmOp)
  | worker (j : ℕ) (w : Worker)
  | broadcast (j a : ℕ) (rtp : Bytes) (isVideo gop : Bool)
  | offer (j : ℕ)
  | drain (j : ℕ)

namespace MediaPlane

/-- The plane of a new zone. -/
def start (nworkers : ℕ) (rings : List (Option MediaRing)) : MediaPlane :=
  ⟨.init nworkers rings, Worker.init, fun _ => none, fun _ => [], fun _ => [], fun _ => 0, fun _ => [],
    fun _ => none⟩

/-- The snapshot of the source at `a` on worker `j`, taken again if it is stale. -/
def refresh (m : MediaPlane) (j a : ℕ) (src : Source) : MediaPlane :=
  { m with
    workers := Function.update m.workers j { m.workers j with
      sources := (m.workers j).sources.modify a fun _ => src.refreshSnap m.c }
    home := fun id => (m.home id).or
      (((src.refreshSnap m.c).snap.lookup id).map fun i => (i, src.name)) }

/-- The direct sends of a packet; its way through the rings begins. -/
def launch (m : MediaPlane) (j a : ℕ) (src : Source) (rtp : Bytes) (isVideo gop : Bool) : MediaPlane :=
  { m with
    busy := Function.update m.busy j (some ⟨fanOf j src rtp isVideo gop, 0, a⟩)
    aired := Function.update m.aired j (m.aired j ++ [⟨src.name, rtp⟩])
    heard := fun id => m.heard id ++
      List.replicate (sends (m.workers j) (sentTo (m.workers j) src.snap) id)
        ((j, (m.aired j).length), rtp) }

/-- `ngx_rtc_broadcast_rtp` on worker `j` up to the rings. -/
def broadcast (m : MediaPlane) (j a : ℕ) (rtp : Bytes) (isVideo gop : Bool) : MediaPlane :=
  match m.busy j, (m.workers j).sources.get a with
  | none, some src =>
    if ringRtpMax < rtp.length then m
    else if (src.refreshSnap m.c).snap = [] then m.refresh j a src
    else (m.refresh j a src).launch j a (src.refreshSnap m.c) rtp isVideo gop
  | _, _ => m

/-- The failed enqueues the source at `a` of worker `j` has counted. -/
def drops (m : MediaPlane) (j a : ℕ) : ℕ := ((m.workers j).sources.get a).elim 0 Source.ringDrops

/-- The next turn of the loop over the workers, or its end. -/
def offer (m : MediaPlane) (j : ℕ) : MediaPlane :=
  match m.busy j with
  | none => m
  | some job =>
    if job.next < m.c.nworkers then
      let r := job.fan.offer (m.c.rings, m.drops j job.a) job.next
      { m with
        c := { m.c with rings := r.1 }
        workers := Function.update m.workers j { m.workers j with
          sources := (m.workers j).sources.modify job.a fun src => { src with ringDrops := r.2 } }
        busy := Function.update m.busy j (some { job with next := job.next + 1 })
        accepted :=
          if ((ringOf m.c.rings job.next).bind (job.fan.turn job.next)).isSome then
            Function.update m.accepted job.next
              (m.accepted job.next ++ [(j, (m.aired j).length - 1)])
          else m.accepted }
    else { m with busy := Function.update m.busy j none }

/-- One turn of `ngx_rtc_stream_drain_ring` on worker `j`. -/
def drain (m : MediaPlane) (j : ℕ) : MediaPlane :=
  match m.busy j, (ringOf m.c.rings j).bind MediaRing.dequeue with
  | none, some (e, r) =>
    { m with
      c := { m.c with rings := m.c.rings.set j (some r) }
      taken := Function.update m.taken j (m.taken j + 1)
      heard := fun id => m.heard id ++
        List.replicate (if ((m.workers j).sessionFindById id).isSome then e.sess.count id else 0)
          ((m.accepted j).getD (m.taken j) (0, 0), e.rtp) }
  | _, _ => m

/-- One event; a worker does one thing at a time. -/
def step (m : MediaPlane) : PlaneEvent → MediaPlane
  | .registry op => { m with c := op.step m.c }
  | .worker j w =>
    match m.busy j with
    | none => { m with workers := Function.update m.workers j w }
    | some _ => m
  | .broadcast j a rtp isVideo gop => m.broadcast j a rtp isVideo gop
  | .offer j => m.offer j
  | .drain j => m.drain j

/-- What a worker does besides leaves its slot, and the snapshot of a source, unless it is a new source
    without one. -/
def Allowed (m : MediaPlane) : PlaneEvent → Prop
  | .worker j w => w.slot = j ∧ ∀ a src', w.sources.get a = some src' → src'.snap = [] ∨
      ∃ src, (m.workers j).sources.get a = some src ∧ src.name = src'.name ∧ src.snap = src'.snap
  | _ => True

/-! ## What a run keeps -/

/-- The packets of any one worker stand in the order of its broadcasts, none twice. -/
def Orderly (l : List AirTag) : Prop := l.Pairwise fun t u => t.1 = u.1 → t.2 < u.2

/-- The viewers of a snapshot are distinct, and at home where it says. -/
def AtHome (m : MediaPlane) (name : SourceName) (snap : List (ℕ × ℕ)) : Prop :=
  (snap.map Prod.fst).Nodup ∧ ∀ p ∈ snap, m.home p.1 = some (p.2, name)

/-- The entry is that of the broadcast, for distinct viewers of worker `j` of its stream. -/
def Carries (m : MediaPlane) (j : ℕ) (t : AirTag) (e : RingEntry) : Prop :=
  ∃ x, (m.aired t.1)[t.2]? = some x ∧ e.rtp = x.rtp ∧ e.sess.Nodup ∧
    ∀ id ∈ e.sess, m.home id = some (j, x.name)

/-- What viewer `id` was sent: a packet of its stream, straight from its own worker or out of the ring
    of that worker. -/
def Sent (m : MediaPlane) (id : ℕ) (t : AirTag × Bytes) : Prop :=
  ∃ i x, (m.aired t.1.1)[t.1.2]? = some x ∧ t.2 = x.rtp ∧ m.home id = some (i, x.name) ∧
    (t.1.1 ≠ i → t.1 ∈ (m.accepted i).take (m.taken i))

structure Sound (m : MediaPlane) : Prop where
  shape : m.c.Shape
  slot : ∀ j, (m.workers j).slot = j
  home : ∀ id i name, m.home id = some (i, name) → m.c.Settled id i name
  snap : ∀ j a src, (m.workers j).sources.get a = some src → m.AtHome src.name src.snap
  job : ∀ j job, m.busy j = some job → job.fan.slot = j ∧
    ∃ x, (m.aired j)[(m.aired j).length - 1]? = some x ∧ job.fan.rtp = x.rtp ∧
      m.AtHome x.name job.fan.snap
  ring : ∀ j r, ringOf m.c.rings j = some r →
    List.Forall₂ (m.Carries j) ((m.accepted j).drop (m.taken j)) r.queue
  behind : ∀ j, m.taken j ≤ (m.accepted j).length
  passed : ∀ i p k, (p, k) ∈ m.accepted i → k < (m.aired p).length ∧ p ≠ i ∧
    ∀ job, m.busy p = some job → k + 1 = (m.aired p).length → i < job.next
  order : ∀ i, Orderly (m.accepted i)
  sent : ∀ id, ∀ t ∈ m.heard id, m.Sent id t
  heard : ∀ id, Orderly ((m.heard id).map Prod.fst)

/-- Nothing known is taken back. -/
structure Grows (m m' : MediaPlane) : Prop where
  home : ∀ id h, m.home id = some h → m'.home id = some h
  aired : ∀ (p k : ℕ) (x : Airing), (m.aired p)[k]? = some x → (m'.aired p)[k]? = some x

variable {m m' : MediaPlane}

theorem AtHome.mono (hg : m.Grows m') {name : SourceName} {snap : List (ℕ × ℕ)}
    (h : m.AtHome name snap) : m'.AtHome name snap :=
  ⟨h.1, fun p hp => hg.home _ _ (h.2 p hp)⟩

theorem Carries.mono (hg : m.Grows m') {j : ℕ} {t : AirTag} {e : RingEntry} (h : m.Carries j t e) :
    m'.Carries j t e := by
  obtain ⟨x, hx, hrtp, hnodup, hhome⟩ := h
  exact ⟨x, hg.aired _ _ _ hx, hrtp, hnodup, fun id hid => hg.home _ _ (hhome id hid)⟩

theorem grows_refresh (m : MediaPlane) (j a : ℕ) (src : Source) : m.Grows (m.refresh j a src) where
  home id hm h := by
    show (m.home id).or _ = _
    rw [h, Option.some_or]
  aired _ _ _ h := h

/-- The same viewers, and no more known of what was broadcast and taken. -/
theorem Sent.mono (hg : m.Grows m') (haccepted : m'.accepted = m.accepted) (htaken : m'.taken = m.taken)
    {id : ℕ} {t : AirTag × Bytes} (h : m.Sent id t) : m'.Sent id t := by
  obtain ⟨i, x, hx, hrtp, hhome, hring⟩ := h
  exact ⟨i, x, hg.aired _ _ _ hx, hrtp, hg.home _ _ hhome, by rwa [haccepted, htaken]⟩

theorem Sent.lt {id : ℕ} {t : AirTag × Bytes} (h : m.Sent id t) : t.1.2 < (m.aired t.1.1).length := by
  obtain ⟨i, x, hx, -⟩ := h
  exact (List.getElem?_eq_some_iff.1 hx).1

theorem orderly_nil : Orderly [] := List.Pairwise.nil

/-- One more tag at the end. -/
theorem Orderly.snoc {l : List AirTag} (h : Orderly l) {t : AirTag}
    (ht : ∀ u ∈ l, u.1 = t.1 → u.2 < t.2) : Orderly (l ++ [t]) :=
  List.pairwise_append.2 ⟨h, List.pairwise_singleton _ _, fun u hu v hv => by
    obtain rfl := List.mem_singleton.1 hv
    exact ht u hu⟩

theorem Orderly.replicate {l : List AirTag} (h : Orderly l) {t : AirTag} {n : ℕ} (hn : n ≤ 1)
    (ht : n = 1 → ∀ u ∈ l, u.1 = t.1 → u.2 < t.2) : Orderly (l ++ List.replicate n t) := by
  rcases Nat.le_one_iff_eq_zero_or_eq_one.1 hn with rfl | rfl
  · rwa [List.replicate_zero, List.append_nil]
  · exact h.snoc (ht rfl)

theorem sound_start (nworkers : ℕ) (rings : List (Option MediaRing))
    (hempty : ∀ j r, ringOf rings j = some r → r.queue = []) : (start nworkers rings).Sound where
  shape := ShmCtx.shape_init nworkers rings
  slot _ := rfl
  home := nofun
  snap := nofun
  job := nofun
  ring j r hr := by
    rw [hempty j r hr]
    exact .nil
  behind _ := Nat.le_refl 0
  passed := nofun
  order _ := orderly_nil
  sent := nofun
  heard _ := orderly_nil

namespace Sound

theorem registry (h : m.Sound) (op : ShmOp) : (m.step (.registry op)).Sound :=
  { h with
    shape := ShmOp.shape_step h.shape op
    home := fun id i name hid => (h.home id i name hid).step h.shape op
    ring := fun j r hr => h.ring j r ((congrArg (ringOf · j) (m.c.step_rings op).1).symm.trans hr) }

theorem worker (h : m.Sound) {j : ℕ} {w : Worker} (hw : m.Allowed (.worker j w)) :
    (m.step (.worker j w)).Sound := by
  rw [step]
  split
  · obtain ⟨hslot, hsnap⟩ := hw
    refine { h with slot := fun i => ?_, snap := fun i a src hsrc => ?_ }
    · show (Function.update m.workers j w i).slot = i
      rw [Function.update_apply]
      split_ifs with hij
      · rw [hslot, hij]
      · exact h.slot i
    · change (Function.update m.workers j w i).sources.get a = some src at hsrc
      rw [Function.update_apply] at hsrc
      split_ifs at hsrc with hij
      · rcases hsnap a src hsrc with hnil | ⟨src₀, hsrc₀, hname, hsame⟩
        · rw [hnil]
          exact ⟨List.nodup_nil, fun _ hp => nomatch hp⟩
        · rw [← hname, ← hsame]
          exact h.snap j a src₀ hsrc₀
      · exact h.snap i a src hsrc
  · exact h

/-- Only worker `j` changes, and its sources only in what the snapshots are not about. -/
theorem snaps (h : m.Sound) (hg : m.Grows m') {j a : ℕ} {w : Worker} {f : Source → Source}
    (hworkers : m'.workers = Function.update m.workers j w)
    (hsources : w.sources = (m.workers j).sources.modify a f)
    (hf : ∀ src, (m.workers j).sources.get a = some src → m'.AtHome (f src).name (f src).snap)
    (i b : ℕ) (src : Source) (hsrc : (m'.workers i).sources.get b = some src) :
    m'.AtHome src.name src.snap := by
  rw [hworkers, Function.update_apply] at hsrc
  split_ifs at hsrc with hij
  · rw [hsources, Pool.get_modify] at hsrc
    split_ifs at hsrc with hba
    · obtain ⟨src₀, hsrc₀, rfl⟩ := Option.map_eq_some_iff.1 hsrc
      exact hf src₀ (hba ▸ hsrc₀)
    · exact (h.snap j b src hsrc).mono hg
  · exact (h.snap i b src hsrc).mono hg

/-- The home of the viewers of a snapshot, once it is looked up. -/
theorem homes (h : m.Sound) {j a : ℕ} {src : Source}
    (hsrc : (m.workers j).sources.get a = some src) :
    (m.refresh j a src).AtHome src.name (src.refreshSnap m.c).snap ∧
      ∀ id i name, (m.refresh j a src).home id = some (i, name) → m.c.Settled id i name := by
  obtain ⟨hnodup, hat⟩ := h.snap j a src hsrc
  have hknown : ((src.refreshSnap m.c).snap.map Prod.fst).Nodup ∧
      ∀ p ∈ (src.refreshSnap m.c).snap, m.c.Settled p.1 p.2 src.name ∧
        ∀ hm, m.home p.1 = some hm → hm = (p.2, src.name) := by
    unfold Source.refreshSnap
    split_ifs
    · dsimp only
      rw [ShmCtx.sourceSnapshot_eq]
      refine ⟨(h.shape.readySubscribers_nodup src.name).sublist ((List.take_sublist ..).map _),
        fun p hp => ?_⟩
      have hready := List.mem_of_mem_take hp
      refine ⟨h.shape.settled hready, fun hm hhm => ?_⟩
      obtain ⟨i, name⟩ := hm
      obtain ⟨hi, hname⟩ := (h.home _ _ _ hhm).agree h.shape hready
      rw [hi, hname]
    · refine ⟨hnodup, fun p hp => ⟨h.home _ _ _ (hat p hp), fun hm hhm => ?_⟩⟩
      exact Option.some.inj (hhm.symm.trans (hat p hp))
  obtain ⟨hnodup', hall⟩ := hknown
  refine ⟨⟨hnodup', fun p hp => ?_⟩, fun id i name hid => ?_⟩
  · show (m.home p.1).or _ = _
    cases hm : m.home p.1 with
    | some hm' => rw [Option.some_or, (hall p hp).2 hm' hm]
    | none => rw [Option.none_or, Pool.lookup_eq_some_of_mem hnodup' hp, Option.map_some]
  · change (m.home id).or _ = _ at hid
    cases hm : m.home id with
    | some hm' =>
      rw [hm, Option.some_or] at hid
      exact h.home id i name (hm.trans hid)
    | none =>
      rw [hm, Option.none_or] at hid
      obtain ⟨i', hlookup, he⟩ := Option.map_eq_some_iff.1 hid
      obtain ⟨rfl, rfl⟩ := Prod.mk.inj he
      exact (hall (id, i') (Pool.mem_of_lookup_eq_some hlookup)).1

theorem refresh (h : m.Sound) {j a : ℕ} {src : Source}
    (hsrc : (m.workers j).sources.get a = some src) : (m.refresh j a src).Sound := by
  have hg := grows_refresh m j a src
  obtain ⟨hat, hsettled⟩ := h.homes hsrc
  exact
    { shape := h.shape
      slot := fun i => by
        show (Function.update m.workers j _ i).slot = i
        rw [Function.update_apply]
        split_ifs with hij
        · exact hij ▸ h.slot j
        · exact h.slot i
      home := hsettled
      snap := h.snaps hg rfl rfl fun src₀ hsrc₀ => by
        obtain rfl := Option.some.inj (hsrc.symm.trans hsrc₀)
        have hname : (src.refreshSnap m.c).name = src.name := by
          unfold Source.refreshSnap
          split_ifs <;> rfl
        rw [hname]
        exact hat
      job := fun i job hjob => by
        obtain ⟨hslot, x, hx, hrtp, hhome⟩ := h.job i job hjob
        exact ⟨hslot, x, hx, hrtp, hhome.mono hg⟩
      ring := fun i r hr => (h.ring i r hr).imp fun _ _ => Carries.mono hg
      behind := h.behind
      passed := h.passed
      order := h.order
      sent := fun id t ht => (h.sent id t ht).mono hg rfl rfl
      heard := h.heard }

theorem launch (h : m.Sound) {j : ℕ} (hbusy : m.busy j = none) {src : Source}
    (hat : m.AtHome src.name src.snap) (a : ℕ) (rtp : Bytes) (isVideo gop : Bool) :
    (m.launch j a src rtp isVideo gop).Sound := by
  have haired : ∀ p, (m.launch j a src rtp isVideo gop).aired p =
      if p = j then m.aired j ++ [⟨src.name, rtp⟩] else m.aired p :=
    fun p => Function.update_apply ..
  have hbusy' : ∀ p, (m.launch j a src rtp isVideo gop).busy p =
      if p = j then some ⟨fanOf j src rtp isVideo gop, 0, a⟩ else m.busy p :=
    fun p => Function.update_apply ..
  have hg : m.Grows (m.launch j a src rtp isVideo gop) := by
    refine ⟨fun _ _ hid => hid, fun p k x hx => ?_⟩
    rw [haired]
    split_ifs with hp
    · rw [List.getElem?_append_left (List.getElem?_eq_some_iff.1 (hp ▸ hx)).1]
      exact hp ▸ hx
    · exact hx
  have hlast : ((m.launch j a src rtp isVideo gop).aired j)[(m.aired j).length]? =
      some ⟨src.name, rtp⟩ := by
    rw [haired, if_pos rfl, List.getElem?_append_right le_rfl, Nat.sub_self]
    rfl
  have hlen : ((m.launch j a src rtp isVideo gop).aired j).length = (m.aired j).length + 1 := by
    rw [haired, if_pos rfl, List.length_append, List.length_singleton]
  have hsends : ∀ id, sends (m.workers j) (sentTo (m.workers j) src.snap) id ≤ 1 ∧
      (sends (m.workers j) (sentTo (m.workers j) src.snap) id ≠ 0 → (id, j) ∈ src.snap) := by
    intro id
    rw [sends_sentTo, h.slot]
    split_ifs
    · exact ⟨List.nodup_iff_count_le_one.1 (.of_map _ hat.1) _,
        fun hne => List.count_pos_iff.1 (Nat.pos_of_ne_zero hne)⟩
    · exact ⟨Nat.zero_le 1, fun hne => absurd rfl hne⟩
  exact
    { shape := h.shape
      slot := h.slot
      home := h.home
      snap := fun i b src hsrc => (h.snap i b src hsrc).mono hg
      job := fun i job hjob => by
        rw [hbusy'] at hjob
        split_ifs at hjob with hij
        · obtain rfl := Option.some.inj hjob
          rw [hij, hlen, Nat.add_sub_cancel]
          exact ⟨rfl, _, hlast, rfl, hat⟩
        · obtain ⟨hslot, x, hx, hrtp, hhome⟩ := h.job i job hjob
          rw [haired, if_neg hij]
          exact ⟨hslot, x, hx, hrtp, hhome⟩
      ring := fun i r hr => (h.ring i r hr).imp fun _ _ => Carries.mono hg
      behind := h.behind
      passed := fun i p k hk => by
        obtain ⟨hlt, hne, hnext⟩ := h.passed i p k hk
        rw [haired, hbusy']
        split_ifs with hp
        · subst hp
          rw [List.length_append, List.length_singleton]
          exact ⟨Nat.lt_succ_of_lt hlt, hne, fun _ _ hk => absurd (Nat.succ.inj hk) (Nat.ne_of_lt hlt)⟩
        · exact ⟨hlt, hne, hnext⟩
      order := h.order
      sent := fun id t ht => by
        rcases List.mem_append.1 ht with ht | ht
        · exact (h.sent id t ht).mono hg rfl rfl
        · obtain ⟨hne, rfl⟩ := List.mem_replicate.1 ht
          exact ⟨j, _, hlast, rfl, hat.2 _ ((hsends id).2 hne), fun hn => absurd rfl hn⟩
      heard := fun id => by
        show Orderly ((m.heard id ++ List.replicate _ _).map Prod.fst)
        rw [List.map_append, List.map_replicate]
        refine (h.heard id).replicate (hsends id).1 fun _ u hu hp => ?_
        obtain ⟨t, ht, rfl⟩ := List.mem_map.1 hu
        have hlt := (h.sent id t ht).lt
        rwa [hp] at hlt }

theorem broadcast (h : m.Sound) (j a : ℕ) (rtp : Bytes) (isVideo gop : Bool) :
    (m.broadcast j a rtp isVideo gop).Sound := by
  rw [MediaPlane.broadcast]
  split
  · next src hbusy hsrc =>
    have hrefreshed := h.refresh hsrc
    have hname : (src.refreshSnap m.c).name = src.name := by
      unfold Source.refreshSnap
      split_ifs <;> rfl
    split_ifs
    · exact h
    · exact hrefreshed
    · exact hrefreshed.launch hbusy (hname ▸ (h.homes hsrc).1) a rtp isVideo gop
  · exact h

/-- What a turn does to the rings and to the entries they have taken: the entry of the broadcast is one
    more of the next ring's, or none is. -/
theorem offered (h : m.Sound) {j : ℕ} {job : Job} (hbusy : m.busy j = some job)
    (hnext : job.next < m.c.nworkers) :
    ∃ rings drops accepted, m.offer j = { m with
        c := { m.c with rings := rings }
        workers := Function.update m.workers j { m.workers j with
          sources := (m.workers j).sources.modify job.a fun src => { src with ringDrops := drops } }
        busy := Function.update m.busy j (some { job with next := job.next + 1 })
        accepted := accepted } ∧
      (∀ i r, ringOf rings i = some r →
        List.Forall₂ (m.Carries i) ((accepted i).drop (m.taken i)) r.queue) ∧
      (∀ i, m.taken i ≤ (accepted i).length) ∧
      (∀ i p k, (p, k) ∈ accepted i → (p, k) ∈ m.accepted i ∨
        i = job.next ∧ i ≠ j ∧ p = j ∧ k = (m.aired j).length - 1) ∧
      (∀ i, Orderly (accepted i)) ∧
      ∀ i, (accepted i).take (m.taken i) = (m.accepted i).take (m.taken i) := by
  obtain ⟨hslot, x, hx, hrtp, hat⟩ := h.job j job hbusy
  have hothers : ∀ i, i ≠ job.next →
      ringOf (job.fan.offer (m.c.rings, m.drops j job.a) job.next).1 i = ringOf m.c.rings i :=
    fun i hi => offer_ring_of_ne _ _ hi
  refine ⟨_, _, _, by rw [MediaPlane.offer, hbusy]; exact if_pos hnext, ?_⟩
  cases hturn : (ringOf m.c.rings job.next).bind (job.fan.turn job.next) with
  | none =>
    rw [Option.isSome_none, if_neg Bool.false_ne_true]
    refine ⟨fun i r hr => ?_, h.behind, fun i p k hk => .inl hk, h.order, fun _ => rfl⟩
    by_cases hi : i = job.next
    · subst hi
      cases hbefore : ringOf m.c.rings job.next with
      | none =>
        have hsame : job.fan.offer (m.c.rings, m.drops j job.a) job.next =
            (m.c.rings, m.drops j job.a) := by
          unfold Fan.offer
          split_ifs <;> simp only [hbefore]
        rw [hsame, hbefore] at hr
        exact nomatch hr
      | some q =>
        have hnone : job.fan.turn job.next q = none := by
          rw [hbefore] at hturn
          exact hturn
        rw [offer_ring_self _ _ hbefore, hnone, Option.getD_none] at hr
        obtain rfl := Option.some.inj hr
        exact h.ring _ _ hbefore
    · rw [hothers i hi] at hr
      exact h.ring i r hr
  | some q' =>
    obtain ⟨q, hq, hq'⟩ := Option.bind_eq_some_iff.1 hturn
    have henq : job.next ≠ job.fan.slot ∧ q.enqueue job.fan.media job.fan.gop job.fan.rtp
        (targetIds job.fan.snap job.next) = some q' := by
      unfold Fan.turn at hq'
      split_ifs at hq' with hno
      exact ⟨fun he => hno (.inl he), hq'⟩
    have hne : job.next ≠ j := hslot ▸ henq.1
    have haccepted : ∀ i, Function.update m.accepted job.next
        (m.accepted job.next ++ [(j, (m.aired j).length - 1)]) i =
          if i = job.next then m.accepted job.next ++ [(j, (m.aired j).length - 1)]
          else m.accepted i := fun i => Function.update_apply ..
    rw [Option.isSome_some, if_pos rfl]
    refine ⟨fun i r hr => ?_, fun i => ?_, fun i p k hk => ?_, fun i => ?_, fun i => ?_⟩
    · rw [haccepted]
      split_ifs with hi
      · subst hi
        rw [offer_ring_self _ _ hq, hq', Option.getD_some] at hr
        obtain rfl := Option.some.inj hr
        rw [MediaRing.queue_enqueue henq.2, List.drop_append_of_le_length (h.behind _)]
        have hentry : m.Carries job.next (j, (m.aired j).length - 1)
            (q.entryOf job.fan.media job.fan.gop job.fan.rtp (targetIds job.fan.snap job.next)) :=
          ⟨x, hx, hrtp, targetIds_nodup hat.1 _, fun id hid => hat.2 _ (mem_targetIds hid)⟩
        exact List.rel_append (h.ring _ _ hq) (.cons hentry .nil)
      · rw [hothers i hi] at hr
        exact h.ring i r hr
    · rw [haccepted]
      split_ifs with hi
      · rw [hi, List.length_append]
        exact (h.behind _).trans (Nat.le_add_right _ _)
      · exact h.behind i
    · rw [haccepted] at hk
      split_ifs at hk with hi
      · rcases List.mem_append.1 hk with hk | hk
        · exact .inl (hi ▸ hk)
        · obtain ⟨rfl, rfl⟩ := Prod.mk.inj (List.mem_singleton.1 hk)
          exact .inr ⟨hi, hi ▸ hne, rfl, rfl⟩
      · exact .inl hk
    · rw [haccepted]
      split_ifs with hi
      · refine (h.order _).snoc fun u hu hp => ?_
        obtain ⟨hk, -, hearlier⟩ := h.passed job.next u.1 u.2 hu
        have hnot : u.2 + 1 ≠ (m.aired u.1).length := fun hlast =>
          Nat.lt_irrefl _ (hearlier job (hp ▸ hbusy) hlast)
        rw [hp] at hk hnot
        exact Nat.lt_sub_of_add_lt (Nat.lt_of_le_of_ne hk hnot)
      · exact h.order i
    · rw [haccepted]
      split_ifs with hi
      · rw [hi, List.take_append_of_le_length (h.behind _)]
      · rfl

/-- A turn of the loop over the rings. -/
theorem turn (h : m.Sound) {j : ℕ} {job : Job} (hbusy : m.busy j = some job)
    (hnext : job.next < m.c.nworkers) : (m.offer j).Sound := by
  obtain ⟨hslot, x, hx, hrtp, hat⟩ := h.job j job hbusy
  have hlt : (m.aired j).length - 1 < (m.aired j).length := (List.getElem?_eq_some_iff.1 hx).1
  obtain ⟨rings, drops, accepted, hoffer, hring, hbehind, hpassed, horder, hwas⟩ :=
    h.offered hbusy hnext
  rw [hoffer]
  exact
    { shape := h.shape.withRings rings
      slot := fun i => by
        show (Function.update m.workers j _ i).slot = i
        rw [Function.update_apply]
        split_ifs with hij
        · exact hij ▸ h.slot j
        · exact h.slot i
      home := fun id i name hid => (h.home id i name hid).withRings rings
      snap := h.snaps ⟨fun _ _ hid => hid, fun _ _ _ hk => hk⟩ rfl rfl fun src hsrc =>
        h.snap j job.a src hsrc
      job := fun i job' hjob => by
        change Function.update m.busy j _ i = some job' at hjob
        rw [Function.update_apply] at hjob
        split_ifs at hjob with hij
        · subst hij
          obtain rfl := Option.some.inj hjob
          exact ⟨hslot, x, hx, hrtp, hat⟩
        · exact h.job i job' hjob
      ring := hring
      behind := hbehind
      passed := fun i p k hk => by
        show _ ∧ _ ∧ ∀ job', Function.update m.busy j _ p = some job' → _
        rw [Function.update_apply]
        rcases hpassed i p k hk with hold | ⟨rfl, hne, rfl, rfl⟩
        · obtain ⟨hk, hne, hearlier⟩ := h.passed i p k hold
          refine ⟨hk, hne, fun job' hjob hlast => ?_⟩
          split_ifs at hjob with hp
          · subst hp
            obtain rfl := Option.some.inj hjob
            exact Nat.lt_succ_of_lt (hearlier job hbusy hlast)
          · exact hearlier job' hjob hlast
        · refine ⟨hlt, hne.symm, fun job' hjob _ => ?_⟩
          rw [if_pos rfl] at hjob
          obtain rfl := Option.some.inj hjob
          exact Nat.lt_succ_self _
      order := horder
      sent := fun id t ht => by
        obtain ⟨i, y, hy, hyrtp, hyhome, hyring⟩ := h.sent id t ht
        refine ⟨i, y, hy, hyrtp, hyhome, fun hne => ?_⟩
        show _ ∈ (accepted i).take (m.taken i)
        rw [hwas]
        exact hyring hne
      heard := h.heard }

theorem offer (h : m.Sound) (j : ℕ) : (m.offer j).Sound := by
  cases hbusy : m.busy j with
  | none =>
    rw [MediaPlane.offer, hbusy]
    exact h
  | some job =>
    by_cases hnext : job.next < m.c.nworkers
    · exact h.turn hbusy hnext
    · rw [MediaPlane.offer, hbusy]
      dsimp only
      rw [if_neg hnext]
      have hidle : ∀ p job', Function.update m.busy j none p = some job' → m.busy p = some job' := by
        intro p job' hp
        rw [Function.update_apply] at hp
        split_ifs at hp
        exact hp
      exact
        { h with
          job := fun i job' hjob => h.job i job' (hidle i job' hjob)
          passed := fun i p k hk => by
            obtain ⟨hlt, hne, hpassed⟩ := h.passed i p k hk
            exact ⟨hlt, hne, fun job' hjob => hpassed job' (hidle p job' hjob)⟩ }

/-- An entry taken out of a ring. -/
theorem drain (h : m.Sound) (j : ℕ) : (m.drain j).Sound := by
  rw [MediaPlane.drain]
  split
  · next e r' hbusy hdequeue =>
    obtain ⟨r, hr, hdequeue⟩ := Option.bind_eq_some_iff.1 hdequeue
    have hqueue := MediaRing.queue_dequeue hdequeue
    have hring := h.ring j r hr
    rw [hqueue] at hring
    obtain ⟨t, rest, ⟨x, hx, hrtp, hnodup, hhome⟩, hrest, hdrop⟩ := List.forall₂_cons_right_iff.1 hring
    have hsplit : (m.accepted j).take (m.taken j) ++ t :: rest = m.accepted j := by
      rw [← hdrop, List.take_append_drop]
    have hat : (m.accepted j)[m.taken j]? = some t := by
      rw [← List.head?_drop, hdrop, List.head?_cons]
    have hget : (m.accepted j).getD (m.taken j) (0, 0) = t := by
      rw [List.getD_eq_getElem?_getD, hat, Option.getD_some]
    have htake : (m.accepted j).take (m.taken j + 1) = (m.accepted j).take (m.taken j) ++ [t] := by
      rw [List.take_add_one, hat, Option.toList_some]
    have hmem : t ∈ m.accepted j := hsplit ▸ List.mem_append_right _ List.mem_cons_self
    have hother : t.1 ≠ j := (h.passed j t.1 t.2 hmem).2.1
    have htaken : ∀ i, Function.update m.taken j (m.taken j + 1) i =
        if i = j then m.taken j + 1 else m.taken i := fun i => Function.update_apply ..
    have hwas : ∀ {id : ℕ} {u : AirTag × Bytes}, m.Sent id u → ∃ i y, (m.aired u.1.1)[u.1.2]? = some y ∧
        u.2 = y.rtp ∧ m.home id = some (i, y.name) ∧ (u.1.1 ≠ i → u.1 ∈ (m.accepted i).take
          (Function.update m.taken j (m.taken j + 1) i)) := by
      rintro id u ⟨i, y, hy, hyrtp, hyhome, hyring⟩
      refine ⟨i, y, hy, hyrtp, hyhome, fun hne => ?_⟩
      rw [htaken]
      split_ifs with hij
      · subst hij
        rw [htake]
        exact List.mem_append_left _ (hyring hne)
      · exact hyring hne
    rw [hget]
    exact
      { h with
        shape := h.shape.withRings _
        home := fun id i name hid => (h.home id i name hid).withRings _
        ring := fun i q hq => by
          change ringOf (m.c.rings.set j (some r')) i = some q at hq
          show List.Forall₂ _ ((m.accepted i).drop (Function.update m.taken j _ i)) _
          rw [ringOf_set hr] at hq
          rw [htaken]
          split_ifs at hq ⊢ with hij
          · subst hij
            obtain rfl := Option.some.inj hq
            rw [← List.drop_drop, hdrop]
            exact hrest
          · exact h.ring i q hq
        behind := fun i => by
          show Function.update m.taken j _ i ≤ _
          rw [htaken]
          split_ifs with hij
          · subst hij
            exact (List.getElem?_eq_some_iff.1 hat).1
          · exact h.behind i
        sent := fun id u hu => by
          rcases List.mem_append.1 hu with hu | hu
          · exact hwas (h.sent id u hu)
          · obtain ⟨hne, rfl⟩ := List.mem_replicate.1 hu
            have hcount : e.sess.count id ≠ 0 := by
              intro h0
              rw [h0, ite_self] at hne
              exact hne rfl
            refine ⟨j, x, hx, hrtp, hhome id (List.count_pos_iff.1 (Nat.pos_of_ne_zero hcount)),
              fun _ => ?_⟩
            show t ∈ (m.accepted j).take (Function.update m.taken j _ j)
            rw [htaken, if_pos rfl, htake]
            exact List.mem_append_right _ List.mem_cons_self
        heard := fun id => by
          show Orderly ((m.heard id ++ List.replicate _ _).map Prod.fst)
          rw [List.map_append, List.map_replicate]
          refine (h.heard id).replicate ?_ fun hone u hu hp => ?_
          · split_ifs
            · exact List.nodup_iff_count_le_one.1 hnodup id
            · exact Nat.zero_le 1
          · have hid : id ∈ e.sess := by
              refine List.count_pos_iff.1 (Nat.pos_of_ne_zero fun h0 => ?_)
              rw [h0, ite_self] at hone
              exact nomatch hone
            obtain ⟨v, hv, rfl⟩ := List.mem_map.1 hu
            obtain ⟨i, y, -, -, hyhome, hyring⟩ := h.sent id v hv
            obtain rfl : i = j := congrArg Prod.fst (Option.some.inj (hyhome.symm.trans (hhome id hid)))
            have horder := h.order i
            rw [← hsplit] at horder
            exact (List.pairwise_append.1 horder).2.2 v.1 (hyring (hp ▸ hother)) t List.mem_cons_self hp }
  · exact h

theorem step (h : m.Sound) (e : PlaneEvent) (he : m.Allowed e) : (m.step e).Sound := by
  cases e with
  | registry op => exact h.registry op
  | worker j w => exact h.worker he
  | broadcast j a rtp isVideo gop => exact h.broadcast j a rtp isVideo gop
  | offer j => exact h.offer j
  | drain j => exact h.drain j

end Sound

end MediaPlane

/-- **The media plane delivers in order**, in every interleaving of the workers.  All that viewer `id` was
    ever sent are packets of one stream, as they were broadcast; those of any one worker stand in the
    order of its broadcasts, none twice; and while the viewer has a skeleton, that is owned by the
    worker that sends to it and subscribes to that stream. -/
theorem media_in_order {nworkers : ℕ} {rings : List (Option MediaRing)}
    (hempty : ∀ j r, ringOf rings j = some r → r.queue = []) {es : List PlaneEvent}
    (hallowed : Lts.Along MediaPlane.step MediaPlane.Allowed (.start nworkers rings) es) :
    Lts.Visits MediaPlane.step
      (fun m => ∀ id, m.heard id ≠ [] → ∃ i name, m.c.Settled id i name ∧
        MediaPlane.Orderly ((m.heard id).map Prod.fst) ∧
        ∀ t ∈ m.heard id, (m.aired t.1.1)[t.1.2]? = some ⟨name, t.2⟩)
      (.start nworkers rings) es := by
  refine (Lts.visits_of_step (fun _ e hm he => hm.step e he) (MediaPlane.sound_start nworkers rings hempty)
    hallowed).mono fun m hm id hne => ?_
  obtain ⟨u, hu⟩ := List.exists_mem_of_ne_nil _ hne
  obtain ⟨i, y, -, -, hhome, -⟩ := hm.sent id u hu
  refine ⟨i, y.name, hm.home id i y.name hhome, hm.heard id, fun t ht => ?_⟩
  obtain ⟨i', x, hx, hrtp, hhome', -⟩ := hm.sent id t ht
  have hname : x.name = y.name := congrArg Prod.snd (Option.some.inj (hhome'.symm.trans hhome))
  rw [hx, hrtp, ← hname]

/-- The session of a viewer on worker 1. -/
def sampleViewer : Session where
  source := none
  subLinked := false
  videoPt := 102
  audioPt := 111
  twccVideoExt := 0
  twccAudioExt := 0
  publishing := false
  id := 1
  iceUfrag := sampleUfrag 1
  icePwd := samplePwd
  dtls := none
  fsm := .srtpReady
  conn := none
  lastActive := 0
  closePending := false

/-- A stream that comes in on worker 0. -/
def sampleIngest : Worker :=
  { Worker.init 0 with sources := Pool.empty.alloc (.fresh sampleName) }

def sampleCrossing : List PlaneEvent :=
  [.registry (.sourceGet (.at 0) sampleName), .registry (.sessionAdd (.at 0) (.sample 1 false)),
    .registry (.bind (sampleUfrag 1) 1), .registry (.activate (sampleUfrag 1) 1), .worker 0 sampleIngest,
    .worker 1 { Worker.init 1 with sessions := Pool.empty.alloc sampleViewer },
    .broadcast 0 0 [0x80, 102, 0, 1] true true, .offer 0, .offer 0, .offer 0, .drain 1]

theorem media_in_order_crossing :
    Lts.Visits MediaPlane.step
      (fun m => ∀ id, m.heard id ≠ [] → ∃ i name, m.c.Settled id i name ∧
        MediaPlane.Orderly ((m.heard id).map Prod.fst) ∧
        ∀ t ∈ m.heard id, (m.aired t.1.1)[t.1.2]? = some ⟨name, t.2⟩)
      (.start 2 (List.replicate 2 (some (.zeroed 1 (by decide))))) sampleCrossing := by
  refine media_in_order (fun j r hr => ?_)
    ⟨trivial, trivial, trivial, trivial, ⟨rfl, fun a src' hsrc => .inl ?_⟩,
      ⟨rfl, fun a src' hsrc => nomatch hsrc⟩, trivial, trivial, trivial, trivial, trivial, trivial⟩
  · match j with
    | 0 | 1 =>
      cases hr
      rfl
    | j + 2 => exact nomatch hr
  · rw [sampleIngest, Pool.get_alloc] at hsrc
    split_ifs at hsrc
    · cases hsrc
      rfl
    · exact nomatch hsrc

example : (Lts.run MediaPlane.step (.start 2 (List.replicate 2 (some (.zeroed 1 (by decide)))))
    sampleCrossing).heard 1 = [((0, 0), [0x80, 102, 0, 1])] := by decide +kernel

/-! ## One broadcast alone -/

namespace MediaPlane

variable {m : MediaPlane} {j : ℕ}

/-- The turns of the loop, one after the other. -/
theorem offers_run {f : Fan} {a : ℕ} (hbusy : m.busy j = some ⟨f, 0, a⟩) {src : Source}
    (hsrc : (m.workers j).sources.get a = some src) {n : ℕ} (hn : n ≤ m.c.nworkers) :
    ∃ m', Lts.run step m (List.replicate n (.offer j)) = m' ∧
      m'.c = { m.c with rings := (f.offers (m.c.rings, src.ringDrops) n).1 } ∧
      m'.busy j = some ⟨f, n, a⟩ ∧ m'.heard = m.heard ∧
      (m'.workers j).sources.get a =
        some { src with ringDrops := (f.offers (m.c.rings, src.ringDrops) n).2 } := by
  induction n with
  | zero => exact ⟨m, rfl, rfl, hbusy, rfl, hsrc⟩
  | succ n ih =>
    obtain ⟨m', hrun, hc, hbusy', hheard, hsrc'⟩ := ih (Nat.le_of_succ_le hn)
    have hdrops : m'.drops j a = (f.offers (m.c.rings, src.ringDrops) n).2 := by
      rw [drops, hsrc']
      rfl
    have hnext : n < m'.c.nworkers := by
      rw [hc]
      exact hn
    refine ⟨m'.offer j, ?_, ?_⟩
    · rw [List.replicate_succ', Lts.run_append, hrun]
      rfl
    · have hrings : m'.c.rings = (f.offers (m.c.rings, src.ringDrops) n).1 := by rw [hc]
      rw [MediaPlane.offer, hbusy']
      dsimp only
      rw [if_pos hnext, hrings, hdrops, hc, Prod.mk.eta, offers_succ]
      refine ⟨rfl, Function.update_self .., hheard, ?_⟩
      show (Function.update m'.workers j _ j).sources.get a = _
      rw [Function.update_self, Pool.get_modify, if_pos rfl, hsrc']
      rfl

/-- **A broadcast that nothing comes between** is `broadcastRtp`: on the registry, on the source, and in
    what the viewers of this worker are sent. -/
theorem broadcast_alone (hbusy : m.busy j = none) {a : ℕ} {src : Source}
    (hsrc : (m.workers j).sources.get a = some src) (rtp : Bytes) (isVideo gop : Bool)
    (hslot : (m.workers j).slot = j) :
    ∃ m', Lts.run step m (.broadcast j a rtp isVideo gop ::
        List.replicate m.c.nworkers (.offer j)) = m' ∧
      m'.c = (broadcastRtp m.c (m.workers j) src rtp isVideo gop).sh ∧
      (m'.workers j).sources.get a =
        some (broadcastRtp m.c (m.workers j) src rtp isVideo gop).src ∧
      ∀ id, (m'.heard id).length = (m.heard id).length +
        sends (m.workers j) (broadcastRtp m.c (m.workers j) src rtp isVideo gop).sent id := by
  have hidle : ∀ {p : MediaPlane} (n : ℕ), p.busy j = none →
      Lts.run step p (List.replicate n (.offer j)) = p := by
    intro p n hp
    induction n with
    | zero => rfl
    | succ n ih =>
      have hstep : step p (.offer j) = p := by simp only [step, offer, hp]
      rw [List.replicate_succ, Lts.run_cons, hstep, ih]
  have hnone : ∀ id, sends (m.workers j) [] id = 0 := fun _ => rfl
  have hbroadcast : step m (.broadcast j a rtp isVideo gop) =
      if ringRtpMax < rtp.length then m
      else if (src.refreshSnap m.c).snap = [] then m.refresh j a src
      else (m.refresh j a src).launch j a (src.refreshSnap m.c) rtp isVideo gop := by
    simp only [step, broadcast, hbusy, hsrc]
  have hrefreshed : ((m.refresh j a src).workers j).sources.get a = some (src.refreshSnap m.c) := by
    show (Function.update m.workers j _ j).sources.get a = _
    rw [Function.update_self, Pool.get_modify, if_pos rfl, hsrc]
    rfl
  rw [Lts.run_cons, hbroadcast, broadcastRtp]
  split_ifs
  · exact ⟨m, hidle _ hbusy, rfl, hsrc, fun id => by rw [hnone]; rfl⟩
  · exact ⟨m.refresh j a src, hidle _ hbusy, rfl, hrefreshed, fun id => by rw [hnone]; rfl⟩
  · have hworker : ∀ id, sends ((m.refresh j a src).workers j)
        (sentTo ((m.refresh j a src).workers j) (src.refreshSnap m.c).snap) id =
          sends (m.workers j) (sentTo (m.workers j) (src.refreshSnap m.c).snap) id := by
      intro id
      show sends (Function.update m.workers j _ j) (sentTo (Function.update m.workers j _ j) _) id = _
      rw [Function.update_self]
      rfl
    obtain ⟨m', hrun, hc, -, hheard, hsrc'⟩ := offers_run
      (m := (m.refresh j a src).launch j a (src.refreshSnap m.c) rtp isVideo gop)
      (Function.update_self ..) hrefreshed (Nat.le_refl m.c.nworkers)
    refine ⟨m', hrun, ?_, ?_, fun id => ?_⟩
    · rw [hc, Fan.deliver, hslot]
      rfl
    · rw [hsrc', Fan.deliver, hslot]
      rfl
    · rw [hheard]
      show (m.heard id ++ List.replicate _ _).length = _
      rw [List.length_append, List.length_replicate, hworker]
      rfl

end MediaPlane

end NginxRtc
