/-
  The fan-out of one RTP packet (`ngx_rtc_broadcast_rtp`).

  The publisher's worker keeps a snapshot of the ready subscribers, taken again when the version of
  the subscriber set has changed.  Viewers of its own worker get the packet at once; every other
  worker gets one entry in its media ring, with the ids of at most `NGX_RTC_RING_MAX_SESSIONS` of
  its viewers.

  `offers_ring`: what the loop over the workers does to each ring.  `fanout_iff`: every viewer gets
  the packet exactly once, unless its worker's ring is full, exactly if no ring with room has more
  viewers to serve than an entry has places.
-/
import Mathlib.Data.List.Count
import NginxRtc.Shm.Names
import NginxRtc.Worker.State

namespace NginxRtc

/-- The subscribers of the stream that are ready and owned by a running worker: id and slot. -/
def ShmCtx.readySubscribers (c : ShmCtx) (name : SourceName) : List (ℕ × ℕ) :=
  match c.source? name with
  | none => []
  | some src =>
    src.subscribers.filterMap fun a => (c.sessions.get a).bind (ShmCtx.sourceSnapshot.ready c)

theorem ShmCtx.sourceSnapshot_eq (c : ShmCtx) (name : SourceName) (max : ℕ) :
    c.sourceSnapshot name max = (c.readySubscribers name).take max := by
  unfold sourceSnapshot readySubscribers
  cases c.source? name with
  | none => exact List.take_nil.symm
  | some src => rfl

/-- The ring of worker `i`, if it was allocated. -/
def ringOf (rings : List (Option MediaRing)) (i : ℕ) : Option MediaRing := rings.getD i none

namespace Source

/-- The version in the shared source the cached pointer leads to. -/
def sharedVersion (c : ShmCtx) (src : Source) : Option ℕ :=
  (src.shmSrc.bind c.sources.get).map ShmSource.subscribersVersion

/-- There is no shared version to compare with, or it is not the one of the snapshot. -/
def snapStale (c : ShmCtx) (src : Source) : Bool := src.sharedVersion c ≠ some src.snapVersion

/-- Take the snapshot again if it is stale. -/
def refreshSnap (c : ShmCtx) (src : Source) : Source :=
  if src.snapStale c then
    { src with
      snap := c.sourceSnapshot src.name sourceMaxSnapshot
      snapVersion := (src.sharedVersion c).getD src.snapVersion }
  else src

end Source

/-- The ids of the snapshot that go into the entry for worker `i`. -/
def targetIds (snap : List (ℕ × ℕ)) (i : ℕ) : List ℕ :=
  ((snap.filter fun p => p.2 = i).map Prod.fst).take ringMaxSessions

/-- A packet on its way to the rings. -/
structure Fan where
  slot : ℕ
  media : UInt8
  gop : UInt8
  rtp : Bytes
  snap : List (ℕ × ℕ)

/-- The turn of worker `i`; the number counts the entries that found no place. -/
def Fan.offer (f : Fan) (s : List (Option MediaRing) × ℕ) (i : ℕ) : List (Option MediaRing) × ℕ :=
  if i = f.slot then s
  else if targetIds f.snap i = [] then s
  else
    match ringOf s.1 i with
    | none => s
    | some r =>
      match r.enqueue f.media f.gop f.rtp (targetIds f.snap i) with
      | some r' => (s.1.set i (some r'), s.2)
      | none => (s.1, s.2 + 1)

def Fan.offers (f : Fan) (s : List (Option MediaRing) × ℕ) (n : ℕ) : List (Option MediaRing) × ℕ :=
  (List.range n).foldl f.offer s

/-- What a broadcast leaves: the registry, the publisher's source, and the sessions the packet was
    sent to directly. -/
structure Broadcast where
  sh : ShmCtx
  src : Source
  sent : List ℕ

/-- The packet as it goes to the rings. -/
def fanOf (slot : ℕ) (src : Source) (rtp : Bytes) (isVideo gop : Bool) : Fan :=
  ⟨slot, if isVideo then 0 else 1, if gop then 1 else 0, rtp, src.snap⟩

/-- The sessions of the snapshot the packet is sent to directly. -/
def sentTo (w : Worker) (snap : List (ℕ × ℕ)) : List ℕ :=
  snap.filterMap fun p => if p.2 = w.slot then w.sessionFindById p.1 else none

/-- The two loops of a broadcast: direct sends, then the rings. -/
def Fan.deliver (f : Fan) (c : ShmCtx) (w : Worker) (src : Source) : Broadcast where
  sh := { c with rings := (f.offers (c.rings, src.ringDrops) c.nworkers).1 }
  src := { src with ringDrops := (f.offers (c.rings, src.ringDrops) c.nworkers).2 }
  sent := sentTo w f.snap

/-- `ngx_rtc_broadcast_rtp` in a configured zone. -/
def broadcastRtp (c : ShmCtx) (w : Worker) (src : Source) (rtp : Bytes) (isVideo gop : Bool) :
    Broadcast :=
  if ringRtpMax < rtp.length then ⟨c, src, []⟩
  else if (src.refreshSnap c).snap = [] then ⟨c, src.refreshSnap c, []⟩
  else (fanOf w.slot (src.refreshSnap c) rtp isVideo gop).deliver c w (src.refreshSnap c)

/-! ## One worker at a time -/

section Offer
variable (f : Fan) (s : List (Option MediaRing) × ℕ)

theorem ringOf_set {rings : List (Option MediaRing)} {i j : ℕ} {r r' : MediaRing}
    (h : ringOf rings i = some r) :
    ringOf (rings.set i (some r')) j = if j = i then some r' else ringOf rings j := by
  have hi : i < rings.length := by
    by_contra hn
    rw [ringOf, List.getD_eq_getElem?_getD, List.getElem?_eq_none (Nat.le_of_not_lt hn)] at h
    exact nomatch h
  simp only [ringOf, List.getD_eq_getElem?_getD, List.getElem?_set, hi, if_true]
  by_cases hij : i = j
  · subst hij; simp
  · simp [hij, Ne.symm hij]

/-- What the turn of worker `i` does to its ring: an entry more, nothing, or a drop. -/
def Fan.turn (i : ℕ) (r : MediaRing) : Option MediaRing :=
  if i = f.slot ∨ targetIds f.snap i = [] then none
  else r.enqueue f.media f.gop f.rtp (targetIds f.snap i)

/-- The turn of another worker leaves a ring alone. -/
theorem offer_ring_of_ne {i j : ℕ} (h : j ≠ i) : ringOf (f.offer s i).1 j = ringOf s.1 j := by
  unfold Fan.offer
  split_ifs
  · rfl
  · rfl
  · split
    · rfl
    · next r hr =>
      split
      · rw [ringOf_set hr, if_neg h]
      · rfl

theorem offer_ring_self {i : ℕ} {r : MediaRing} (h : ringOf s.1 i = some r) :
    ringOf (f.offer s i).1 i = some ((f.turn i r).getD r) := by
  unfold Fan.offer Fan.turn
  by_cases hi : i = f.slot
  · rw [if_pos hi, if_pos (.inl hi), h, Option.getD_none]
  · by_cases hn : targetIds f.snap i = []
    · rw [if_neg hi, if_pos hn, if_pos (.inr hn), h, Option.getD_none]
    · rw [if_neg hi, if_neg hn, if_neg (not_or.2 ⟨hi, hn⟩)]
      simp only [h]
      split
      · next r' hr' => rw [ringOf_set h, if_pos rfl, hr', Option.getD_some]
      · next hr' => rw [h, hr', Option.getD_none]

theorem offer_drops_le (i : ℕ) : s.2 ≤ (f.offer s i).2 := by
  unfold Fan.offer
  split_ifs
  · exact le_rfl
  · exact le_rfl
  · split
    · exact le_rfl
    · split
      · exact le_rfl
      · exact Nat.le_succ _

/-- An enqueue that fails is counted. -/
theorem offer_drops_lt {i : ℕ} {r : MediaRing} (h : ringOf s.1 i = some r) (hi : i ≠ f.slot)
    (hn : targetIds f.snap i ≠ [])
    (hf : r.enqueue f.media f.gop f.rtp (targetIds f.snap i) = none) : s.2 < (f.offer s i).2 := by
  simp only [Fan.offer, if_neg hi, if_neg hn, h, hf, Nat.lt_succ_self]

theorem offers_succ (n : ℕ) : f.offers s (n + 1) = f.offer (f.offers s n) n := by
  simp only [Fan.offers, List.range_succ, List.foldl_append, List.foldl_cons, List.foldl_nil]

theorem offers_ring_of_le {n j : ℕ} (h : n ≤ j) : ringOf (f.offers s n).1 j = ringOf s.1 j := by
  induction n with
  | zero => rfl
  | succ n ih => rw [offers_succ, offer_ring_of_ne _ _ (Nat.ne_of_gt h), ih (Nat.le_of_succ_le h)]

theorem offers_drops_le (n : ℕ) : s.2 ≤ (f.offers s n).2 := by
  induction n with
  | zero => exact le_rfl
  | succ n ih => rw [offers_succ]; exact ih.trans (offer_drops_le ..)

/-- **What the loop does to a ring** is what its own worker's turn does to it. -/
theorem offers_ring {n j : ℕ} {r : MediaRing} (hj : j < n) (h : ringOf s.1 j = some r) :
    ringOf (f.offers s n).1 j = some ((f.turn j r).getD r) := by
  induction n with
  | zero => exact absurd hj (Nat.not_lt_zero j)
  | succ n ih =>
    rw [offers_succ]
    by_cases hjn : j = n
    · subst hjn
      exact offer_ring_self _ _ ((offers_ring_of_le _ _ le_rfl).trans h)
    · rw [offer_ring_of_ne _ _ hjn, ih (Nat.lt_of_le_of_ne (Nat.le_of_lt_succ hj) hjn)]

theorem offers_drops_lt {n j : ℕ} {r : MediaRing} (hjn : j < n) (h : ringOf s.1 j = some r)
    (hj : j ≠ f.slot) (hn : targetIds f.snap j ≠ [])
    (hf : r.enqueue f.media f.gop f.rtp (targetIds f.snap j) = none) : s.2 < (f.offers s n).2 := by
  induction n with
  | zero => exact absurd hjn (Nat.not_lt_zero j)
  | succ n ih =>
    rw [offers_succ]
    by_cases he : j = n
    · subst he
      exact (offers_drops_le f s j).trans_lt
        (offer_drops_lt _ _ ((offers_ring_of_le _ _ le_rfl).trans h) hj hn hf)
    · exact (ih (Nat.lt_of_le_of_ne (Nat.le_of_lt_succ hjn) he)).trans_le (offer_drops_le ..)

end Offer

/-! ## Counting copies -/

/-- The entries a ring has and had not before. -/
def newEntries (before after : Option MediaRing) : List RingEntry :=
  (after.elim [] MediaRing.queue).drop (before.elim [] MediaRing.queue).length

/-- How often the new entries of worker `j` carry the packet to the session `id`. -/
def copies (c c' : ShmCtx) (rtp : Bytes) (j id : ℕ) : ℕ :=
  ((newEntries (ringOf c.rings j) (ringOf c'.rings j)).map fun e =>
    if e.rtp = rtp then e.sess.count id else 0).sum

/-- How often the packet was sent directly to the session `id`. -/
def sends (w : Worker) (sent : List ℕ) (id : ℕ) : ℕ :=
  sent.countP fun a => (w.sessions.get a).any fun s => s.id = id

theorem newEntries_self (r : Option MediaRing) : newEntries r r = [] := List.drop_length

theorem newEntries_enqueue {r r' : MediaRing} {media gop : UInt8} {rtp : Bytes} {ids : List ℕ}
    (h : r.enqueue media gop rtp ids = some r') :
    newEntries (some r) (some r') = [r.entryOf media gop rtp ids] := by
  simp only [newEntries, Option.elim_some, MediaRing.queue_enqueue h, List.drop_left]

theorem copies_of_eq {c c' : ShmCtx} {rtp : Bytes} {j : ℕ} (id : ℕ)
    (h : ringOf c'.rings j = ringOf c.rings j) : copies c c' rtp j id = 0 := by
  rw [copies, h, newEntries_self]
  rfl

/-- What a ring gets of a delivery. -/
theorem copies_deliver (f : Fan) {c : ShmCtx} (w : Worker) (src : Source) {j : ℕ} {r : MediaRing}
    (hj : j < c.nworkers) (hr : ringOf c.rings j = some r) (id : ℕ) :
    copies c (f.deliver c w src).sh f.rtp j id =
      if (f.turn j r).isSome then (targetIds f.snap j).count id else 0 := by
  have hafter := offers_ring f (c.rings, src.ringDrops) hj hr
  cases ht : f.turn j r with
  | none =>
    rw [ht, Option.getD_none] at hafter
    exact copies_of_eq id (hafter.trans hr.symm)
  | some r' =>
    rw [ht, Option.getD_some] at hafter
    have henq : r.enqueue f.media f.gop f.rtp (targetIds f.snap j) = some r' := by
      unfold Fan.turn at ht
      split_ifs at ht
      exact ht
    show ((newEntries (ringOf c.rings j) (ringOf (f.offers _ _).1 j)).map _).sum = _
    rw [hafter, hr, newEntries_enqueue henq]
    simp [MediaRing.entryOf]

theorem copies_deliver_of_le (f : Fan) {c : ShmCtx} (w : Worker) (src : Source) {j : ℕ}
    (hj : c.nworkers ≤ j) (id : ℕ) : copies c (f.deliver c w src).sh f.rtp j id = 0 :=
  copies_of_eq id (offers_ring_of_le f (c.rings, src.ringDrops) hj)

/-! ## Snapshots with distinct ids -/

section Snap
variable {snap : List (ℕ × ℕ)}

theorem mem_targetIds {i id : ℕ} (h : id ∈ targetIds snap i) : (id, i) ∈ snap := by
  obtain ⟨⟨id', i'⟩, hp, rfl⟩ := List.mem_map.1 (List.mem_of_mem_take h)
  obtain ⟨hmem, hi⟩ := List.mem_filter.1 hp
  obtain rfl : i' = i := of_decide_eq_true hi
  exact hmem

theorem slot_unique (hn : (snap.map Prod.fst).Nodup) {id i j : ℕ} (h : (id, i) ∈ snap)
    (h' : (id, j) ∈ snap) : i = j :=
  congrArg Prod.snd (List.inj_on_of_nodup_map hn h h' rfl)

theorem targetIds_nodup (hn : (snap.map Prod.fst).Nodup) (i : ℕ) : (targetIds snap i).Nodup :=
  ((hn.sublist (List.filter_sublist.map Prod.fst)).sublist (List.take_sublist ..))

theorem targetIds_ne_nil {id i : ℕ} (h : (id, i) ∈ snap) : targetIds snap i ≠ [] := by
  intro hn
  have hmem : id ∈ (snap.filter fun p => p.2 = i).map Prod.fst :=
    List.mem_map.2 ⟨(id, i), List.mem_filter.2 ⟨h, decide_eq_true rfl⟩, rfl⟩
  rcases List.take_eq_nil_iff.1 hn with h0 | h0
  · exact nomatch h0
  · rw [h0] at hmem
    exact absurd hmem List.not_mem_nil

theorem count_targetIds_of_ne (hn : (snap.map Prod.fst).Nodup) {id i j : ℕ} (h : (id, i) ∈ snap)
    (hj : j ≠ i) : (targetIds snap j).count id = 0 :=
  List.count_eq_zero.2 fun hmem => hj (slot_unique hn (mem_targetIds hmem) h)

/-- How many of the subscribers worker `i` owns. -/
def share (snap : List (ℕ × ℕ)) (i : ℕ) : ℕ := (snap.filter fun p => p.2 = i).length

theorem count_targetIds (hn : (snap.map Prod.fst).Nodup) {id i : ℕ} (h : (id, i) ∈ snap)
    (hle : share snap i ≤ ringMaxSessions) : (targetIds snap i).count id = 1 := by
  refine List.count_eq_one_of_mem (targetIds_nodup hn i) ?_
  rw [targetIds, List.take_of_length_le (by rwa [List.length_map])]
  exact List.mem_map.2 ⟨(id, i), List.mem_filter.2 ⟨h, decide_eq_true rfl⟩, rfl⟩

/-- With more subscribers than places in an entry, one of them gets none. -/
theorem exists_left_out (hn : (snap.map Prod.fst).Nodup) {i : ℕ}
    (hlt : ringMaxSessions < share snap i) : ∃ id, (id, i) ∈ snap ∧ id ∉ targetIds snap i := by
  have hlen : ringMaxSessions < ((snap.filter fun p => p.2 = i).map Prod.fst).length := by
    rwa [List.length_map]
  have hnd : ((snap.filter fun p => p.2 = i).map Prod.fst).Nodup :=
    hn.sublist (List.filter_sublist.map Prod.fst)
  refine ⟨((snap.filter fun p => p.2 = i).map Prod.fst)[ringMaxSessions], ?_, fun hmem => ?_⟩
  · obtain ⟨⟨id', i'⟩, hp, he⟩ := List.mem_map.1 (List.getElem_mem hlen)
    obtain ⟨hmem, hi⟩ := List.mem_filter.1 hp
    obtain rfl : i' = i := of_decide_eq_true hi
    exact he ▸ hmem
  · obtain ⟨k, hk, he⟩ := List.mem_take_iff_getElem.1 hmem
    have hkl := (hnd.getElem_inj_iff).1 he
    omega

theorem sessionFindById_spec {w : Worker} {id a : ℕ} (h : w.sessionFindById id = some a) :
    ∃ s, w.sessions.get a = some s ∧ s.id = id := by
  obtain ⟨s, hs, hid⟩ := Pool.find?_spec h
  exact ⟨s, hs, of_decide_eq_true hid⟩

/-- The direct sends to the session `id` come from its own place in the snapshot. -/
theorem sends_sentTo (w : Worker) (id : ℕ) :
    sends w (sentTo w snap) id =
      if (w.sessionFindById id).isSome then snap.count (id, w.slot) else 0 := by
  rw [sends, sentTo, List.countP_filterMap, List.count]
  split_ifs with hf
  · refine List.countP_congr fun p _ => ?_
    obtain ⟨id', i⟩ := p
    by_cases hi : i = w.slot
    · subst hi
      cases ha : w.sessionFindById id' with
      | none =>
        have hne : id' ≠ id := by rintro rfl; rw [ha] at hf; exact nomatch hf
        simp [hne]
      | some a =>
        obtain ⟨s, hs, rfl⟩ := sessionFindById_spec ha
        simp [hs]
    · simp [hi]
  · refine List.countP_eq_zero.2 fun p _ => ?_
    obtain ⟨id', i⟩ := p
    by_cases hi : i = w.slot
    · cases ha : w.sessionFindById id' with
      | none => simp [hi]
      | some a =>
        obtain ⟨s, hs, rfl⟩ := sessionFindById_spec ha
        have hne : s.id ≠ id := by rintro rfl; rw [ha] at hf; exact hf rfl
        simp [hs, hi, hne]
    · simp [hi]

end Snap

/-! ## Every viewer once -/

/-- The ids of the ready subscribers are distinct. -/
theorem ShmCtx.Shape.readySubscribers_nodup {c : ShmCtx} (hc : c.Shape) (name : SourceName) :
    ((c.readySubscribers name).map Prod.fst).Nodup := by
  unfold readySubscribers
  split
  · exact List.nodup_nil
  · next src hsrc =>
    obtain ⟨a, -, hget, -⟩ := source?_eq_some hsrc
    rw [List.map_filterMap]
    refine (hc.nodup a src hget).filterMap fun b b' id hb hb' => ?_
    obtain ⟨s, hs, hid⟩ := ready_id hb
    obtain ⟨s', hs', hid'⟩ := ready_id hb'
    exact hc.ids b b' s s' hs hs' (hid.trans hid'.symm)
where
  ready_id {c : ShmCtx} {b id : ℕ}
      (h : id ∈ ((c.sessions.get b).bind (sourceSnapshot.ready c)).map Prod.fst) :
      ∃ s, c.sessions.get b = some s ∧ s.id = id := by
    obtain ⟨p, hp, rfl⟩ := Option.map_eq_some_iff.1 h
    obtain ⟨s, hs, hr⟩ := Option.bind_eq_some_iff.1 hp
    refine ⟨s, hs, ?_⟩
    unfold sourceSnapshot.ready at hr
    split_ifs at hr
    obtain ⟨w, -, hw⟩ := Option.bind_eq_some_iff.1 hr
    split_ifs at hw
    exact congrArg Prod.fst (Option.some.inj hw)

/-- The situation of a broadcast: a snapshot that is current unless the call takes it again, at
    most 256 ready subscribers, a ring for every worker, and a process session on this worker for
    each of its viewers. -/
structure Fanout (c : ShmCtx) (w : Worker) (src : Source) (rtp : Bytes) : Prop where
  current : src.snapStale c = false → src.snap = c.sourceSnapshot src.name sourceMaxSnapshot
  few : (c.readySubscribers src.name).length ≤ sourceMaxSnapshot
  rings : ∀ i < c.nworkers, (ringOf c.rings i).isSome
  held : ∀ id, (id, w.slot) ∈ c.readySubscribers src.name → (w.sessionFindById id).isSome
  size : 0 < rtp.length ∧ rtp.length ≤ ringRtpMax

/-- The subscriber `id` of worker `i` got the packet exactly once, on the way it should: directly
    on this worker, in one ring entry on another one.  It is left out only when the ring of its
    worker was full, and then that is counted. -/
def ReachedOnce (c : ShmCtx) (w : Worker) (src : Source) (rtp : Bytes) (out : Broadcast)
    (id i : ℕ) : Prop :=
  if i = w.slot then sends w out.sent id = 1 ∧ ∀ j, copies c out.sh rtp j id = 0
  else
    sends w out.sent id = 0 ∧ (∀ j, j ≠ i → copies c out.sh rtp j id = 0) ∧
      (copies c out.sh rtp i id = 1 ∨
        copies c out.sh rtp i id = 0 ∧ (ringOf c.rings i).any MediaRing.full = true ∧
          src.ringDrops < out.src.ringDrops)

section Once
variable {c : ShmCtx} {w : Worker} {src : Source} {rtp : Bytes}

theorem slot_lt_nworkers {name : SourceName} {id i : ℕ}
    (h : (id, i) ∈ c.readySubscribers name) : i < c.nworkers := by
  unfold ShmCtx.readySubscribers at h
  split at h
  · exact absurd h List.not_mem_nil
  · obtain ⟨a, -, ha⟩ := List.mem_filterMap.1 h
    obtain ⟨s, -, hs⟩ := Option.bind_eq_some_iff.1 ha
    unfold ShmCtx.sourceSnapshot.ready at hs
    split_ifs at hs
    obtain ⟨k, -, hk⟩ := Option.bind_eq_some_iff.1 hs
    split_ifs at hk with hlt
    obtain rfl : k = i := congrArg Prod.snd (Option.some.inj hk)
    exact hlt

/-- A broadcast works on the ready subscribers, cached or just read. -/
theorem Fanout.snap (h : Fanout c w src rtp) :
    (src.refreshSnap c).snap = c.readySubscribers src.name := by
  have hall : c.sourceSnapshot src.name sourceMaxSnapshot = c.readySubscribers src.name := by
    rw [ShmCtx.sourceSnapshot_eq, List.take_of_length_le h.few]
  unfold Source.refreshSnap
  split_ifs with hst
  · exact hall
  · rw [h.current (Bool.eq_false_iff.2 hst), hall]

theorem refreshSnap_ringDrops (c : ShmCtx) (src : Source) :
    (src.refreshSnap c).ringDrops = src.ringDrops := by
  unfold Source.refreshSnap
  split_ifs <;> rfl

theorem Fanout.deliver (h : Fanout c w src rtp) (isVideo gop : Bool)
    (hne : c.readySubscribers src.name ≠ []) :
    broadcastRtp c w src rtp isVideo gop =
      (fanOf w.slot (src.refreshSnap c) rtp isVideo gop).deliver c w (src.refreshSnap c) := by
  rw [broadcastRtp, if_neg (Nat.not_lt.2 h.size.2), if_neg (by rwa [h.snap])]

/-- The turn of another worker with viewers is an enqueue, refused only by a full ring. -/
theorem Fanout.turn (h : Fanout c w src rtp) {f : Fan} (hrtp : f.rtp = rtp) {i : ℕ}
    (hi : i ≠ f.slot) (hids : targetIds f.snap i ≠ []) (r : MediaRing) :
    (f.turn i r = r.enqueue f.media f.gop f.rtp (targetIds f.snap i)) ∧
      ((f.turn i r).isSome ↔ r.full = false) := by
  have hturn : f.turn i r = r.enqueue f.media f.gop f.rtp (targetIds f.snap i) := by
    rw [Fan.turn, if_neg (not_or.2 ⟨hi, hids⟩)]
  refine ⟨hturn, ?_⟩
  have hargs : MediaRing.argsOk f.rtp (targetIds f.snap i) = true := by
    have hlen : (targetIds f.snap i).length ≤ ringMaxSessions := List.length_take_le ..
    have hpos : (targetIds f.snap i).length ≠ 0 := fun h0 => hids (List.length_eq_zero_iff.1 h0)
    obtain ⟨h0, h1⟩ := h.size
    simp only [MediaRing.argsOk, hrtp, Bool.and_eq_true, decide_eq_true_eq]
    exact ⟨⟨⟨Nat.ne_of_gt h0, h1⟩, hpos⟩, hlen⟩
  rw [hturn]
  constructor
  · intro hs
    by_contra hf
    rw [MediaRing.enqueue_eq_none.2 (.inr (Bool.eq_true_of_not_eq_false hf))] at hs
    exact nomatch hs
  · intro hf
    obtain ⟨r', hr'⟩ := @MediaRing.enqueue_isSome _ f.media f.gop _ _ hargs hf
    rw [hr']
    rfl

variable {f : Fan} {src' : Source}

/-- A subscriber is in no entry of another worker. -/
theorem Fanout.copies_of_other (h : Fanout c w src rtp)
    (hn : ((c.readySubscribers src.name).map Prod.fst).Nodup)
    (hsnap : f.snap = c.readySubscribers src.name) (hrtp : f.rtp = rtp) {id i j : ℕ}
    (hmem : (id, i) ∈ c.readySubscribers src.name) (hj : j ≠ i ∨ j = f.slot) :
    copies c (f.deliver c w src').sh rtp j id = 0 := by
  subst hrtp
  by_cases hlt : j < c.nworkers
  · obtain ⟨r, hr⟩ := Option.isSome_iff_exists.1 (h.rings j hlt)
    rw [copies_deliver f w src' hlt hr]
    rcases hj with hj | hj
    · rw [hsnap, count_targetIds_of_ne hn hmem hj, ite_self]
    · have hturn : f.turn j r = none := if_pos (.inl hj)
      rw [hturn]
      rfl
  · exact copies_deliver_of_le f w src' (Nat.le_of_not_lt hlt) id

/-- A subscriber of this worker, or of one whose ring is full or whose viewers fit in an entry. -/
theorem Fanout.reachedOnce (h : Fanout c w src rtp)
    (hn : ((c.readySubscribers src.name).map Prod.fst).Nodup)
    (hsnap : f.snap = c.readySubscribers src.name) (hrtp : f.rtp = rtp) (hslot : f.slot = w.slot)
    (hdrops : src'.ringDrops = src.ringDrops) {id i : ℕ}
    (hmem : (id, i) ∈ c.readySubscribers src.name)
    (hfit : i ≠ w.slot → (ringOf c.rings i).any MediaRing.full = true ∨
      share (c.readySubscribers src.name) i ≤ ringMaxSessions) :
    ReachedOnce c w src rtp (f.deliver c w src') id i := by
  have hpairs : (c.readySubscribers src.name).Nodup := List.Nodup.of_map Prod.fst hn
  have hsends : sends w (f.deliver c w src').sent id =
      if (w.sessionFindById id).isSome then (c.readySubscribers src.name).count (id, w.slot)
      else 0 := by rw [← hsnap]; exact sends_sentTo w id
  unfold ReachedOnce
  split_ifs with hi
  · subst hi
    refine ⟨?_, fun j => ?_⟩
    · rw [hsends, if_pos (h.held id hmem), List.count_eq_one_of_mem hpairs hmem]
    · by_cases hj : j = w.slot
      · exact h.copies_of_other hn hsnap hrtp hmem (.inr (hj.trans hslot.symm))
      · exact h.copies_of_other hn hsnap hrtp hmem (.inl hj)
  · refine ⟨?_, fun j hj => h.copies_of_other hn hsnap hrtp hmem (.inl hj), ?_⟩
    · have hcount : (c.readySubscribers src.name).count (id, w.slot) = 0 :=
        List.count_eq_zero.2 fun hm => hi (slot_unique hn hmem hm)
      rw [hsends, hcount, ite_self]
    · have hlt := slot_lt_nworkers hmem
      obtain ⟨r, hr⟩ := Option.isSome_iff_exists.1 (h.rings i hlt)
      have hids : targetIds f.snap i ≠ [] := targetIds_ne_nil (hsnap ▸ hmem)
      obtain ⟨hturn, hroom⟩ := h.turn hrtp (fun he => hi (he.trans hslot)) hids r
      subst hrtp
      rw [copies_deliver f w src' hlt hr, hr]
      cases hfull : r.full with
      | true =>
        have hnone : f.turn i r = none := by
          rw [hturn, MediaRing.enqueue_eq_none.2 (.inr hfull)]
        refine .inr ⟨by rw [hnone]; rfl, hfull, ?_⟩
        rw [← hdrops]
        exact offers_drops_lt f (c.rings, src'.ringDrops) hlt hr (fun he => hi (he.trans hslot)) hids
          (hturn ▸ hnone)
      | false =>
        rcases hfit hi with hf | hle
        · rw [hr] at hf
          exact nomatch hf.symm.trans hfull
        · rw [if_pos (hroom.2 hfull), hsnap, count_targetIds hn hmem hle]
          exact .inl rfl

/-- Where a ring has room and its worker more viewers than an entry takes, one is left out. -/
theorem Fanout.left_out (h : Fanout c w src rtp)
    (hn : ((c.readySubscribers src.name).map Prod.fst).Nodup)
    (hsnap : f.snap = c.readySubscribers src.name) (hrtp : f.rtp = rtp) {i : ℕ}
    (hlt : i < c.nworkers) (hi : i ≠ w.slot)
    (hroom : (ringOf c.rings i).any MediaRing.full ≠ true)
    (hmany : ringMaxSessions < share (c.readySubscribers src.name) i) :
    ∃ id, (id, i) ∈ c.readySubscribers src.name ∧
      ¬ ReachedOnce c w src rtp (f.deliver c w src') id i := by
  obtain ⟨id, hmem, hout⟩ := exists_left_out hn hmany
  refine ⟨id, hmem, fun hreached => ?_⟩
  rw [ReachedOnce, if_neg hi] at hreached
  rcases hreached.2.2 with hc | ⟨-, hfull, -⟩
  · obtain ⟨r, hr⟩ := Option.isSome_iff_exists.1 (h.rings i hlt)
    subst hrtp
    rw [copies_deliver f w src' hlt hr, hsnap, List.count_eq_zero.2 hout, ite_self] at hc
    exact nomatch hc
  · exact hroom hfull

theorem Fanout.not_all (h : Fanout c w src rtp)
    (hn : ((c.readySubscribers src.name).map Prod.fst).Nodup) (isVideo gop : Bool) {i : ℕ}
    (hlt : i < c.nworkers) (hi : i ≠ w.slot)
    (hroom : (ringOf c.rings i).any MediaRing.full ≠ true)
    (hmany : ringMaxSessions < share (c.readySubscribers src.name) i) :
    ¬ ∀ id i, (id, i) ∈ c.readySubscribers src.name →
      ReachedOnce c w src rtp (broadcastRtp c w src rtp isVideo gop) id i := by
  intro hall
  obtain ⟨id, hmem, hnot⟩ : ∃ id, (id, i) ∈ c.readySubscribers src.name ∧ ¬ ReachedOnce c w src rtp
      ((fanOf w.slot (src.refreshSnap c) rtp isVideo gop).deliver c w (src.refreshSnap c)) id i :=
    h.left_out hn h.snap rfl hlt hi hroom hmany
  rw [← h.deliver isVideo gop (List.ne_nil_of_mem hmem)] at hnot
  exact hnot (hall id i hmem)

end Once

/-- **Every ready subscriber is reached exactly once** exactly if every other worker's ring is full
    or its viewers fit into one entry. -/
theorem fanout_iff {nworkers : ℕ} {rings : List (Option MediaRing)} {c : ShmCtx}
    (hreach : Lts.Reachable (fun c op => ShmOp.step c op) (ShmCtx.init nworkers rings) c)
    {w : Worker} {src : Source} {rtp : Bytes} (h : Fanout c w src rtp) (isVideo gop : Bool) :
    (∀ id i, (id, i) ∈ c.readySubscribers src.name →
      ReachedOnce c w src rtp (broadcastRtp c w src rtp isVideo gop) id i) ↔
    ∀ i < c.nworkers, i ≠ w.slot →
      (ringOf c.rings i).any MediaRing.full = true ∨
        share (c.readySubscribers src.name) i ≤ ringMaxSessions := by
  have hn := (ShmCtx.Reachable.shape hreach).readySubscribers_nodup src.name
  constructor
  · intro hall i hi hslot
    by_contra hno
    rw [not_or, Nat.not_le] at hno
    exact h.not_all hn isVideo gop hi hslot hno.1 hno.2 hall
  · intro hfit id i hmem
    rw [h.deliver isVideo gop (List.ne_nil_of_mem hmem)]
    exact h.reachedOnce hn h.snap rfl rfl (refreshSnap_ringDrops c src) hmem
      (hfit i (slot_lt_nworkers hmem))

/-! ## Crowds -/

/-- A viewer joins the sample stream and becomes ready on worker `slot`. -/
def joins (slot : ℕ) (b : UInt8) : List ShmOp :=
  [.sessionAdd (Env.at 6) (SessionArgs.sample b false), .bind (sampleUfrag b) slot,
    .activate (sampleUfrag b) slot]

/-- The registry of two workers once `n` viewers of the sample stream are ready on worker 1. -/
def crowded (n : ℕ) : ShmCtx :=
  Lts.run (fun c op => ShmOp.step c op)
    (ShmCtx.init 2 (List.replicate 2 (some (MediaRing.zeroed 1 (by decide)))))
    (.sourceGet (Env.at 5) sampleName ::
      (List.range n).flatMap fun i => joins 1 (UInt8.ofNat i))

theorem crowded_reachable (n : ℕ) : Lts.Reachable (fun c op => ShmOp.step c op)
    (ShmCtx.init 2 (List.replicate 2 (some (MediaRing.zeroed 1 (by decide))))) (crowded n) :=
  ⟨_, rfl⟩

theorem crowded_fanout {n : ℕ} (hn : ((crowded n).readySubscribers sampleName).length ≤ 256)
    (howner : ∀ p ∈ (crowded n).readySubscribers sampleName, p.2 = 1)
    (hrings : ∀ i < (crowded n).nworkers, (ringOf (crowded n).rings i).isSome) :
    Fanout (crowded n) (Worker.init 0) (Source.fresh sampleName) [128] where
  current h := nomatch h
  few := hn
  rings := hrings
  held id h := nomatch howner _ h
  size := by decide

/-- One viewer on the other worker gets the packet. -/
theorem fanout_one :
    ReachedOnce (crowded 1) (Worker.init 0) (Source.fresh sampleName) [128]
      (broadcastRtp (crowded 1) (Worker.init 0) (Source.fresh sampleName) [128] false false) 1 1 := by
  have hfan := crowded_fanout (n := 1) (by decide) (by decide) (by decide)
  refine (fanout_iff (crowded_reachable 1) hfan false false).2 (fun i hi hslot => .inr ?_) 1 1
    (by decide)
  have hi1 : i = 1 := by
    have hlt : i < 2 := hi
    have hne : i ≠ 0 := hslot
    omega
  subst hi1
  decide

/-- Of 65 viewers on the other worker, whose ring is empty, one does not get the packet. -/
theorem fanout_left_out :
    Fanout (crowded 65) (Worker.init 0) (Source.fresh sampleName) [128] ∧
      ¬ ∀ id i, (id, i) ∈ (crowded 65).readySubscribers sampleName →
        ReachedOnce (crowded 65) (Worker.init 0) (Source.fresh sampleName) [128]
          (broadcastRtp (crowded 65) (Worker.init 0) (Source.fresh sampleName) [128] false false)
          id i := by
  have hfan := crowded_fanout (n := 65) (by decide +kernel) (by decide +kernel) (by decide +kernel)
  have hnodup := (ShmCtx.Reachable.shape (crowded_reachable 65)).readySubscribers_nodup
    sampleName
  exact ⟨hfan, hfan.not_all (i := 1) hnodup false false (by decide +kernel) (by decide)
    (by decide +kernel) (by decide +kernel)⟩

end NginxRtc
