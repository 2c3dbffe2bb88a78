/-
  What becomes of the packets pushed into the reorder buffer.

  A `JitterLedger` follows the buffer from a reset by its owner and sorts the packets it took:
  emitted, stale, replaced or discarded; the others are buffered.  A re-anchor resets the whole
  buffer, and the counters with it.

  `Moves`: what draining and skipping do to the packets and the counters.
  `Kept.push`: one push loses no packet.
  `jitter_accounts`: the counters of a run tell what became of its packets as long as no re-anchor
  finds a counter above 0 (and none wraps), and only then.
-/
import Mathlib.Algebra.BigOperators.Group.Finset.Basic
import Mathlib.Algebra.Order.Group.Multiset
import Mathlib.Data.Fintype.BigOperators
import Mathlib.Tactic.Abel
import NginxRtc.Lib.Run
import NginxRtc.Media.Jitter

namespace NginxRtc

universe u
variable {α β : Type u}

namespace Jitter
variable {j j' j'' : Jitter α} {pkt : JitterPkt α} {seq : UInt16} {now : UInt32}
  {r : Jitter α × List (JitterPkt α)} {d d' : ℕ} {out out' : List (JitterPkt α)}

/-! ## The packets that wait -/

def held (o : Option (JitterPkt α)) : Multiset α := o.elim 0 fun pkt => {pkt.data}

/-- The packets in the slots. -/
def buffered (j : Jitter α) : Multiset α := ∑ i, held (j.slots i)

theorem buffered_update (slots : Fin jitterCap → Option (JitterPkt α)) (i : Fin jitterCap)
    (o : Option (JitterPkt α)) :
    ∑ k, held (Function.update slots i o k) + held (slots i) = ∑ k, held (slots k) + held o := by
  have hrest : ∑ k ∈ Finset.univ.erase i, held (Function.update slots i o k) =
      ∑ k ∈ Finset.univ.erase i, held (slots k) :=
    Finset.sum_congr rfl fun k hk => by rw [Function.update_of_ne (Finset.ne_of_mem_erase hk)]
  rw [← Finset.add_sum_erase _ _ (Finset.mem_univ i),
    ← Finset.add_sum_erase _ (fun k => held (slots k)) (Finset.mem_univ i), hrest,
    Function.update_self]
  abel

theorem mem_buffered {x : α} : x ∈ j.buffered ↔ ∃ i pkt, j.slots i = some pkt ∧ pkt.data = x := by
  simp only [buffered, Multiset.mem_sum, Finset.mem_univ, true_and]
  refine exists_congr fun i => ?_
  cases j.slots i with
  | none => simp [held]
  | some pkt => simp [held, eq_comm]

/-- The buffer handed on `out` and passed `d` numbers over. -/
structure Moves (d : ℕ) (j j' : Jitter α) (out : List (JitterPkt α)) : Prop where
  balance : j'.buffered + (out.map (·.data) : List α) = j.buffered
  skipped : j'.nSkipped = j.nSkipped + UInt32.ofNat d
  cached : j'.nCached = j.nCached
  stale : j'.nStale = j.nStale
  reanchor : j'.nReanchor = j.nReanchor

theorem Moves.refl (j : Jitter α) : Moves 0 j j [] :=
  ⟨add_zero _, (UInt32.add_zero _).symm, rfl, rfl, rfl⟩

theorem Moves.trans (h : Moves d j j' out) (h' : Moves d' j' j'' out') :
    Moves (d + d') j j'' (out ++ out') where
  balance := by
    rw [List.map_append, ← Multiset.coe_add, ← h.balance, ← h'.balance]
    abel
  skipped := by rw [h'.skipped, h.skipped, UInt32.ofNat_add, UInt32.add_assoc]
  cached := h'.cached.trans h.cached
  stale := h'.stale.trans h.stale
  reanchor := h'.reanchor.trans h.reanchor

theorem take_moves (hf : j.front = some pkt) : Moves 0 j j.take [pkt] := by
  refine ⟨?_, (UInt32.add_zero _).symm, rfl, rfl, rfl⟩
  have h := buffered_update j.slots (jitterIndex j.nextSeq) none
  rw [show j.slots (jitterIndex j.nextSeq) = some pkt from hf] at h
  exact h.trans (add_zero _)

theorem drainLoop_moves (n : ℕ) (j : Jitter α) :
    Moves 0 j (drainLoop n j).1 (drainLoop n j).2 := by
  induction n generalizing j with
  | zero => exact .refl j
  | succ n ih =>
    cases hf : j.front with
    | none => simp only [drainLoop, hf]; exact .refl j
    | some pkt => simp only [drainLoop, hf]; exact (take_moves hf).trans (ih j.take)

theorem drain_moves (j : Jitter α) : Moves 0 j j.drain.1 j.drain.2 := by
  obtain ⟨hb, hk, hc, hs, hr⟩ := drainLoop_moves jitterCap j
  exact ⟨hb, hk, hc, hs, hr⟩

theorem skipLoop_moves {n : ℕ} (h : skipLoop n j = some j') : ∃ d < n, Moves d j j' [] := by
  induction n generalizing j with
  | zero => exact nomatch h
  | succ n ih =>
    rw [skipLoop] at h
    split at h
    · cases h
      exact ⟨0, Nat.succ_pos n, .refl _⟩
    · obtain ⟨d, hd, hm⟩ := ih h
      have hone : Moves 1 j { j with nextSeq := j.nextSeq + 1, nSkipped := j.nSkipped + 1 } [] :=
        ⟨add_zero _, rfl, rfl, rfl, rfl⟩
      exact ⟨1 + d, by omega, hone.trans hm⟩

theorem checkGap_moves (h : j.checkGap now = some r) : ∃ d < jitterCap, Moves d j r.1 r.2 := by
  unfold checkGap skipGap at h
  split at h
  · obtain ⟨k, hk, rfl⟩ := Option.map_eq_some_iff.1 h
    obtain ⟨d, hd, hm⟩ := skipLoop_moves hk
    exact ⟨d, hd, hm.trans (drain_moves k)⟩
  · cases h
    exact ⟨0, Nat.two_pow_pos 7, .refl j⟩

/-- The expected packet goes through; what follows it was buffered. -/
theorem inOrder_moves (h : j.inOrder pkt now = some r) :
    ∃ d < jitterCap, ∃ out, r.2 = pkt :: out ∧ Moves d j r.1 out := by
  have hnext : Moves 0 j { j with nextSeq := j.nextSeq + 1 } [] :=
    ⟨add_zero _, (UInt32.add_zero _).symm, rfl, rfl, rfl⟩
  have hdrain : Moves 0 j _ _ := hnext.trans (drain_moves { j with nextSeq := j.nextSeq + 1 })
  unfold inOrder at h
  simp only at h
  split at h
  · obtain ⟨s, hs, rfl⟩ := Option.map_eq_some_iff.1 h
    obtain ⟨d, hd, hm⟩ := checkGap_moves hs
    have hall := hdrain.trans hm
    rw [Nat.zero_add] at hall
    exact ⟨d, hd, _, rfl, hall⟩
  · cases h
    exact ⟨0, Nat.two_pow_pos 7, _, rfl, hdrain⟩

/-- A packet that is cached takes the place of the one in its slot. -/
theorem buffered_cache (j : Jitter α) (pkt : JitterPkt α) (seq : UInt16) (now : UInt32) :
    (j.cache pkt seq now).buffered + held (j.slots (jitterIndex seq)) =
      j.buffered + {pkt.data} :=
  buffered_update j.slots (jitterIndex seq) _

theorem buffered_reset (j : Jitter α) : j.reset.buffered = 0 :=
  Finset.sum_eq_zero fun _ _ => rfl

theorem buffered_reanchor (j : Jitter α) (seq : UInt16) : (j.reanchor seq).buffered = 0 :=
  buffered_reset j

/-! ## Branches of a push -/

/-- What a push finds. -/
inductive Fate where
  | refused
  | expected
  | far
  | ahead
  | behind
deriving DecidableEq

/-- The branch a push takes. -/
def fate (j : Jitter α) (pkt : JitterPkt α) (seq : UInt16) : Fate :=
  if pkt.len = 0 ∨ jitterPktMax < pkt.len then .refused
  else if seq = (j.anchored seq).nextSeq then .expected
  else if seqGt seq (j.anchored seq).nextSeq then
    if jitterCap ≤ (seq - (j.anchored seq).nextSeq).toNat then .far else .ahead
  else .behind

theorem push_fate (j : Jitter α) (pkt : JitterPkt α) (seq : UInt16) (now : UInt32) :
    j.push pkt seq now = match j.fate pkt seq with
      | .refused => some (j, [])
      | .expected => (j.anchored seq).inOrder pkt now
      | .far => some ((j.anchored seq).reanchor seq, [pkt])
      | .ahead => ((j.anchored seq).cache pkt seq now).checkGap now
      | .behind => some ({ j.anchored seq with nStale := (j.anchored seq).nStale + 1 }, []) := by
  unfold push push.pushOn fate
  split
  · rfl
  · split
    · rfl
    · split
      · split <;> rfl
      · rfl

theorem fate_ahead (h : j.fate pkt seq = .ahead) :
    (seq - (j.anchored seq).nextSeq).toNat < jitterCap := by
  unfold fate at h
  split at h
  · exact nomatch h
  · split at h
    · exact nomatch h
    · split at h
      · split at h
        · exact nomatch h
        · exact Nat.lt_of_not_le ‹_›
      · exact nomatch h

theorem Moves.of_anchored (h : Moves d (j.anchored seq) j' out) : Moves d j j' out := by
  unfold anchored at h
  split at h
  · exact h
  · exact ⟨h.balance, h.skipped, h.cached, h.stale, h.reanchor⟩

end Jitter

/-! ## The ledger -/

/-- The buffer, with what became of the packets it took.  Each packet carries its push and the
    place of the push; one that was replaced stands with the one that replaced it, one that was
    discarded with the number of the re-anchor. -/
structure JitterLedger (β : Type u) where
  jitter : Jitter (Stamped β)
  count : ℕ
  accepted : Multiset (Stamped β)
  emitted : Multiset (Stamped β)
  stale : Multiset (Stamped β)
  replaced : Multiset (Stamped β × Stamped β)
  discarded : Multiset (ℕ × Stamped β)
  reanchors : ℕ

namespace JitterLedger

/-- After a reset by the owner. -/
def start (j : Jitter (Stamped β)) : JitterLedger β where
  jitter := j.reset
  count := 0
  accepted := 0
  emitted := 0
  stale := 0
  replaced := 0
  discarded := 0
  reanchors := 0

def fate (l : JitterLedger β) (p : JitterPush β) : Jitter.Fate :=
  l.jitter.fate (p.stamp l.count).pkt p.seq

/-- The buffer took the packet, became `r.1` and handed on `r.2`. -/
def took (l : JitterLedger β) (p : JitterPush β)
    (r : Jitter (Stamped β) × List (JitterPkt (Stamped β))) : JitterLedger β :=
  { l with
    jitter := r.1
    count := l.count + 1
    accepted := (l.count, p) ::ₘ l.accepted
    emitted := l.emitted + (r.2.map (·.data) : List (Stamped β)) }

/-- The entries of a push. -/
def after (l : JitterLedger β) (p : JitterPush β)
    (r : Jitter (Stamped β) × List (JitterPkt (Stamped β))) : JitterLedger β :=
  match l.fate p with
  | .refused => { l with jitter := r.1, count := l.count + 1 }
  | .expected => l.took p r
  | .far =>
    { l.took p r with
      discarded := l.discarded + l.jitter.buffered.map (l.reanchors + 1, ·)
      reanchors := l.reanchors + 1 }
  | .ahead =>
    { l.took p r with
      replaced := l.replaced +
        (Jitter.held (l.jitter.slots (jitterIndex p.seq))).map (·, (l.count, p)) }
  | .behind => { l.took p r with stale := (l.count, p) ::ₘ l.stale }

def push (l : JitterLedger β) (p : JitterPush β) : Option (JitterLedger β) :=
  (l.jitter.push (p.stamp l.count).pkt p.seq p.now).map (l.after p)

def step (l : JitterLedger β) (p : JitterPush β) : JitterLedger β := (l.push p).getD l

variable {l l' : JitterLedger β} {p : JitterPush β}
  {r : Jitter (Stamped β) × List (JitterPkt (Stamped β))}

/-- The buffer of the ledger is that of the plain packets. -/
theorem push_plain (l : JitterLedger β) (p : JitterPush β) :
    (l.jitter.map fun x => x.2.pkt.data).push p.pkt p.seq p.now =
      (l.jitter.push (p.stamp l.count).pkt p.seq p.now).map
        (Jitter.mapOut fun x => x.2.pkt.data) :=
  @Jitter.push_map _ _ _ _ (p.stamp l.count).pkt _ _

/-- Where the packets are. -/
def sorted (l : JitterLedger β) : Multiset (Stamped β) :=
  l.emitted + l.jitter.buffered + l.stale + l.replaced.map Prod.fst + l.discarded.map Prod.snd

/-- What holds after any pushes. -/
structure Kept (l : JitterLedger β) : Prop where
  sound : l.jitter.Sound Stamped.seq 1
  idle : l.jitter.initialized = false → ∀ i, l.jitter.slots i = none
  partition : l.sorted = l.accepted
  placed : ∀ x ∈ l.accepted, x.1 < l.count
  once : l.accepted.Nodup
  later : ∀ d ∈ l.replaced, d.2 ∈ l.accepted ∧ d.1.seq = d.2.seq ∧ d.1.1 < d.2.1
  dated : ∀ d ∈ l.discarded, d.1 ≤ l.reanchors

theorem Kept.start (j : Jitter (Stamped β)) : Kept (start j) where
  sound := .of_empty (fun _ => rfl) rfl
  idle := fun _ _ => rfl
  partition := by
    simp only [sorted, JitterLedger.start, Jitter.buffered_reset, Multiset.map_zero, add_zero]
  placed := fun _ hx => absurd hx (Multiset.notMem_zero _)
  once := Multiset.nodup_zero
  later := fun _ hd => absurd hd (Multiset.notMem_zero _)
  dated := fun _ hd => absurd hd (Multiset.notMem_zero _)

/-- A buffered packet was taken. -/
theorem Kept.accepted (h : Kept l) {x : Stamped β} (hx : x ∈ l.jitter.buffered) :
    x ∈ l.accepted := by
  rw [← h.partition]
  simp only [sorted, Multiset.mem_add]
  exact .inl (.inl (.inl (.inr hx)))

/-- The new packet is a new one. -/
theorem Kept.fresh (h : Kept l) (p : JitterPush β) : (l.count, p) ∉ l.accepted :=
  fun hm => Nat.lt_irrefl _ (h.placed _ hm)

/-- What the branches of a push make of the packets and the counters. -/
def Books (l : JitterLedger β) (p : JitterPush β)
    (r : Jitter (Stamped β) × List (JitterPkt (Stamped β))) : Jitter.Fate → Prop
  | .refused => r = (l.jitter, [])
  | .expected => ∃ d < jitterCap, ∃ out, r.2 = (p.stamp l.count).pkt :: out ∧
      Jitter.Moves d l.jitter r.1 out
  | .far => r.2 = [(p.stamp l.count).pkt] ∧ r.1 = (l.jitter.anchored p.seq).reanchor p.seq
  | .ahead => ∃ d < jitterCap, ∃ j, Jitter.Moves d j r.1 r.2 ∧
      j.buffered + Jitter.held (l.jitter.slots (jitterIndex p.seq)) =
        l.jitter.buffered + {(l.count, p)} ∧
      j.nSkipped = l.jitter.nSkipped ∧ j.nCached = l.jitter.nCached + 1 ∧
      j.nStale = l.jitter.nStale ∧ j.nReanchor = l.jitter.nReanchor
  | .behind => r.2 = [] ∧ r.1.buffered = l.jitter.buffered ∧ r.1.nSkipped = l.jitter.nSkipped ∧
      r.1.nCached = l.jitter.nCached ∧ r.1.nStale = l.jitter.nStale + 1 ∧
      r.1.nReanchor = l.jitter.nReanchor

theorem push_books (hr : l.jitter.push (p.stamp l.count).pkt p.seq p.now = some r) :
    Books l p r (l.fate p) := by
  rw [Jitter.push_fate] at hr
  have hanchored : Jitter.Moves 0 l.jitter (l.jitter.anchored p.seq) [] :=
    .of_anchored (.refl (l.jitter.anchored p.seq))
  have hsame : (l.jitter.anchored p.seq).buffered = l.jitter.buffered := by
    simpa using hanchored.balance
  rw [fate]
  cases hf : l.jitter.fate (p.stamp l.count).pkt p.seq with
  | refused =>
    rw [hf] at hr
    cases hr
    rfl
  | expected =>
    rw [hf] at hr
    obtain ⟨d, hd, out, ho, hm⟩ := Jitter.inOrder_moves hr
    exact ⟨d, hd, out, ho, hm.of_anchored⟩
  | far =>
    rw [hf] at hr
    cases hr
    exact ⟨rfl, rfl⟩
  | ahead =>
    rw [hf] at hr
    obtain ⟨d, hd, hm⟩ := Jitter.checkGap_moves hr
    refine ⟨d, hd, _, hm, ?_, hanchored.skipped.trans (UInt32.add_zero _),
      congrArg (· + 1) hanchored.cached, hanchored.stale, hanchored.reanchor⟩
    have hcache := Jitter.buffered_cache (l.jitter.anchored p.seq) (p.stamp l.count).pkt p.seq p.now
    rwa [hsame, Jitter.slots_anchored] at hcache
  | behind =>
    rw [hf] at hr
    cases hr
    exact ⟨rfl, hsame, hanchored.skipped.trans (UInt32.add_zero _), hanchored.cached,
      congrArg (· + 1) hanchored.stale, hanchored.reanchor⟩

/-- No packet is lost, and none is entered twice. -/
theorem Kept.partition_after (h : Kept l) (hb : Books l p r (l.fate p)) :
    (l.after p r).sorted = (l.after p r).accepted := by
  have hold := h.partition
  unfold after
  cases hf : l.fate p with
  | refused =>
    rw [hf] at hb
    cases hb
    exact hold
  | expected =>
    rw [hf] at hb
    obtain ⟨d, -, out, ho, hm⟩ := hb
    simp only [took, sorted, ho, List.map_cons, ← Multiset.cons_coe] at hold ⊢
    rw [← hold, ← hm.balance, ← Multiset.singleton_add, ← Multiset.singleton_add]
    simp only [JitterPush.stamp]
    abel
  | far =>
    rw [hf] at hb
    obtain ⟨ho, hj⟩ := hb
    simp only [took, sorted, ho, hj, List.map_cons, List.map_nil, Multiset.coe_singleton,
      Multiset.map_add, Multiset.map_map, Function.comp, Multiset.map_id'] at hold ⊢
    rw [← hold, ← Multiset.singleton_add, Jitter.buffered_reanchor]
    simp only [JitterPush.stamp]
    abel
  | ahead =>
    rw [hf] at hb
    obtain ⟨d, -, j, hm, hcache, -⟩ := hb
    have hmoved := hm.balance
    simp only [took, sorted, Multiset.map_add, Multiset.map_map, Function.comp,
      Multiset.map_id'] at hold ⊢
    rw [← hold, ← Multiset.singleton_add]
    rw [← hmoved] at hcache
    generalize Jitter.held (l.jitter.slots (jitterIndex p.seq)) = old at hcache ⊢
    calc _ = l.emitted + (r.1.buffered + (r.2.map (·.data) : List (Stamped β)) + old) + l.stale +
          l.replaced.map Prod.fst + l.discarded.map Prod.snd := by abel
      _ = _ := by
        rw [hcache]
        abel
  | behind =>
    rw [hf] at hb
    obtain ⟨ho, hj, -⟩ := hb
    simp only [took, sorted, ho, hj, List.map_nil, Multiset.coe_nil] at hold ⊢
    rw [← hold, ← Multiset.singleton_add, ← Multiset.singleton_add]
    abel

/-- A packet that is replaced has the number of the new one. -/
theorem Kept.replaces (h : Kept l) (hf : l.fate p = .ahead) {x : Stamped β}
    (hx : x ∈ Jitter.held (l.jitter.slots (jitterIndex p.seq))) :
    x ∈ l.jitter.buffered ∧ x.seq = p.seq := by
  have hanchored : Jitter.Sound Stamped.seq 1 (l.jitter.anchored p.seq) := h.sound.anchored h.idle
  cases hs : l.jitter.slots (jitterIndex p.seq) with
  | none => simp [hs, Jitter.held] at hx
  | some pkt =>
    obtain rfl : x = pkt.data := by simpa [hs, Jitter.held] using hx
    have hslot : (l.jitter.anchored p.seq).slots (jitterIndex p.seq) = some pkt := by
      rw [Jitter.slots_anchored, hs]
    exact ⟨Jitter.mem_buffered.2 ⟨_, pkt, hs, rfl⟩,
      eq_of_near (hanchored.index _ _ hslot).symm (hanchored.near _ _ hslot)
        (Jitter.fate_ahead hf)⟩

theorem accepted_after (x : Stamped β) (hx : x ∈ (l.after p r).accepted) :
    x = (l.count, p) ∨ x ∈ l.accepted := by
  unfold after at hx
  cases hf : l.fate p <;> rw [hf] at hx
  case refused => exact .inr hx
  all_goals exact Multiset.mem_cons.1 hx

theorem accepted_of (hf : l.fate p ≠ .refused) :
    (l.after p r).accepted = (l.count, p) ::ₘ l.accepted := by
  unfold after
  cases h : l.fate p
  case refused => exact absurd h hf
  all_goals rfl

theorem replaced_after (d : Stamped β × Stamped β) (hd : d ∈ (l.after p r).replaced) :
    d ∈ l.replaced ∨ (l.fate p = .ahead ∧
      d.1 ∈ Jitter.held (l.jitter.slots (jitterIndex p.seq)) ∧ d.2 = (l.count, p)) := by
  unfold after at hd
  cases hf : l.fate p <;> rw [hf] at hd
  case ahead =>
    refine (Multiset.mem_add.1 hd).imp_right fun hd => ?_
    obtain ⟨x, hx, rfl⟩ := Multiset.mem_map.1 hd
    exact ⟨rfl, hx, rfl⟩
  all_goals exact .inl hd

/-- What a re-anchor discards is entered under its number. -/
theorem discarded_after (d : ℕ × Stamped β) (hd : d ∈ (l.after p r).discarded) :
    (d ∈ l.discarded ∧ l.reanchors ≤ (l.after p r).reanchors) ∨
      d.1 = (l.after p r).reanchors := by
  unfold after at hd ⊢
  cases hf : l.fate p <;> rw [hf] at hd
  case far =>
    rcases Multiset.mem_add.1 hd with hd | hd
    · exact .inl ⟨hd, Nat.le_succ _⟩
    · obtain ⟨x, -, rfl⟩ := Multiset.mem_map.1 hd
      exact .inr rfl
  all_goals exact .inl ⟨hd, Nat.le_refl _⟩

theorem jitter_after : (l.after p r).jitter = r.1 := by
  unfold after
  cases l.fate p <;> rfl

theorem count_after : (l.after p r).count = l.count + 1 := by
  unfold after
  cases l.fate p <;> rfl

theorem stale_after : (l.after p r).stale.card =
    (if l.fate p = .behind then 1 else 0) + l.stale.card := by
  unfold after
  cases l.fate p <;> simp [took, Nat.add_comm]

theorem reanchors_after : (l.after p r).reanchors =
    (if l.fate p = .far then 1 else 0) + l.reanchors := by
  unfold after
  cases l.fate p <;> simp [took, Nat.add_comm]

/-- **One push.** -/
theorem Kept.push (h : Kept l) (p : JitterPush β) :
    ∃ r, l.push p = some (l.after p r) ∧ Kept (l.after p r) ∧ Books l p r (l.fate p) := by
  have hseq : (p.stamp l.count).pkt.data.seq = p.seq := rfl
  obtain ⟨r, hr, hpush, hfar, hnear⟩ := Jitter.push_spec p.now h.sound h.idle hseq
  have hb := push_books hr
  refine ⟨r, congrArg (Option.map (l.after p)) hr,
    ⟨?_, ?_, h.partition_after hb, ?_, ?_, ?_, ?_⟩, hb⟩
  · rw [jitter_after]
    exact hpush.sound
  · rw [jitter_after]
    intro hi
    by_cases hre : l.jitter.restarts (p.stamp l.count).pkt p.seq
    · exact nomatch hi.symm.trans (hfar hre).2.2
    · rcases hnear hre with rfl | ⟨-, hi'⟩
      · exact h.idle hi
      · exact nomatch hi.symm.trans hi'
  · intro x hx
    rw [count_after]
    rcases accepted_after x hx with rfl | hx
    · exact Nat.lt_succ_self _
    · exact Nat.lt_succ_of_lt (h.placed x hx)
  · by_cases hf : l.fate p = .refused
    · simp only [after, hf]
      exact h.once
    · rw [accepted_of hf]
      exact Multiset.nodup_cons.2 ⟨h.fresh p, h.once⟩
  · intro d hd
    by_cases hf : l.fate p = .refused
    · simp only [after, hf] at hd ⊢
      exact h.later d hd
    rw [accepted_of hf]
    rcases replaced_after d hd with hd | ⟨hahead, hheld, hnew⟩
    · obtain ⟨hmem, hlater⟩ := h.later d hd
      exact ⟨Multiset.mem_cons_of_mem hmem, hlater⟩
    · obtain ⟨hbuf, hx⟩ := h.replaces hahead hheld
      rw [hnew]
      exact ⟨Multiset.mem_cons_self _ _, hx, h.placed _ (h.accepted hbuf)⟩
  · intro d hd
    rcases discarded_after d hd with ⟨hd, hle⟩ | hd
    · exact (h.dated d hd).trans hle
    · exact hd.le

/-! ## The counters -/

/-- The counters say how many packets came late and how often the buffer started over. -/
structure Told (l : JitterLedger β) : Prop where
  stale : l.jitter.nStale.toNat = l.stale.card
  reanchors : l.jitter.nReanchor.toNat = l.reanchors

/-- Every packet the buffer took is emitted, buffered, counted as stale, replaced by a later one of
    its number, or discarded by a counted re-anchor; and it is only one of these. -/
structure Accounted (l : JitterLedger β) : Prop extends Told l where
  partition : l.sorted = l.accepted
  once : l.accepted.Nodup
  later : ∀ d ∈ l.replaced, d.2 ∈ l.accepted ∧ d.1.seq = d.2.seq ∧ d.1.1 < d.2.1
  counted : ∀ d ∈ l.discarded, d.1 ≤ l.jitter.nReanchor.toNat

/-- No counter decreases. -/
structure Grows (j j' : Jitter α) : Prop where
  cached : j.nCached ≤ j'.nCached
  skipped : j.nSkipped ≤ j'.nSkipped
  stale : j.nStale ≤ j'.nStale
  reanchor : j.nReanchor ≤ j'.nReanchor

/-- After the push everything is accounted for. -/
def Accounts (l : JitterLedger β) (p : JitterPush β) : Prop :=
  l.push p = some (l.step p) ∧ (l.step p).Accounted ∧ Grows l.jitter (l.step p).jitter

/-- A push that makes the buffer start over finds all counters 0. -/
def Unused (l : JitterLedger β) (p : JitterPush β) : Prop :=
  l.fate p = .far → l.jitter.nCached = 0 ∧ l.jitter.nSkipped = 0 ∧ l.jitter.nStale = 0 ∧
    l.jitter.nReanchor = 0

/-- The push does not find a counter at its end; it passes over fewer numbers than there are
    slots. -/
def Room (l : JitterLedger β) (p : JitterPush β) : Prop :=
  (l.fate p = .expected ∨ l.fate p = .ahead → l.jitter.nSkipped.toNat + jitterCap ≤ 2 ^ 32) ∧
  (l.fate p = .ahead → l.jitter.nCached.toNat + 1 < 2 ^ 32) ∧
  (l.fate p = .behind → l.jitter.nStale.toNat + 1 < 2 ^ 32)

instance (l : JitterLedger β) (p : JitterPush β) : Decidable (l.Unused p) :=
  inferInstanceAs (Decidable (_ → _))

instance (l : JitterLedger β) (p : JitterPush β) : Decidable (l.Room p) :=
  inferInstanceAs (Decidable (_ ∧ _ ∧ _))

theorem Kept.accounted (h : Kept l) (ht : Told l) : Accounted l :=
  ⟨ht, h.partition, h.once, h.later, by rw [ht.reanchors]; exact h.dated⟩

theorem toNat_add_ofNat {a : UInt32} {d : ℕ} (h : a.toNat + d < 2 ^ 32) :
    (a + UInt32.ofNat d).toNat = a.toNat + d := by
  rw [UInt32.toNat_add, UInt32.toNat_ofNat']
  omega

theorem le_add_ofNat {a : UInt32} {d : ℕ} (h : a.toNat + d < 2 ^ 32) : a ≤ a + UInt32.ofNat d := by
  rw [UInt32.le_iff_toNat_le, toNat_add_ofNat h]
  exact Nat.le_add_right _ _

theorem Books.told (hb : Books l p r (l.fate p)) (ht : Told l) (hu : Unused l p)
    (hroom : Room l p) : Told (l.after p r) ∧ Grows l.jitter r.1 := by
  have htold : ∀ {f}, l.fate p = f →
      r.1.nStale.toNat = (if f = .behind then 1 else 0) + l.stale.card →
      r.1.nReanchor.toNat = (if f = .far then 1 else 0) + l.reanchors → Told (l.after p r) := by
    rintro f rfl hs hr
    exact ⟨by rw [jitter_after, stale_after, hs], by rw [jitter_after, reanchors_after, hr]⟩
  have hsame : ∀ {a b : UInt32}, b = a → a ≤ b := fun h => UInt32.le_of_eq h.symm
  cases hf : l.fate p with
  | refused =>
    rw [hf] at hb
    cases hb
    refine ⟨htold hf ?_ ?_, ⟨hsame rfl, hsame rfl, hsame rfl, hsame rfl⟩⟩
    · simp [ht.stale]
    · simp [ht.reanchors]
  | expected =>
    rw [hf] at hb
    obtain ⟨d, hd, out, -, hm⟩ := hb
    have hskip := hroom.1 (.inl hf)
    refine ⟨htold hf ?_ ?_, ⟨hsame hm.cached, ?_, hsame hm.stale, hsame hm.reanchor⟩⟩
    · simp [hm.stale, ht.stale]
    · simp [hm.reanchor, ht.reanchors]
    · rw [hm.skipped]
      exact le_add_ofNat (by omega)
  | far =>
    rw [hf] at hb
    obtain ⟨-, hj⟩ := hb
    obtain ⟨hc, hs, hst, hre⟩ := hu hf
    rw [hj]
    refine ⟨htold hf ?_ ?_, ⟨hsame hc.symm, hsame hs.symm, hsame hst.symm, ?_⟩⟩
    · simp [hj, Jitter.reanchor, Jitter.reset, ← ht.stale, hst]
    · simp [hj, Jitter.reanchor, ← ht.reanchors, hre]
    · rw [hre]
      exact UInt32.le_iff_toNat_le.2 (Nat.zero_le _)
  | ahead =>
    rw [hf] at hb
    obtain ⟨d, hd, j, hm, -, hskip, hcache, hst, hre⟩ := hb
    have hroom' := hroom.1 (.inr hf)
    refine ⟨htold hf ?_ ?_, ⟨?_, ?_, hsame (hm.stale.trans hst), hsame (hm.reanchor.trans hre)⟩⟩
    · simp [hm.stale, hst, ht.stale]
    · simp [hm.reanchor, hre, ht.reanchors]
    · rw [hm.cached, hcache]
      exact le_add_ofNat (hroom.2.1 hf)
    · rw [hm.skipped, hskip]
      exact le_add_ofNat (by omega)
  | behind =>
    rw [hf] at hb
    obtain ⟨-, -, hskip, hcache, hst, hre⟩ := hb
    refine ⟨htold hf ?_ ?_, ⟨hsame hcache, hsame hskip, ?_, hsame hre⟩⟩
    · rw [hst, if_pos rfl, ← ht.stale, Nat.add_comm]
      exact toNat_add_ofNat (hroom.2.2 hf)
    · simp [hre, ht.reanchors]
    · rw [hst]
      exact le_add_ofNat (hroom.2.2 hf)

/-- A re-anchor forgets the counters. -/
theorem Kept.unused (h : Kept l) (ht : Told l) (ha : Accounts l p) : Unused l p := by
  intro hf
  obtain ⟨r, hr, -, hb⟩ := h.push p
  obtain ⟨hstep, hacc, hgrows⟩ := ha
  have hl : l.step p = l.after p r := by rw [step, hr, Option.getD_some]
  rw [hf] at hb
  rw [hl, jitter_after, hb.2] at hgrows
  have hre := hacc.reanchors
  rw [hl, jitter_after, reanchors_after, if_pos hf, hb.2, ← ht.reanchors] at hre
  have hzero : ∀ {a : UInt32}, a ≤ 0 → a = 0 := fun h =>
    UInt32.toNat_inj.1 (Nat.le_zero.1 (UInt32.le_iff_toNat_le.1 h))
  refine ⟨hzero hgrows.cached, hzero hgrows.skipped, hzero hgrows.stale, UInt32.toNat_inj.1 ?_⟩
  have hone : ((l.jitter.anchored p.seq).reanchor p.seq).nReanchor.toNat = 1 := rfl
  rw [hone] at hre
  exact Nat.add_left_cancel hre.symm

/-- **One push** that meets the condition. -/
theorem Kept.accounts (h : Kept l) (ht : Told l) (hu : Unused l p) (hroom : Room l p) :
    Accounts l p ∧ Kept (l.step p) ∧ Told (l.step p) := by
  obtain ⟨r, hr, hkept, hb⟩ := h.push p
  have hl : l.step p = l.after p r := by rw [step, hr, Option.getD_some]
  obtain ⟨htold, hgrows⟩ := hb.told ht hu hroom
  rw [Accounts, hl, jitter_after]
  exact ⟨⟨hr, hkept.accounted htold, hgrows⟩, hkept, htold⟩

theorem Kept.step (h : Kept l) (p : JitterPush β) : Kept (l.step p) := by
  obtain ⟨r, hr, hkept, -⟩ := h.push p
  rwa [JitterLedger.step, hr, Option.getD_some]

/-- **Where the packets went.**  From a reset by the owner, over any pushes: if no push that starts
    over finds a counter above 0, and none finds a counter at its end, then every push leaves each
    packet emitted, buffered, counted as stale, replaced or discarded, the re-anchors counted, and
    no counter smaller; and in a run that does so no push that starts over finds a counter above
    0. -/
theorem jitter_accounts (j : Jitter (Stamped β)) (ps : List (JitterPush β)) :
    (Lts.Along step (fun l p => Unused l p ∧ Room l p) (start j) ps →
      Lts.Along step Accounts (start j) ps) ∧
    (Lts.Along step Accounts (start j) ps → Lts.Along step Unused (start j) ps) := by
  have hstart : Kept (start j) ∧ Told (start j) := ⟨.start j, rfl, rfl⟩
  constructor
  · refine Lts.along_of_step (P := fun l => Kept l ∧ Told l) ?_ ?_ hstart
    · rintro l p ⟨hk, ht⟩ ⟨hu, hroom⟩
      exact (hk.accounts ht hu hroom).2
    · rintro l p ⟨hk, ht⟩ ⟨hu, hroom⟩
      exact (hk.accounts ht hu hroom).1
  · refine Lts.along_of_step (P := fun l => Kept l ∧ Told l) ?_ ?_ hstart
    · rintro l p ⟨hk, -⟩ ⟨-, hacc, -⟩
      exact ⟨hk.step p, hacc.toTold⟩
    · rintro l p ⟨hk, ht⟩ ha
      exact hk.unused ht ha

/-! ### A run with two re-anchors -/

/-- A buffer that nothing was pushed into. -/
def blank : Jitter (Stamped Unit) := ⟨fun _ => none, 0, 0, false, 0, 0, 0, 0, 0, 0⟩

def pushOf (seq : UInt16) (now : UInt32) : JitterPush Unit := ⟨⟨(), 12, 0⟩, seq, now⟩

/-- 2 waits for 1. -/
theorem jitter_accounts_sample :
    Lts.Along step Accounts (start blank) [pushOf 0 1000, pushOf 2 1001, pushOf 1 1002] :=
  (jitter_accounts blank _).1 (by decide)

/-- 65535 comes late, and is forgotten when 200 makes the buffer start over; 400 does so again and
    is counted as the first. -/
def twoLeaps : List (JitterPush Unit) :=
  [pushOf 0 1000, pushOf 65535 1001, pushOf 200 1002, pushOf 400 1003]

theorem jitter_forgets_counts :
    ¬Lts.Along step Accounts (start blank) twoLeaps ∧
    (Lts.run step (start blank) twoLeaps).reanchors = 2 ∧
    (Lts.run step (start blank) twoLeaps).jitter.nReanchor = 1 ∧
    (Lts.run step (start blank) twoLeaps).stale.card = 1 ∧
    (Lts.run step (start blank) twoLeaps).jitter.nStale = 0 := by
  refine ⟨fun h => ?_, by decide, by decide, by decide, by decide⟩
  have hstale := h.2.2.1.2.1.stale
  exact absurd hstale (by decide)

end JitterLedger

end NginxRtc
