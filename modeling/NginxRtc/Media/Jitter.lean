/-
  The reorder buffer of a WHIP uplink (`ngx_rtc_jitter.c`).

  Packets ahead of the next expected sequence number wait in the slot their number indexes.  The
  buffer never looks into a packet, so the type `α` of its bytes is a parameter; the callback is
  seen by the packets it is handed.  `none` stands for a gap-skipping loop that never ends.

  `push_spec`: a push keeps the slots consistent and hands packets on in order.
  `jitter_delivers`: over any pushes from a reset, no packet twice and each as it was pushed.
-/
import Mathlib.Algebra.Group.Nat.Defs
import Mathlib.Data.Fintype.Card
import Mathlib.Data.List.Chain
import Mathlib.Data.Finset.Card
import NginxRtc.Basic

namespace NginxRtc

universe u

def jitterCap : ℕ := 128
def jitterTimeoutMs : UInt32 := 50

/-- `NGX_RTC_MAX_RTP_PKT`, the size of a slot. -/
def jitterPktMax : ℕ := 1214

/-- A packet as the callback gets it, and as a valid slot holds it. -/
structure JitterPkt (α : Type u) where
  data : α
  len : ℕ
  isGopStart : UInt8
deriving DecidableEq

/-- `ngx_rtc_jitter_t`; a slot that is not valid is `none`. -/
structure Jitter (α : Type u) where
  slots : Fin jitterCap → Option (JitterPkt α)
  nextSeq : UInt16
  pending : ℕ
  initialized : Bool
  gapTs : UInt32
  gapTimeoutMs : UInt32
  nCached : UInt32
  nSkipped : UInt32
  nStale : UInt32
  nReanchor : UInt32

/-- `seq & (NGX_RTC_JITTER_CAP - 1)`. -/
def jitterIndex (seq : UInt16) : Fin jitterCap := ⟨seq.toNat % jitterCap, Nat.mod_lt _ (by decide)⟩

namespace Jitter
variable {α : Type u}

/-- `ngx_rtc_jitter_reset`: the timeout is policy and stays. -/
def reset (j : Jitter α) : Jitter α where
  slots := fun _ => none
  nextSeq := 0
  pending := 0
  initialized := false
  gapTs := 0
  gapTimeoutMs := j.gapTimeoutMs
  nCached := 0
  nSkipped := 0
  nStale := 0
  nReanchor := 0

/-- The slot of the next expected packet. -/
def front (j : Jitter α) : Option (JitterPkt α) := j.slots (jitterIndex j.nextSeq)

/-- Empty the slot of the next expected packet and expect the one after it. -/
def take (j : Jitter α) : Jitter α :=
  { j with
    slots := Function.update j.slots (jitterIndex j.nextSeq) none
    pending := j.pending - 1
    nextSeq := j.nextSeq + 1 }

/-- The loop of `ngx_rtc_jitter_drain`, for a number of rounds. -/
def drainLoop : ℕ → Jitter α → Jitter α × List (JitterPkt α)
  | 0, j => (j, [])
  | n + 1, j =>
    match j.front with
    | none => (j, [])
    | some pkt => ((drainLoop n j.take).1, pkt :: (drainLoop n j.take).2)

/-- `ngx_rtc_jitter_drain`: no run of cached packets is longer than the buffer. -/
def drain (j : Jitter α) : Jitter α × List (JitterPkt α) :=
  let r := drainLoop jitterCap j
  ({ r.1 with gapTs := if r.1.pending = 0 then 0 else r.1.gapTs }, r.2)

/-- The loop of `ngx_rtc_jitter_skip_gap`, for a number of rounds. -/
def skipLoop : ℕ → Jitter α → Option (Jitter α)
  | 0, _ => none
  | n + 1, j =>
    if j.front.isSome then some j
    else skipLoop n { j with nextSeq := j.nextSeq + 1, nSkipped := j.nSkipped + 1 }

/-- `ngx_rtc_jitter_skip_gap`: a loop that found nothing in one round of the slots finds nothing
    ever (`skipLoop_none`). -/
def skipGap (j : Jitter α) : Option (Jitter α × List (JitterPkt α)) :=
  (skipLoop jitterCap j).map drain

/-- `gap_timeout_ms`, or its default. -/
def timeout (j : Jitter α) : UInt32 := if j.gapTimeoutMs = 0 then jitterTimeoutMs else j.gapTimeoutMs

/-- `ngx_rtc_jitter_seq_gt`: `(int16_t)(a - b) > 0`. -/
def seqGt (a b : UInt16) : Bool := 0 < (a - b).toNat && (a - b).toNat < 2 ^ 15

/-- Skip the gap if its deadline has passed. -/
def checkGap (j : Jitter α) (now : UInt32) : Option (Jitter α × List (JitterPkt α)) :=
  if j.timeout ≤ now - j.gapTs then j.skipGap else some (j, [])

/-- The packet everybody waits for: hand it on, and the cached run behind it. -/
def inOrder (j : Jitter α) (pkt : JitterPkt α) (now : UInt32) :
    Option (Jitter α × List (JitterPkt α)) :=
  let r := drain { j with nextSeq := j.nextSeq + 1 }
  if 0 < r.1.pending then (r.1.checkGap now).map fun s => (s.1, pkt :: r.2 ++ s.2)
  else some (r.1, pkt :: r.2)

/-- A packet too far ahead: forget everything and start over behind it. -/
def reanchor (j : Jitter α) (seq : UInt16) : Jitter α :=
  { j.reset with nReanchor := 1, nextSeq := seq + 1, initialized := true }

/-- A packet ahead: cache it. -/
def cache (j : Jitter α) (pkt : JitterPkt α) (seq : UInt16) (now : UInt32) : Jitter α :=
  { j with
    slots := Function.update j.slots (jitterIndex seq)
      (some { pkt with isGopStart := if pkt.isGopStart = 0 then 0 else 1 })
    pending := if (j.slots (jitterIndex seq)).isNone then j.pending + 1 else j.pending
    nCached := j.nCached + 1
    gapTs := if j.gapTs = 0 then now else j.gapTs }

/-- Expect the first packet that comes. -/
def anchored (j : Jitter α) (seq : UInt16) : Jitter α :=
  if j.initialized then j else { j with nextSeq := seq, initialized := true }

/-- `ngx_rtc_jitter_push`: the buffer and what it hands on. -/
def push (j : Jitter α) (pkt : JitterPkt α) (seq : UInt16) (now : UInt32) :
    Option (Jitter α × List (JitterPkt α)) :=
  if pkt.len = 0 ∨ jitterPktMax < pkt.len then some (j, [])
  else pushOn (j.anchored seq)
where
  pushOn (j : Jitter α) : Option (Jitter α × List (JitterPkt α)) :=
    if seq = j.nextSeq then j.inOrder pkt now
    else if seqGt seq j.nextSeq then
      if jitterCap ≤ (seq - j.nextSeq).toNat then some (j.reanchor seq, [pkt])
      else (j.cache pkt seq now).checkGap now
    else some ({ j with nStale := j.nStale + 1 }, [])

end Jitter

/-! ## Distances -/

theorem dist_self (n : UInt16) : (n - n).toNat = 0 := by rw [UInt16.sub_self]; rfl

theorem eq_of_dist_zero {s n : UInt16} (h : (s - n).toNat = 0) : s = n := by
  have hs := s.toNat_lt
  have hn := n.toNat_lt
  rw [UInt16.toNat_sub] at h
  exact UInt16.toNat_inj.1 (by omega)

theorem dist_succ {s n : UInt16} (h : 0 < (s - n).toNat) :
    (s - (n + 1)).toNat + 1 = (s - n).toNat := by
  have hs := s.toNat_lt
  have hn := n.toNat_lt
  rw [UInt16.toNat_sub] at h ⊢
  rw [UInt16.toNat_sub, UInt16.toNat_add, UInt16.toNat_one]
  omega

/-- A number less than the buffer ahead of the one after `n` is one further ahead of `n`. -/
theorem dist_pred {s n : UInt16} (h : (s - (n + 1)).toNat < jitterCap) :
    (s - n).toNat = (s - (n + 1)).toNat + 1 := by
  have hs := s.toNat_lt
  have hn := n.toNat_lt
  have hcap : jitterCap = 128 := rfl
  simp only [UInt16.toNat_sub, UInt16.toNat_add, UInt16.toNat_one] at h ⊢
  omega

/-- Two numbers of one slot, both less than the buffer ahead of `n`, are one number. -/
theorem eq_of_near {s t n : UInt16} (hi : jitterIndex s = jitterIndex t)
    (hs : (s - n).toNat < jitterCap) (ht : (t - n).toNat < jitterCap) : s = t := by
  have h₁ := s.toNat_lt
  have h₂ := t.toNat_lt
  have h₃ := n.toNat_lt
  have hm : s.toNat % 128 = t.toNat % 128 := Fin.ext_iff.1 hi
  have hcap : jitterCap = 128 := rfl
  rw [UInt16.toNat_sub] at hs ht
  exact UInt16.toNat_inj.1 (by omega)

/-- Two numbers of one slot, less than the buffer apart, are one number. -/
theorem eq_of_index_eq {s n : UInt16} (hi : jitterIndex s = jitterIndex n)
    (hd : (s - n).toNat < jitterCap) : s = n :=
  eq_of_near hi hd (by rw [dist_self]; exact Nat.two_pow_pos 7)

/-- `p` is the packet `q`; of its flag the buffer keeps whether it is set. -/
structure JitterPkt.Carries {α : Type u} (p q : JitterPkt α) : Prop where
  data : p.data = q.data
  len : p.len = q.len
  gop : p.isGopStart = q.isGopStart ∨ p.isGopStart = if q.isGopStart = 0 then 0 else 1

namespace Jitter

/-- The packets handed on while the expected number goes from `n` to `n'`: each less than the
    buffer ahead of the number expected then. -/
def Climbs : UInt16 → List UInt16 → UInt16 → Prop
  | n, [], n' => n = n'
  | n, s :: l, n' => (s - n).toNat < jitterCap ∧ Climbs (s + 1) l n'

theorem Climbs.append {l l' : List UInt16} {n m n' : UInt16} (h : Climbs n l m)
    (h' : Climbs m l' n') : Climbs n (l ++ l') n' := by
  induction l generalizing n with
  | nil => cases h; exact h'
  | cons s l ih => exact ⟨h.1, ih h.2⟩

/-! ## One push

`seqOf` reads the sequence number of a packet. -/

variable {α : Type u} {seqOf : α → UInt16}

/-- The valid slots. -/
def valid (j : Jitter α) : Finset (Fin jitterCap) := Finset.univ.filter fun i => (j.slots i).isSome

/-- `pending` counts the valid slots. -/
def Counted (j : Jitter α) : Prop := j.pending = j.valid.card

theorem Counted.pending_pos {j : Jitter α} (h : Counted j) :
    0 < j.pending ↔ ∃ i pkt, j.slots i = some pkt := by
  rw [h, Finset.card_pos]
  constructor
  · rintro ⟨i, hi⟩
    obtain ⟨pkt, hp⟩ := Option.isSome_iff_exists.1 (Finset.mem_filter.1 hi).2
    exact ⟨i, pkt, hp⟩
  · rintro ⟨i, pkt, hp⟩
    exact ⟨i, Finset.mem_filter.2 ⟨Finset.mem_univ i, by rw [hp]; rfl⟩⟩

theorem Counted.pending_le {j : Jitter α} (h : Counted j) : j.pending ≤ jitterCap := by
  rw [h]
  exact (Finset.card_le_univ _).trans_eq (Fintype.card_fin _)

/-- Every cached packet stands in the slot of its number, `d` to 127 ahead of the expected one,
    and `pending` counts them. -/
structure Sound (seqOf : α → UInt16) (d : ℕ) (j : Jitter α) : Prop where
  index : ∀ i pkt, j.slots i = some pkt → i = jitterIndex (seqOf pkt.data)
  ahead : ∀ i pkt, j.slots i = some pkt → d ≤ (seqOf pkt.data - j.nextSeq).toNat
  near : ∀ i pkt, j.slots i = some pkt → (seqOf pkt.data - j.nextSeq).toNat < jitterCap
  pending : j.pending = j.valid.card

/-- What the callback is handed while `j` becomes `j'`: cached packets, in order, each once, and
    none that is still cached. -/
structure HandsOn (seqOf : α → UInt16) (j j' : Jitter α) (out : List (JitterPkt α)) : Prop where
  cached : ∀ pkt ∈ out, ∃ i, j.slots i = some pkt
  kept : ∀ i pkt, j'.slots i = some pkt → j.slots i = some pkt ∧ pkt.data ∉ out.map (·.data)
  once : (out.map (·.data)).Nodup
  climbs : Climbs j.nextSeq (out.map fun pkt => seqOf pkt.data) j'.nextSeq
  init : j'.initialized = j.initialized

variable {j j' j'' : Jitter α} {out out' : List (JitterPkt α)}

theorem HandsOn.refl (j : Jitter α) : HandsOn seqOf j j [] where
  cached := fun _ h => nomatch h
  kept := fun _ _ h => ⟨h, List.not_mem_nil⟩
  once := List.nodup_nil
  climbs := rfl
  init := rfl

theorem HandsOn.trans (h : HandsOn seqOf j j' out) (h' : HandsOn seqOf j' j'' out') :
    HandsOn seqOf j j'' (out ++ out') where
  cached := by
    intro pkt hp
    rcases List.mem_append.1 hp with hp | hp
    · exact h.cached pkt hp
    · obtain ⟨i, hi⟩ := h'.cached pkt hp
      exact ⟨i, (h.kept i pkt hi).1⟩
  kept := by
    intro i pkt hi
    obtain ⟨hi', ho'⟩ := h'.kept i pkt hi
    obtain ⟨hi, ho⟩ := h.kept i pkt hi'
    exact ⟨hi, by rw [List.map_append, List.mem_append]; exact fun hm => hm.elim ho ho'⟩
  once := by
    rw [List.map_append]
    refine h.once.append h'.once fun a ha ha' => ?_
    obtain ⟨pkt, hp, rfl⟩ := List.mem_map.1 ha'
    obtain ⟨i, hi⟩ := h'.cached pkt hp
    exact (h.kept i pkt hi).2 ha
  climbs := by rw [List.map_append]; exact h.climbs.append h'.climbs
  init := h'.init.trans h.init

theorem Sound.mono {d d' : ℕ} (h : Sound seqOf d j) (hd : d' ≤ d) : Sound seqOf d' j where
  index := h.index
  ahead := fun i pkt hi => hd.trans (h.ahead i pkt hi)
  near := h.near
  pending := h.pending

/-- With nothing in the slot of the expected packet, every cached packet is ahead. -/
theorem Sound.of_front (h : Sound seqOf 0 j) (hf : j.front = none) : Sound seqOf 1 j where
  index := h.index
  ahead := by
    intro i pkt hi
    rcases Nat.eq_zero_or_pos (seqOf pkt.data - j.nextSeq).toNat with h0 | h0
    · rw [h.index i pkt hi, eq_of_dist_zero h0] at hi
      exact nomatch hf.symm.trans hi
    · exact h0
  near := h.near
  pending := h.pending

/-- Expecting the next packet brings every cached one closer. -/
theorem Sound.next (h : Sound seqOf 1 j) {k : UInt32} :
    Sound seqOf 0 { j with nextSeq := j.nextSeq + 1, nSkipped := k } where
  index := h.index
  ahead := fun _ _ _ => Nat.zero_le _
  near := by
    intro i pkt hi
    have := dist_succ (h.ahead i pkt hi)
    have := h.near i pkt hi
    simp only
    omega
  pending := h.pending

theorem Sound.pending_pos (h : Sound seqOf 0 j) :
    0 < j.pending ↔ ∃ i pkt, j.slots i = some pkt := Counted.pending_pos h.pending

theorem Sound.pending_le (h : Sound seqOf 0 j) : j.pending ≤ jitterCap := Counted.pending_le h.pending

/-- The packet in the slot of the expected one is the expected one. -/
theorem Sound.front_seq (h : Sound seqOf 0 j) {pkt : JitterPkt α} (hf : j.front = some pkt) :
    seqOf pkt.data = j.nextSeq :=
  eq_of_index_eq (h.index _ _ hf).symm (h.near _ _ hf)

theorem slots_take {i : Fin jitterCap} {pkt : JitterPkt α} (h : j.take.slots i = some pkt) :
    i ≠ jitterIndex j.nextSeq ∧ j.slots i = some pkt := by
  simp only [take, Function.update_apply] at h
  split at h
  · exact nomatch h
  · exact ⟨‹_›, h⟩

theorem valid_take : j.take.valid = j.valid.erase (jitterIndex j.nextSeq) := by
  ext i
  simp only [valid, take, Function.update_apply, Finset.mem_erase, Finset.mem_filter,
    Finset.mem_univ, true_and]
  split
  · simp [*]
  · simp [*]

theorem Counted.take (h : Counted j) {pkt : JitterPkt α} (hf : j.front = some pkt) :
    Counted j.take := by
  have hm : jitterIndex j.nextSeq ∈ j.valid :=
    Finset.mem_filter.2 ⟨Finset.mem_univ _, by rw [show j.slots _ = _ from hf]; rfl⟩
  rw [Counted, valid_take, Finset.card_erase_of_mem hm, ← h]
  rfl

theorem Sound.take (h : Sound seqOf 0 j) {pkt : JitterPkt α} (hf : j.front = some pkt) :
    Sound seqOf 0 j.take where
  index := fun i p hi => h.index i p (slots_take hi).2
  ahead := fun _ _ _ => Nat.zero_le _
  near := by
    intro i p hi
    obtain ⟨hne, hi⟩ := slots_take hi
    have hpos : 0 < (seqOf p.data - j.nextSeq).toNat := by
      refine Nat.pos_of_ne_zero fun h0 => hne ?_
      rw [h.index i p hi, eq_of_dist_zero h0]
    have hd := dist_succ hpos
    have hn := h.near i p hi
    simp only [Jitter.take]
    omega
  pending := Counted.take h.pending hf

theorem take_handsOn (h : Sound seqOf 0 j) {pkt : JitterPkt α} (hf : j.front = some pkt) :
    HandsOn seqOf j j.take [pkt] where
  cached := by
    intro p hp
    cases List.mem_singleton.1 hp
    exact ⟨_, hf⟩
  kept := by
    intro i p hi
    obtain ⟨hne, hi⟩ := slots_take hi
    refine ⟨hi, fun hm => hne ?_⟩
    rw [h.index i p hi, List.mem_singleton.1 hm, h.front_seq hf]
  once := List.nodup_singleton _
  climbs := by
    refine ⟨h.near _ _ hf, ?_⟩
    show seqOf pkt.data + 1 = j.nextSeq + 1
    rw [h.front_seq hf]
  init := rfl

/-- `ngx_rtc_jitter_drain`'s loop: with as many rounds as packets it stops at an empty slot. -/
theorem drainLoop_spec (n : ℕ) (h : Sound seqOf 0 j) :
    Sound seqOf 0 (drainLoop n j).1 ∧ HandsOn seqOf j (drainLoop n j).1 (drainLoop n j).2 ∧
      (j.pending ≤ n → (drainLoop n j).1.front = none) := by
  induction n generalizing j with
  | zero =>
    refine ⟨h, .refl j, fun hp => ?_⟩
    cases hf : j.front with
    | none => exact hf
    | some pkt => exact absurd (h.pending_pos.2 ⟨_, pkt, hf⟩) (by omega)
  | succ n ih =>
    cases hf : j.front with
    | none =>
      rw [show drainLoop (n + 1) j = (j, []) by simp only [drainLoop, hf]]
      exact ⟨h, .refl j, fun _ => hf⟩
    | some pkt =>
      obtain ⟨hs, hh, hn⟩ := ih (h.take hf)
      simp only [drainLoop, hf]
      refine ⟨hs, (take_handsOn h hf).trans hh, fun hp => hn ?_⟩
      show j.pending - 1 ≤ n
      omega

theorem drain_spec (h : Sound seqOf 0 j) :
    Sound seqOf 1 j.drain.1 ∧ HandsOn seqOf j j.drain.1 j.drain.2 := by
  obtain ⟨hs, hh, hn⟩ := drainLoop_spec jitterCap h
  have hs' := hs.of_front (hn h.pending_le)
  exact ⟨⟨hs'.index, hs'.ahead, hs'.near, hs'.pending⟩,
    ⟨hh.cached, hh.kept, hh.once, hh.climbs, hh.init⟩⟩

/-- `ngx_rtc_jitter_skip_gap`'s loop: it stops at the slot of a cached packet `d` ahead or
    sooner. -/
theorem skipLoop_spec (h : Sound seqOf 0 j) {i : Fin jitterCap} {pkt : JitterPkt α}
    (hi : j.slots i = some pkt) {n : ℕ} (hn : (seqOf pkt.data - j.nextSeq).toNat < n) :
    ∃ k f, skipLoop n j = some { j with nextSeq := k, nSkipped := f } ∧
      Sound seqOf 0 { j with nextSeq := k, nSkipped := f } ∧
      ∃ pkt', j.slots (jitterIndex k) = some pkt' ∧
        (k - j.nextSeq).toNat ≤ (seqOf pkt.data - j.nextSeq).toNat := by
  induction n generalizing j with
  | zero => exact absurd hn (Nat.not_lt_zero _)
  | succ n ih =>
    cases hf : j.front with
    | some p =>
      refine ⟨j.nextSeq, j.nSkipped, ?_, h, p, hf, ?_⟩
      · simp only [skipLoop, hf, Option.isSome_some, if_true]
      · rw [dist_self]
        exact Nat.zero_le _
    | none =>
      have h1 := h.of_front hf
      have hd := dist_succ (h1.ahead i pkt hi)
      have hlt : (seqOf pkt.data - (j.nextSeq + 1)).toNat < n := by omega
      obtain ⟨k, f, hk, hs, p, hp, hle⟩ := ih (h1.next (k := j.nSkipped + 1)) hi hlt
      refine ⟨k, f, ?_, hs, p, hp, ?_⟩
      · simp only [skipLoop, hf, Option.isSome_none, Bool.false_eq_true, if_false]
        exact hk
      · have hk0 : k ≠ j.nextSeq := by
          rintro rfl
          exact nomatch hf.symm.trans hp
        have := dist_succ (Nat.pos_of_ne_zero fun h0 => hk0 (eq_of_dist_zero h0))
        simp only at hle
        omega

theorem drain_cons {pkt : JitterPkt α} (hf : j.front = some pkt) :
    ∃ l, j.drain.2 = pkt :: l := by
  have hl : drainLoop (127 + 1) j = ((drainLoop 127 j.take).1, pkt :: (drainLoop 127 j.take).2) := by
    rw [drainLoop, hf]
  exact ⟨_, congrArg Prod.snd hl⟩

theorem skipGap_spec (h : Sound seqOf 0 j) (hp : 0 < j.pending) :
    ∃ r, j.skipGap = some r ∧ Sound seqOf 1 r.1 ∧ HandsOn seqOf j r.1 r.2 := by
  obtain ⟨i, pkt, hi⟩ := h.pending_pos.1 hp
  obtain ⟨k, f, hk, hs, p, hf, hle⟩ := skipLoop_spec h hi (h.near i pkt hi)
  obtain ⟨hs', hh⟩ := drain_spec hs
  have hkd : (k - j.nextSeq).toNat < jitterCap := hle.trans_lt (h.near i pkt hi)
  refine ⟨_, by rw [skipGap, hk]; rfl, hs', hh.cached, hh.kept, hh.once, ?_, hh.init⟩
  -- the first packet drained is the one the loop stopped at
  obtain ⟨l, hl⟩ := drain_cons (j := { j with nextSeq := k, nSkipped := f }) hf
  have hc := hh.climbs
  rw [hl, List.map_cons] at hc ⊢
  refine ⟨?_, hc.2⟩
  rw [hs.front_seq hf]
  exact hkd

theorem skipLoop_eq_none {n : ℕ} :
    skipLoop n j = none ↔
      ∀ k < n, j.slots (jitterIndex (j.nextSeq + UInt16.ofNat k)) = none := by
  induction n generalizing j with
  | zero => exact ⟨fun _ _ hk => absurd hk (Nat.not_lt_zero _), fun _ => rfl⟩
  | succ n ih =>
    have hnext : ∀ k, j.nextSeq + UInt16.ofNat (k + 1) = j.nextSeq + 1 + UInt16.ofNat k := by
      intro k
      rw [UInt16.ofNat_add, UInt16.add_comm (UInt16.ofNat k), ← UInt16.add_assoc]
      rfl
    have hzero : j.nextSeq + UInt16.ofNat 0 = j.nextSeq := UInt16.add_zero _
    cases hf : j.front with
    | some pkt =>
      simp only [skipLoop, hf, Option.isSome_some, if_true]
      refine ⟨fun h => (nomatch h), fun h => ?_⟩
      have h0 := h 0 (Nat.succ_pos n)
      rw [hzero] at h0
      exact nomatch hf.symm.trans h0
    | none =>
      simp only [skipLoop, hf, Option.isSome_none, Bool.false_eq_true, if_false]
      rw [ih]
      constructor
      · intro h k hk
        cases k with
        | zero => rw [hzero]; exact hf
        | succ k => rw [hnext]; exact h k (Nat.lt_of_succ_lt_succ hk)
      · intro h k hk
        rw [← hnext]
        exact h (k + 1) (Nat.succ_lt_succ hk)

/-- One round of the slots is enough for the loop that skips a gap. -/
theorem skipLoop_none (h : skipLoop jitterCap j = none) (n : ℕ) : skipLoop n j = none := by
  rw [skipLoop_eq_none] at h ⊢
  intro k _
  have hk := h (k % jitterCap) (Nat.mod_lt _ (by decide))
  refine (congrArg j.slots (Fin.ext ?_)).trans hk
  have hcap : jitterCap = 128 := rfl
  simp only [jitterIndex, UInt16.toNat_add, UInt16.toNat_ofNat', hcap]
  omega

theorem checkGap_spec (h : Sound seqOf 1 j) (hp : 0 < j.pending) (now : UInt32) :
    ∃ r, j.checkGap now = some r ∧ Sound seqOf 1 r.1 ∧ HandsOn seqOf j r.1 r.2 := by
  unfold checkGap
  split
  · exact skipGap_spec (h.mono (Nat.zero_le 1)) hp
  · exact ⟨_, rfl, h, .refl j⟩

/-- What one push of `pkt` does: it hands on, each once and in order, packets that were cached or
    are `pkt`, and caches no other. -/
structure Pushes (seqOf : α → UInt16) (pkt : JitterPkt α) (j j' : Jitter α)
    (out : List (JitterPkt α)) : Prop where
  handed : ∀ p ∈ out, p.Carries pkt ∨ ∃ i, j.slots i = some p
  kept : ∀ i p, j'.slots i = some p → p.Carries pkt ∨ j.slots i = some p
  apart : ∀ i p, j'.slots i = some p → p.data ∉ out.map (·.data)
  once : (out.map (·.data)).Nodup
  sound : Sound seqOf 1 j'

variable {pkt : JitterPkt α} {seq : UInt16} {now : UInt32}

theorem inOrder_spec (h : Sound seqOf 1 j) (hs : seqOf pkt.data = j.nextSeq) :
    ∃ r, j.inOrder pkt now = some r ∧ Pushes seqOf pkt j r.1 r.2 ∧
      Climbs j.nextSeq (r.2.map fun p => seqOf p.data) r.1.nextSeq ∧
      r.1.initialized = j.initialized := by
  have hnext : Sound seqOf 0 { j with nextSeq := j.nextSeq + 1 } := h.next (k := j.nSkipped)
  obtain ⟨hs₁, hh₁⟩ := drain_spec hnext
  -- the drained packets, and those behind a gap that timed out
  have hrest : ∃ r : Jitter α × List (JitterPkt α),
      j.inOrder pkt now = some (r.1, pkt :: r.2) ∧ Sound seqOf 1 r.1 ∧
      HandsOn seqOf { j with nextSeq := j.nextSeq + 1 } r.1 r.2 := by
    unfold inOrder
    simp only
    split
    · obtain ⟨r, hr, hs₂, hh₂⟩ := checkGap_spec hs₁ ‹_› now
      exact ⟨(r.1, _ ++ r.2), by rw [hr]; rfl, hs₂, hh₁.trans hh₂⟩
    · exact ⟨_, rfl, hs₁, hh₁⟩
  obtain ⟨r, hr, hs₂, hh⟩ := hrest
  -- no cached packet has the number of this one
  have hne : ∀ i p, j.slots i = some p → p.data ≠ pkt.data := by
    intro i p hi he
    have := h.ahead i p hi
    rw [he, hs, dist_self] at this
    omega
  refine ⟨_, hr, ⟨?_, ?_, ?_, ?_, hs₂⟩, ⟨?_, ?_⟩, hh.init⟩
  · intro p hp
    rcases List.mem_cons.1 hp with rfl | hp
    · exact .inl ⟨rfl, rfl, .inl rfl⟩
    · exact .inr (hh.cached p hp)
  · exact fun i p hi => .inr (hh.kept i p hi).1
  · intro i p hi hm
    obtain ⟨hi, ho⟩ := hh.kept i p hi
    exact (List.mem_cons.1 hm).elim (hne i p hi) ho
  · refine List.nodup_cons.2 ⟨fun hm => ?_, hh.once⟩
    obtain ⟨p, hp, he⟩ := List.mem_map.1 hm
    obtain ⟨i, hi⟩ := hh.cached p hp
    exact hne i p hi he
  · simp only [hs, dist_self]
    decide
  · simpa only [hs] using hh.climbs

theorem inOrder_cons {r : Jitter α × List (JitterPkt α)} (h : j.inOrder pkt now = some r) :
    ∃ out, r.2 = pkt :: out := by
  unfold inOrder at h
  simp only at h
  split at h
  · obtain ⟨s, -, rfl⟩ := Option.map_eq_some_iff.1 h
    exact ⟨_, rfl⟩
  · cases h
    exact ⟨_, rfl⟩

theorem slots_cache {i : Fin jitterCap} {p : JitterPkt α}
    (h : (j.cache pkt seq now).slots i = some p) :
    (i = jitterIndex seq ∧ p.Carries pkt) ∨ (i ≠ jitterIndex seq ∧ j.slots i = some p) := by
  simp only [cache, Function.update_apply] at h
  split at h
  · cases h
    exact .inl ⟨‹_›, rfl, rfl, .inr rfl⟩
  · exact .inr ⟨‹_›, h⟩

theorem valid_cache :
    (j.cache pkt seq now).valid = insert (jitterIndex seq) j.valid := by
  ext i
  simp only [valid, cache, Function.update_apply, Finset.mem_insert, Finset.mem_filter,
    Finset.mem_univ, true_and]
  split
  · simp [*]
  · simp [*]

theorem Counted.cache (h : Counted j) (pkt : JitterPkt α) (seq : UInt16) (now : UInt32) :
    Counted (j.cache pkt seq now) := by
  rw [Counted, valid_cache]
  by_cases hn : (j.slots (jitterIndex seq)).isNone
  · rw [Finset.card_insert_of_notMem, ← h]
    · exact if_pos hn
    · rw [valid, Finset.mem_filter, Option.isNone_iff_eq_none.1 hn]
      exact fun hm => nomatch hm.2
  · rw [Finset.insert_eq_of_mem, ← h]
    · exact if_neg hn
    · exact Finset.mem_filter.2 ⟨Finset.mem_univ _, by simpa [Option.isSome_iff_ne_none] using hn⟩

theorem cache_sound (now : UInt32) (h : Sound seqOf 1 j) (hs : seqOf pkt.data = seq)
    (hd : 0 < (seq - j.nextSeq).toNat) (hd' : (seq - j.nextSeq).toNat < jitterCap) :
    Sound seqOf 1 (j.cache pkt seq now) ∧ 0 < (j.cache pkt seq now).pending := by
  have hseq : ∀ {p : JitterPkt α}, p.Carries pkt → seqOf p.data = seq :=
    fun hc => by rw [hc.data, hs]
  have hp : Counted (j.cache pkt seq now) := Counted.cache h.pending pkt seq now
  refine ⟨⟨?_, ?_, ?_, hp⟩, ?_⟩
  · intro i p hi
    rcases slots_cache hi with ⟨rfl, hc⟩ | ⟨-, hi⟩
    · rw [hseq hc]
    · exact h.index i p hi
  · intro i p hi
    rcases slots_cache hi with ⟨-, hc⟩ | ⟨-, hi⟩
    · rw [hseq hc]
      exact hd
    · exact h.ahead i p hi
  · intro i p hi
    rcases slots_cache hi with ⟨-, hc⟩ | ⟨-, hi⟩
    · rw [hseq hc]
      exact hd'
    · exact h.near i p hi
  · rw [hp, valid_cache]
    exact Finset.card_pos.2 ⟨_, Finset.mem_insert_self _ _⟩

theorem cache_spec (h : Sound seqOf 1 j) (hs : seqOf pkt.data = seq)
    (hd : 0 < (seq - j.nextSeq).toNat) (hd' : (seq - j.nextSeq).toNat < jitterCap) :
    ∃ r, (j.cache pkt seq now).checkGap now = some r ∧ Pushes seqOf pkt j r.1 r.2 ∧
      Climbs j.nextSeq (r.2.map fun p => seqOf p.data) r.1.nextSeq ∧
      r.1.initialized = j.initialized := by
  obtain ⟨hc, hp⟩ := cache_sound now h hs hd hd'
  obtain ⟨r, hr, hs', hh⟩ := checkGap_spec hc hp now
  have hfrom : ∀ {i p}, (j.cache pkt seq now).slots i = some p →
      p.Carries pkt ∨ j.slots i = some p :=
    fun hi => (slots_cache hi).imp And.right And.right
  refine ⟨r, hr, ⟨?_, ?_, ?_, hh.once, hs'⟩, hh.climbs, hh.init⟩
  · intro p hp
    obtain ⟨i, hi⟩ := hh.cached p hp
    exact (hfrom hi).imp_right fun hi => ⟨i, hi⟩
  · exact fun i p hi => hfrom (hh.kept i p hi).1
  · exact fun i p hi => (hh.kept i p hi).2

/-- The branch that starts over: `seq` is the buffer or more ahead of the expected number. -/
def restarts (j : Jitter α) (pkt : JitterPkt α) (seq : UInt16) : Prop :=
  ¬(pkt.len = 0 ∨ jitterPktMax < pkt.len) ∧ seqGt seq (j.anchored seq).nextSeq = true ∧
    jitterCap ≤ (seq - (j.anchored seq).nextSeq).toNat

instance (j : Jitter α) (pkt : JitterPkt α) (seq : UInt16) : Decidable (j.restarts pkt seq) :=
  inferInstanceAs (Decidable (_ ∧ _ ∧ _))

theorem seqGt_pos {s n : UInt16} (h : seqGt s n = true) : 0 < (s - n).toNat := by
  simp only [seqGt, Bool.and_eq_true, decide_eq_true_eq] at h
  exact h.1

theorem Sound.of_empty (he : ∀ i, j.slots i = none) (hp : j.pending = 0) : Sound seqOf 1 j where
  index := fun i p hi => nomatch (he i).symm.trans hi
  ahead := fun i p hi => nomatch (he i).symm.trans hi
  near := fun i p hi => nomatch (he i).symm.trans hi
  pending := by
    rw [hp, valid, Finset.filter_false_of_mem fun i _ => by rw [he i]; exact Bool.false_ne_true]
    rfl

theorem Sound.anchored (h : Sound seqOf 1 j) (hi : j.initialized = false → ∀ i, j.slots i = none) :
    Sound seqOf 1 (j.anchored seq) := by
  unfold Jitter.anchored
  split
  · exact h
  · have he := hi (by simpa using ‹¬j.initialized = true›)
    have hp : j.pending = 0 := by
      rcases Nat.eq_zero_or_pos j.pending with h0 | h0
      · exact h0
      · obtain ⟨i, p, hip⟩ := (h.mono (Nat.zero_le 1)).pending_pos.1 h0
        exact nomatch (he i).symm.trans hip
    exact .of_empty he hp

theorem slots_anchored : (j.anchored seq).slots = j.slots := by unfold anchored; split <;> rfl

theorem initialized_anchored : (j.anchored seq).initialized = true := by
  unfold anchored
  split
  · assumption
  · rfl

theorem reanchor_spec : Pushes seqOf pkt j (j.reanchor seq) [pkt] where
  handed := by
    intro p hp
    cases List.mem_singleton.1 hp
    exact .inl ⟨rfl, rfl, .inl rfl⟩
  kept := fun _ _ hi => nomatch hi
  apart := fun _ _ hi => nomatch hi
  once := List.nodup_singleton _
  sound := .of_empty (fun _ => rfl) rfl

theorem Pushes.nothing (h : Sound seqOf 1 j') (hs : j'.slots = j.slots) :
    Pushes seqOf pkt j j' [] where
  handed := fun _ hp => nomatch hp
  kept := fun _ _ hi => .inr (hs ▸ hi)
  apart := fun _ _ _ => List.not_mem_nil
  once := List.nodup_nil
  sound := h

theorem pushOn_spec (now : UInt32) (h : Sound seqOf 1 j) (hs : seqOf pkt.data = seq) :
    ∃ r, push.pushOn pkt seq now j = some r ∧ Pushes seqOf pkt j r.1 r.2 ∧
      if seqGt seq j.nextSeq = true ∧ jitterCap ≤ (seq - j.nextSeq).toNat then
        r.2 = [pkt] ∧ r.1.nextSeq = seq + 1 ∧ r.1.initialized = true
      else Climbs j.nextSeq (r.2.map fun p => seqOf p.data) r.1.nextSeq ∧
        r.1.initialized = j.initialized := by
  unfold push.pushOn
  by_cases heq : seq = j.nextSeq
  · have hng : ¬(seqGt seq j.nextSeq = true ∧ jitterCap ≤ (seq - j.nextSeq).toNat) :=
      fun hg => absurd (seqGt_pos hg.1) (by rw [heq, dist_self]; exact Nat.lt_irrefl 0)
    rw [if_pos heq]
    simp only [if_neg hng]
    exact inOrder_spec h (hs.trans heq)
  rw [if_neg heq]
  cases hg : seqGt seq j.nextSeq with
  | false =>
    exact ⟨_, rfl, .nothing ⟨h.index, h.ahead, h.near, h.pending⟩ rfl, rfl, rfl⟩
  | true =>
    by_cases hfar : jitterCap ≤ (seq - j.nextSeq).toNat
    · simp only [hfar, if_true, and_self]
      exact ⟨_, rfl, reanchor_spec, rfl, rfl, rfl⟩
    · simp only [hfar, if_true, if_false, and_false]
      exact cache_spec h hs (seqGt_pos hg) (Nat.lt_of_not_le hfar)

/-- **A push**: the buffer stays sound and the loop that skips a gap ends.  A packet that does not
    start over leaves the buffer expecting a number past all it handed on. -/
theorem push_spec (now : UInt32) (h : Sound seqOf 1 j)
    (hi : j.initialized = false → ∀ i, j.slots i = none) (hs : seqOf pkt.data = seq) :
    ∃ r, j.push pkt seq now = some r ∧ Pushes seqOf pkt j r.1 r.2 ∧
      (j.restarts pkt seq → r.2 = [pkt] ∧ r.1.nextSeq = seq + 1 ∧ r.1.initialized = true) ∧
      (¬j.restarts pkt seq → r = (j, []) ∨
        (Climbs (j.anchored seq).nextSeq (r.2.map fun p => seqOf p.data) r.1.nextSeq ∧
          r.1.initialized = true)) := by
  by_cases hl : pkt.len = 0 ∨ jitterPktMax < pkt.len
  · exact ⟨(j, []), if_pos hl, .nothing h rfl, fun hr => absurd hl hr.1, fun _ => .inl rfl⟩
  obtain ⟨r, hr, hp, hc⟩ := pushOn_spec now (h.anchored hi) hs
  have hrestarts : j.restarts pkt seq ↔ seqGt seq (j.anchored seq).nextSeq = true ∧
      jitterCap ≤ (seq - (j.anchored seq).nextSeq).toNat := and_iff_right hl
  rw [initialized_anchored] at hc
  refine ⟨r, (if_neg hl).trans hr, ⟨?_, ?_, hp.apart, hp.once, hp.sound⟩, fun h => ?_, fun h => ?_⟩
  · exact slots_anchored (j := j) ▸ hp.handed
  · exact slots_anchored (j := j) ▸ hp.kept
  · rwa [if_pos (hrestarts.1 h)] at hc
  · rw [if_neg (fun hn => h (hrestarts.2 hn))] at hc
    exact .inr hc

end Jitter

/-! ## Runs

An `Uplink` is the buffer with what it has handed on so far, each packet with the number of
restarts before it. -/

variable {α : Type u} {β : Type u}

structure JitterPush (α : Type u) where
  pkt : JitterPkt α
  seq : UInt16
  now : UInt32

structure Uplink (α : Type u) where
  jitter : Jitter α
  epoch : ℕ
  emitted : List (ℕ × JitterPkt α)

namespace Uplink

def start (j : Jitter α) : Uplink α := { jitter := j, epoch := 0, emitted := [] }

/-- The epoch a push belongs to. -/
def epochOf (u : Uplink α) (p : JitterPush α) : ℕ :=
  if u.jitter.restarts p.pkt p.seq then u.epoch + 1 else u.epoch

def push (u : Uplink α) (p : JitterPush α) : Option (Uplink α) :=
  (u.jitter.push p.pkt p.seq p.now).map fun r =>
    { jitter := r.1
      epoch := u.epochOf p
      emitted := u.emitted ++ r.2.map (u.epochOf p, ·) }

def run (u : Uplink α) (ps : List (JitterPush α)) : Option (Uplink α) := ps.foldlM push u

theorem run_append (u : Uplink α) (ps : List (JitterPush α)) (p : JitterPush α) :
    u.run (ps ++ [p]) = (u.run ps).bind (·.push p) := by
  simp only [run, List.foldlM_append, List.foldlM_cons, List.foldlM_nil, bind_pure]
  rfl

/-- The buffer takes no packet that is empty or larger than a slot. -/
def fits (p : JitterPush α) : Bool := p.pkt.len ≠ 0 ∧ p.pkt.len ≤ jitterPktMax

theorem push_of_not_fits {p : JitterPush α} (h : fits p = false) (u : Uplink α) :
    u.push p = some u := by
  have hl : p.pkt.len = 0 ∨ jitterPktMax < p.pkt.len := by
    have := of_decide_eq_false h
    omega
  have he : u.epochOf p = u.epoch := if_neg fun hr => hr.1 hl
  simp only [push, Jitter.push, if_pos hl, he, Option.map_some, List.map_nil, List.append_nil]

theorem run_filter (u : Uplink α) (ps : List (JitterPush α)) :
    u.run (ps.filter fits) = u.run ps := by
  induction ps generalizing u with
  | nil => rfl
  | cons p ps ih =>
    rw [List.filter_cons]
    cases h : fits p with
    | true =>
      simp only [if_true, run, List.foldlM_cons]
      exact congrArg _ (funext ih)
    | false =>
      simp only [Bool.false_eq_true, if_false]
      rw [ih]
      simp only [run, List.foldlM_cons, push_of_not_fits h]
      rfl

end Uplink

/-! ### Which push a packet came from

The buffer does not look into packets, so a run does the same to packets that carry their push and
its place in the run. -/

/-- A push and its place in the run. -/
abbrev Stamped (β : Type u) := ℕ × JitterPush β

def JitterPush.stamp (i : ℕ) (p : JitterPush β) : JitterPush (Stamped β) :=
  { p with pkt := { p.pkt with data := (i, p) } }

/-- The pushes `ps`, each packet with its push. -/
def stamped (ps : List (JitterPush β)) : List (JitterPush (Stamped β)) :=
  ps.zipIdx.map fun x => x.1.stamp x.2

theorem stamped_append (ps : List (JitterPush β)) (p : JitterPush β) :
    stamped (ps ++ [p]) = stamped ps ++ [p.stamp ps.length] := by
  simp only [stamped, List.zipIdx_append, List.map_append, List.zipIdx_cons, List.zipIdx_nil,
    List.map_cons, List.map_nil, Nat.zero_add]

def JitterPkt.map (f : α → β) (pkt : JitterPkt α) : JitterPkt β := { pkt with data := f pkt.data }

def JitterPush.map (f : α → β) (p : JitterPush α) : JitterPush β := { p with pkt := p.pkt.map f }

def Jitter.map (f : α → β) (j : Jitter α) : Jitter β :=
  { j with slots := fun i => (j.slots i).map (·.map f) }

def Uplink.map (f : α → β) (u : Uplink α) : Uplink β :=
  { jitter := u.jitter.map f
    epoch := u.epoch
    emitted := u.emitted.map fun e => (e.1, e.2.map f) }

namespace Jitter

/-- A buffer and what it hands on, in other packets. -/
def mapOut (f : α → β) (r : Jitter α × List (JitterPkt α)) : Jitter β × List (JitterPkt β) :=
  (r.1.map f, r.2.map (·.map f))

variable {f : α → β} {j : Jitter α}

theorem front_map : (j.map f).front = j.front.map (·.map f) := rfl

theorem map_update (slots : Fin jitterCap → Option (JitterPkt α)) (i k : Fin jitterCap)
    (o : Option (JitterPkt α)) :
    (Function.update slots i o k).map (JitterPkt.map f) =
      Function.update (fun k => (slots k).map (JitterPkt.map f)) i (o.map (JitterPkt.map f)) k := by
  simp only [Function.update_apply]
  split <;> rfl

theorem take_map : (j.map f).take = j.take.map f := by
  simp only [take, map, map_update]
  rfl

theorem drainLoop_map (n : ℕ) : drainLoop n (j.map f) = mapOut f (drainLoop n j) := by
  induction n generalizing j with
  | zero => rfl
  | succ n ih =>
    simp only [drainLoop, front_map]
    cases j.front with
    | none => rfl
    | some pkt => simp only [Option.map_some, take_map, ih, mapOut, List.map_cons]

theorem drain_map : (j.map f).drain = mapOut f j.drain := by
  simp only [drain, drainLoop_map]
  rfl

theorem skipLoop_map (n : ℕ) : skipLoop n (j.map f) = (skipLoop n j).map (·.map f) := by
  induction n generalizing j with
  | zero => rfl
  | succ n ih =>
    simp only [skipLoop, front_map, Option.isSome_map]
    split
    · rfl
    · exact @ih { j with nextSeq := j.nextSeq + 1, nSkipped := j.nSkipped + 1 }

theorem checkGap_map (now : UInt32) : (j.map f).checkGap now = (j.checkGap now).map (mapOut f) := by
  have hskip : (j.map f).skipGap = j.skipGap.map (mapOut f) := by
    simp only [skipGap, skipLoop_map, Option.map_map]
    exact congrArg (fun g => (skipLoop jitterCap j).map g) (funext fun _ => drain_map)
  unfold checkGap
  by_cases h : j.timeout ≤ now - j.gapTs
  · rw [if_pos h, ← hskip]
    exact if_pos h
  · rw [if_neg h]
    exact if_neg h

variable {pkt : JitterPkt α} {seq : UInt16} {now : UInt32}

theorem inOrder_map : (j.map f).inOrder (pkt.map f) now = (j.inOrder pkt now).map (mapOut f) := by
  have hd := @drain_map _ _ f { j with nextSeq := j.nextSeq + 1 }
  unfold inOrder
  simp only
  rw [show Jitter.drain { j.map f with nextSeq := (j.map f).nextSeq + 1 } = _ from hd]
  by_cases hp : 0 < (drain { j with nextSeq := j.nextSeq + 1 }).1.pending
  · rw [if_pos hp]
    refine (if_pos hp).trans ?_
    simp only [mapOut, checkGap_map, Option.map_map]
    refine congrArg (fun g => Option.map g _) (funext fun r => ?_)
    simp only [Function.comp, mapOut, List.map_cons, List.map_append, List.cons_append]
  · rw [if_neg hp]
    exact if_neg hp

theorem cache_map : (j.map f).cache (pkt.map f) seq now = (j.cache pkt seq now).map f := by
  simp only [cache, map, map_update, Option.isNone_map]
  rfl

theorem anchored_map : (j.map f).anchored seq = (j.anchored seq).map f := by
  unfold anchored
  by_cases h : j.initialized = true
  · rw [if_pos h]
    exact if_pos h
  · rw [if_neg h]
    exact if_neg h

theorem restarts_map : (j.map f).restarts (pkt.map f) seq ↔ j.restarts pkt seq := by
  unfold restarts
  rw [anchored_map]
  exact Iff.rfl

theorem pushOn_map :
    push.pushOn (pkt.map f) seq now (j.map f) = (push.pushOn pkt seq now j).map (mapOut f) := by
  unfold push.pushOn
  rw [inOrder_map, cache_map, checkGap_map, show (j.map f).nextSeq = j.nextSeq from rfl]
  split
  · rfl
  · split
    · split <;> rfl
    · rfl

theorem push_map : (j.map f).push (pkt.map f) seq now = (j.push pkt seq now).map (mapOut f) := by
  unfold push
  rw [anchored_map, pushOn_map, show (pkt.map f).len = pkt.len from rfl]
  split <;> rfl

end Jitter

namespace Uplink
variable {f : α → β}

theorem push_map (u : Uplink α) (p : JitterPush α) :
    (u.map f).push (p.map f) = (u.push p).map (·.map f) := by
  have he : (u.map f).epochOf (p.map f) = u.epochOf p := by
    unfold epochOf
    exact if_congr Jitter.restarts_map rfl rfl
  unfold push
  rw [he, show (u.map f).jitter.push (p.map f).pkt (p.map f).seq (p.map f).now = _ from
    Jitter.push_map, Option.map_map, Option.map_map]
  refine congrArg (fun g => Option.map g _) (funext fun r => ?_)
  simp only [Function.comp, Uplink.map, Jitter.mapOut, List.map_append, List.map_map]
  rfl

theorem run_map (u : Uplink α) (ps : List (JitterPush α)) :
    (u.map f).run (ps.map (·.map f)) = (u.run ps).map (·.map f) := by
  induction ps generalizing u with
  | nil => rfl
  | cons p ps ih =>
    simp only [run, List.map_cons, List.foldlM_cons, push_map]
    cases u.push p with
    | none => rfl
    | some u' => exact ih u'

/-- A run is the run of the stamped packets, without the stamps. -/
theorem run_stamped (j : Jitter (Stamped β)) (ps : List (JitterPush β)) :
    (start (j.map fun x => x.2.pkt.data)).run ps =
      ((start j).run (stamped ps)).map (·.map fun x => x.2.pkt.data) := by
  rw [← run_map]
  congr 1
  simp only [stamped, List.map_map]
  exact (List.zipIdx_map_fst 0 ps).symm

end Uplink

/-! ### What a run hands on -/

/-- The sequence number a stamped packet was pushed with. -/
def Stamped.seq (x : Stamped β) : UInt16 := x.2.seq

/-- The packet is one of the pushes `ps`, with its bytes and length, and its flag if that is 0
    or 1. -/
structure Intact (ps : List (JitterPush β)) (p : JitterPkt (Stamped β)) : Prop where
  pushed : ps[p.data.1]? = some p.data.2
  len : p.len = p.data.2.pkt.len
  gop : p.isGopStart = p.data.2.pkt.isGopStart ∨
    p.isGopStart = if p.data.2.pkt.isGopStart = 0 then 0 else 1

/-- Of two packets handed on in one epoch the later is 1 to 128 ahead. -/
def Follows (a b : ℕ × JitterPkt (Stamped β)) : Prop :=
  a.1 ≤ b.1 ∧ (a.1 = b.1 → 1 ≤ (b.2.data.seq - a.2.data.seq).toNat ∧
    (b.2.data.seq - a.2.data.seq).toNat ≤ jitterCap)

/-- What holds after the pushes `ps`. -/
structure Uplink.Sound (ps : List (JitterPush β)) (u : Uplink (Stamped β)) : Prop where
  sound : u.jitter.Sound Stamped.seq 1
  idle : u.jitter.initialized = false → (∀ i, u.jitter.slots i = none) ∧ u.emitted = []
  emitted : ∀ e ∈ u.emitted, Intact ps e.2
  cached : ∀ i p, u.jitter.slots i = some p → Intact ps p
  apart : ∀ i p, u.jitter.slots i = some p → p.data ∉ u.emitted.map (·.2.data)
  once : (u.emitted.map (·.2.data)).Nodup
  chain : u.emitted.IsChain Follows
  last : ∀ e ∈ u.emitted.getLast?, e.1 ≤ u.epoch ∧ (e.1 = u.epoch →
    e.2.data.seq + 1 = u.jitter.nextSeq)

theorem Intact.append {ps : List (JitterPush β)} {p : JitterPkt (Stamped β)} (h : Intact ps p)
    (q : JitterPush β) : Intact (ps ++ [q]) p where
  pushed := by
    have hp := h.pushed
    rw [List.getElem?_append_left (List.getElem?_eq_some_iff.1 hp).1, hp]
  len := h.len
  gop := h.gop

theorem Intact.of_carries {ps : List (JitterPush β)} {p : JitterPkt (Stamped β)}
    {q : JitterPush β} (h : p.Carries (q.stamp ps.length).pkt) : Intact (ps ++ [q]) p where
  pushed := by rw [h.data]; exact List.getElem?_concat_length
  len := by rw [h.len, h.data]; rfl
  gop := by rw [h.data]; exact h.gop

/-- The packet of a new push is not among the old ones. -/
theorem Intact.not_new {ps : List (JitterPush β)} {p : JitterPkt (Stamped β)} (h : Intact ps p)
    (q : JitterPush β) : p.data ≠ (ps.length, q) := by
  intro he
  have hp := h.pushed
  rw [he, List.getElem?_eq_none (Nat.le_refl _)] at hp
  exact nomatch hp

theorem Follows.of_dist {k : ℕ} {p q : JitterPkt (Stamped β)}
    (h : (q.data.seq - (p.data.seq + 1)).toNat < jitterCap) : Follows (k, p) (k, q) := by
  refine ⟨Nat.le_refl k, fun _ => ?_⟩
  rw [dist_pred h]
  exact ⟨Nat.le_add_left 1 _, h⟩

/-- Packets handed on while the buffer expects more and more follow each other. -/
theorem climbs_chain {n n' : UInt16} {out : List (JitterPkt (Stamped β))} (k : ℕ)
    (h : Jitter.Climbs n (out.map fun p => p.data.seq) n') :
    (out.map (k, ·)).IsChain Follows ∧
      (∀ b ∈ out.head?, (b.data.seq - n).toNat < jitterCap) ∧
      (∀ a ∈ out.getLast?, a.data.seq + 1 = n') := by
  induction out generalizing n with
  | nil => exact ⟨.nil, fun _ hb => (nomatch hb), fun _ ha => (nomatch ha)⟩
  | cons p out ih =>
    obtain ⟨hc, hhead, hlast⟩ := ih h.2
    have hp : ∀ b ∈ (p :: out).head?, (b.data.seq - n).toNat < jitterCap := by
      intro b hb
      cases hb
      exact h.1
    cases out with
    | nil =>
      refine ⟨.singleton _, hp, fun a ha => ?_⟩
      cases ha
      exact h.2
    | cons q out =>
      refine ⟨.cons_cons (.of_dist (hhead q rfl)) hc, hp, fun a ha => hlast a ?_⟩
      rwa [List.getLast?_cons_cons] at ha

/-- **One more push.** -/
theorem Uplink.Sound.push {ps : List (JitterPush β)} {u : Uplink (Stamped β)} (h : Uplink.Sound ps u)
    (p : JitterPush β) :
    ∃ u', u.push (p.stamp ps.length) = some u' ∧ Uplink.Sound (ps ++ [p]) u' := by
  obtain ⟨r, hr, hpush, hfar, hnear⟩ :=
    Jitter.push_spec (p.stamp ps.length).now h.sound (fun hi => (h.idle hi).1) rfl
  refine ⟨_, by rw [Uplink.push]; exact congrArg (Option.map _) hr, ?_⟩
  -- the number expected when the push began to hand packets on
  have hjoin : ∃ n, (∀ e ∈ u.emitted.getLast?, e.1 ≤ u.epochOf (p.stamp ps.length) ∧
      (e.1 = u.epochOf (p.stamp ps.length) → e.2.data.seq + 1 = n)) ∧
      Jitter.Climbs n (r.2.map fun q => q.data.seq) r.1.nextSeq := by
    unfold Uplink.epochOf
    by_cases hre : u.jitter.restarts (p.stamp ps.length).pkt (p.stamp ps.length).seq
    · obtain ⟨hout, hn, -⟩ := hfar hre
      refine ⟨p.seq, fun e he => ?_, ?_⟩
      · rw [if_pos hre]
        have := (h.last e he).1
        exact ⟨by omega, fun hk => absurd hk (by omega)⟩
      · rw [hout, hn]
        refine ⟨?_, rfl⟩
        show (p.seq - p.seq).toNat < jitterCap
        rw [dist_self]
        decide
    · simp only [if_neg hre]
      rcases hnear hre with rfl | ⟨hc, -⟩
      · exact ⟨_, h.last, rfl⟩
      · refine ⟨_, fun e he => ⟨(h.last e he).1, fun hk => ?_⟩, hc⟩
        rw [(h.last e he).2 hk, Jitter.anchored]
        cases hi : u.jitter.initialized with
        | true => rfl
        | false =>
          rw [(h.idle hi).2] at he
          exact nomatch he
  have hidle : r.1.initialized = false → (∀ i, r.1.slots i = none) ∧ r.2 = [] ∧ u.emitted = [] := by
    intro hi
    by_cases hre : u.jitter.restarts (p.stamp ps.length).pkt (p.stamp ps.length).seq
    · exact nomatch hi.symm.trans (hfar hre).2.2
    · rcases hnear hre with rfl | ⟨-, hi'⟩
      · exact ⟨(h.idle hi).1, rfl, (h.idle hi).2⟩
      · exact nomatch hi.symm.trans hi'
  generalize u.epochOf (p.stamp ps.length) = k at *
  obtain ⟨n, hlast, hclimbs⟩ := hjoin
  obtain ⟨hchain, hhead, hend⟩ := climbs_chain k hclimbs
  have hkept : ∀ i q, r.1.slots i = some q → Intact (ps ++ [p]) q := by
    intro i q hi
    rcases hpush.kept i q hi with hc | hi
    · exact .of_carries hc
    · exact (h.cached i q hi).append p
  have hhanded : ∀ q ∈ r.2, Intact (ps ++ [p]) q ∧ q.data ∉ u.emitted.map (·.2.data) := by
    intro q hq
    rcases hpush.handed q hq with hc | ⟨i, hi⟩
    · refine ⟨.of_carries hc, fun hm => ?_⟩
      obtain ⟨e, he, hd⟩ := List.mem_map.1 hm
      exact (h.emitted e he).not_new p (hd.trans hc.data)
    · exact ⟨(h.cached i q hi).append p, h.apart i q hi⟩
  have hmap : (u.emitted ++ r.2.map (k, ·)).map (·.2.data) =
      u.emitted.map (·.2.data) ++ r.2.map (·.data) := by
    rw [List.map_append, List.map_map]
    rfl
  refine ⟨hpush.sound, ?_, ?_, hkept, ?_, ?_, ?_, ?_⟩
  · intro hi
    obtain ⟨hs, ho, he⟩ := hidle hi
    exact ⟨hs, by simp only [ho, he, List.map_nil, List.append_nil]⟩
  · intro e he
    rcases List.mem_append.1 he with he | he
    · exact (h.emitted e he).append p
    · obtain ⟨q, hq, rfl⟩ := List.mem_map.1 he
      exact (hhanded q hq).1
  · intro i q hi
    rw [hmap, List.mem_append]
    rintro (hm | hm)
    · rcases hpush.kept i q hi with hc | hi
      · obtain ⟨e, he, hd⟩ := List.mem_map.1 hm
        exact (h.emitted e he).not_new p (hd.trans hc.data)
      · exact h.apart i q hi hm
    · exact hpush.apart i q hi hm
  · rw [hmap]
    refine h.once.append hpush.once fun d hd hd' => ?_
    obtain ⟨q, hq, rfl⟩ := List.mem_map.1 hd'
    exact (hhanded q hq).2 hd
  · refine h.chain.append hchain fun a ha b hb => ?_
    rw [List.head?_map, Option.mem_map] at hb
    obtain ⟨b, hb, rfl⟩ := hb
    refine ⟨(hlast a ha).1, fun hk => ?_⟩
    have hd := hhead b hb
    rw [← (hlast a ha).2 hk] at hd
    exact (Follows.of_dist (k := k) hd).2 rfl
  · intro e he
    rw [List.getLast?_append, List.getLast?_map] at he
    cases ho : r.2.getLast? with
    | none =>
      rw [List.getLast?_eq_none_iff.1 ho] at hclimbs
      cases hclimbs
      exact hlast e (by simpa [ho] using he)
    | some q =>
      rw [ho] at he
      cases he
      exact ⟨Nat.le_refl k, fun _ => hend q ho⟩

theorem Uplink.Sound.start (j : Jitter (Stamped β)) : Uplink.Sound [] (.start j.reset) where
  sound := .of_empty (fun _ => rfl) rfl
  idle := fun _ => ⟨fun _ => rfl, rfl⟩
  emitted := fun _ he => nomatch he
  cached := fun _ _ hi => nomatch hi
  apart := fun _ _ hi => nomatch hi
  once := List.nodup_nil
  chain := .nil
  last := fun _ he => nomatch he

theorem sound_run (j : Jitter (Stamped β)) (ps : List (JitterPush β)) :
    ∃ u, (Uplink.start j.reset).run (stamped ps) = some u ∧ Uplink.Sound ps u := by
  induction ps using List.reverseRecOn with
  | nil => exact ⟨_, rfl, .start j⟩
  | append_singleton ps p ih =>
    obtain ⟨u, hu, hd⟩ := ih
    obtain ⟨u', hu', hd'⟩ := hd.push p
    exact ⟨u', by rw [stamped_append, Uplink.run_append, hu]; exact hu', hd'⟩

/-- A run of the buffer is that of packets that carry their push, without the pushes. -/
theorem reset_run (j : Jitter β) (ps : List (JitterPush β)) :
    ∃ u : Uplink (Stamped β),
      (Uplink.start j.reset).run ps = some (u.map fun x => x.2.pkt.data) ∧ Uplink.Sound ps u := by
  obtain ⟨u, hu, hd⟩ := sound_run { j with slots := fun _ => none } ps
  refine ⟨u, ?_, hd⟩
  have hrun := Uplink.run_stamped (Jitter.reset { j with slots := fun _ => none }) ps
  rw [hu] at hrun
  exact hrun

/-- Packets that are pushes of `ps` differ in their places if they differ. -/
theorem Intact.eq_of_place {ps : List (JitterPush β)} {p q : JitterPkt (Stamped β)}
    (hp : Intact ps p) (hq : Intact ps q) (h : p.data.1 = q.data.1) : p.data = q.data := by
  refine Prod.ext h (Option.some_inj.1 ?_)
  rw [← hp.pushed, ← hq.pushed, h]

/-- **The reorder buffer delivers in order and never twice.**  From a reset, over any pushes `ps`:
    there is a run of packets that carry their push which, without the stamps, is the run of the
    buffer.  In it packets of one epoch climb by 1 to 128, each is one of the pushes, no push comes
    twice; what is cached is 1 to 127 ahead, in its slot, and counted; and the loop that skips a gap
    ends wherever a packet is cached. -/
theorem jitter_delivers (j : Jitter β) (ps : List (JitterPush β)) :
    ∃ u : Uplink (Stamped β),
      (Uplink.start j.reset).run ps = some (u.map fun x => x.2.pkt.data) ∧
      u.emitted.IsChain Follows ∧
      (∀ e ∈ u.emitted, Intact ps e.2) ∧
      (u.emitted.map (·.2.data.1)).Nodup ∧
      u.jitter.pending = u.jitter.valid.card ∧
      (∀ i p, u.jitter.slots i = some p → Intact ps p ∧ i = jitterIndex p.data.seq ∧
        1 ≤ (p.data.seq - u.jitter.nextSeq).toNat ∧
        (p.data.seq - u.jitter.nextSeq).toNat < jitterCap) ∧
      (0 < u.jitter.pending → ∃ k, Jitter.skipLoop jitterCap u.jitter = some k) := by
  obtain ⟨u, hu, hd⟩ := reset_run j ps
  refine ⟨u, hu, hd.chain, hd.emitted, ?_, hd.sound.pending, ?_, fun hp => ?_⟩
  · have hmap : u.emitted.map (·.2.data.1) = (u.emitted.map (·.2.data)).map Prod.fst := by
      rw [List.map_map]
      rfl
    rw [hmap]
    refine hd.once.map_on fun a ha b hb hab => ?_
    obtain ⟨e, he, rfl⟩ := List.mem_map.1 ha
    obtain ⟨e', he', rfl⟩ := List.mem_map.1 hb
    exact (hd.emitted e he).eq_of_place (hd.emitted e' he') hab
  · exact fun i p hi => ⟨hd.cached i p hi, hd.sound.index i p hi, hd.sound.ahead i p hi,
      hd.sound.near i p hi⟩
  · have h0 := hd.sound.mono (Nat.zero_le 1)
    obtain ⟨i, p, hi⟩ := h0.pending_pos.1 hp
    obtain ⟨k, f, hk, -⟩ := Jitter.skipLoop_spec h0 hi (hd.sound.near i p hi)
    exact ⟨_, hk⟩

end NginxRtc
