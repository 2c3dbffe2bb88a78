/-
  Looking a packet up by its sequence number, in the GOP ring of a process (`ngx_rtc_rtp_ring_get`)
  or in the shared retransmit ring (`ngx_rtc_shm_retransmit_get`).

  Both take the distance of the number from that of the oldest retained packet as the number of
  packets between the two.  A publisher's packets reach the rings as the jitter buffer emits them,
  so numbers may be missing.

  `lookup_iff`: a request is answered with the retained packet of that number, or is a miss if there
  is none, exactly when no number is missing between the oldest retained packet and that one.
-/
import Mathlib.Data.List.Chain
import NginxRtc.Worker.GopRing

namespace NginxRtc

/-- A packet on its way into a ring. -/
structure RtpPacket where
  rtp : Bytes
  isGopStart : Bool

def RtpPacket.slot (p : RtpPacket) : RetransmitSlot := ⟨p.rtp.length, p.isGopStart, p.rtp⟩

/-! ## Filling a ring -/

/-- The GOP ring after `ngx_rtc_rtp_ring_push` of each packet, the slots being allocated by a push
    whose `ngx_calloc` succeeds. -/
def RtpRing.pushAll (slots : BitVec 32) (ps : List (RtpPacket × Bool)) : RtpRing :=
  ps.foldl (fun ring p => ring.push slots p.2 p.1.rtp p.1.isGopStart) none

/-- The packets `ngx_rtc_rtp_ring_push` does not refuse for their length. -/
def RtpRing.stored (ps : List (RtpPacket × Bool)) : List RetransmitSlot :=
  ps.filterMap fun p =>
    if p.1.rtp.length = 0 ∨ maxRtpPkt < p.1.rtp.length then none else some p.1.slot

/-- The shared ring after the packets. -/
def RetransmitRing.pushAll (r : RetransmitRing) (ps : List RtpPacket) : RetransmitRing :=
  ps.foldl (fun r p => r.push p.rtp p.isGopStart) r

/-- The numbers climb, and no two packets that fit in a ring of `cap` slots together are half the
    sequence space apart. -/
def Climbing (cap : ℕ) (ps : List RetransmitSlot) : Prop :=
  ∀ i j a b, ps[i]? = some a → ps[j]? = some b → i < j → j < i + cap →
    0 < (rtpSeq b.data - rtpSeq a.data).toNat ∧ (rtpSeq b.data - rtpSeq a.data).toNat < 2 ^ 15

theorem Climbing.ascends {cap : ℕ} {ps recent : List RetransmitSlot} (h : Climbing cap ps)
    (hs : recent <:+ ps) (hcap : recent.length ≤ cap) :
    CacheRing.Ascends RetransmitSlot.key recent := by
  obtain ⟨pre, rfl⟩ := hs
  refine List.pairwise_iff_getElem.2 fun i j hi hj hij => ?_
  have hget : ∀ {k : ℕ} (hk : k < recent.length), (pre ++ recent)[pre.length + k]? =
      some recent[k] := by
    intro k hk
    rw [List.getElem?_append_right (Nat.le_add_right ..), Nat.add_sub_cancel_left]
    exact List.getElem?_eq_getElem hk
  exact h _ _ _ _ (hget hi) (hget hj) (by omega) (by omega)

namespace RtpRing

/-- The ring holds packets pushed last, and no more than it has slots for. -/
def Filled (slots : BitVec 32) (ps : List RetransmitSlot) (ring : RtpRing) : Prop :=
  ring.recent <:+ ps ∧ ∀ r, ring = some r → r.cap = slots

theorem Filled.push {slots : BitVec 32} {ps : List RetransmitSlot} {ring : RtpRing}
    (h : ring.Filled slots ps) (hslots : slots ≠ 0#32 ∧ slots &&& (slots - 1#32) = 0#32)
    (p : RtpPacket) (alloc : Bool) (hlen : ¬(p.rtp.length = 0 ∨ maxRtpPkt < p.rtp.length)) :
    (ring.push slots alloc p.rtp p.isGopStart).Filled slots (ps ++ [p.slot]) := by
  unfold RtpRing.push
  rw [if_neg hlen]
  cases hr : ring.reserve alloc slots with
  | none =>
    cases ring with
    | none => exact ⟨List.nil_suffix, fun _ hr => nomatch hr⟩
    | some r =>
      rw [RtpRing.reserve, dif_pos hslots] at hr
      exact nomatch hr
  | some r =>
    have hkeep : r.recent <:+ ps ∧ r.cap = slots := by
      rw [RtpRing.reserve, dif_pos hslots] at hr
      cases ring with
      | none =>
        simp only at hr
        split_ifs at hr
        cases hr
        exact ⟨List.nil_suffix, rfl⟩
      | some r₀ =>
        cases hr
        exact ⟨h.1, h.2 r rfl⟩
    refine ⟨CacheRing.recent_suffix_push hkeep.1 _ _, fun r' hr' => ?_⟩
    obtain rfl := Option.some.inj hr'
    exact hkeep.2

theorem pushAll_append (slots : BitVec 32) (ps : List (RtpPacket × Bool)) (p : RtpPacket × Bool) :
    pushAll slots (ps ++ [p]) = (pushAll slots ps).push slots p.2 p.1.rtp p.1.isGopStart := by
  rw [pushAll, List.foldl_append]
  rfl

theorem filled_pushAll (slots : BitVec 32) (ps : List (RtpPacket × Bool)) :
    (pushAll slots ps).Filled slots (stored ps) := by
  by_cases hslots : slots ≠ 0#32 ∧ slots &&& (slots - 1#32) = 0#32
  · induction ps using List.reverseRecOn with
    | nil => exact ⟨List.nil_suffix, fun _ hr => by cases hr⟩
    | append_singleton ps p ih =>
      rw [pushAll_append, stored, List.filterMap_append]
      by_cases hlen : p.1.rtp.length = 0 ∨ maxRtpPkt < p.1.rtp.length
      · simp only [List.filterMap_cons, if_pos hlen, List.filterMap_nil, List.append_nil]
        rw [RtpRing.push, if_pos hlen]
        exact ih
      · simp only [List.filterMap_cons, if_neg hlen, List.filterMap_nil]
        exact ih.push hslots p.1 p.2 hlen
  · -- a capacity that is no power of two is never allocated
    have hnone : ∀ ps : List (RtpPacket × Bool), pushAll slots ps = none := by
      intro ps
      induction ps using List.reverseRecOn with
      | nil => rfl
      | append_singleton ps p ih =>
        rw [pushAll_append, ih]
        simp only [RtpRing.push, RtpRing.reserve, dif_neg hslots, ite_self]
    rw [hnone]
    exact ⟨List.nil_suffix, fun _ hr => by cases hr⟩

theorem length_recent_le {slots : BitVec 32} {ps : List RetransmitSlot} {ring : RtpRing}
    (h : ring.Filled slots ps) : ring.recent.length ≤ slots.toNat := by
  cases ring with
  | none => exact Nat.zero_le _
  | some r =>
    rw [← h.2 r rfl, RtpRing.recent, CacheRing.length_recent]
    exact r.fill

end RtpRing

/-- The shared ring holds packets pushed last, if it was empty before. -/
theorem RetransmitRing.pushAll_recent {r : RetransmitRing} (h : r.cache.recent = [])
    (ps : List RtpPacket) :
    (r.pushAll ps).cache.recent <:+ ps.map RtpPacket.slot ∧ (r.pushAll ps).cap = r.cap := by
  induction ps using List.reverseRecOn with
  | nil =>
    rw [pushAll, List.foldl_nil, h]
    exact ⟨List.nil_suffix, rfl⟩
  | append_singleton ps p ih =>
    rw [pushAll, List.foldl_append, List.foldl_cons, List.foldl_nil, cache_push, List.map_append]
    exact ⟨CacheRing.recent_suffix_push ih.1 _ _, ih.2⟩

/-! ## Lookups -/

/-- A request for `seq` gets the retained packet of that number, and a miss if there is none. -/
def Served (recent : List RetransmitSlot) (seq : UInt16) (got : Option Bytes) : Prop :=
  (∀ s ∈ recent, rtpSeq s.data = seq → got = some s.data) ∧
    ((∀ s ∈ recent, rtpSeq s.data ≠ seq) → got = none)

/-- No number is missing between the oldest retained packet and one numbered `seq`. -/
def NoGap (recent : List RetransmitSlot) (seq : UInt16) : Prop :=
  ∀ i s, recent[i]? = some s → rtpSeq s.data = seq →
    (recent.take (i + 1)).IsChain fun a b => rtpSeq b.data = rtpSeq a.data + 1

theorem key_eq_iff (s : RetransmitSlot) (seq : UInt16) :
    s.key = seq.toBitVec ↔ rtpSeq s.data = seq := UInt16.toBitVec_inj

theorem noGap_iff (recent : List RetransmitSlot) (seq : UInt16) :
    NoGap recent seq ↔ ∀ i s, recent[i]? = some s → s.key = seq.toBitVec →
      CacheRing.Consecutive RetransmitSlot.key (recent.take (i + 1)) := by
  have hstep : ∀ a b : RetransmitSlot,
      rtpSeq b.data = rtpSeq a.data + 1 ↔ b.key = a.key + 1#16 := fun a b =>
    (key_eq_iff b _).symm
  have hchain : ∀ l : List RetransmitSlot,
      (l.IsChain fun a b => rtpSeq b.data = rtpSeq a.data + 1) ↔
        CacheRing.Consecutive RetransmitSlot.key l := fun _ => List.IsChain.iff hstep
  simp only [NoGap, hchain, key_eq_iff]

/-- Climbing packets have different numbers. -/
theorem eq_of_key {recent : List RetransmitSlot}
    (h : CacheRing.Ascends RetransmitSlot.key recent) {s t : RetransmitSlot} (hs : s ∈ recent)
    (ht : t ∈ recent) (he : s.key = t.key) : s = t := by
  obtain ⟨i, hi⟩ := List.mem_iff_getElem?.1 hs
  obtain ⟨j, hj⟩ := List.mem_iff_getElem?.1 ht
  obtain rfl := h.index_unique hi hj he
  exact Option.some.inj (hi.symm.trans hj)

theorem served_iff {w : ℕ} {r : CacheRing w RetransmitSlot}
    (h : CacheRing.Ascends RetransmitSlot.key r.recent) (seq : UInt16) :
    Served r.recent seq ((r.find RetransmitSlot.key seq.toBitVec).map RetransmitSlot.data) ↔
      NoGap r.recent seq := by
  rw [noGap_iff, ← CacheRing.find_eq_iff h]
  have hfind : ∀ {s}, r.find RetransmitSlot.key seq.toBitVec = some s →
      s ∈ r.recent ∧ s.key = seq.toBitVec := by
    intro s hs
    obtain ⟨hk, _, -, hget⟩ := CacheRing.find_some hs
    exact ⟨List.mem_of_getElem? hget, hk⟩
  cases hf : r.recent.find? fun s => s.key = seq.toBitVec with
  | none =>
    have hnone : ∀ s ∈ r.recent, s.key ≠ seq.toBitVec := by simpa using hf
    have hmiss : r.find RetransmitSlot.key seq.toBitVec = none :=
      Option.eq_none_iff_forall_ne_some.2 fun s hs => hnone s (hfind hs).1 (hfind hs).2
    rw [hmiss]
    exact iff_of_true ⟨fun s hs he => absurd ((key_eq_iff s seq).2 he) (hnone s hs), fun _ => rfl⟩ rfl
  | some v =>
    have hv : v ∈ r.recent := List.mem_of_find?_eq_some hf
    have hkey : v.key = seq.toBitVec := by simpa using List.find?_some hf
    constructor
    · rintro ⟨hhit, -⟩
      obtain ⟨s, hs, -⟩ := Option.map_eq_some_iff.1 (hhit v hv ((key_eq_iff v seq).1 hkey))
      rw [hs, eq_of_key h (hfind hs).1 hv ((hfind hs).2.trans hkey.symm)]
    · intro hs
      rw [hs]
      refine ⟨fun s hs he => ?_, fun hno => absurd ((key_eq_iff v seq).1 hkey) (hno v hv)⟩
      rw [eq_of_key h hs hv (((key_eq_iff s seq).2 he).trans hkey.symm)]
      rfl

/-- **A request is served from a ring exactly before a gap**: whatever climbing packets were pushed,
    into the GOP ring of a process or into an empty shared ring (read into a buffer that holds any
    of them). -/
theorem lookup_iff (seq : UInt16) :
    (∀ (slots : BitVec 32) (ps : List (RtpPacket × Bool)),
      Climbing slots.toNat (RtpRing.stored ps) →
      (Served (RtpRing.pushAll slots ps).recent seq
          (((RtpRing.pushAll slots ps).get seq).map RetransmitSlot.data) ↔
        NoGap (RtpRing.pushAll slots ps).recent seq)) ∧
    (∀ (r : RetransmitRing) (ps : List RtpPacket) (c : ShmCtx) (name : SourceName)
        (outCap : ℕ), r.count = 0 → Climbing r.cap.toNat (ps.map RtpPacket.slot) →
      (∀ p ∈ ps, p.rtp.length ≤ outCap) → c.ring? name = some (r.pushAll ps) →
      (Served (r.pushAll ps).cache.recent seq (c.retransmitGet name seq outCap) ↔
        NoGap (r.pushAll ps).cache.recent seq)) := by
  constructor
  · intro slots ps hclimb
    have hfilled := RtpRing.filled_pushAll slots ps
    have hasc := hclimb.ascends hfilled.1 (RtpRing.length_recent_le hfilled)
    cases hr : RtpRing.pushAll slots ps with
    | none =>
      exact iff_of_true ⟨fun _ hs => (nomatch hs), fun _ => rfl⟩ fun _ _ hs => nomatch hs
    | some r =>
      rw [hr] at hasc
      exact served_iff hasc seq
  · intro r ps c name outCap h0 hclimb hcap hring
    have hempty : r.cache.recent = [] := by
      refine List.eq_nil_of_length_eq_zero ?_
      rw [CacheRing.length_recent]
      exact congrArg UInt64.toNat h0
    obtain ⟨hsuff, hcapEq⟩ := RetransmitRing.pushAll_recent hempty ps
    have hlen : (r.pushAll ps).cache.recent.length ≤ r.cap.toNat := by
      rw [CacheRing.length_recent, ← hcapEq]
      exact (r.pushAll ps).fill
    have hasc := hclimb.ascends hsuff hlen
    have hget : c.retransmitGet name seq outCap =
        ((r.pushAll ps).cache.find RetransmitSlot.key seq.toBitVec).map RetransmitSlot.data := by
      unfold ShmCtx.retransmitGet
      rw [hring]
      cases hf : (r.pushAll ps).cache.find RetransmitSlot.key seq.toBitVec with
      | none => simp only [hf, Option.map_none]
      | some s =>
        obtain ⟨-, _, -, hs⟩ := CacheRing.find_some hf
        obtain ⟨p, hp, rfl⟩ := List.mem_map.1 (hsuff.subset (List.mem_of_getElem? hs))
        simp only [hf, Option.map_some]
        exact if_pos (hcap p hp)
    rw [hget]
    exact served_iff hasc seq

/-! ### Worked runs -/

def samplePacket (seq : UInt8) : RtpPacket := ⟨Feed.sampleUnit seq, false⟩

/-- Two packets; the second has the number `n`. -/
def samplePair (n : UInt8) : List RtpPacket := [samplePacket 0, samplePacket n]

/-- A registry whose stream has the two packets in its shared ring. -/
def sampleShared (n : UInt8) : ShmCtx :=
  Feed.sampleStart.sh.modifySource sampleName fun src =>
    { src with retransmit := some (RetransmitRing.alloc.pushAll (samplePair n)) }

theorem sampleShared_ring (n : UInt8) :
    (sampleShared n).ring? sampleName = some (RetransmitRing.alloc.pushAll (samplePair n)) := rfl

theorem climbing_pair {a b : RetransmitSlot} (cap : ℕ)
    (h : 0 < (rtpSeq b.data - rtpSeq a.data).toNat ∧
      (rtpSeq b.data - rtpSeq a.data).toNat < 2 ^ 15) : Climbing cap [a, b] := by
  intro i j x y hx hy hij _
  have hj := (List.getElem?_eq_some_iff.1 hy).1
  have hlen : [a, b].length = 2 := rfl
  obtain rfl : i = 0 := by omega
  obtain rfl : j = 1 := by omega
  cases hx
  cases hy
  exact h

theorem lookup_iff_pair :
    (Served (RtpRing.pushAll 4 ((samplePair 1).map (·, true))).recent 1
        (((RtpRing.pushAll 4 ((samplePair 1).map (·, true))).get 1).map RetransmitSlot.data) ↔
      NoGap (RtpRing.pushAll 4 ((samplePair 1).map (·, true))).recent 1) ∧
    (Served (RetransmitRing.alloc.pushAll (samplePair 1)).cache.recent 1
        ((sampleShared 1).retransmitGet sampleName 1 ringRtpMax) ↔
      NoGap (RetransmitRing.alloc.pushAll (samplePair 1)).cache.recent 1) :=
  ⟨(lookup_iff 1).1 4 _ (climbing_pair _ (by decide +kernel)),
    (lookup_iff 1).2 _ (samplePair 1) (sampleShared 1) sampleName ringRtpMax rfl
      (climbing_pair _ (by decide +kernel)) (by decide +kernel) (sampleShared_ring 1)⟩

/-- The packet after the one that was lost is retained, and neither ring finds it. -/
theorem gap_misses :
    (Climbing 4 (RtpRing.stored ((samplePair 2).map (·, true))) ∧
      ¬ Served (RtpRing.pushAll 4 ((samplePair 2).map (·, true))).recent 2
        (((RtpRing.pushAll 4 ((samplePair 2).map (·, true))).get 2).map RetransmitSlot.data)) ∧
    (Climbing 1024 ((samplePair 2).map RtpPacket.slot) ∧
      (sampleShared 2).ring? sampleName = some (RetransmitRing.alloc.pushAll (samplePair 2)) ∧
      ¬ Served (RetransmitRing.alloc.pushAll (samplePair 2)).cache.recent 2
        ((sampleShared 2).retransmitGet sampleName 2 ringRtpMax)) := by
  refine ⟨⟨climbing_pair _ (by decide +kernel), fun h => ?_⟩,
    climbing_pair _ (by decide +kernel), sampleShared_ring 2, fun h => ?_⟩
  · have hgot := h.1 (samplePacket 2).slot (by decide +kernel) (by decide +kernel)
    exact absurd hgot (by decide +kernel)
  · have hgot := h.1 (samplePacket 2).slot (by decide +kernel) (by decide +kernel)
    exact absurd hgot (by decide +kernel)

end NginxRtc
