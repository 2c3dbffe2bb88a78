/-
  The per-source retransmit ring (`ngx_rtc_shm_retransmit_t`): the recent plaintext video packets
  of a source, at absolute indices that run freely and wrap.

  `push` is the locked tail of `ngx_rtc_shm_retransmit_append`.  `recent` lists the cached packets
  from the oldest to the newest; `recent_push`: a push appends its packet and, when the ring was
  full, drops the oldest one.  `cache` is the ring as a cache of its last pushes, which is how it
  is read.
-/
import NginxRtc.Basic
import NginxRtc.Lib.CacheRing

namespace NginxRtc

/-- One cached packet; `data` is its valid prefix. -/
structure RetransmitSlot where
  len : ℕ
  isGopStart : Bool
  data : Bytes
deriving DecidableEq

def RetransmitSlot.zero : RetransmitSlot := ⟨0, false, []⟩

/-- `head` is the next absolute write index, the valid entries are `[head - count, head)`. -/
structure RetransmitRing where
  head : UInt64
  count : UInt64
  gopStart : UInt64
  cap : UInt64
  slots : List RetransmitSlot
  pow : ∃ k ≤ 16, cap.toNat = 2 ^ k
  lenEq : slots.length = cap.toNat
  fill : count.toNat ≤ cap.toNat

namespace RetransmitRing

/-- The ring `ngx_rtc_shm_retransmit_alloc_locked` zeroes. -/
def alloc : RetransmitRing where
  head := 0
  count := 0
  gopStart := 0
  cap := UInt64.ofNat shmRetxRingCap
  slots := List.replicate shmRetxRingCap RetransmitSlot.zero
  pow := ⟨10, by decide, rfl⟩
  lenEq := List.length_replicate
  fill := Nat.zero_le _

/-- `ngx_rtc_shm_retransmit_reset`: a new generation, the indices restart. -/
def reset (r : RetransmitRing) : RetransmitRing :=
  { r with head := 0, count := 0, gopStart := 0, fill := Nat.zero_le _ }

theorem toNat_count_succ {count cap : UInt64} (h : count < cap) :
    (count + 1).toNat = count.toNat + 1 := by
  have hlt : count.toNat < cap.toNat := h
  have hcap := cap.toNat_lt
  rw [UInt64.toNat_add, UInt64.toNat_one, Nat.mod_eq_of_lt (by omega)]

/-- Store one packet at `head` and advance. -/
def push (r : RetransmitRing) (rtp : Bytes) (isGopStart : Bool) : RetransmitRing :=
  { r with
    slots := r.slots.set (r.head &&& (r.cap - 1)).toNat ⟨rtp.length, isGopStart, rtp⟩
    gopStart := if isGopStart then r.head else r.gopStart
    head := r.head + 1
    count := if r.count < r.cap then r.count + 1 else r.count
    lenEq := by rw [List.length_set, r.lenEq]
    fill := by
      split_ifs with h
      · rw [toNat_count_succ h]
        exact h
      · exact r.fill }

/-- The cached packets, oldest first. -/
def recent (r : RetransmitRing) : List RetransmitSlot :=
  Window.window RetransmitSlot.zero r.slots (r.head - r.count).toNat r.count.toNat

theorem slot_eq (r : RetransmitRing) (x : UInt64) :
    (x &&& (r.cap - 1)).toNat = x.toNat % r.slots.length := by
  obtain ⟨k, -, hk⟩ := r.pow
  have h1 : (1 : UInt64) ≤ r.cap := by
    rw [UInt64.le_iff_toNat_le, hk]
    exact Nat.one_le_two_pow
  rw [r.lenEq, hk]
  refine Window.toNat_and_mask ?_ x
  rw [UInt64.toNat_sub_of_le _ _ h1, UInt64.toNat_one, hk]

theorem head_slot (r : RetransmitRing) :
    (r.head &&& (r.cap - 1)).toNat =
      ((r.head - r.count).toNat + r.count.toNat) % r.slots.length := by
  obtain ⟨k, hk16, hk⟩ := r.pow
  have he : r.head - r.count + r.count = r.head := UInt64.sub_add_cancel _ _
  rw [slot_eq, r.lenEq, hk, ← Window.toNat_add_mod (hk16.trans (by decide)), he]

/-- **A push into a ring that is not full appends its packet.** -/
theorem recent_push {r : RetransmitRing} (h : r.count < r.cap) (rtp : Bytes) (gop : Bool) :
    (r.push rtp gop).recent = r.recent ++ [⟨rtp.length, gop, rtp⟩] := by
  have hlt : r.count.toNat < r.slots.length := by
    rw [r.lenEq]
    exact h
  have hstart : r.head + 1 - (r.count + 1) = r.head - r.count := by grind
  simp only [recent, push, if_pos h, hstart, toNat_count_succ h, r.head_slot]
  exact Window.window_set_next _ hlt _

/-- **A push into a full ring drops the oldest packet and appends its own.** -/
theorem recent_push_full {r : RetransmitRing} (h : r.count = r.cap) (rtp : Bytes) (gop : Bool) :
    (r.push rtp gop).recent = r.recent.tail ++ [⟨rtp.length, gop, rtp⟩] := by
  obtain ⟨k, hk16, hk⟩ := r.pow
  have hpos : 0 < r.slots.length := by
    rw [r.lenEq, hk]
    exact Nat.two_pow_pos k
  obtain ⟨n, hn⟩ : ∃ n, r.slots.length = n + 1 := ⟨_, (Nat.succ_pred_eq_of_pos hpos).symm⟩
  have hcount : r.count.toNat = n + 1 := by rw [h, ← r.lenEq, hn]
  have hnot : ¬ r.count < r.cap := h ▸ UInt64.lt_irrefl _
  have hstart : r.head + 1 - r.count = r.head - r.count + 1 := by grind
  have hmod : (r.head - r.count + 1).toNat % r.slots.length =
      ((r.head - r.count).toNat + 1) % r.slots.length := by
    rw [r.lenEq, hk, Window.toNat_add_mod (hk16.trans (by decide)), UInt64.toNat_one]
  have hidx : (r.head &&& (r.cap - 1)).toNat =
      ((r.head - r.count + 1).toNat + n) % r.slots.length := by
    rw [r.head_slot, hcount, Nat.add_mod (r.head - r.count + 1).toNat, hmod, ← Nat.add_mod]
    congr 1
    omega
  have htail : r.recent.tail =
      Window.window RetransmitSlot.zero r.slots (r.head - r.count + 1).toNat n := by
    rw [recent, hcount, Window.window_succ, List.tail_cons, Window.window_congr_start _ hmod]
  rw [htail]
  simp only [recent, push, if_neg hnot, hstart, hcount, hidx]
  exact Window.window_set_next _ (by omega) _

end RetransmitRing

/-! ## Reading -/

instance : Inhabited RetransmitSlot := ⟨RetransmitSlot.zero⟩

/-- `ngx_rtc_shm_retx_seq`, `ngx_rtc_rtp_seq_from_data`: the sequence number of an RTP packet. -/
def rtpSeq (rtp : Bytes) : UInt16 :=
  ((rtp.getD 2 0).toUInt16 <<< 8) ||| (rtp.getD 3 0).toUInt16

def RetransmitSlot.key (s : RetransmitSlot) : BitVec 16 := (rtpSeq s.data).toBitVec

/-- The marker bit, which closes an access unit. -/
def RetransmitSlot.closes (s : RetransmitSlot) : Bool :=
  12 < s.len && s.data.getD 1 0 &&& 0x80 ≠ 0

namespace RetransmitRing

/-- The ring, its counters read as bit vectors. -/
def cache (r : RetransmitRing) : CacheRing 64 RetransmitSlot where
  head := r.head.toBitVec
  count := r.count.toBitVec
  mark := r.gopStart.toBitVec
  cap := r.cap.toBitVec
  slots := r.slots
  pow := by
    obtain ⟨k, hk, hcap⟩ := r.pow
    exact ⟨k, by omega, hcap⟩
  lenEq := r.lenEq
  fill := r.fill

theorem cache_push (r : RetransmitRing) (rtp : Bytes) (gop : Bool) :
    (r.push rtp gop).cache = r.cache.push ⟨rtp.length, gop, rtp⟩ gop := by
  have hcount : (if r.count < r.cap then r.count + 1 else r.count).toBitVec =
      if r.count.toBitVec < r.cap.toBitVec then r.count.toBitVec + 1#64 else r.count.toBitVec := by
    split_ifs <;> first | rfl | contradiction
  have hgop : (if gop then r.head else r.gopStart).toBitVec =
      if gop then r.head.toBitVec else r.gopStart.toBitVec := by
    cases gop <;> rfl
  simp only [cache, push, CacheRing.push, CacheRing.mk.injEq, hcount, hgop]
  exact ⟨rfl, rfl, trivial, trivial, rfl⟩

theorem recent_alloc : alloc.cache.recent = [] := rfl

theorem recent_reset (r : RetransmitRing) : r.reset.cache.recent = [] := rfl

end RetransmitRing

end NginxRtc
