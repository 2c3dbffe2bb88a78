/-
  The media ring as a queue between its producers and its consumer.

  `ringInit` is `ngx_rtc_shm_ring_init` (`ngx_rtc_shm.c`): round the slot count up to a power of two
  and ask the slab for a block of that many slots.  The size of the block is a machine word, too, so
  it can wrap, and the block is then too short for the slots the ring believes to have.

  `fifo_run`: what was dequeued and what is still queued make up what was accepted, in order.
  `ringInit_serves_iff`: a ring that was given a block serves the requested number of slots as a
  lossless queue exactly when at most `2 ^ 52` slots were requested.
-/
import NginxRtc.Lib.Run
import NginxRtc.Lib.Smear
import NginxRtc.Shm.Ring

namespace NginxRtc

/-! ## Rounding up -/

def smearWord (s v : UInt64) : UInt64 := v ||| (v >>> s)

/-- `ngx_rtc_shm_ring_next_pow2`. -/
def ringNextPow2 (v : UInt64) : UInt64 :=
  smearWord 32 (smearWord 16 (smearWord 8 (smearWord 4 (smearWord 2 (smearWord 1 (v - 1)))))) + 1

theorem toNat_smearWord {s : UInt64} (hs : s.toNat < 64) (v : UInt64) :
    (smearWord s v).toNat = Smear.smear s.toNat v.toNat := by
  rw [smearWord, UInt64.toNat_or, UInt64.toNat_shiftRight, Nat.mod_eq_of_lt hs, Smear.smear]

theorem toNat_sub_one {v : UInt64} (h : v ≠ 0) : (v - 1).toNat + 1 = v.toNat := by
  have h1 : (1 : UInt64) ≤ v := by
    rw [UInt64.le_iff_toNat_le, UInt64.toNat_one]
    exact Nat.one_le_iff_ne_zero.2 fun hz => h (UInt64.toNat_inj.1 hz)
  have hpos : 1 ≤ v.toNat := by
    simpa only [UInt64.le_iff_toNat_le, UInt64.toNat_one] using h1
  rw [UInt64.toNat_sub_of_le _ _ h1, UInt64.toNat_one, Nat.sub_add_cancel hpos]

/-- The result is a power of two, modulo the word. -/
theorem toNat_ringNextPow2 (v : UInt64) :
    (ringNextPow2 v).toNat = 2 ^ (v - 1).toNat.size % 2 ^ 64 := by
  have hfill := Smear.fill_eq (v - 1).toNat_lt
  rw [ringNextPow2, UInt64.toNat_add, UInt64.toNat_one]
  iterate 6 rw [toNat_smearWord (by decide)]
  have he : Smear.fill (v - 1).toNat + 1 = 2 ^ (v - 1).toNat.size := by
    rw [hfill, Nat.sub_add_cancel Nat.one_le_two_pow]
  rw [← he]
  rfl

theorem ringNextPow2_pow {v : UInt64} (h : ringNextPow2 v ≠ 0) :
    ∃ k ≤ 63, (ringNextPow2 v).toNat = 2 ^ k := by
  have hv := toNat_ringNextPow2 v
  have hsize : (v - 1).toNat.size ≤ 64 := Nat.size_le.2 (v - 1).toNat_lt
  by_cases hk : (v - 1).toNat.size = 64
  · rw [hk, Nat.mod_self] at hv
    exact absurd (UInt64.toNat_inj.1 hv) h
  · refine ⟨(v - 1).toNat.size, by omega, ?_⟩
    rw [hv, Nat.mod_eq_of_lt (Nat.pow_lt_pow_right Nat.one_lt_two (by omega))]

/-- Below the top half of the words, the result is at least the argument and below its double. -/
theorem ringNextPow2_bounds {v : UInt64} (h0 : v ≠ 0) {m : ℕ} (hm : m ≤ 63)
    (h : v.toNat ≤ 2 ^ m) :
    v.toNat ≤ (ringNextPow2 v).toNat ∧ (ringNextPow2 v).toNat ≤ 2 ^ m := by
  have hp := toNat_sub_one h0
  have hsize : (v - 1).toNat.size ≤ m := Nat.size_le.2 (by omega)
  have hlt := Nat.lt_size_self (v - 1).toNat
  rw [toNat_ringNextPow2, Nat.mod_eq_of_lt (Nat.pow_lt_pow_right Nat.one_lt_two (by omega))]
  exact ⟨by omega, Nat.pow_le_pow_right Nat.two_pos hsize⟩

/-- Above it the result is larger, or it wrapped to zero. -/
theorem ringNextPow2_large {v : UInt64} {m : ℕ} (h : 2 ^ m < v.toNat)
    (hr : ringNextPow2 v ≠ 0) : 2 ^ (m + 1) ≤ (ringNextPow2 v).toNat := by
  have h0 : v ≠ 0 := by
    rintro rfl
    exact absurd h (Nat.not_lt_zero _)
  have hp := toNat_sub_one h0
  obtain ⟨k, hk, hpow⟩ := ringNextPow2_pow hr
  have hv := toNat_ringNextPow2 v
  have hsize : m + 1 ≤ (v - 1).toNat.size := by
    by_contra hlt
    have hle := Nat.size_le.1 (show (v - 1).toNat.size ≤ m by omega)
    omega
  have h64 : (v - 1).toNat.size ≤ 64 := Nat.size_le.2 (v - 1).toNat_lt
  have hne : (v - 1).toNat.size ≠ 64 := by
    intro he
    rw [he, Nat.mod_self] at hv
    exact hr (UInt64.toNat_inj.1 hv)
  rw [hv, Nat.mod_eq_of_lt (Nat.pow_lt_pow_right Nat.one_lt_two (by omega))]
  exact Nat.pow_le_pow_right Nat.two_pos hsize

/-! ## Building a ring -/

/-- `sizeof(ngx_rtc_ring_entry_t)`. -/
def ringEntrySize : ℕ := 2056

/-- The block `ngx_rtc_shm_ring_init` asks for; `hdr` is the offset of the slots in it. -/
def ringBytes (hdr cap : UInt64) : UInt64 := hdr + cap * UInt64.ofNat ringEntrySize

/-- What the caller gets: a ring, or a block with fewer slots than the ring in it says it has. -/
inductive RingBlock where
  | ring (r : MediaRing)
  | short (size bytes : UInt64)

/-- The zeroed ring of `cap` slots. -/
def MediaRing.ofCap (cap : UInt64) (h : ∃ k ≤ 63, cap.toNat = 2 ^ k) : MediaRing where
  head := 0
  tail := 0
  size := cap
  mask := cap - 1
  entries := List.replicate cap.toNat RingEntry.zero
  pow := h
  maskEq := by
    have h0 : cap ≠ 0 := by
      rintro rfl
      obtain ⟨k, -, hk⟩ := h
      exact absurd hk.symm (Nat.two_pow_pos k).ne'
    exact Nat.eq_sub_of_add_eq (toNat_sub_one h0)
  lenEq := List.length_replicate
  fill := by simp

/-- `ngx_rtc_shm_ring_init`; `slab` says which blocks the pool has room for. -/
def ringInit (slab : UInt64 → Bool) (hdr slots : UInt64) : Option RingBlock :=
  if slots = 0 then none
  else if !slab (ringBytes hdr (ringNextPow2 slots)) then none
  else if h : ringNextPow2 slots ≠ 0 then
    if hdr.toNat + (ringNextPow2 slots).toNat * ringEntrySize ≤
        (ringBytes hdr (ringNextPow2 slots)).toNat then
      some (.ring (MediaRing.ofCap (ringNextPow2 slots) (ringNextPow2_pow h)))
    else some (.short (ringNextPow2 slots) (ringBytes hdr (ringNextPow2 slots)))
  else some (.short (ringNextPow2 slots) (ringBytes hdr (ringNextPow2 slots)))

/-! ## Runs -/

/-- What one enqueue hands over. -/
structure RingPacket where
  media : UInt8
  gop : UInt8
  len : ℕ
  sess : List ℕ
  rtp : Bytes

def RingEntry.packet (e : RingEntry) : RingPacket := ⟨e.media, e.gop, e.len, e.sess, e.rtp⟩

/-- The calls of the producers and of the consumer, each made under the lock of the ring. -/
inductive RingEvent where
  | enqueue (media gop : UInt8) (rtp : Bytes) (sessIds : List ℕ)
  | dequeue

/-- A ring, what its producers have put into it and what its consumer has taken out. -/
structure RingRun where
  ring : MediaRing
  accepted : List RingPacket
  taken : List RingPacket

namespace RingRun

def start (r : MediaRing) : RingRun := ⟨r, [], []⟩

def step (s : RingRun) : RingEvent → RingRun
  | .enqueue media gop rtp sessIds =>
    match s.ring.enqueue media gop rtp sessIds with
    | none => s
    | some r =>
      ⟨r, s.accepted ++ [⟨media, gop, rtp.length, sessIds, rtp⟩], s.taken⟩
  | .dequeue =>
    match s.ring.dequeue with
    | none => s
    | some (e, r) => ⟨r, s.accepted, s.taken ++ [e.packet]⟩

/-- Everything accepted was taken out or is still queued, in order. -/
def Fifo (s : RingRun) : Prop := s.accepted = s.taken ++ s.ring.queue.map RingEntry.packet

theorem Fifo.step {s : RingRun} (h : s.Fifo) (e : RingEvent) : (s.step e).Fifo := by
  cases e with
  | enqueue media gop rtp sessIds =>
    simp only [RingRun.step]
    split
    · exact h
    · next r hr =>
      have hq := MediaRing.queue_enqueue hr
      simp only [Fifo, hq, List.map_append, ← List.append_assoc]
      rw [← (show s.accepted = _ from h)]
      rfl
  | dequeue =>
    simp only [RingRun.step]
    split
    · exact h
    · next e r hr =>
      have hq := MediaRing.queue_dequeue hr
      rw [Fifo, hq, List.map_cons] at h
      simp only [Fifo, h, List.append_assoc, List.singleton_append]

theorem step_size (s : RingRun) (e : RingEvent) : (s.step e).ring.size = s.ring.size := by
  cases e with
  | enqueue media gop rtp sessIds =>
    simp only [RingRun.step]
    split
    · rfl
    · next r hr =>
      unfold MediaRing.enqueue at hr
      split_ifs at hr
      obtain rfl := Option.some.inj hr
      rfl
  | dequeue =>
    simp only [RingRun.step]
    split
    · rfl
    · next e r hr =>
      unfold MediaRing.dequeue at hr
      split_ifs at hr
      obtain ⟨-, rfl⟩ := Prod.mk.inj (Option.some.inj hr)
      rfl

theorem run_size (s : RingRun) (es : List RingEvent) :
    (Lts.run step s es).ring.size = s.ring.size := by
  induction es generalizing s with
  | nil => rfl
  | cons e es ih => exact (ih (s.step e)).trans (s.step_size e)

/-- **What was accepted was taken out, or is still queued**, in every state of every run. -/
theorem fifo_run {s : RingRun} (h : s.Fifo) (es : List RingEvent) : (Lts.run step s es).Fifo := by
  induction es generalizing s with
  | nil => exact h
  | cons e es ih => exact ih (h.step e)

theorem fifo_start {r : MediaRing} (h : r.head = r.tail) : (start r).Fifo := by
  have hq : r.queue = [] := by
    rw [← List.length_eq_zero_iff, MediaRing.length_queue, h, UInt64.sub_self]
    rfl
  rw [Fifo, start, hq]
  rfl

end RingRun

/-- The ring has at least the requested slots; what comes out is what was accepted, in order and
    without loss; and a refused call found the ring full or its arguments out of range. -/
structure MediaRing.Serves (r : MediaRing) (slots : UInt64) : Prop where
  room : slots ≤ r.size
  fifo : ∀ es, (Lts.run RingRun.step (.start r) es).Fifo
  refuses : ∀ es media gop rtp sessIds,
    (Lts.run RingRun.step (.start r) es).ring.enqueue media gop rtp sessIds = none ↔
      argsOk rtp sessIds = false ∨
        (Lts.run RingRun.step (.start r) es).ring.queue.length = r.size.toNat

theorem MediaRing.serves_ofCap {cap slots : UInt64} (h : ∃ k ≤ 63, cap.toNat = 2 ^ k)
    (hs : slots ≤ cap) : (ofCap cap h).Serves slots where
  room := hs
  fifo es := RingRun.fifo_run (RingRun.fifo_start rfl) es
  refuses es media gop rtp sessIds := by
    have hsize : (Lts.run RingRun.step (.start (ofCap cap h)) es).ring.size = cap :=
      RingRun.run_size _ es
    rw [MediaRing.enqueue_eq_none, MediaRing.full_iff, hsize]
    rfl

/-- The block is long enough exactly if its size did not wrap. -/
theorem ringBytes_fits_iff {hdr slots : UInt64} (hhdr : hdr.toNat ≤ 2 ^ 32) (h0 : slots ≠ 0)
    (hr : ringNextPow2 slots ≠ 0) :
    hdr.toNat + (ringNextPow2 slots).toNat * ringEntrySize ≤
      (ringBytes hdr (ringNextPow2 slots)).toNat ↔ slots.toNat ≤ 2 ^ 52 := by
  have hlt := (ringBytes hdr (ringNextPow2 slots)).toNat_lt
  constructor
  · intro hfit
    by_contra hgt
    have hcap := ringNextPow2_large (not_le.1 hgt) hr
    simp only [ringEntrySize] at hfit
    omega
  · intro hs
    obtain ⟨-, hcap⟩ := ringNextPow2_bounds h0 (by decide) hs
    have hmul : (ringNextPow2 slots * UInt64.ofNat ringEntrySize).toNat =
        (ringNextPow2 slots).toNat * ringEntrySize := by
      rw [UInt64.toNat_mul]
      refine Nat.mod_eq_of_lt ?_
      show (ringNextPow2 slots).toNat * 2056 < 2 ^ 64
      omega
    rw [ringBytes, UInt64.toNat_add, hmul, Nat.mod_eq_of_lt]
    simp only [ringEntrySize]
    omega

/-- **The ring of a successful init serves the requested slots** as a lossless queue exactly when
    at most `2 ^ 52` slots were requested; above that the size of its block wrapped. -/
theorem ringInit_serves_iff {slab : UInt64 → Bool} {hdr slots : UInt64} (hhdr : hdr.toNat ≤ 2 ^ 32)
    {b : RingBlock} (h : ringInit slab hdr slots = some b) :
    (∃ r, b = .ring r ∧ r.Serves slots) ↔ slots.toNat ≤ 2 ^ 52 := by
  unfold ringInit at h
  split_ifs at h with h0 hslab hr hfit
  · obtain rfl := Option.some.inj h
    have hs := (ringBytes_fits_iff hhdr h0 hr).1 hfit
    exact iff_of_true ⟨_, rfl, MediaRing.serves_ofCap _
      (UInt64.le_iff_toNat_le.2 (ringNextPow2_bounds h0 (by decide) hs).1)⟩ hs
  · obtain rfl := Option.some.inj h
    refine iff_of_false (fun hex => ?_) fun hs => hfit ((ringBytes_fits_iff hhdr h0 hr).2 hs)
    obtain ⟨r, hb, -⟩ := hex
    exact nomatch hb
  · obtain rfl := Option.some.inj h
    refine iff_of_false (fun hex => ?_) fun hs => hr fun hz => ?_
    · obtain ⟨r, hb, -⟩ := hex
      exact nomatch hb
    · have hle := (ringNextPow2_bounds h0 (by decide) hs).1
      rw [hz] at hle
      exact h0 (UInt64.toNat_inj.1 (Nat.le_zero.1 hle))

/-- A ring of 500 slots. -/
theorem ringInit_serves_500 :
    ∃ r, ringInit (fun _ => true) 112 500 = some (.ring r) ∧ r.Serves 500 := by
  obtain ⟨b, hb⟩ : ∃ b, ringInit (fun _ => true) 112 500 = some b :=
    Option.isSome_iff_exists.1 (by decide +kernel)
  obtain ⟨r, rfl, hs⟩ := (ringInit_serves_iff (by decide) hb).2 (by decide)
  exact ⟨r, hb, hs⟩

/-- Just over `2 ^ 60` slots: the ring has `2 ^ 61` of them, in a block of the header alone. -/
theorem ringInit_short :
    ringInit (fun bytes => bytes ≤ 16777216) 112 1152921504606846977 =
      some (.short 2305843009213693952 112) ∧
    ¬ ∃ b, ringInit (fun bytes => bytes ≤ 16777216) 112 1152921504606846977 = some b ∧
      ∃ r, b = .ring r ∧ r.Serves 1152921504606846977 := by
  have hcap : ringNextPow2 1152921504606846977 = 2305843009213693952 := by decide +kernel
  have hbytes : ringBytes 112 2305843009213693952 = 112 := by decide +kernel
  have h : ringInit (fun bytes => bytes ≤ 16777216) 112 1152921504606846977 =
      some (.short 2305843009213693952 112) := by
    simp [ringInit, hcap, hbytes, ringEntrySize]
  refine ⟨h, ?_⟩
  rintro ⟨b, hb, r, hr, -⟩
  rw [h] at hb
  exact nomatch (Option.some.inj hb).trans hr

end NginxRtc
