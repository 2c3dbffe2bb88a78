/-
  The per-worker media ring (`ngx_rtc_shm_ring_t`).

  Producers write whole entries at `head`, the owning worker reads them at `tail`; both counters
  are machine words that run freely and wrap.  A `MediaRing` carries its own well-formedness: a
  power-of-two size, the mask of that size, as many entries as the size says, and never more
  unread entries than fit.

  `queue`: the unread entries in order.  `queue_enqueue`, `queue_dequeue`: an accepted enqueue
  appends one entry to it, a dequeue takes its first one.  `enqueue_eq_none`: enqueue refuses
  exactly bad arguments and a full ring.
-/
import NginxRtc.Basic
import NginxRtc.Lib.Window

namespace NginxRtc

/-- One ring slot: a plaintext RTP packet and the sessions of one worker that get it.  Only the
    valid prefixes of `sess[]` and `rtp[]` are kept. -/
structure RingEntry where
  seq : UInt64
  media : UInt8
  gop : UInt8
  len : ℕ
  nsess : ℕ
  sess : List ℕ
  rtp : Bytes
deriving DecidableEq

/-- The zeroed slot of a fresh ring. -/
def RingEntry.zero : RingEntry := ⟨0, 0, 0, 0, 0, [], []⟩

structure MediaRing where
  head : UInt64
  tail : UInt64
  size : UInt64
  mask : UInt64
  entries : List RingEntry
  pow : ∃ k ≤ 63, size.toNat = 2 ^ k
  maskEq : mask.toNat = size.toNat - 1
  lenEq : entries.length = size.toNat
  fill : (head - tail).toNat ≤ size.toNat

namespace MediaRing

theorem toNat_two_pow {k : ℕ} (hk : k ≤ 63) : (UInt64.ofNat (2 ^ k)).toNat = 2 ^ k :=
  UInt64.toNat_ofNat_of_lt' (Nat.pow_lt_pow_right Nat.one_lt_two (Nat.lt_succ_of_le hk))

/-- The ring `ngx_rtc_shm_ring_init` builds once the slot count is rounded up to `2 ^ k`. -/
def zeroed (k : ℕ) (hk : k ≤ 63) : MediaRing where
  head := 0
  tail := 0
  size := UInt64.ofNat (2 ^ k)
  mask := UInt64.ofNat (2 ^ k) - 1
  entries := List.replicate (2 ^ k) RingEntry.zero
  pow := ⟨k, hk, toNat_two_pow hk⟩
  maskEq := by
    have h1 : (1 : UInt64) ≤ UInt64.ofNat (2 ^ k) := by
      rw [UInt64.le_iff_toNat_le, toNat_two_pow hk]
      exact Nat.one_le_two_pow
    rw [UInt64.toNat_sub_of_le _ _ h1, UInt64.toNat_one]
  lenEq := by rw [List.length_replicate, toNat_two_pow hk]
  fill := by simp

/-- `ngx_rtc_shm_ring_full`. -/
def full (r : MediaRing) : Bool := r.size ≤ r.head - r.tail

/-- `ngx_rtc_shm_ring_empty`. -/
def isEmpty (r : MediaRing) : Bool := r.head = r.tail

/-- The argument checks of `ngx_rtc_shm_ring_enqueue`. -/
def argsOk (rtp : Bytes) (sessIds : List ℕ) : Bool :=
  rtp.length ≠ 0 && rtp.length ≤ ringRtpMax && sessIds.length ≠ 0 &&
    sessIds.length ≤ ringMaxSessions

/-- The entry an enqueue writes. -/
def entryOf (r : MediaRing) (media gop : UInt8) (rtp : Bytes) (sessIds : List ℕ) : RingEntry :=
  ⟨r.head, media, gop, rtp.length, sessIds.length, sessIds, rtp⟩

theorem fill_succ {head tail size : UInt64} (hs : size.toNat < 2 ^ 64)
    (h : ¬ size ≤ head - tail) : (head + 1 - tail).toNat = (head - tail).toNat + 1 := by
  have he : head + 1 - tail = head - tail + 1 := by
    rw [UInt64.sub_eq_add_neg, UInt64.sub_eq_add_neg, UInt64.add_assoc, UInt64.add_assoc,
      UInt64.add_comm 1]
  have hlt : (head - tail).toNat < size.toNat := by
    simpa only [UInt64.le_iff_toNat_le, not_le] using h
  rw [he, UInt64.toNat_add, UInt64.toNat_one, Nat.mod_eq_of_lt (by omega)]

theorem fill_pred {head tail : UInt64} (h : head ≠ tail) :
    (head - (tail + 1)).toNat + 1 = (head - tail).toNat := by
  have he : head - (tail + 1) = head - tail - 1 := by grind
  have h0 : head - tail ≠ 0 := by grind
  have h1 : (1 : UInt64) ≤ head - tail := by
    rw [UInt64.le_iff_toNat_le, UInt64.toNat_one]
    exact Nat.one_le_iff_ne_zero.2 fun hz => h0 (UInt64.toNat_inj.1 hz)
  have hpos : 1 ≤ (head - tail).toNat := by
    simpa only [UInt64.le_iff_toNat_le, UInt64.toNat_one] using h1
  rw [he, UInt64.toNat_sub_of_le _ _ h1, UInt64.toNat_one, Nat.sub_add_cancel hpos]

/-- `ngx_rtc_shm_ring_enqueue`; `none` is `NGX_ERROR`. -/
def enqueue (r : MediaRing) (media gop : UInt8) (rtp : Bytes) (sessIds : List ℕ) :
    Option MediaRing :=
  if !argsOk rtp sessIds then none
  else if h : r.size ≤ r.head - r.tail then none
  else some
    { r with
      head := r.head + 1
      entries := r.entries.set (r.head &&& r.mask).toNat (r.entryOf media gop rtp sessIds)
      lenEq := by rw [List.length_set, r.lenEq]
      fill := by
        have hlt : (r.head - r.tail).toNat < r.size.toNat := by
          simpa only [UInt64.le_iff_toNat_le, not_le] using h
        rw [fill_succ r.size.toNat_lt h]
        exact hlt }

/-- `ngx_rtc_shm_ring_dequeue`; `none` is `NGX_ERROR`. -/
def dequeue (r : MediaRing) : Option (RingEntry × MediaRing) :=
  if h : r.head = r.tail then none
  else some (r.entries.getD (r.tail &&& r.mask).toNat RingEntry.zero,
    { r with
      tail := r.tail + 1
      fill := by
        have hle := r.fill
        rw [← fill_pred h] at hle
        exact Nat.le_of_succ_le hle })

/-- The unread entries, oldest first. -/
def queue (r : MediaRing) : List RingEntry :=
  Window.window RingEntry.zero r.entries r.tail.toNat (r.head - r.tail).toNat

/-! ## Cells -/

/-- A masked counter is the counter modulo the number of cells, also after it wrapped. -/
theorem slot_eq (r : MediaRing) (x : UInt64) :
    (x &&& r.mask).toNat = x.toNat % r.entries.length := by
  obtain ⟨k, -, hk⟩ := r.pow
  rw [r.lenEq, hk]
  exact Window.toNat_and_mask (by rw [r.maskEq, hk]) x

theorem head_slot (r : MediaRing) :
    (r.head &&& r.mask).toNat =
      (r.tail.toNat + (r.head - r.tail).toNat) % r.entries.length := by
  obtain ⟨k, hk63, hk⟩ := r.pow
  rw [slot_eq, r.lenEq, hk]
  exact Window.toNat_mod_eq_add_sub (Nat.le_succ_of_le hk63) r.head r.tail

theorem length_queue (r : MediaRing) : r.queue.length = (r.head - r.tail).toNat :=
  Window.length_window ..

theorem length_queue_le (r : MediaRing) : r.queue.length ≤ r.size.toNat :=
  r.length_queue ▸ r.fill

theorem full_iff (r : MediaRing) : r.full = true ↔ r.queue.length = r.size.toNat := by
  rw [full, decide_eq_true_eq, UInt64.le_iff_toNat_le, ← length_queue]
  exact ⟨fun h => le_antisymm r.length_queue_le h, fun h => h.ge⟩

/-! ## FIFO -/

/-- **Enqueue refuses exactly bad arguments and a full ring.** -/
theorem enqueue_eq_none {r : MediaRing} {media gop : UInt8} {rtp : Bytes} {ids : List ℕ} :
    r.enqueue media gop rtp ids = none ↔ argsOk rtp ids = false ∨ r.full = true := by
  unfold enqueue full
  split_ifs with ha hf <;> simp_all

theorem enqueue_isSome {r : MediaRing} {media gop : UInt8} {rtp : Bytes} {ids : List ℕ}
    (ha : argsOk rtp ids = true) (hf : r.full = false) :
    ∃ r', r.enqueue media gop rtp ids = some r' := by
  refine Option.ne_none_iff_exists'.1 fun hn => ?_
  rcases enqueue_eq_none.1 hn with h | h
  · rw [ha] at h; contradiction
  · rw [hf] at h; contradiction

/-- **An accepted enqueue appends one entry.** -/
theorem queue_enqueue {r r' : MediaRing} {media gop : UInt8} {rtp : Bytes} {ids : List ℕ}
    (h : r.enqueue media gop rtp ids = some r') :
    r'.queue = r.queue ++ [r.entryOf media gop rtp ids] := by
  unfold enqueue at h
  split_ifs at h with ha hf
  obtain rfl := Option.some.inj h
  have hlt : (r.head - r.tail).toNat < r.entries.length := by
    rw [r.lenEq]
    simpa only [UInt64.le_iff_toNat_le, not_le] using hf
  simp only [queue, fill_succ r.size.toNat_lt hf, r.head_slot]
  exact Window.window_set_next _ hlt _

/-- **A dequeue takes the oldest entry.** -/
theorem queue_dequeue {r r' : MediaRing} {e : RingEntry} (h : r.dequeue = some (e, r')) :
    r.queue = e :: r'.queue := by
  unfold dequeue at h
  split_ifs at h with ht
  obtain ⟨rfl, rfl⟩ := Prod.mk.inj (Option.some.inj h)
  simp only [queue, ← fill_pred ht, Window.window_succ, r.slot_eq]
  congr 1
  refine Window.window_congr_start _ ?_ _
  obtain ⟨k, hk63, hk⟩ := r.pow
  rw [r.lenEq, hk, Window.toNat_add_mod (Nat.le_succ_of_le hk63), UInt64.toNat_one]

end MediaRing

end NginxRtc
