/-
  The byte ring of the audio worker (`ngx_rtc_vring_t` of `ngx_rtc_ring.c`).

  A record is its length, as the host stores a `uint32_t`, and its bytes; the records stand one
  behind the other in a circular buffer.  All arithmetic is that of `uint32_t`, also in the test of a
  push for room.  A copy that leaves a buffer has no result.

  `Models`: the buffer holds a queue of byte strings.  `vring_fifo`: along a run every call answers
  as that queue does, exactly if no push finds so much in the ring that the test for room wraps.
  `vring_forgets`: in a ring of 2^31 - 1 bytes a push wraps it, and two records are gone.
  `audio_fifo`: the rings of the audio worker are queues in every run.
-/
import NginxRtc.Basic
import NginxRtc.Lib.Circular
import NginxRtc.Lib.Run
import NginxRtc.Lib.Wire

namespace NginxRtc

/-! ## The code -/

/-- How the host stores a `uint32_t`. -/
structure HostWord where
  enc : UInt32 → Bytes
  dec : Bytes → UInt32
  length_enc : ∀ n, (enc n).length = 4
  dec_enc : ∀ n, dec (enc n) = n

/-- The low byte first. -/
def HostWord.little : HostWord where
  enc n := (Wire.wr32 n).reverse
  dec b := (Wire.rd32 b.reverse 0).getD 0
  length_enc _ := rfl
  dec_enc n := by
    rw [List.reverse_reverse]
    exact Wire.word32_bytes n

/-- `ngx_rtc_vring_t`; `buf` is `NULL` in a ring that was not initialised. -/
structure Vring where
  buf : Option Bytes
  capacity : UInt32
  head : UInt32
  tail : UInt32
  bytes : UInt32

namespace Vring

/-- `ngx_rtc_vring_write_at`: `memcpy` of the `n` bytes of `src`, in two parts past the end. -/
def writeAt (buf : Bytes) (capacity off : UInt32) (src : Bytes) (n : UInt32) : Option Bytes :=
  let first := if n < capacity - off then n else capacity - off
  (Circular.copyIn buf off.toNat (src.take first.toNat)).bind fun buf =>
    if first < n then Circular.copyIn buf 0 ((src.drop first.toNat).take (n - first).toNat)
    else some buf

/-- `ngx_rtc_vring_read_at`. -/
def readAt (buf : Bytes) (capacity off n : UInt32) : Option Bytes :=
  let first := if n < capacity - off then n else capacity - off
  (Circular.copyOut buf off.toNat first.toNat).bind fun dst =>
    if first < n then (Circular.copyOut buf 0 (n - first).toNat).map (dst ++ ·) else some dst

/-- `ngx_rtc_vring_init`; `calloc` is the answer of the allocator. -/
def init (capacity : UInt32) (calloc : Bool) : Option Vring :=
  if capacity = 0 then none
  else if calloc then some ⟨some (List.replicate capacity.toNat 0), capacity, 0, 0, 0⟩
  else none

/-- `ngx_rtc_vring_push` of the `data`, whose length is a `uint32_t`: whether it succeeds, and the
    ring. -/
def push (host : HostWord) (r : Vring) (data : Bytes) : Option (Bool × Vring) :=
  let len := UInt32.ofNat data.length
  match r.buf with
  | none => some (false, r)
  | some buf =>
    if len = 0 then some (false, r)
    else if r.capacity < r.bytes + (4 + len) then some (false, r)
    else
      (writeAt buf r.capacity r.head (host.enc len) 4).bind fun buf =>
      (writeAt buf r.capacity ((r.head + 4) % r.capacity) data len).map fun buf =>
        (true, { r with
          buf := some buf
          head := (r.head + (4 + len)) % r.capacity
          bytes := r.bytes + (4 + len) })

/-- `ngx_rtc_vring_pop` into a buffer of `outCap` bytes: the record, if there is one that fits. -/
def pop (host : HostWord) (r : Vring) (outCap : UInt32) : Option (Option Bytes × Vring) :=
  match r.buf with
  | none => some (none, r)
  | some buf =>
    if r.bytes = 0 then some (none, r)
    else
      (readAt buf r.capacity r.tail 4).bind fun stored =>
        let len := host.dec stored
        if outCap < len then some (none, r)
        else
          (readAt buf r.capacity ((r.tail + 4) % r.capacity) len).map fun out =>
            (some out, { r with
              tail := (r.tail + (4 + len)) % r.capacity
              bytes := r.bytes - (4 + len) })

/-- `ngx_rtc_vring_empty`. -/
def isEmpty (r : Vring) : Bool := r.buf.isNone || r.bytes = 0

/-! ## Copies around the end -/

section Copies
variable {buf src : Bytes} {capacity off n : UInt32}

/-- The first part of a copy. -/
theorem first_toNat (hoff : off.toNat < capacity.toNat) :
    (if n < capacity - off then n else capacity - off).toNat =
      min (capacity.toNat - off.toNat) n.toNat := by
  have hsub : (capacity - off).toNat = capacity.toNat - off.toNat :=
    UInt32.toNat_sub_of_le _ _ (UInt32.le_iff_toNat_le.2 hoff.le)
  split_ifs with h
  · rw [UInt32.lt_iff_toNat_lt, hsub] at h
    omega
  · rw [UInt32.lt_iff_toNat_lt, hsub] at h
    omega

theorem writeAt_eq (hcap : capacity.toNat = buf.length) (hoff : off.toNat < capacity.toNat)
    (hn : n.toNat = src.length) :
    writeAt buf capacity off src n = Circular.put buf off.toNat src := by
  have hfirst := first_toNat (n := n) hoff
  unfold writeAt Circular.put
  dsimp only
  generalize (if n < capacity - off then n else capacity - off) = first at hfirst
  have htake : src.take first.toNat = src.take (buf.length - off.toNat) := by
    rw [hfirst, hn, hcap, List.take_eq_take_iff]
    omega
  rw [htake]
  congr 1
  funext b
  by_cases hwrap : buf.length - off.toNat < src.length
  · have heq : first.toNat = buf.length - off.toNat := by omega
    have hlt : first < n := UInt32.lt_iff_toNat_lt.2 (by omega)
    have hrest : (n - first).toNat = n.toNat - first.toNat :=
      UInt32.toNat_sub_of_le _ _ (UInt32.le_iff_toNat_le.2 (by omega))
    rw [if_pos hlt, if_pos hwrap, hrest, heq,
      List.take_of_length_le (by rw [List.length_drop]; omega)]
  · have hge : ¬ first < n := fun h => by
      rw [UInt32.lt_iff_toNat_lt] at h
      omega
    rw [if_neg hge, if_neg hwrap]

theorem readAt_eq (hcap : capacity.toNat = buf.length) (hoff : off.toNat < capacity.toNat) :
    readAt buf capacity off n = Circular.get buf off.toNat n.toNat := by
  have hfirst := first_toNat (n := n) hoff
  unfold readAt Circular.get
  dsimp only
  generalize (if n < capacity - off then n else capacity - off) = first at hfirst
  rw [hfirst, hcap]
  congr 1
  funext s
  by_cases hwrap : buf.length - off.toNat < n.toNat
  · have heq : first.toNat = buf.length - off.toNat := by omega
    have hlt : first < n := UInt32.lt_iff_toNat_lt.2 (by omega)
    have hrest : (n - first).toNat = n.toNat - first.toNat :=
      UInt32.toNat_sub_of_le _ _ (UInt32.le_iff_toNat_le.2 (by omega))
    rw [if_pos hlt, if_pos hwrap, hrest, heq]
  · have hge : ¬ first < n := fun h => by
      rw [UInt32.lt_iff_toNat_lt] at h
      omega
    rw [if_neg hge, if_neg hwrap]

/-- A copy that is no longer than the buffer stays inside. -/
theorem writeAt_some (hcap : capacity.toNat = buf.length) (hoff : off.toNat < capacity.toNat)
    (hn : n.toNat = src.length) (hs : src.length ≤ buf.length) :
    ∃ b, writeAt buf capacity off src n = some b ∧ b.length = buf.length := by
  obtain ⟨b, hb, hlen, -⟩ := Circular.put_some (hcap ▸ hoff) hs
  exact ⟨b, (writeAt_eq hcap hoff hn).trans hb, hlen⟩

end Copies

/-! ## The queue in the buffer -/

/-- The bytes that a queue of records takes. -/
def used (q : List Bytes) : ℕ := (q.map fun d => 4 + d.length).sum

/-- The records one behind the other. -/
def frames (host : HostWord) (q : List Bytes) : Bytes :=
  q.flatMap fun d => host.enc (UInt32.ofNat d.length) ++ d

@[simp] theorem used_nil : used [] = 0 := rfl

@[simp] theorem used_cons (d : Bytes) (q : List Bytes) : used (d :: q) = 4 + d.length + used q := by
  simp [used]

@[simp] theorem used_snoc (q : List Bytes) (d : Bytes) :
    used (q ++ [d]) = used q + (4 + d.length) := by
  simp [used]

@[simp] theorem frames_cons (host : HostWord) (d : Bytes) (q : List Bytes) :
    frames host (d :: q) = host.enc (UInt32.ofNat d.length) ++ (d ++ frames host q) := by
  simp [frames]

theorem frames_snoc (host : HostWord) (q : List Bytes) (d : Bytes) :
    frames host (q ++ [d]) = frames host q ++ host.enc (UInt32.ofNat d.length) ++ d := by
  simp [frames]

@[simp] theorem length_frames (host : HostWord) (q : List Bytes) :
    (frames host q).length = used q := by
  induction q with
  | nil => rfl
  | cons d q ih =>
    rw [frames_cons, List.length_append, List.length_append, host.length_enc, ih, used_cons]
    omega

/-- The ring of `c` bytes holds the records `q`. -/
structure Models (host : HostWord) (c : ℕ) (q : List Bytes) (r : Vring) : Prop where
  buf : ∃ buf, r.buf = some buf ∧ buf.length = c ∧ Circular.Holds buf r.tail.toNat (frames host q)
  capacity : r.capacity.toNat = c
  tail : r.tail.toNat < c
  head : r.head.toNat = (r.tail.toNat + used q) % c
  bytes : r.bytes.toNat = used q
  fits : used q ≤ c
  pos : ∀ d ∈ q, 0 < d.length

theorem models_init (host : HostWord) {capacity : UInt32} {r : Vring}
    (h : init capacity true = some r) : r.Models host capacity.toNat [] := by
  unfold init at h
  split_ifs at h with h0
  obtain rfl := Option.some.inj h
  have hpos : 0 < capacity.toNat := by
    rw [Nat.pos_iff_ne_zero]
    exact fun he => h0 (UInt32.toNat_inj.1 he)
  have hempty : Circular.Holds (List.replicate capacity.toNat (0 : UInt8)) 0 (frames host []) :=
    Circular.holds_nil _ _
  exact ⟨⟨_, rfl, List.length_replicate, hempty⟩, rfl, hpos, (Nat.zero_mod _).symm, rfl,
    Nat.zero_le _, fun _ h => nomatch h⟩

section Calls
variable {host : HostWord} {c : ℕ} {q : List Bytes} {r : Vring} {d : Bytes}

theorem Models.isEmpty_iff (h : r.Models host c q) : r.isEmpty = true ↔ q = [] := by
  obtain ⟨buf, hbuf, -⟩ := h.buf
  have hzero : r.bytes = 0 ↔ used q = 0 := by
    rw [← h.bytes]
    exact UInt32.toNat_inj.symm
  rw [isEmpty, hbuf, Option.isNone_some, Bool.false_or, decide_eq_true_iff, hzero]
  cases q with
  | nil => exact iff_of_true rfl rfl
  | cons d q => exact iff_of_false (by rw [used_cons]; omega) (List.cons_ne_nil d q)

theorem toNat_length {n : ℕ} (h : n < 2 ^ 31) : (UInt32.ofNat n).toNat = n :=
  UInt32.toNat_ofNat_of_lt' (by
    show n < 4294967296
    omega)

/-- The next offset around the end. -/
theorem toNat_advance {off n capacity : UInt32} (h : off.toNat + n.toNat < 2 ^ 32) :
    ((off + n) % capacity).toNat = (off.toNat + n.toNat) % capacity.toNat := by
  rw [UInt32.toNat_mod, UInt32.toNat_add, Nat.mod_eq_of_lt h]

theorem Models.head_lt (h : r.Models host c q) : r.head.toNat < c := by
  rw [h.head]
  exact Nat.mod_lt _ (Nat.zero_lt_of_lt h.tail)

/-- What a push does once it has found room: the record stands behind the others. -/
theorem Models.store (h : r.Models host c q) (hc : c < 2 ^ 31) (hlen : d.length < 2 ^ 31)
    (hfit : used q + (4 + d.length) ≤ c) {buf : Bytes} (hbuf : r.buf = some buf) :
    ∃ b b', writeAt buf r.capacity r.head (host.enc (UInt32.ofNat d.length)) 4 = some b ∧
      writeAt b r.capacity ((r.head + 4) % r.capacity) d (UInt32.ofNat d.length) = some b' ∧
      b'.length = c ∧ Circular.Holds b' r.tail.toNat (frames host (q ++ [d])) := by
  obtain ⟨buf', hbuf', rfl, hholds⟩ := h.buf
  obtain rfl := Option.some.inj (hbuf.symm.trans hbuf')
  have htail := h.tail
  have hpos : 0 < buf.length := by omega
  have hhead := h.head_lt
  have henc := host.length_enc (UInt32.ofNat d.length)
  -- the length
  obtain ⟨b, hb, hblen, hbholds, hbkeep⟩ := Circular.put_some hhead
    (show (host.enc (UInt32.ofNat d.length)).length ≤ buf.length by omega)
  rw [h.head] at hb hbholds hbkeep
  have hfront : Circular.Holds b r.tail.toNat (frames host q) :=
    hholds.put_behind (length_frames host q).le (by omega) hblen hbkeep
  have hword : Circular.Holds b r.tail.toNat
      (frames host q ++ host.enc (UInt32.ofNat d.length)) := by
    refine Circular.holds_append.2 ⟨hfront, ?_⟩
    rw [length_frames]
    rw [← hblen] at hbholds
    exact Circular.holds_mod.1 hbholds
  -- the bytes
  have hnext : ((r.head + 4) % r.capacity).toNat = (r.tail.toNat + (used q + 4)) % b.length := by
    rw [toNat_advance (by rw [show (4 : UInt32).toNat = 4 from rfl]; omega), h.capacity, h.head,
      hblen, show (4 : UInt32).toNat = 4 from rfl, Nat.mod_add_mod, Nat.add_assoc]
  have hnextlt : ((r.head + 4) % r.capacity).toNat < b.length := by
    rw [hnext]
    exact Nat.mod_lt _ (hblen ▸ hpos)
  obtain ⟨b', hb', hblen', hbholds', hbkeep'⟩ := Circular.put_some hnextlt
    (show d.length ≤ b.length by omega)
  refine ⟨b, b', ?_, ?_, hblen'.trans hblen, ?_⟩
  · rw [writeAt_eq h.capacity (h.capacity ▸ hhead)
      (show (4 : UInt32).toNat = _ from henc.symm), h.head]
    exact hb
  · rw [writeAt_eq (h.capacity.trans hblen.symm) (by rw [h.capacity, ← hblen]; exact hnextlt)
      (toNat_length hlen)]
    exact hb'
  · rw [hnext] at hbholds' hbkeep'
    rw [frames_snoc]
    refine Circular.holds_append.2 ⟨?_, ?_⟩
    · refine hword.put_behind ?_ (by omega) hblen' hbkeep'
      rw [List.length_append, length_frames, henc]
    · rw [List.length_append, length_frames, henc]
      rw [← hblen'] at hbholds'
      exact Circular.holds_mod.1 hbholds'

theorem length_ne_zero (hpos : 0 < d.length) (hlen : d.length < 2 ^ 31) :
    UInt32.ofNat d.length ≠ 0 := by
  intro h
  have hn := toNat_length hlen
  rw [h] at hn
  exact Nat.ne_of_lt hpos hn

/-- What a push adds to the counter. -/
theorem toNat_total (hlen : d.length < 2 ^ 31) :
    (4 + UInt32.ofNat d.length).toNat = 4 + d.length := by
  rw [UInt32.toNat_add, toNat_length hlen, show (4 : UInt32).toNat = 4 from rfl]
  omega

/-- The test for room, on a sum that stops at 2^32. -/
theorem Models.room_iff (h : r.Models host c q) (hlen : d.length < 2 ^ 31) :
    r.capacity < r.bytes + (4 + UInt32.ofNat d.length) ↔ c < (used q + (4 + d.length)) % 2 ^ 32 := by
  rw [UInt32.lt_iff_toNat_lt, UInt32.toNat_add, h.bytes, toNat_total hlen, h.capacity]

theorem push_some {buf b b' : Bytes} (hbuf : r.buf = some buf) (hne : UInt32.ofNat d.length ≠ 0)
    (hroom : ¬ r.capacity < r.bytes + (4 + UInt32.ofNat d.length))
    (hb : writeAt buf r.capacity r.head (host.enc (UInt32.ofNat d.length)) 4 = some b)
    (hb' : writeAt b r.capacity ((r.head + 4) % r.capacity) d (UInt32.ofNat d.length) = some b') :
    r.push host d = some (true, { r with
      buf := some b'
      head := (r.head + (4 + UInt32.ofNat d.length)) % r.capacity
      bytes := r.bytes + (4 + UInt32.ofNat d.length) }) := by
  simp only [Vring.push, hbuf, if_neg hne, if_neg hroom, hb, hb', Option.bind_some, Option.map_some]

/-- **A push of a record that fits** puts it behind the others. -/
theorem Models.push (h : r.Models host c q) (hc : c < 2 ^ 31) (hpos : 0 < d.length)
    (hlen : d.length < 2 ^ 31) (hfit : used q + (4 + d.length) ≤ c) :
    ∃ r', r.push host d = some (true, r') ∧ r'.Models host c (q ++ [d]) := by
  obtain ⟨buf, hbuf, -, -⟩ := h.buf
  obtain ⟨b, b', hb, hb', hblen, hholds⟩ := h.store hc hlen hfit hbuf
  have htotal := toNat_total hlen
  have hroom : ¬ r.capacity < r.bytes + (4 + UInt32.ofNat d.length) := by
    rw [h.room_iff hlen]
    omega
  have hhead := h.head_lt
  refine ⟨_, push_some hbuf (length_ne_zero hpos hlen) hroom hb hb', ⟨b', rfl, hblen, hholds⟩,
    h.capacity, h.tail, ?_, ?_, ?_, ?_⟩
  · show ((r.head + (4 + UInt32.ofNat d.length)) % r.capacity).toNat = _
    rw [toNat_advance (by omega), htotal, h.capacity, h.head, Nat.mod_add_mod, used_snoc,
      Nat.add_assoc]
  · show (r.bytes + (4 + UInt32.ofNat d.length)).toNat = _
    rw [UInt32.toNat_add, h.bytes, htotal, used_snoc]
    omega
  · rw [used_snoc]
    exact hfit
  · intro t ht
    rcases List.mem_append.1 ht with ht | ht
    · exact h.pos t ht
    · exact List.mem_singleton.1 ht ▸ hpos

/-- A push of a record that does not fit is refused, unless the test for room wraps. -/
theorem Models.push_full (h : r.Models host c q) (hpos : 0 < d.length) (hlen : d.length < 2 ^ 31)
    (hfull : c < used q + (4 + d.length)) (hroomy : used q + (4 + d.length) < 2 ^ 32) :
    r.push host d = some (false, r) := by
  obtain ⟨buf, hbuf, -, -⟩ := h.buf
  have hroom : r.capacity < r.bytes + (4 + UInt32.ofNat d.length) := by
    rw [h.room_iff hlen, Nat.mod_eq_of_lt hroomy]
    exact hfull
  simp only [Vring.push, hbuf, if_neg (length_ne_zero hpos hlen), if_pos hroom]

theorem Models.room_of_wrap (h : r.Models host c q) (hc : c < 2 ^ 31) (hlen : d.length < 2 ^ 31)
    (hwrap : 2 ^ 32 ≤ used q + (4 + d.length)) :
    ¬ r.capacity < r.bytes + (4 + UInt32.ofNat d.length) := by
  have hfits := h.fits
  rw [h.room_iff hlen]
  omega

/-- **A push on which the test for room wraps** is not refused. -/
theorem Models.push_wraps (h : r.Models host c q) (hc : c < 2 ^ 31) (hpos : 0 < d.length)
    (hlen : d.length < 2 ^ 31) (hwrap : 2 ^ 32 ≤ used q + (4 + d.length)) (r' : Vring) :
    r.push host d ≠ some (false, r') := by
  obtain ⟨buf, hbuf, -, -⟩ := h.buf
  simp only [Vring.push, hbuf, if_neg (length_ne_zero hpos hlen),
    if_neg (h.room_of_wrap hc hlen hwrap)]
  intro he
  obtain ⟨b, -, he⟩ := Option.bind_eq_some_iff.1 he
  obtain ⟨b', -, he⟩ := Option.map_eq_some_iff.1 he
  exact nomatch congrArg Prod.fst he

/-- A record no longer than the buffer then goes over what the ring holds. -/
theorem Models.push_over (h : r.Models host c q) (hc : c < 2 ^ 31) (hpos : 0 < d.length)
    (hlen : d.length < 2 ^ 31) (hwrap : 2 ^ 32 ≤ used q + (4 + d.length)) (hle : d.length ≤ c) :
    ∃ r', r.push host d = some (true, r') ∧
      r'.bytes.toNat = used q + (4 + d.length) - 2 ^ 32 := by
  obtain ⟨buf, hbuf, rfl, -⟩ := h.buf
  have hfits := h.fits
  have hhead : r.head.toNat < r.capacity.toNat := h.capacity ▸ h.head_lt
  have hnext : ((r.head + 4) % r.capacity).toNat < r.capacity.toNat := by
    rw [UInt32.toNat_mod]
    exact Nat.mod_lt _ (Nat.zero_lt_of_lt hhead)
  have henc := host.length_enc (UInt32.ofNat d.length)
  obtain ⟨b, hb, hblen⟩ := writeAt_some h.capacity hhead (show (4 : UInt32).toNat = _ from henc.symm)
    (by omega)
  obtain ⟨b', hb', -⟩ := writeAt_some (h.capacity.trans hblen.symm) hnext (toNat_length hlen)
    (hblen ▸ hle)
  refine ⟨_, push_some hbuf (length_ne_zero hpos hlen) (h.room_of_wrap hc hlen hwrap) hb hb', ?_⟩
  show (r.bytes + (4 + UInt32.ofNat d.length)).toNat = _
  rw [UInt32.toNat_add, h.bytes, toNat_total hlen]
  omega

/-- What a pop gives back: the record in front, if the buffer of `outCap` bytes can take it. -/
def front (q : List Bytes) (outCap : ℕ) : Option Bytes := q.head?.filter fun d => d.length ≤ outCap

theorem cons_tail_of_front {outCap : ℕ} (h : front q outCap = some d) : d :: q.tail = q :=
  List.cons_head?_tail (Option.eq_some_of_filter_eq_some h)

/-- What a pop reads of the record in front, and where the others stand. -/
theorem Models.read_front (h : r.Models host c (d :: q)) (hc : c < 2 ^ 31) {buf : Bytes}
    (hbuf : r.buf = some buf) :
    readAt buf r.capacity r.tail 4 = some (host.enc (UInt32.ofNat d.length)) ∧
      readAt buf r.capacity ((r.tail + 4) % r.capacity) (UInt32.ofNat d.length) = some d ∧
      buf.length = c ∧ Circular.Holds buf (r.tail.toNat + 4 + d.length) (frames host q) := by
  obtain ⟨buf', hbuf', rfl, hholds⟩ := h.buf
  obtain rfl := Option.some.inj (hbuf.symm.trans hbuf')
  have htail := h.tail
  have hfits := h.fits
  rw [used_cons] at hfits
  have hlen : d.length < 2 ^ 31 := by omega
  have henc := host.length_enc (UInt32.ofNat d.length)
  rw [frames_cons] at hholds
  obtain ⟨hword, hrest⟩ := Circular.holds_append.1 hholds
  obtain ⟨hdata, hbehind⟩ := Circular.holds_append.1 hrest
  rw [henc] at hdata hbehind
  have hnext : ((r.tail + 4) % r.capacity).toNat = (r.tail.toNat + 4) % buf.length := by
    rw [toNat_advance (by rw [show (4 : UInt32).toNat = 4 from rfl]; omega), h.capacity]
    rfl
  have hnextlt : ((r.tail + 4) % r.capacity).toNat < buf.length := by
    rw [hnext]
    exact Nat.mod_lt _ (by omega)
  refine ⟨?_, ?_, rfl, hbehind⟩
  · rw [readAt_eq h.capacity (h.capacity ▸ htail),
      show (4 : UInt32).toNat = (host.enc (UInt32.ofNat d.length)).length from henc.symm]
    exact Circular.get_of_holds hword htail (by omega)
  · rw [readAt_eq h.capacity (h.capacity ▸ hnextlt), toNat_length hlen]
    refine Circular.get_of_holds ?_ hnextlt (by omega)
    rw [hnext, Circular.holds_mod]
    exact hdata

/-- **A pop** gives back the record in front, or leaves the ring as it is. -/
theorem Models.pop (h : r.Models host c q) (hc : c < 2 ^ 31) (outCap : UInt32) :
    ∃ r', r.pop host outCap = some (front q outCap.toNat, r') ∧
      match front q outCap.toNat with
      | none => r' = r
      | some _ => r'.Models host c q.tail := by
  obtain ⟨buf, hbuf, -, -⟩ := h.buf
  have htail := h.tail
  cases q with
  | nil =>
    have h0 : r.bytes = 0 := UInt32.toNat_inj.1 h.bytes
    exact ⟨r, by simp only [Vring.pop, hbuf, h0, if_true]; rfl, rfl⟩
  | cons d q =>
    obtain ⟨hstored, hread, rfl, hbehind⟩ := h.read_front hc hbuf
    have hfits := h.fits
    have hbytes := h.bytes
    rw [used_cons] at hfits hbytes
    have hlen : d.length < 2 ^ 31 := by omega
    have htotal := toNat_total hlen
    have hne : r.bytes ≠ 0 := by
      intro h0
      rw [h0, show (0 : UInt32).toNat = 0 from rfl] at hbytes
      omega
    have hlt : outCap < UInt32.ofNat d.length ↔ outCap.toNat < d.length := by
      rw [UInt32.lt_iff_toNat_lt, toNat_length hlen]
    by_cases hout : d.length ≤ outCap.toNat
    · have hfront : front (d :: q) outCap.toNat = some d := by simp [front, hout]
      have hadvance : ((r.tail + (4 + UInt32.ofNat d.length)) % r.capacity).toNat =
          (r.tail.toNat + 4 + d.length) % buf.length := by
        rw [toNat_advance (by omega), htotal, h.capacity, Nat.add_assoc]
      rw [hfront]
      refine ⟨{ r with
        tail := (r.tail + (4 + UInt32.ofNat d.length)) % r.capacity
        bytes := r.bytes - (4 + UInt32.ofNat d.length) }, ?_, ⟨buf, hbuf, rfl, ?_⟩, h.capacity, ?_,
        ?_, ?_, ?_, fun t ht => h.pos t (List.mem_cons_of_mem d ht)⟩
      · simp only [Vring.pop, hbuf, if_neg hne, hstored, Option.bind_some, host.dec_enc,
          if_neg (fun ho => Nat.not_lt.2 hout (hlt.1 ho)), hread, Option.map_some]
      · show Circular.Holds buf ((r.tail + (4 + UInt32.ofNat d.length)) % r.capacity).toNat _
        rw [hadvance, Circular.holds_mod]
        exact hbehind
      · show ((r.tail + (4 + UInt32.ofNat d.length)) % r.capacity).toNat < buf.length
        rw [hadvance]
        exact Nat.mod_lt _ (by omega)
      · show r.head.toNat = _
        rw [hadvance, h.head, Nat.mod_add_mod, used_cons, List.tail_cons, Nat.add_assoc,
          Nat.add_assoc, Nat.add_assoc]
      · show (r.bytes - (4 + UInt32.ofNat d.length)).toNat = _
        rw [UInt32.toNat_sub_of_le _ _ (UInt32.le_iff_toNat_le.2 (by omega)), htotal, hbytes,
          List.tail_cons]
        omega
      · rw [List.tail_cons]
        omega
    · have hfront : front (d :: q) outCap.toNat = none := by simp [front, Nat.not_le.1 hout]
      rw [hfront]
      refine ⟨r, ?_, rfl⟩
      simp only [Vring.pop, hbuf, if_neg hne, hstored, Option.bind_some, host.dec_enc,
        if_pos (hlt.2 (Nat.not_le.1 hout))]

end Calls

/-! ## Runs of calls -/

/-- What is pushed: at least one byte, and fewer than 2^31. -/
structure Payload where
  bytes : Bytes
  pos : 0 < bytes.length
  short : bytes.length < 2 ^ 31

inductive Op
  | push (d : Payload)
  | pop (outCap : UInt32)

inductive Reply
  | pushed (ok : Bool)
  | popped (out : Option Bytes)

/-- The calls of a run and what they gave back, the oldest first. -/
abbrev Log := List (Op × Reply)

def call (host : HostWord) (r : Vring) : Op → Option (Reply × Vring)
  | .push d => (r.push host d.bytes).map fun p => (.pushed p.1, p.2)
  | .pop outCap => (r.pop host outCap).map fun p => (.popped p.1, p.2)

/-- A call of a run; there is no state behind a copy that left a buffer. -/
def record (host : HostWord) (s : Option (Vring × Log)) (op : Op) : Option (Vring × Log) :=
  s.bind fun (r, log) => (call host r op).map fun (reply, r') => (r', log ++ [(op, reply)])

/-- The payload of a push that succeeded. -/
def acceptedBy : Op × Reply → Option Bytes
  | (.push d, .pushed true) => some d.bytes
  | _ => none

/-- What a pop gave back. -/
def deliveredBy : Op × Reply → Option Bytes
  | (_, .popped out) => out
  | _ => none

def accepted (log : Log) : List Bytes := log.filterMap acceptedBy

def delivered (log : Log) : List Bytes := log.filterMap deliveredBy

/-- The payloads that no pop has given back. -/
def held (log : Log) : List Bytes := (accepted log).drop (delivered log).length

/-- The pops have given back the payloads in order and unchanged, and the counter of used bytes is
    that of the others. -/
def Fifo (s : Option (Vring × Log)) : Prop :=
  ∃ r log, s = some (r, log) ∧ delivered log <+: accepted log ∧ r.bytes.toNat = used (held log)

/-- A push succeeds if and only if there is room, a pop gives back the payload in front if there is
    one that fits; a call that fails leaves the ring as it is. -/
def Serves (host : HostWord) (c : ℕ) (s : Option (Vring × Log)) (op : Op) : Prop :=
  ∃ r log, s = some (r, log) ∧
    match op with
    | .push d => ∃ ok r', r.push host d.bytes = some (ok, r') ∧
        (ok = true ↔ used (held log) + (4 + d.bytes.length) ≤ c) ∧ (ok = false → r' = r)
    | .pop outCap => ∃ out r', r.pop host outCap = some (out, r') ∧
        out = front (held log) outCap.toNat ∧ (out = none → r' = r)

/-- The test of a push for room does not wrap. -/
def Roomy : Option (Vring × Log) → Op → Prop
  | some (r, _), .push d => r.bytes.toNat + (4 + d.bytes.length) < 2 ^ 32
  | _, _ => True

instance : ∀ s op, Decidable (Roomy s op)
  | some (r, _), .push d =>
    inferInstanceAs (Decidable (r.bytes.toNat + (4 + d.bytes.length) < 2 ^ 32))
  | some _, .pop _ => instDecidableTrue
  | none, _ => instDecidableTrue

/-- The ring of `c` bytes holds what was pushed and not given back. -/
structure Tracks (host : HostWord) (c : ℕ) (r : Vring) (log : Log) : Prop where
  order : delivered log <+: accepted log
  models : r.Models host c (held log)

section Run
variable {host : HostWord} {c : ℕ} {r : Vring} {log : Log}

theorem accepted_snoc (e : Op × Reply) :
    accepted (log ++ [e]) = accepted log ++ (acceptedBy e).toList := by
  simp only [accepted, List.filterMap_append, List.filterMap_cons, List.filterMap_nil]
  cases acceptedBy e <;> rfl

theorem delivered_snoc (e : Op × Reply) :
    delivered (log ++ [e]) = delivered log ++ (deliveredBy e).toList := by
  simp only [delivered, List.filterMap_append, List.filterMap_cons, List.filterMap_nil]
  cases deliveredBy e <;> rfl

theorem Tracks.split (h : Tracks host c r log) : delivered log ++ held log = accepted log :=
  List.prefix_iff_eq_append.1 h.order

/-- A log is split in one way. -/
theorem Tracks.of_split {q : List Bytes} (h : delivered log ++ q = accepted log)
    (hm : r.Models host c q) : Tracks host c r log := by
  refine ⟨⟨q, h⟩, ?_⟩
  rw [held, ← h, List.drop_left]
  exact hm

theorem Tracks.init {capacity : UInt32} (h : Vring.init capacity true = some r) :
    Tracks host capacity.toNat r [] :=
  .of_split rfl (models_init host h)

theorem record_some {op : Op} {reply : Reply} {r' : Vring} (h : call host r op = some (reply, r')) :
    record host (some (r, log)) op = some (r', log ++ [(op, reply)]) := by
  simp only [record, Option.bind_some, h, Option.map_some]

/-- **One call**, of a ring that holds what it should. -/
theorem Tracks.serves (h : Tracks host c r log) (hc : c < 2 ^ 31) {op : Op}
    (hroom : Roomy (some (r, log)) op) :
    Serves host c (some (r, log)) op ∧
      ∃ r' log', record host (some (r, log)) op = some (r', log') ∧ Tracks host c r' log' := by
  have hsplit := h.split
  cases op with
  | push d =>
    change r.bytes.toNat + (4 + d.bytes.length) < 2 ^ 32 at hroom
    rw [h.models.bytes] at hroom
    by_cases hfit : used (held log) + (4 + d.bytes.length) ≤ c
    · obtain ⟨r', hpush, hm⟩ := h.models.push hc d.pos d.short hfit
      have hcall : call host r (.push d) = some (.pushed true, r') := by
        rw [call, hpush, Option.map_some]
      refine ⟨⟨r, log, rfl, true, r', hpush, by simp [hfit], nofun⟩, r', _, record_some hcall,
        .of_split ?_ hm⟩
      simp [accepted_snoc, delivered_snoc, acceptedBy, deliveredBy, ← hsplit]
    · have hpush := h.models.push_full d.pos d.short (Nat.lt_of_not_le hfit) hroom
      have hcall : call host r (.push d) = some (.pushed false, r) := by
        rw [call, hpush, Option.map_some]
      refine ⟨⟨r, log, rfl, false, r, hpush, by simp [hfit], fun _ => rfl⟩, r, _, record_some hcall,
        .of_split ?_ h.models⟩
      simp [accepted_snoc, delivered_snoc, acceptedBy, deliveredBy, ← hsplit]
  | pop outCap =>
    obtain ⟨r', hpop, hm⟩ := h.models.pop hc outCap
    have hcall : call host r (.pop outCap) = some (.popped (front (held log) outCap.toNat), r') := by
      rw [call, hpop, Option.map_some]
    cases hfront : front (held log) outCap.toNat with
    | none =>
      rw [hfront] at hpop hm hcall
      obtain rfl := hm
      refine ⟨⟨r', log, rfl, none, r', hpop, hfront.symm, fun _ => rfl⟩, r', _, record_some hcall,
        .of_split ?_ h.models⟩
      simp [accepted_snoc, delivered_snoc, acceptedBy, deliveredBy, ← hsplit]
    | some d =>
      rw [hfront] at hpop hm hcall
      refine ⟨⟨r, log, rfl, some d, r', hpop, hfront.symm, nofun⟩, r', _, record_some hcall,
        .of_split ?_ hm⟩
      rw [← cons_tail_of_front hfront] at hsplit
      simp [accepted_snoc, delivered_snoc, acceptedBy, deliveredBy, ← hsplit]

/-- A call is answered as it should exactly if the test for room does not wrap. -/
theorem Tracks.serves_iff (h : Tracks host c r log) (hc : c < 2 ^ 31) (op : Op) :
    Serves host c (some (r, log)) op ↔ Roomy (some (r, log)) op := by
  refine ⟨?_, fun hroom => (h.serves hc hroom).1⟩
  rintro ⟨r, log, ⟨⟩, hserves⟩
  cases op with
  | pop outCap => trivial
  | push d =>
    obtain ⟨ok, r', hpush, hok, -⟩ := hserves
    show r.bytes.toNat + (4 + d.bytes.length) < 2 ^ 32
    rw [h.models.bytes]
    by_contra hwrap
    -- such a record does not fit, and is not refused
    have hno : ok = false := by
      rw [← Bool.not_eq_true, hok]
      have hshort := d.short
      omega
    rw [hno] at hpush
    exact h.models.push_wraps hc d.pos d.short (Nat.le_of_not_lt hwrap) r' hpush

/-- The states of a run as long as every call has been answered as it should. -/
def Sound (host : HostWord) (c : ℕ) (s : Option (Vring × Log)) : Prop :=
  ∃ r log, s = some (r, log) ∧ Tracks host c r log

theorem Sound.record (hc : c < 2 ^ 31) (s : Option (Vring × Log)) (op : Op) (h : Sound host c s)
    (hroom : Roomy s op) : Sound host c (record host s op) := by
  obtain ⟨r, log, rfl, h⟩ := h
  exact (h.serves hc hroom).2

theorem Sound.serves_iff (hc : c < 2 ^ 31) (s : Option (Vring × Log)) (op : Op)
    (h : Sound host c s) : Serves host c s op ↔ Roomy s op := by
  obtain ⟨r, log, rfl, h⟩ := h
  exact h.serves_iff hc op

theorem Sound.fifo (s : Option (Vring × Log)) (h : Sound host c s) : Fifo s := by
  obtain ⟨r, log, rfl, h⟩ := h
  exact ⟨r, log, rfl, h.order, h.models.bytes⟩

/-- In a ring of fewer than 2^31 - 3 bytes the test for room never wraps. -/
theorem Sound.roomy (hc : c ≤ 2 ^ 31 - 4) (s : Option (Vring × Log)) (op : Op)
    (h : Sound host c s) : Roomy s op := by
  obtain ⟨r, log, rfl, h⟩ := h
  cases op with
  | pop outCap => trivial
  | push d =>
    show r.bytes.toNat + (4 + d.bytes.length) < 2 ^ 32
    have hshort := d.short
    have hfits := h.models.fits
    rw [h.models.bytes]
    omega

/-- **A byte ring is a queue of byte strings**: over any calls, exactly if no push finds so much in
    the ring that the test for room wraps. -/
theorem vring_fifo (host : HostWord) {capacity : UInt32} (hcap : capacity.toNat < 2 ^ 31)
    {r : Vring} (hinit : init capacity true = some r) (ops : List Op) :
    (Lts.Visits (record host) Fifo (some (r, [])) ops ∧
      Lts.Along (record host) (Serves host capacity.toNat) (some (r, [])) ops) ↔
    Lts.Along (record host) Roomy (some (r, [])) ops := by
  have hstart : Sound host capacity.toNat (some (r, [])) := ⟨r, [], rfl, .init hinit⟩
  have hserves : Lts.Along (record host) (Serves host capacity.toNat) (some (r, [])) ops ↔
      Lts.Along (record host) Roomy (some (r, [])) ops :=
    Lts.along_iff_guard (Sound.record hcap) (Sound.serves_iff hcap) hstart
  rw [hserves, and_iff_right_iff_imp]
  exact fun hroom => (Lts.visits_of_step (Sound.record hcap) hstart hroom).mono Sound.fifo

/-- A record in an empty ring, and one on which the test for room wraps. -/
theorem Models.push_push_over (h : r.Models host c []) (hc : c < 2 ^ 31) (d e : Payload)
    (hfit : 4 + d.bytes.length ≤ c) (hwrap : 2 ^ 32 ≤ 4 + d.bytes.length + (4 + e.bytes.length))
    (hle : e.bytes.length ≤ c) : ∃ r',
      Lts.run (record host) (some (r, [])) [.push d, .push e] =
        some (r', [(.push d, .pushed true), (.push e, .pushed true)]) ∧
      r'.bytes.toNat = 4 + d.bytes.length + (4 + e.bytes.length) - 2 ^ 32 := by
  have hused : used ([] ++ [d.bytes]) = 4 + d.bytes.length := by simp
  obtain ⟨r₁, hpush₁, hm₁⟩ := h.push hc d.pos d.short (by rwa [used_nil, Nat.zero_add])
  obtain ⟨r₂, hpush₂, hbytes⟩ := hm₁.push_over hc e.pos e.short (by rwa [hused]) hle
  rw [hused] at hbytes
  have hcall₁ : call host r (.push d) = some (.pushed true, r₁) := by
    rw [call, hpush₁, Option.map_some]
  have hcall₂ : call host r₁ (.push e) = some (.pushed true, r₂) := by
    rw [call, hpush₂, Option.map_some]
  refine ⟨r₂, ?_, hbytes⟩
  rw [Lts.run_cons, record_some hcall₁, Lts.run_cons, record_some hcall₂]
  rfl

/-- `NGX_RTC_AUDIO_IN_ARENA_BYTES`: 16 frames of `NGX_RTC_AUDIO_AAC_MAX` bytes. -/
def audioInArenaBytes : UInt32 := 16 * (4 + 8192)

/-- `NGX_RTC_AUDIO_OUT_ARENA_BYTES`: 16 packets of `NGX_RTC_AUDIO_OPUS_MAX_PACKET` bytes. -/
def audioOutArenaBytes : UInt32 := 16 * (4 + 4000)

/-- **The rings of the audio worker** are queues in every run. -/
theorem audio_fifo (host : HostWord) {capacity : UInt32}
    (hcap : capacity = audioInArenaBytes ∨ capacity = audioOutArenaBytes) {r : Vring}
    (hinit : init capacity true = some r) (ops : List Op) :
    Lts.Visits (record host) Fifo (some (r, [])) ops ∧
      Lts.Along (record host) (Serves host capacity.toNat) (some (r, [])) ops := by
  have hsmall : capacity.toNat ≤ 2 ^ 31 - 4 := by
    rcases hcap with rfl | rfl <;> decide
  have hc : capacity.toNat < 2 ^ 31 := by omega
  have hstart : Sound host capacity.toNat (some (r, [])) := ⟨r, [], rfl, .init hinit⟩
  have hstep : ∀ s op, Sound host capacity.toNat s → True →
      Sound host capacity.toNat (record host s op) :=
    fun s op hs _ => hs.record hc s op (hs.roomy hsmall s op)
  have hserves : ∀ s op, Sound host capacity.toNat s → True → Serves host capacity.toNat s op :=
    fun s op hs _ => (hs.serves_iff hc s op).2 (hs.roomy hsmall s op)
  exact ⟨(Lts.visits_of_step hstep hstart (Lts.along_true _ ops)).mono Sound.fifo,
    Lts.along_of_step hstep hserves hstart (Lts.along_true _ ops)⟩

end Run

/-! ### Two runs -/

/-- A payload of `n + 1` zeros. -/
def Payload.zeros (n : ℕ) (h : n + 1 < 2 ^ 31) : Payload where
  bytes := List.replicate (n + 1) 0
  pos := by
    rw [List.length_replicate]
    exact Nat.succ_pos n
  short := by
    rw [List.length_replicate]
    exact h

@[simp] theorem Payload.length_zeros (n : ℕ) (h : n + 1 < 2 ^ 31) :
    (Payload.zeros n h).bytes.length = n + 1 := List.length_replicate

/-- The length of the second record goes around the end of the ring; the first pop of it has too small
    a buffer. -/
def aroundTheEnd : List Op :=
  [.push (.zeros 9 (by decide)), .pop 64, .push ⟨[1, 2, 3, 4, 5, 6], by decide, by decide⟩,
    .push (.zeros 9 (by decide)), .pop 3, .pop 64]

theorem vring_fifo_sample :
    Lts.Visits (record .little) Fifo (some (⟨some (List.replicate 16 0), 16, 0, 0, 0⟩, []))
      aroundTheEnd ∧
    Lts.Along (record .little) (Serves .little 16)
      (some (⟨some (List.replicate 16 0), 16, 0, 0, 0⟩, [])) aroundTheEnd :=
  (vring_fifo .little (show (16 : UInt32).toNat < 2 ^ 31 by decide) rfl aroundTheEnd).2 (by decide)

/-- The second record is as long as the ring, which the first one fills but for two bytes. -/
def twoLong : List Op :=
  [.push (.zeros 2147483640 (by decide)), .push (.zeros 2147483646 (by decide))]

theorem vring_forgets : ∃ r r' log, init 2147483647 true = some r ∧
    Lts.run (record .little) (some (r, [])) twoLong = some (r', log) ∧
    (accepted log).length = 2 ∧ delivered log = [] ∧ r'.bytes = 0 ∧
    ¬ (Lts.Visits (record .little) Fifo (some (r, [])) twoLong ∧
      Lts.Along (record .little) (Serves .little 2147483647) (some (r, [])) twoLong) := by
  obtain ⟨r, hinit⟩ : ∃ r, init 2147483647 true = some r := ⟨_, rfl⟩
  have hempty : r.Models .little 2147483647 [] := models_init .little hinit
  obtain ⟨r', hrun, hbytes⟩ := hempty.push_push_over (by decide) (.zeros 2147483640 (by decide))
    (.zeros 2147483646 (by decide)) (by rw [Payload.length_zeros]; decide)
    (by rw [Payload.length_zeros, Payload.length_zeros]; decide) (by rw [Payload.length_zeros])
  have hzero : r'.bytes = 0 := by
    rw [Payload.length_zeros, Payload.length_zeros] at hbytes
    exact UInt32.toNat_inj.1 hbytes
  refine ⟨r, r', _, hinit, hrun, rfl, rfl, hzero, ?_⟩
  rintro ⟨hvisits, -⟩
  have hlast := hvisits.last
  rw [twoLong, hrun] at hlast
  obtain ⟨_, _, ⟨⟩, -, hused⟩ := hlast
  have hheld : held [(.push (.zeros 2147483640 (by decide)), .pushed true),
      (.push (.zeros 2147483646 (by decide)), .pushed true)] =
      [(Payload.zeros 2147483640 (by decide)).bytes, (Payload.zeros 2147483646 (by decide)).bytes] :=
    rfl
  rw [hzero, hheld, used_cons, Payload.length_zeros] at hused
  have hz : (0 : UInt32).toNat = 0 := rfl
  omega

end Vring

end NginxRtc
