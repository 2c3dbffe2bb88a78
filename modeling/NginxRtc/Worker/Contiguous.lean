/-
  Lookups in the two retransmit rings while no packet is missing.

  Packets numbered one after the other are pushed into the GOP ring of a process
  (`ngx_rtc_rtp_ring_push`) or appended to the shared ring of a source
  (`ngx_rtc_shm_retransmit_append`), each of which was just reset.

  `lookup_exact`: either ring finds exactly the packets pushed last, as many as it has slots for,
  each under its number; so rings of one capacity give the same answers.  Numbers and indices may
  wrap any number of times.
-/
import NginxRtc.Worker.Lookup

namespace NginxRtc

/-- The packets carry the numbers from `first` on. -/
def Numbered (first : UInt16) (ps : List RtpPacket) : Prop :=
  ∀ i p, ps[i]? = some p → 4 ≤ p.rtp.length ∧ rtpSeq p.rtp = first + UInt16.ofNat i

theorem Numbered.pos {first : UInt16} {ps : List RtpPacket} (h : Numbered first ps) {p : RtpPacket}
    (hp : p ∈ ps) : 0 < p.rtp.length := by
  obtain ⟨i, hi⟩ := List.mem_iff_getElem?.1 hp
  have h4 := (h i p hi).1
  omega

/-- The slots of packets that come with flags. -/
theorem map_slot_fst (ps : List (RtpPacket × Bool)) :
    (ps.map Prod.fst).map RtpPacket.slot = ps.map fun p => p.1.slot := List.map_map

theorem Numbered.consecutive {first : UInt16} {ps : List RtpPacket} (h : Numbered first ps) :
    CacheRing.Consecutive RetransmitSlot.key (ps.map RtpPacket.slot) := by
  refine List.isChain_iff_getElem.2 fun i hi => ?_
  rw [List.length_map] at hi
  obtain ⟨-, hthis⟩ := h i ps[i] (List.getElem?_eq_getElem (by omega))
  obtain ⟨-, hnext⟩ := h (i + 1) ps[i + 1] (List.getElem?_eq_getElem hi)
  have hstep : rtpSeq ps[i + 1].rtp = rtpSeq ps[i].rtp + 1 := by
    rw [hnext, hthis, UInt16.ofNat_add, UInt16.add_assoc]
    rfl
  simp only [List.getElem_map]
  exact congrArg UInt16.toBitVec hstep

/-- The packets pushed last are numbered one after the other, too. -/
theorem consecutive_rtake {vs : List RetransmitSlot} (n : ℕ)
    (h : CacheRing.Consecutive RetransmitSlot.key vs) :
    CacheRing.Consecutive RetransmitSlot.key (vs.rtake n) :=
  List.IsChain.suffix h (List.drop_suffix ..)

/-- A lookup in a ring that holds the packets pushed last. -/
theorem find_pushed {w : ℕ} {r : CacheRing w RetransmitSlot} {first : UInt16}
    {ps : List RtpPacket} (hnum : Numbered first ps)
    (hr : r.recent = (ps.map RtpPacket.slot).rtake r.cap.toNat) (hcap : r.cap.toNat ≤ 2 ^ 16)
    (seq : UInt16) (s : RetransmitSlot) :
    r.find RetransmitSlot.key seq.toBitVec = some s ↔
      s ∈ (ps.map RtpPacket.slot).rtake r.cap.toNat ∧ rtpSeq s.data = seq := by
  have hc : CacheRing.Consecutive RetransmitSlot.key r.recent := by
    rw [hr]
    exact consecutive_rtake _ hnum.consecutive
  rw [CacheRing.find_eq_some_iff hc hcap, hr, key_eq_iff]

/-! ## The GOP ring of a process -/

namespace RtpRing

/-- `ngx_rtc_rtp_ring_push` of each packet; the flag says whether `ngx_calloc` would succeed. -/
def pushFrom (slots : BitVec 32) (ring : RtpRing) (ps : List (RtpPacket × Bool)) : RtpRing :=
  ps.foldl (fun ring p => ring.push slots p.2 p.1.rtp p.1.isGopStart) ring

/-- The slots the ring has, or will have once they are allocated. -/
def capacity (slots : BitVec 32) (ring : RtpRing) : ℕ :=
  match ring with
  | none => slots.toNat
  | some r => r.cap.toNat

/-- A ring that was just reset is pushed the packets `qs`. -/
structure Fills (slots : BitVec 32) (ring : RtpRing) (ps : List (RtpPacket × Bool))
    (qs : List RtpPacket) : Prop where
  packets : ps.map Prod.fst = qs
  pow : slots ≠ 0#32 ∧ slots &&& (slots - 1#32) = 0#32
  cap : ring.capacity slots ≤ 2 ^ 16
  reset : ∀ r, ring = some r → r.count = 0#32
  allocated : ring = none → ∀ p ∈ ps.head?, p.2 = true
  fits : ∀ p ∈ qs, p.rtp.length ≤ maxRtpPkt

/-- A push into a ring that holds the packets pushed last. -/
theorem pushFrom_cached {slots : BitVec 32}
    (hslots : slots ≠ 0#32 ∧ slots &&& (slots - 1#32) = 0#32) {ps : List (RtpPacket × Bool)}
    {r : CacheRing 32 RetransmitSlot} {vs : List RetransmitSlot}
    (hr : r.recent = vs.rtake r.cap.toNat)
    (hlen : ∀ p ∈ ps, 0 < p.1.rtp.length ∧ p.1.rtp.length ≤ maxRtpPkt) :
    ∃ r', pushFrom slots (some r) ps = some r' ∧ r'.cap = r.cap ∧
      r'.recent = (vs ++ ps.map fun p => p.1.slot).rtake r.cap.toNat := by
  induction ps generalizing r vs with
  | nil => exact ⟨r, rfl, rfl, by rwa [List.map_nil, List.append_nil]⟩
  | cons p ps ih =>
    obtain ⟨hpos, hmax⟩ := hlen p List.mem_cons_self
    have hpush : push slots (some r) p.2 p.1.rtp p.1.isGopStart =
        some (r.push p.1.slot p.1.isGopStart) := by
      rw [push, if_neg (by omega), reserve, dif_pos hslots]
      rfl
    obtain ⟨r', heq, hcap, hrec⟩ := ih (CacheRing.recent_push_rtake hr p.1.slot p.1.isGopStart)
      fun q hq => hlen q (List.mem_cons_of_mem _ hq)
    refine ⟨r', ?_, hcap, ?_⟩
    · rw [pushFrom, List.foldl_cons, hpush]
      exact heq
    · rw [hrec, List.append_assoc]
      rfl

/-- The GOP ring holds the packets pushed last. -/
theorem Fills.cached {slots : BitVec 32} {ring : RtpRing} {ps : List (RtpPacket × Bool)}
    {qs : List RtpPacket} {first : UInt16} (h : Fills slots ring ps qs) (hnum : Numbered first qs)
    (hne : ring ≠ none ∨ ps ≠ []) :
    ∃ r, pushFrom slots ring ps = some r ∧ r.cap.toNat = ring.capacity slots ∧
      r.recent = (qs.map RtpPacket.slot).rtake r.cap.toNat := by
  have hlen : ∀ p ∈ ps, 0 < p.1.rtp.length ∧ p.1.rtp.length ≤ maxRtpPkt := by
    intro p hp
    have hq : p.1 ∈ qs := h.packets ▸ List.mem_map_of_mem hp
    exact ⟨hnum.pos hq, h.fits _ hq⟩
  rw [← h.packets, map_slot_fst]
  cases ring with
  | some r =>
    have hempty : r.recent = ([] : List RetransmitSlot).rtake r.cap.toNat :=
      CacheRing.recent_of_count (congrArg BitVec.toNat (h.reset r rfl)) _
    obtain ⟨r', heq, hcap, hrec⟩ := pushFrom_cached h.pow hempty hlen
    exact ⟨r', heq, congrArg BitVec.toNat hcap, hcap ▸ hrec⟩
  | none =>
    -- the first push allocates the slots
    cases ps with
    | nil => exact absurd rfl (hne.resolve_left fun hn => hn rfl)
    | cons p ps =>
      obtain ⟨hpos, hmax⟩ := hlen p List.mem_cons_self
      have hcap : ¬ BitVec.ofNat 32 ((2 ^ 64 - 1) / rtpSlotSize) < slots := by
        have hle : slots.toNat ≤ 2 ^ 16 := h.cap
        rw [BitVec.lt_def]
        refine not_lt.2 (hle.trans ?_)
        decide
      have hpush : push slots none p.2 p.1.rtp p.1.isGopStart =
          push slots (some (zeroed slots (pow_of_and h.pow))) p.2 p.1.rtp p.1.isGopStart := by
        rw [push, push, if_neg (by omega), if_neg (by omega), reserve, reserve, dif_pos h.pow,
          dif_pos h.pow, if_neg hcap, if_pos (h.allocated rfl p rfl)]
      have hempty : (zeroed slots (pow_of_and h.pow)).recent =
          ([] : List RetransmitSlot).rtake slots.toNat := (List.rtake_nil _).symm
      obtain ⟨r', heq, hcap', hrec⟩ := pushFrom_cached h.pow hempty hlen
      refine ⟨r', ?_, congrArg BitVec.toNat hcap', hcap' ▸ hrec⟩
      rw [pushFrom, List.foldl_cons, hpush]
      exact heq

/-- **Lookups in the GOP ring are exact.** -/
theorem Fills.get_iff {slots : BitVec 32} {ring : RtpRing} {ps : List (RtpPacket × Bool)}
    {qs : List RtpPacket} {first : UInt16} (h : Fills slots ring ps qs) (hnum : Numbered first qs)
    (seq : UInt16) (s : RetransmitSlot) :
    (pushFrom slots ring ps).get seq = some s ↔
      s ∈ (qs.map RtpPacket.slot).rtake (ring.capacity slots) ∧ rtpSeq s.data = seq := by
  by_cases hne : ring ≠ none ∨ ps ≠ []
  · obtain ⟨r, heq, hcap, hrec⟩ := h.cached hnum hne
    rw [heq, ← hcap]
    exact find_pushed hnum hrec (hcap ▸ h.cap) seq s
  · obtain ⟨rfl, rfl⟩ : ring = none ∧ ps = [] := by simpa using hne
    obtain rfl : qs = [] := h.packets.symm
    simp [pushFrom, get]

end RtpRing

/-! ## The shared ring -/

/-- The slots the shared ring of a source has, or will have once it is built. -/
def ShmSource.ringCapacity (src : ShmSource) : ℕ := (src.retransmit.getD .alloc).cap.toNat

namespace ShmCtx

/-- `ngx_rtc_shm_retransmit_append` of each packet to the source at `a`; the flag is the answer of
    the slab allocator, should it be asked. -/
def appendFrom (c : ShmCtx) (a : ℕ) (ps : List (RtpPacket × Bool)) : ShmCtx :=
  ps.foldl (fun c p => c.retransmitAppend a p.2 p.1.rtp p.1.isGopStart) c

/-- A ring that was just reset is appended the packets `qs`, for a source with a remote viewer; they
    are read into a buffer of `outCap` bytes. -/
structure Fills (c : ShmCtx) (name : SourceName) (a : ℕ) (src : ShmSource) (outCap : ℕ)
    (ps : List (RtpPacket × Bool)) (qs : List RtpPacket) : Prop where
  packets : ps.map Prod.fst = qs
  lookup : c.sourceLookup name = some a
  source : c.sources.get a = some src
  watched : src.remoteSubscribers ≠ 0
  reset : ∀ r, src.retransmit = some r → r.count = 0
  allocated : src.retransmit = none → ∀ p ∈ ps.head?, p.2 = true
  fits : ∀ p ∈ qs, p.rtp.length ≤ ringRtpMax ∧ p.rtp.length ≤ outCap

/-- The locked half of an append that pushes. -/
theorem appendLocked_spec {src : ShmSource} {slab : Bool} (rtp : Bytes) (gop : Bool)
    {r : RetransmitRing} (hrem : src.remoteSubscribers ≠ 0)
    (hr : src.retransmit = some r ∨ src.retransmit = none ∧ slab = true ∧ r = .alloc) :
    (src.appendLocked slab rtp gop).remoteSubscribers = src.remoteSubscribers ∧
      (src.appendLocked slab rtp gop).retransmit = some (r.push rtp gop) := by
  unfold ShmSource.appendLocked
  rw [if_neg hrem]
  rcases hr with hr | ⟨hr, rfl, rfl⟩
  · simp only [hr, and_self]
  · simp only [hr, and_self]

/-- One append to a source that has a remote viewer. -/
theorem append_spec {c : ShmCtx} {name : SourceName} {a : ℕ} {src : ShmSource} {slab : Bool}
    {p : RtpPacket} (hlook : c.sourceLookup name = some a) (hsrc : c.sources.get a = some src)
    (hrem : src.remoteSubscribers ≠ 0)
    (hlen : 0 < p.rtp.length ∧ p.rtp.length ≤ ringRtpMax) {r : RetransmitRing}
    (hr : src.retransmit = some r ∨ src.retransmit = none ∧ slab = true ∧ r = .alloc) :
    ∃ src', (c.retransmitAppend a slab p.rtp p.isGopStart).sourceLookup name = some a ∧
      (c.retransmitAppend a slab p.rtp p.isGopStart).sources.get a = some src' ∧
      src'.remoteSubscribers ≠ 0 ∧ src'.retransmit = some (r.push p.rtp p.isGopStart) := by
  have heq : c.retransmitAppend a slab p.rtp p.isGopStart =
      { c with sources := c.sources.modify a (.appendLocked slab p.rtp p.isGopStart) } := by
    rw [retransmitAppend, if_neg (by omega), hsrc]
    exact if_neg hrem
  obtain ⟨hremote, hring⟩ := appendLocked_spec p.rtp p.isGopStart hrem hr
  refine ⟨src.appendLocked slab p.rtp p.isGopStart, ?_, ?_, hremote ▸ hrem, hring⟩
  · rw [heq, ← hlook]
    exact Pool.find?_modify _ _ fun v => by
      rw [(v.frame_appendLocked slab p.rtp p.isGopStart).name]
  · rw [heq]
    simp only [Pool.get_modify, hsrc, if_true, Option.map_some]

/-- Appends to a ring that holds the packets appended last, or to one the first append builds. -/
theorem appendFrom_cached {c : ShmCtx} {name : SourceName} {a : ℕ} {src : ShmSource}
    {ps : List (RtpPacket × Bool)} {r : RetransmitRing} {vs : List RetransmitSlot}
    (hlook : c.sourceLookup name = some a) (hsrc : c.sources.get a = some src)
    (hrem : src.remoteSubscribers ≠ 0)
    (hring : src.retransmit = some r ∨
      src.retransmit = none ∧ ps ≠ [] ∧ (∀ p ∈ ps.head?, p.2 = true) ∧ r = .alloc)
    (hr : r.cache.recent = vs.rtake r.cap.toNat)
    (hlen : ∀ p ∈ ps, 0 < p.1.rtp.length ∧ p.1.rtp.length ≤ ringRtpMax) :
    ∃ r', (c.appendFrom a ps).ring? name = some r' ∧ r'.cap = r.cap ∧
      r'.cache.recent = (vs ++ ps.map fun p => p.1.slot).rtake r.cap.toNat := by
  induction ps generalizing c src r vs with
  | nil =>
    have hold : src.retransmit = some r := hring.resolve_right fun h => h.2.1 rfl
    refine ⟨r, ?_, rfl, by rwa [List.map_nil, List.append_nil]⟩
    rw [appendFrom, List.foldl_nil, ring?, source?, hlook, Option.bind_some, hsrc]
    exact hold
  | cons p ps ih =>
    have hfirst : src.retransmit = some r ∨
        src.retransmit = none ∧ p.2 = true ∧ r = .alloc :=
      hring.imp_right fun h => ⟨h.1, h.2.2.1 p rfl, h.2.2.2⟩
    obtain ⟨src', hlook', hsrc', hrem', hring'⟩ :=
      append_spec hlook hsrc hrem (hlen p List.mem_cons_self) hfirst
    have hpush : (r.push p.1.rtp p.1.isGopStart).cache.recent =
        (vs ++ [p.1.slot]).rtake r.cap.toNat := by
      rw [RetransmitRing.cache_push]
      exact CacheRing.recent_push_rtake hr p.1.slot p.1.isGopStart
    obtain ⟨r', hget, hcap, hrec⟩ := ih hlook' hsrc' hrem' (.inl hring') hpush
      fun q hq => hlen q (List.mem_cons_of_mem _ hq)
    refine ⟨r', hget, hcap, ?_⟩
    rw [hrec, List.append_assoc]
    rfl

/-- The shared ring holds the packets appended last. -/
theorem Fills.cached {c : ShmCtx} {name : SourceName} {a : ℕ} {src : ShmSource} {outCap : ℕ}
    {ps : List (RtpPacket × Bool)} {qs : List RtpPacket} {first : UInt16}
    (h : Fills c name a src outCap ps qs) (hnum : Numbered first qs)
    (hne : src.retransmit ≠ none ∨ ps ≠ []) :
    ∃ r, (c.appendFrom a ps).ring? name = some r ∧ src.ringCapacity = r.cache.cap.toNat ∧
      r.cache.recent = (qs.map RtpPacket.slot).rtake src.ringCapacity := by
  have hlen : ∀ p ∈ ps, 0 < p.1.rtp.length ∧ p.1.rtp.length ≤ ringRtpMax := by
    intro p hp
    have hq : p.1 ∈ qs := h.packets ▸ List.mem_map_of_mem hp
    exact ⟨hnum.pos hq, (h.fits _ hq).1⟩
  have hring : src.retransmit = some (src.retransmit.getD .alloc) ∨ src.retransmit = none ∧
      ps ≠ [] ∧ (∀ p ∈ ps.head?, p.2 = true) ∧ src.retransmit.getD .alloc = .alloc := by
    cases hr : src.retransmit with
    | some r => exact .inl rfl
    | none => exact .inr ⟨rfl, hne.resolve_left fun hn => hn hr, h.allocated hr, rfl⟩
  have hcount : (src.retransmit.getD .alloc).cache.count.toNat = 0 := by
    cases hr : src.retransmit with
    | some r => exact congrArg UInt64.toNat (h.reset r hr)
    | none => rfl
  obtain ⟨r, hget, hcap, hrec⟩ := appendFrom_cached h.lookup h.source h.watched hring
    (CacheRing.recent_of_count hcount _) hlen
  refine ⟨r, hget, congrArg UInt64.toNat hcap.symm, ?_⟩
  rw [hrec, List.nil_append, ← h.packets, map_slot_fst]
  rfl

/-- **Lookups in the shared ring are exact.** -/
theorem Fills.get_iff {c : ShmCtx} {name : SourceName} {a : ℕ} {src : ShmSource} {outCap : ℕ}
    {ps : List (RtpPacket × Bool)} {qs : List RtpPacket} {first : UInt16}
    (h : Fills c name a src outCap ps qs) (hnum : Numbered first qs) (seq : UInt16) (out : Bytes) :
    (c.appendFrom a ps).retransmitGet name seq outCap = some out ↔
      ∃ s ∈ (qs.map RtpPacket.slot).rtake src.ringCapacity, rtpSeq s.data = seq ∧ s.data = out := by
  by_cases hne : src.retransmit ≠ none ∨ ps ≠ []
  · obtain ⟨r, hget, hcap, hrec⟩ := h.cached hnum hne
    have hsmall : r.cache.cap.toNat ≤ 2 ^ 16 := by
      obtain ⟨k, hk, hpow⟩ := r.pow
      exact hpow.trans_le (Nat.pow_le_pow_right Nat.two_pos hk)
    have hfind := find_pushed (r := r.cache) hnum (hcap ▸ hrec) hsmall seq
    rw [retransmitGet, hget, hcap]
    dsimp only
    cases hf : r.cache.find RetransmitSlot.key seq.toBitVec with
    | none =>
      refine iff_of_false (fun hn => nomatch hn) ?_
      rintro ⟨s, hs, hseq, -⟩
      exact nomatch hf.symm.trans ((hfind s).2 ⟨hs, hseq⟩)
    | some s =>
      obtain ⟨hs, hseq⟩ := (hfind s).1 hf
      have hfit : s.len ≤ outCap := by
        obtain ⟨p, hp, rfl⟩ := List.mem_map.1 (List.drop_subset _ _ hs)
        exact (h.fits p hp).2
      dsimp only
      rw [if_pos hfit]
      constructor
      · intro ho
        exact ⟨s, hs, hseq, Option.some.inj ho⟩
      · rintro ⟨t, ht, htseq, rfl⟩
        rw [Option.some.inj (hf.symm.trans ((hfind t).2 ⟨ht, htseq⟩))]
  · obtain ⟨hnone, rfl⟩ : src.retransmit = none ∧ ps = [] := by simpa using hne
    obtain rfl : qs = [] := h.packets.symm
    have hring : c.ring? name = none := by
      rw [ring?, source?, h.lookup, Option.bind_some, h.source]
      exact hnone
    simp [appendFrom, retransmitGet, hring]

end ShmCtx

/-- **Lookups are exact in either ring**: after any number of pushes of packets numbered one after
    the other, a request is answered with the packet of its number if that is one of the packets
    pushed last, as many as the ring has slots for, and with nothing otherwise.  Rings with as many
    slots give the same answers. -/
theorem lookup_exact (first : UInt16) (qs : List RtpPacket) (hnum : Numbered first qs) :
    (∀ (slots : BitVec 32) (ring : RtpRing) (ps : List (RtpPacket × Bool)),
      RtpRing.Fills slots ring ps qs → ∀ (seq : UInt16) (s : RetransmitSlot),
        (ring.pushFrom slots ps).get seq = some s ↔
          s ∈ (qs.map RtpPacket.slot).rtake (ring.capacity slots) ∧ rtpSeq s.data = seq) ∧
    (∀ (c : ShmCtx) (name : SourceName) (a : ℕ) (src : ShmSource) (outCap : ℕ)
        (ps : List (RtpPacket × Bool)), c.Fills name a src outCap ps qs →
        ∀ (seq : UInt16) (out : Bytes),
          (c.appendFrom a ps).retransmitGet name seq outCap = some out ↔
            ∃ s ∈ (qs.map RtpPacket.slot).rtake src.ringCapacity,
              rtpSeq s.data = seq ∧ s.data = out) ∧
    (∀ (slots : BitVec 32) (ring : RtpRing) (ps : List (RtpPacket × Bool)) (c : ShmCtx)
        (name : SourceName) (a : ℕ) (src : ShmSource) (outCap : ℕ) (ps' : List (RtpPacket × Bool)),
      RtpRing.Fills slots ring ps qs → c.Fills name a src outCap ps' qs →
      ring.capacity slots = src.ringCapacity → ∀ seq : UInt16,
        ((ring.pushFrom slots ps).get seq).map RetransmitSlot.data =
          (c.appendFrom a ps').retransmitGet name seq outCap) := by
  refine ⟨fun slots ring ps h => h.get_iff hnum, fun c name a src outCap ps h => h.get_iff hnum,
    fun slots ring ps c name a src outCap ps' h h' hcap seq => ?_⟩
  refine Option.ext fun out => ?_
  rw [Option.map_eq_some_iff, h'.get_iff hnum, ← hcap]
  constructor
  · rintro ⟨s, hs, rfl⟩
    obtain ⟨hmem, hseq⟩ := (h.get_iff hnum seq s).1 hs
    exact ⟨s, hmem, hseq, rfl⟩
  · rintro ⟨s, hmem, hseq, rfl⟩
    exact ⟨s, (h.get_iff hnum seq s).2 ⟨hmem, hseq⟩, rfl⟩

/-! ### Worked rings -/

/-- The sample stream, watched by one viewer on another worker. -/
def sampleWatched : ShmCtx :=
  Feed.sampleStart.sh.modifySource sampleName fun src => { src with remoteSubscribers := 1 }

theorem sampleWatched_get : (sampleWatched.sources.get 0).isSome := by decide +kernel

def sampleWatchedSource : ShmSource := (sampleWatched.sources.get 0).get sampleWatched_get

theorem numbered_samplePair : Numbered 0 (samplePair 1) := by
  intro i p hp
  match i with
  | 0 =>
    cases hp
    decide
  | 1 =>
    cases hp
    decide
  | i + 2 => exact nomatch hp

theorem fills_samplePair :
    RtpRing.Fills 1024 none ((samplePair 1).map (·, true)) (samplePair 1) where
  packets := rfl
  pow := by decide
  cap := by decide
  reset _ hr := nomatch hr
  allocated _ p hp := by
    cases hp
    rfl
  fits := by decide +kernel

theorem fills_sampleWatched :
    sampleWatched.Fills sampleName 0 sampleWatchedSource ringRtpMax ((samplePair 1).map (·, true))
      (samplePair 1) where
  packets := rfl
  lookup := by decide +kernel
  source := (Option.some_get _).symm
  watched := by decide +kernel
  reset r hr := by
    have hnone : sampleWatchedSource.retransmit.isNone := by decide +kernel
    rw [hr] at hnone
    exact nomatch hnone
  allocated _ p hp := by
    cases hp
    rfl
  fits := by decide +kernel

/-- Two packets in rings of 1024 slots. -/
theorem lookup_exact_pair :
    (∀ (seq : UInt16) (s : RetransmitSlot),
      (RtpRing.pushFrom 1024 none ((samplePair 1).map (·, true))).get seq = some s ↔
        s ∈ ((samplePair 1).map RtpPacket.slot).rtake 1024 ∧ rtpSeq s.data = seq) ∧
    (∀ (seq : UInt16) (out : Bytes),
      (sampleWatched.appendFrom 0 ((samplePair 1).map (·, true))).retransmitGet sampleName seq
          ringRtpMax = some out ↔
        ∃ s ∈ ((samplePair 1).map RtpPacket.slot).rtake sampleWatchedSource.ringCapacity,
          rtpSeq s.data = seq ∧ s.data = out) ∧
    ∀ seq : UInt16,
      ((RtpRing.pushFrom 1024 none ((samplePair 1).map (·, true))).get seq).map
          RetransmitSlot.data =
        (sampleWatched.appendFrom 0 ((samplePair 1).map (·, true))).retransmitGet sampleName seq
          ringRtpMax :=
  ⟨(lookup_exact 0 _ numbered_samplePair).1 _ _ _ fills_samplePair,
    (lookup_exact 0 _ numbered_samplePair).2.1 _ _ _ _ _ _ fills_sampleWatched,
    (lookup_exact 0 _ numbered_samplePair).2.2 _ _ _ _ _ _ _ _ _ fills_samplePair
      fills_sampleWatched (by decide +kernel)⟩

end NginxRtc
