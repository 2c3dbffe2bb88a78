/-
  What a receiver gets from one tag of video: the NAL units that are not dropped, the parameter sets
  ahead of each IDR slice, and the marker that ends the access unit.

  `size_received_le`: the receiver never gets more than the table holds, and less when a NAL unit of
  the table cannot be sent as it is.  `markers_videoItems`: which packets carry the marker.
  `delivered_iff`: exactly when the access unit arrives whole and delimited.
-/
import NginxRtc.Media.Video

namespace NginxRtc

/-! ## The access unit -/

/-- A NAL unit that is to be sent: it has bytes, and is not a B-frame slice. -/
def Wanted (nalu : Bytes) : Prop := nalu ≠ [] ∧ h264IsBFrame nalu ≠ 1

instance (nalu : Bytes) : Decidable (Wanted nalu) :=
  inferInstanceAs (Decidable (nalu ≠ [] ∧ h264IsBFrame nalu ≠ 1))

instance (nalu : Bytes) : Decidable (Sendable nalu) :=
  inferInstanceAs (Decidable (h264Mtu < nalu.length ∨ H264.isPlain nalu = true))

section Access
variable (t : VideoTrack)

/-- The SPS and the PPS if the NAL unit is an IDR slice. -/
def paramSets (nalu : Bytes) : List Bytes :=
  if h264NaluType nalu = naluIdr then [t.sps.bytes, t.pps.bytes] else []

/-- What is to be received for NAL units of a tag. -/
def access : List Bytes → List Bytes
  | [] => []
  | n :: ns => if Wanted n then paramSets t n ++ n :: access ns else access ns

theorem access_append (ns ms : List Bytes) : access t (ns ++ ms) = access t ns ++ access t ms := by
  induction ns with
  | nil => rfl
  | cons n ns ih =>
    simp only [List.cons_append, access, ih]
    split_ifs
    · simp only [List.append_assoc, List.cons_append]
    · rfl

/-- A NAL unit that is to be sent is missed if it does not arrive. -/
theorem size_access_pos {ns : List Bytes} {n : Bytes} (hn : n ∈ ns) (hw : Wanted n) :
    0 < H264.size (access t ns) := by
  have hpos : 0 < n.length := List.length_pos_iff.2 hw.1
  induction ns with
  | nil => exact absurd hn List.not_mem_nil
  | cons m ns ih =>
    rw [access]
    rcases List.mem_cons.1 hn with rfl | hn
    · rw [if_pos hw, H264.size_append]
      simp only [H264.size, List.map_cons, List.sum_cons]
      omega
    · have hrec := ih hn
      split_ifs
      · rw [H264.size_append]
        simp only [H264.size, List.map_cons, List.sum_cons] at hrec ⊢
        omega
      · exact hrec

end Access

/-- **What the packets of a tag have to be.** -/
structure Delivered (t : VideoTrack) (ms : UInt32) (nalus packets : List Bytes) : Prop where
  units : H264.depacketize (packets.map Rtp.payload) = access t nalus
  announced : H264.Announced [t.sps.bytes, t.pps.bytes] naluIdr (packets.map Rtp.payload)
  seq : ∀ i p, packets[i]? = some p → Rtp.seq p = t.videoSeq + UInt16.ofNat i
  timestamp : ∀ p ∈ packets, Rtp.timestamp p = h264TimestampFromMs ms
  marker : ∀ i p, packets[i]? = some p → (Rtp.marker p = true ↔ i + 1 = packets.length)

/-- The NAL units end with one that is sent, and none of them ends the loop over the table. -/
def EndsAccess (nalus : List Bytes) : Prop :=
  nalus ≠ [] ∧ (∀ n ∈ nalus, n ≠ []) ∧ ∀ n ∈ nalus.getLast?, h264IsBFrame n ≠ 1

/-- The NAL units that a tag delivers: none is to be sent at all, or the table holds all that are,
    ends with one of them, has no empty one, and each of them can be sent as it is. -/
def Deliverable (nalus : List Bytes) : Prop :=
  (∀ n ∈ nalus, ¬ Wanted n) ∨
    EndsAccess (nalus.take maxNalus) ∧ (∀ n ∈ nalus.drop maxNalus, ¬ Wanted n) ∧
      ∀ n ∈ nalus, Wanted n → Sendable n

/-! ## Parameter sets -/

section Table
variable {t : VideoTrack}

theorem paramSets_fit (t : VideoTrack) :
    ∀ n ∈ [t.sps.bytes, t.pps.bytes], n.length < 2 ^ 16 := by
  have hs := t.sps.fits
  have hp := t.pps.fits
  simp only [paramSetMax] at hs hp
  intro n hn
  simp only [List.mem_cons, List.not_mem_nil, or_false] at hn
  simp only [Nat.reducePow]
  rcases hn with rfl | rfl <;> omega

theorem announceItems_eq (hsps : t.sps.known) (hpps : t.pps.known) (nalu : Bytes) :
    announceItems t nalu =
      if h264NaluType nalu = naluIdr then
        [(true, false, stapPayload [t.sps.bytes, t.pps.bytes])] else [] := by
  simp only [announceItems, hsps, hpps, and_true]

/-- The payloads that `xs` are sent with. -/
def payloads (xs : List VideoItem) : List Bytes := xs.map fun x => x.2.2

theorem payloads_append (xs ys : List VideoItem) :
    payloads (xs ++ ys) = payloads xs ++ payloads ys := List.map_append

theorem payloads_map (gop : Bool) (xs : List (Bool × Bytes)) :
    payloads (xs.map fun x => (gop, x)) = xs.map Prod.snd := by
  simp [payloads, Function.comp_def]

/-- A receiver gets the parameter sets of an IDR slice. -/
theorem feed_announceItems (hsps : t.sps.known) (hpps : t.pps.known) (kept : Option H264.Nalu)
    (nalu : Bytes) :
    (H264.feed kept (payloads (announceItems t nalu))).2 = paramSets t nalu ∧
      H264.size (H264.feed kept (payloads (announceItems t nalu))).1.toList ≤
        H264.size kept.toList := by
  rw [announceItems_eq hsps hpps, paramSets]
  split_ifs
  · have h := feed_stapPayload kept (paramSets_fit t)
    rw [payloads, List.map_cons, List.map_nil, h]
    exact ⟨rfl, Nat.zero_le _⟩
  · exact ⟨rfl, le_rfl⟩

/-! ## What arrives -/

/-- **Nothing is lost of a table** without an empty NAL unit, whose NAL units can all be sent. -/
theorem received_videoItems (hsps : t.sps.known) (hpps : t.pps.known) {ns : List Bytes}
    (hne : ∀ n ∈ ns, n ≠ []) (hs : ∀ n ∈ ns, Wanted n → Sendable n) (kept : Option H264.Nalu) :
    (H264.feed kept (payloads (videoItems t ns))).2 = access t ns := by
  induction ns generalizing kept with
  | nil => rfl
  | cons n ns ih =>
    have hrec := ih (fun m hm => hne m (List.mem_cons_of_mem n hm))
      fun m hm => hs m (List.mem_cons_of_mem n hm)
    have hn := hne n List.mem_cons_self
    rw [videoItems, access]
    by_cases hb : h264IsBFrame n = 1
    · rw [if_pos hb, if_neg (fun hw => hw.2 hb)]
      exact hrec kept
    · have hw : Wanted n := ⟨hn, hb⟩
      rw [if_neg hb, if_neg hn, if_pos hw, payloads_append, payloads_append, payloads_map,
        H264.feed_append, H264.feed_append, (feed_announceItems hsps hpps kept n).1,
        feed_naluItems _ hn (hs n List.mem_cons_self hw)]
      simp only [hrec, List.append_assoc, List.singleton_append]

/-- **No more arrives than the table holds**, and less if one of its NAL units cannot be sent as
    it is. -/
theorem size_received_le (hsps : t.sps.known) (hpps : t.pps.known) (ns : List Bytes)
    (kept : Option H264.Nalu) :
    H264.size (H264.feed kept (payloads (videoItems t ns))).2 +
        H264.size (H264.feed kept (payloads (videoItems t ns))).1.toList ≤
      H264.size kept.toList + H264.size (access t ns) ∧
    ((∃ n ∈ ns, Wanted n ∧ ¬ Sendable n) →
      H264.size (H264.feed kept (payloads (videoItems t ns))).2 +
          H264.size (H264.feed kept (payloads (videoItems t ns))).1.toList <
        H264.size kept.toList + H264.size (access t ns)) := by
  induction ns generalizing kept with
  | nil =>
    refine ⟨le_of_eq (Nat.add_comm _ _), ?_⟩
    rintro ⟨n, hn, -⟩
    exact absurd hn List.not_mem_nil
  | cons n ns ih =>
    by_cases hb : h264IsBFrame n = 1
    · have hw : ¬ Wanted n := fun hw => hw.2 hb
      rw [videoItems, access, if_pos hb, if_neg hw]
      refine ⟨(ih kept).1, ?_⟩
      rintro ⟨m, hm, hm', hms⟩
      rcases List.mem_cons.1 hm with rfl | hm
      · exact absurd hm' hw
      · exact (ih kept).2 ⟨m, hm, hm', hms⟩
    · by_cases hn : n = []
      · rw [videoItems, if_neg hb, if_pos hn]
        have hfeed : H264.feed kept (payloads []) = (kept, []) := rfl
        have hnil : H264.size ([] : List H264.Nalu) = 0 := rfl
        rw [hfeed, hnil, Nat.zero_add]
        refine ⟨Nat.le_add_right _ _, ?_⟩
        rintro ⟨m, hm, hm', -⟩
        exact Nat.lt_add_of_pos_right (size_access_pos t hm hm')
      · have hw : Wanted n := ⟨hn, hb⟩
        obtain ⟨hsets, hkept⟩ := feed_announceItems hsps hpps kept n
        have hunit := size_feed_naluItems
          (H264.feed kept (payloads (announceItems t n))).1 hn ns.isEmpty
        have hrest := ih (H264.feed (H264.feed kept (payloads (announceItems t n))).1
          ((naluItems n ns.isEmpty).map Prod.snd)).1
        have hsize : H264.size (access t (n :: ns)) =
            H264.size (paramSets t n) + (n.length + H264.size (access t ns)) := by
          rw [access, if_pos hw, H264.size_append]
          simp only [H264.size, List.map_cons, List.sum_cons]
        rw [videoItems, if_neg hb, if_neg hn, payloads_append, payloads_append, payloads_map,
          H264.feed_append, H264.feed_append, hsets, hsize]
        simp only [H264.size_append]
        refine ⟨by omega, ?_⟩
        rintro ⟨m, hm, hm', hms⟩
        rcases List.mem_cons.1 hm with rfl | hm
        · have hless := hunit.2 hms
          omega
        · have hless := hrest.2 ⟨m, hm, hm', hms⟩
          omega

/-! ## Markers -/

theorem markers_announceItems (hsps : t.sps.known) (hpps : t.pps.known) (nalu : Bytes) :
    ∃ num, (announceItems t nalu).map (fun x => x.2.1) = List.replicate num false := by
  rw [announceItems_eq hsps hpps]
  split_ifs
  · exact ⟨1, rfl⟩
  · exact ⟨0, rfl⟩

theorem endsAccess_cons {n m : Bytes} {ns : List Bytes} (hn : n ≠ []) :
    EndsAccess (n :: m :: ns) ↔ EndsAccess (m :: ns) := by
  simp only [EndsAccess, ne_eq, reduceCtorEq, not_false_eq_true, true_and, List.mem_cons,
    forall_eq_or_imp, hn, List.getLast?_cons_cons]

/-- **The marker** rides the last packet of a table that ends with a NAL unit that is sent, and no
    packet of any other table. -/
theorem markers_videoItems (hsps : t.sps.known) (hpps : t.pps.known) (ns : List Bytes) :
    ∃ num, (EndsAccess ns →
        (videoItems t ns).map (fun x => x.2.1) = List.replicate num false ++ [true]) ∧
      (¬ EndsAccess ns → (videoItems t ns).map (fun x => x.2.1) = List.replicate num false) := by
  induction ns with
  | nil => exact ⟨0, fun h => absurd rfl h.1, fun _ => rfl⟩
  | cons n ns ih =>
    obtain ⟨num, hends, hno⟩ := ih
    rw [videoItems]
    by_cases hb : h264IsBFrame n = 1
    · have hn : n ≠ [] := by
        rintro rfl
        exact absurd hb (by decide)
      rw [if_pos hb]
      cases ns with
      | nil => exact ⟨0, fun h => absurd hb (h.2.2 n (by simp)), fun _ => rfl⟩
      | cons m ns =>
        refine ⟨num, fun h => hends ((endsAccess_cons hn).1 h), fun h => hno fun h' => ?_⟩
        exact h ((endsAccess_cons hn).2 h')
    · rw [if_neg hb]
      by_cases hn : n = []
      · rw [if_pos hn]
        exact ⟨0, fun h => absurd hn (h.2.1 n List.mem_cons_self), fun _ => rfl⟩
      · obtain ⟨sets, hsets⟩ := markers_announceItems hsps hpps n
        obtain ⟨own, hown⟩ := markers_naluItems hn ns.isEmpty
        have hown' : ((naluItems n ns.isEmpty).map fun x => (false, x)).map (fun x => x.2.1) =
            List.replicate own false ++ [ns.isEmpty] := by
          rw [← hown, List.map_map]
          rfl
        rw [if_neg hn, List.map_append, List.map_append, hsets, hown']
        cases ns with
        | nil =>
          refine ⟨sets + own, fun _ => ?_, fun h => absurd ⟨List.cons_ne_nil _ _, ?_, ?_⟩ h⟩
          · simp only [videoItems, List.map_nil, List.append_nil, List.isEmpty_nil,
              List.replicate_add, List.append_assoc]
          · simpa using hn
          · simpa using hb
        | cons m ns =>
          refine ⟨sets + own + 1 + num, fun h => ?_, fun h => ?_⟩
          · rw [hends ((endsAccess_cons hn).1 h)]
            simp only [List.isEmpty_cons, List.replicate_add, List.append_assoc,
              List.replicate_one]
          · rw [hno fun h' => h ((endsAccess_cons hn).2 h')]
            simp only [List.isEmpty_cons, List.replicate_add, List.append_assoc,
              List.replicate_one]

/-! ## Announcements -/

theorem announced_naluItems {nalu : Bytes} (hn : nalu ≠ []) (hs : Sendable nalu)
    (hsps : t.sps.known) (hpps : t.pps.known) (marker : Bool) :
    H264.Announced [t.sps.bytes, t.pps.bytes] naluIdr
      (payloads (announceItems t nalu) ++ (naluItems nalu marker).map Prod.snd) := by
  obtain ⟨x, xs, he, hx, hxs⟩ := startsType_naluItems hn hs naluIdr marker
  have hlater : ∀ p ∈ xs.map Prod.snd, H264.startsType naluIdr p = false := by
    intro p hp
    obtain ⟨y, hy, rfl⟩ := List.mem_map.1 hp
    exact hxs y hy
  rw [announceItems_eq hsps hpps, he, List.map_cons]
  split_ifs with hidr
  · refine H264.Announced.cons ⟨_, _, rfl, typeOf_stapHeader _, ?_⟩ hlater
    exact aggregated_stapUnits (paramSets_fit t)
  · refine H264.Announced.of_none fun p hp => ?_
    rcases List.mem_cons.1 hp with rfl | hp
    · rw [Bool.eq_false_iff]
      exact fun h => hidr (hx.1 h)
    · exact hlater p hp

/-- **Every IDR slice comes right after the parameter sets.** -/
theorem announced_videoItems (hsps : t.sps.known) (hpps : t.pps.known) {ns : List Bytes}
    (hs : ∀ n ∈ ns, Wanted n → Sendable n) :
    H264.Announced [t.sps.bytes, t.pps.bytes] naluIdr (payloads (videoItems t ns)) := by
  induction ns with
  | nil => exact H264.Announced.of_none fun p hp => absurd hp List.not_mem_nil
  | cons n ns ih =>
    have hrec := ih fun m hm => hs m (List.mem_cons_of_mem n hm)
    rw [videoItems]
    split_ifs with hb hn
    · exact hrec
    · exact H264.Announced.of_none fun p hp => absurd hp List.not_mem_nil
    · rw [payloads_append, payloads_append, payloads_map]
      exact (announced_naluItems hn (hs n List.mem_cons_self ⟨hn, hb⟩) hsps hpps _).append hrec

end Table

/-! ## When the access unit is delivered -/

/-- The last of the markers is set, and no other. -/
def LastMarked (ms : List Bool) : Prop := ∀ i m, ms[i]? = some m → (m = true ↔ i + 1 = ms.length)

theorem lastMarked_replicate_append (num : ℕ) :
    LastMarked (List.replicate num false ++ [true]) := by
  intro i m h
  have hi := (List.getElem?_eq_some_iff.1 h).1
  simp only [List.length_append, List.length_replicate, List.length_singleton] at hi ⊢
  by_cases hlast : i = num
  · subst hlast
    rw [List.getElem?_append_right (by simp)] at h
    simp only [List.length_replicate, Nat.sub_self, List.getElem?_cons_zero, Option.some.injEq] at h
    exact ⟨fun _ => rfl, fun _ => h.symm⟩
  · have hlt : i < num := by omega
    rw [List.getElem?_append_left (by simpa using hlt),
      List.getElem?_replicate_of_lt hlt, Option.some.injEq] at h
    refine ⟨fun hm => ?_, fun hi' => by omega⟩
    rw [← h] at hm
    exact absurd hm Bool.false_ne_true

theorem lastMarked_replicate {num : ℕ} (h : LastMarked (List.replicate num false)) : num = 0 := by
  cases num with
  | zero => rfl
  | succ num =>
    have hlast := (h num false (List.getElem?_replicate_of_lt (Nat.lt_succ_self num))).2 (by simp)
    exact absurd hlast Bool.false_ne_true

theorem lastMarked_stampVideo (k : Stamp) (seq : UInt16) (xs : List VideoItem) :
    (∀ i p, ((stampVideo k seq xs).map Prod.snd)[i]? = some p →
        (Rtp.marker p = true ↔ i + 1 = ((stampVideo k seq xs).map Prod.snd).length)) ↔
      LastMarked (xs.map fun x => x.2.1) := by
  simp only [LastMarked, List.length_map, length_stampVideo]
  constructor
  · intro h i m hm
    rw [List.getElem?_map] at hm
    obtain ⟨x, hx, rfl⟩ := Option.map_eq_some_iff.1 hm
    have hp := h i (rtpBuildHeader k (seq + UInt16.ofNat i) x.2.1 ++ x.2.2) (by
      rw [List.getElem?_map, getElem?_stampVideo, hx]
      rfl)
    rwa [marker_build] at hp
  · intro h i p hp
    obtain ⟨x, hx, rfl⟩ := packet_stampVideo k seq xs hp
    rw [marker_build]
    refine h i x.2.1 ?_
    rw [List.getElem?_map, hx]
    rfl

section Delivery
variable {t : VideoTrack} {nalus : List Bytes}

/-- The packets of a tag are numbered and stamped, whatever the tag holds. -/
theorem seq_tagPackets (t : VideoTrack) (ms : UInt32) (data : Bytes) {i : ℕ} {p : Bytes}
    (h : ((tagPackets t ms data).map Prod.snd)[i]? = some p) :
    Rtp.seq p = t.videoSeq + UInt16.ofNat i ∧ Rtp.timestamp p = h264TimestampFromMs ms := by
  rw [tagPackets_eq] at h
  obtain ⟨x, -, rfl⟩ := packet_stampVideo _ _ _ h
  exact ⟨seq_build _ _ _ _, timestamp_build _ _ _ _⟩

/-- What a receiver makes of a tag. -/
theorem depacketize_tagPackets (t : VideoTrack) (ms : UInt32)
    (hlen : ∀ n ∈ nalus, n.length < 2 ^ 32) :
    ((tagPackets t ms (avcc nalus)).map Prod.snd).map Rtp.payload =
      payloads (videoItems t (nalus.take maxNalus)) := by
  rw [tagPackets_eq, payloads_stampVideo, splitNalus_avcc maxNalus hlen]
  rfl

theorem marker_tagPackets (t : VideoTrack) (ms : UInt32) (hlen : ∀ n ∈ nalus, n.length < 2 ^ 32) :
    (∀ i p, ((tagPackets t ms (avcc nalus)).map Prod.snd)[i]? = some p →
        (Rtp.marker p = true ↔ i + 1 = ((tagPackets t ms (avcc nalus)).map Prod.snd).length)) ↔
      LastMarked ((videoItems t (nalus.take maxNalus)).map fun x => x.2.1) := by
  rw [tagPackets_eq, splitNalus_avcc maxNalus hlen]
  exact lastMarked_stampVideo _ _ _

/-- Nothing is sent of NAL units none of which is to be sent. -/
theorem videoItems_of_unwanted (t : VideoTrack) {ns : List Bytes} (h : ∀ n ∈ ns, ¬ Wanted n) :
    videoItems t ns = [] := by
  induction ns with
  | nil => rfl
  | cons n ns ih =>
    have hrec := ih fun m hm => h m (List.mem_cons_of_mem n hm)
    rw [videoItems]
    split_ifs with hb hn
    · exact hrec
    · rfl
    · exact absurd ⟨hn, hb⟩ (h n List.mem_cons_self)

theorem access_of_unwanted (t : VideoTrack) {ns : List Bytes} (h : ∀ n ∈ ns, ¬ Wanted n) :
    access t ns = [] := by
  induction ns with
  | nil => rfl
  | cons n ns ih =>
    rw [access, if_neg (h n List.mem_cons_self)]
    exact ih fun m hm => h m (List.mem_cons_of_mem n hm)

theorem delivered_of_deliverable (hsps : t.sps.known) (hpps : t.pps.known) (ms : UInt32)
    (hlen : ∀ n ∈ nalus, n.length < 2 ^ 32) (h : Deliverable nalus) :
    Delivered t ms nalus ((tagPackets t ms (avcc nalus)).map Prod.snd) := by
  have hseq := fun i p hp => (seq_tagPackets t ms (avcc nalus) (i := i) (p := p) hp).1
  have htime : ∀ p ∈ (tagPackets t ms (avcc nalus)).map Prod.snd,
      Rtp.timestamp p = h264TimestampFromMs ms := by
    intro p hp
    obtain ⟨i, hi⟩ := List.mem_iff_getElem?.1 hp
    exact (seq_tagPackets t ms (avcc nalus) hi).2
  have hpay := depacketize_tagPackets t ms hlen
  have hmark := (marker_tagPackets t ms hlen).2
  rcases h with hnone | ⟨hends, hrest, hsend⟩
  · have htake : ∀ n ∈ nalus.take maxNalus, ¬ Wanted n := fun n hn =>
      hnone n (List.mem_of_mem_take hn)
    rw [videoItems_of_unwanted t htake] at hpay hmark
    refine ⟨?_, ?_, hseq, htime, hmark fun i m hm => nomatch hm⟩
    · rw [hpay, access_of_unwanted t hnone]
      rfl
    · rw [hpay]
      exact H264.Announced.of_none fun p hp => absurd hp List.not_mem_nil
  · have htake : ∀ n ∈ nalus.take maxNalus, Wanted n → Sendable n := fun n hn =>
      hsend n (List.mem_of_mem_take hn)
    refine ⟨?_, ?_, hseq, htime, hmark ?_⟩
    · have hall : access t nalus = access t (nalus.take maxNalus) := by
        rw [← List.take_append_drop maxNalus nalus, access_append, access_of_unwanted t hrest,
          List.append_nil, List.take_append_drop]
      rw [hpay, hall]
      exact received_videoItems hsps hpps hends.2.1 htake none
    · rw [hpay]
      exact announced_videoItems hsps hpps htake
    · obtain ⟨num, hm, -⟩ := markers_videoItems hsps hpps (nalus.take maxNalus)
      rw [hm hends]
      exact lastMarked_replicate_append num

theorem deliverable_of_delivered (hsps : t.sps.known) (hpps : t.pps.known) (ms : UInt32)
    (hlen : ∀ n ∈ nalus, n.length < 2 ^ 32)
    (h : Delivered t ms nalus ((tagPackets t ms (avcc nalus)).map Prod.snd)) :
    Deliverable nalus := by
  by_cases hnone : ∀ n ∈ nalus, ¬ Wanted n
  · exact .inl hnone
  have hsplit : access t nalus =
      access t (nalus.take maxNalus) ++ access t (nalus.drop maxNalus) := by
    rw [← access_append, List.take_append_drop]
  have hunits := h.units
  rw [depacketize_tagPackets t ms hlen, H264.depacketize] at hunits
  have hsize := size_received_le hsps hpps (nalus.take maxNalus) none
  rw [hunits, hsplit, H264.size_append] at hsize
  have hnil : H264.size (none : Option H264.Nalu).toList = 0 := rfl
  have hrest : ∀ n ∈ nalus.drop maxNalus, ¬ Wanted n := by
    intro n hn hw
    have hpos := size_access_pos t hn hw
    omega
  refine .inr ⟨?_, hrest, fun n hn hw => ?_⟩
  · obtain ⟨num, -, hno⟩ := markers_videoItems hsps hpps (nalus.take maxNalus)
    have hmark := (marker_tagPackets t ms hlen).1 h.marker
    by_contra hends
    -- no packet carries the marker, so there is none, and nothing arrives
    rw [hno hends] at hmark
    have hitems : videoItems t (nalus.take maxNalus) = [] := by
      have hlength := congrArg List.length (hno hends)
      rw [lastMarked_replicate hmark] at hlength
      simpa using hlength
    rw [hitems] at hunits
    simp only [not_forall, not_not] at hnone
    obtain ⟨n, hn, hw⟩ := hnone
    have hpos := size_access_pos t hn hw
    rw [← hunits] at hpos
    exact absurd hpos (Nat.lt_irrefl 0)
  · by_contra hs
    rw [← List.take_append_drop maxNalus nalus] at hn
    rcases List.mem_append.1 hn with hn | hn
    · have hless := hsize.2 ⟨n, hn, hw, hs⟩
      omega
    · exact hrest n hn hw

/-- **A tag is delivered whole and delimited exactly when** none of its NAL units is to be sent, or
    the table holds all that are, ends with one of them, has no empty one, and each of them can be
    sent as it is.  Any callback that never fails is handed the same packets. -/
theorem delivered_iff {σ : Type} {emit : VideoEmit σ} (he : emit.Succeeds) (hsps : t.sps.known)
    (hpps : t.pps.known) (ms : UInt32) (hlen : ∀ n ∈ nalus, n.length < 2 ^ 32) (st : σ) :
    (rtmpRtcVideo emit t ms (avcc nalus) st).1 =
        handOver emit (tagPackets t ms (avcc nalus)) st ∧
      (Delivered t ms nalus ((tagPackets t ms (avcc nalus)).map Prod.snd) ↔
        Deliverable nalus) := by
  refine ⟨?_, deliverable_of_delivered hsps hpps ms hlen,
    delivered_of_deliverable hsps hpps ms hlen⟩
  rw [rtmpRtcVideo_eq he, tagPackets_eq]

end Delivery

/-! ## A tag that is delivered, and one that is not -/

/-- A track whose parameter sets are known. -/
def sampleVideo : VideoTrack where
  sps := ⟨[0x67, 0x42, 0x00, 0x1f], by decide⟩
  pps := ⟨[0x68, 0xce], by decide⟩
  videoSeq := 65535
  videoTs := 0
  lastVideoRtmpMs := 0
  videoSsrc := 7
  videoPt := 96

/-- An access unit delimiter and an IDR slice. -/
def sampleUnit : List Bytes := [[0x09, 0xf0], [0x65, 0x88, 0x84]]

theorem delivered_sample :
    (rtmpRtcVideo record sampleVideo 40 (avcc sampleUnit) []).1 =
        handOver record (tagPackets sampleVideo 40 (avcc sampleUnit)) [] ∧
      Delivered sampleVideo 40 sampleUnit
        ((tagPackets sampleVideo 40 (avcc sampleUnit)).map Prod.snd) := by
  have hlen : ∀ n ∈ sampleUnit, n.length < 2 ^ 32 := by decide
  have hsps : sampleVideo.sps.known := by decide
  have hpps : sampleVideo.pps.known := by decide
  have h := delivered_iff record_succeeds hsps hpps 40 hlen []
  have hends : EndsAccess (sampleUnit.take maxNalus) :=
    ⟨by decide, by decide, by decide⟩
  exact ⟨h.1, h.2.2 (.inr ⟨hends, by decide, by decide⟩)⟩

/-- A P slice before a B-frame slice: the B-frame slice is dropped, and no packet carries the
    marker. -/
theorem last_slice_dropped :
    sampleVideo.sps.known ∧ sampleVideo.pps.known ∧
      tagPackets sampleVideo 40 (avcc [[0x41, 0xc0], [0x01, 0xa0]]) ≠ [] ∧
      ¬ Delivered sampleVideo 40 [[0x41, 0xc0], [0x01, 0xa0]]
        ((tagPackets sampleVideo 40 (avcc [[0x41, 0xc0], [0x01, 0xa0]])).map Prod.snd) := by
  refine ⟨by decide, by decide, by decide +kernel, fun h => ?_⟩
  have hmark := h.marker 0 [0x80, 0x60, 0xff, 0xff, 0, 0, 0x0e, 0x10, 0, 0, 0, 7, 0x41, 0xc0]
    (by decide +kernel)
  exact absurd (hmark.2 (by decide +kernel)) (by decide +kernel)

end NginxRtc
