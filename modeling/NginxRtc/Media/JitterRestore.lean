/-
  A disturbed stream comes out of the reorder buffer as it was sent.

  The publisher sends the packets 0, 1, .. from a sequence number on; the network delivers them in
  some order, some of them twice.  `Window` says what the buffer holds when `A` has arrived and `m` is
  expected next.

  `Holds.push`: one arrival, which puts out what it lets through.
  `jitter_restores`: as long as no packet is a buffer ahead of what is missing and nothing waits for
  the timeout, the buffer has put out exactly the packets before the first one missing.
-/
import NginxRtc.Lib.Reorder
import NginxRtc.Media.JitterGap

namespace NginxRtc

universe u
variable {α : Type u}

namespace Jitter

variable {pkt : ℕ → JitterPkt α} {s₀ : UInt16} {A : Finset ℕ} {m : ℕ} {j j' : Jitter α}

/-- Of the packets from `m` on, `j` holds those that have arrived. -/
structure Window (pkt : ℕ → JitterPkt α) (s₀ : UInt16) (A : Finset ℕ) (m : ℕ) (j : Jitter α) :
    Prop where
  near : ∀ i ∈ A, i < m + 128
  next : j.nextSeq = s₀ + UInt16.ofNat m
  slots : ∀ d < 128, j.slotAt d = if m + d ∈ A then some (pkt (m + d)) else none
  counted : Counted j

theorem Window.front_eq (h : Window pkt s₀ A m j) :
    j.front = if m ∈ A then some (pkt m) else none := by
  rw [← slotAt_zero]
  exact h.slots 0 (by decide)

/-- One number further, with nothing left at the one that was expected. -/
theorem Window.further (h : Window pkt s₀ A m j) (hnext : j'.nextSeq = j.nextSeq + 1)
    (hslots : ∀ d < 128, j'.slotAt d = if d = 127 then none else j.slotAt (d + 1)) (hc : Counted j') :
    Window pkt s₀ A (m + 1) j' where
  near i hi := by
    have := h.near i hi
    omega
  next := by
    rw [hnext, h.next, show (1 : UInt16) = UInt16.ofNat 1 from rfl, add_ofNat_add]
  slots d hd := by
    rw [hslots d hd, Nat.add_right_comm m 1 d]
    by_cases h127 : d = 127
    · rw [if_pos h127, if_neg fun hm => ?_]
      have := h.near _ hm
      omega
    · rw [if_neg h127, h.slots (d + 1) (by omega)]
      rfl
  counted := hc

/-- The packet expected has gone past the buffer. -/
theorem Window.pass (h : Window pkt s₀ A m j) (hm : m ∉ A) :
    Window pkt s₀ A (m + 1) { j with nextSeq := j.nextSeq + 1 } := by
  refine h.further rfl (fun d _ => ?_) h.counted
  have hslot : slotAt { j with nextSeq := j.nextSeq + 1 } d = j.slotAt (d + 1) := by
    simp only [slotAt, ofNat_succ_add]
  rw [hslot]
  split_ifs with hd
  · rw [hd, slotAt_cap, h.front_eq, if_neg hm]
  · rfl

theorem Window.take (h : Window pkt s₀ A m j) (hm : m ∈ A) : Window pkt s₀ A (m + 1) j.take := by
  refine h.further rfl (fun d hd => ?_) (h.counted.take (h.front_eq.trans (if_pos hm)))
  rw [take_slotAt]
  by_cases h127 : d = 127
  · rw [if_pos h127, h127, if_pos (index_cap j.nextSeq)]
  · rw [if_neg h127, if_neg (index_ne_front j.nextSeq (by omega))]

/-- The drain puts out the packets that have arrived, up to the first one missing. -/
theorem Window.drainLoop (h : Window pkt s₀ A m j) (n : ℕ) :
    ∃ k, Window pkt s₀ A (m + k) (drainLoop n j).1 ∧
      (drainLoop n j).2 = (List.range' m k).map pkt ∧ (∀ i, m ≤ i → i < m + k → i ∈ A) ∧
      (j.pending ≤ n → m + k ∉ A) := by
  induction n generalizing j m with
  | zero =>
    refine ⟨0, h, rfl, fun i hi hk => absurd hk (Nat.not_lt.2 hi), fun hp hm => ?_⟩
    have := h.counted.pending_pos.2 ⟨_, _, h.front_eq.trans (if_pos hm)⟩
    omega
  | succ n ih =>
    have hf := h.front_eq
    by_cases hm : m ∈ A
    · rw [if_pos hm] at hf
      obtain ⟨k, hw, hout, hin, hend⟩ := ih (h.take hm)
      simp only [Jitter.drainLoop, hf]
      rw [Nat.add_right_comm, Nat.add_assoc] at hw hend
      refine ⟨k + 1, hw, ?_, fun i hi hk => ?_, fun hp => hend ?_⟩
      · rw [hout]
        rfl
      · rcases Nat.eq_or_lt_of_le hi with rfl | hlt
        · exact hm
        · exact hin i hlt (by omega)
      · show j.pending - 1 ≤ n
        omega
    · rw [if_neg hm] at hf
      simp only [Jitter.drainLoop, hf]
      exact ⟨0, h, rfl, fun i hi hk => absurd hk (Nat.not_lt.2 hi), fun _ => hm⟩

theorem Window.drain (h : Window pkt s₀ A m j) :
    ∃ k, Window pkt s₀ A (m + k) j.drain.1 ∧ j.drain.2 = (List.range' m k).map pkt ∧
      (∀ i, m ≤ i → i < m + k → i ∈ A) ∧ m + k ∉ A := by
  obtain ⟨k, hw, hout, hin, hend⟩ := h.drainLoop jitterCap
  exact ⟨k, ⟨hw.near, hw.next, hw.slots, hw.counted⟩, hout, hin, hend h.counted.pending_le⟩

/-! ## One arrival -/

open Reorder (Waiting front_notMem)

theorem Window.pending_pos (h : Window pkt s₀ A (Reorder.front A) j) : 0 < j.pending ↔ Waiting A := by
  rw [h.counted.pending_pos]
  constructor
  · rintro ⟨i, p, hi⟩
    obtain ⟨d, hd, rfl⟩ := exists_offset j.nextSeq i
    have hs := h.slots d hd
    rw [slotAt, hi] at hs
    have hin : Reorder.front A + d ∈ A := by
      by_contra hn
      rw [if_neg hn] at hs
      cases hs
    refine ⟨_, hin, Nat.lt_of_le_of_ne (Nat.le_add_right _ d) fun he => ?_⟩
    exact front_notMem A (he ▸ hin)
  · rintro ⟨i, hi, hlt⟩
    have hd : i - Reorder.front A < 128 := by
      have := h.near i hi
      omega
    have hs := h.slots (i - Reorder.front A) hd
    rw [Nat.add_sub_cancel' (Nat.le_of_lt hlt), if_pos hi] at hs
    exact ⟨_, _, hs⟩

/-- What the buffer holds after the arrivals `s`. -/
structure Holds (pkt : ℕ → JitterPkt α) (s₀ : UInt16) (timeout : ℕ) (s : Reorder.State)
    (j : Jitter α) : Prop where
  window : Window pkt s₀ s.arrived (Reorder.front s.arrived) j
  since : s.since.isSome ↔ Waiting s.arrived
  clock : ∀ t ∈ s.since, UInt32.ofNat t ≠ 0
  gapTs : j.gapTs = s.since.elim 0 UInt32.ofNat
  timeout : j.timeout.toNat = timeout
  init : j.initialized = true

variable {timeout : ℕ} {s : Reorder.State} {x : ℕ × ℕ}

/-- A wait that has not lasted for the timeout gives nothing up. -/
theorem checkGap_soon {t now : ℕ} (hts : j.gapTs = UInt32.ofNat t) (hle : t ≤ now)
    (hlt : now < t + j.timeout.toNat) : j.checkGap (UInt32.ofNat now) = some (j, []) := by
  refine if_neg fun hlate => ?_
  have hto := j.timeout.toNat_lt
  rw [hts, UInt32.le_iff_toNat_le, UInt32.toNat_sub, UInt32.toNat_ofNat', UInt32.toNat_ofNat'] at hlate
  omega

/-- The clock after an arrival: it runs while packets wait. -/
theorem Holds.clock_step (h : Holds pkt s₀ timeout s j) (hx : UInt32.ofNat x.2 ≠ 0) :
    ∀ t ∈ (Reorder.step s x).since, UInt32.ofNat t ≠ 0 := by
  intro t ht
  by_cases hw : Waiting (Reorder.step s x).arrived
  · rw [Reorder.since_of_waiting hw] at ht
    cases hs : s.since with
    | none =>
      rw [hs] at ht
      cases ht
      exact hx
    | some t' =>
      rw [hs] at ht
      cases ht
      exact h.clock _ hs
  · rw [Reorder.since_of_not_waiting hw] at ht
    cases ht

/-- What arrives behind the expected number changes nothing there. -/
theorem Window.insert_of_lt {i : ℕ} (h : Window pkt s₀ A m j) (hi : i < m) :
    Window pkt s₀ (insert i A) m j where
  near k hk := by
    rcases Finset.mem_insert.1 hk with rfl | hk
    · omega
    · exact h.near k hk
  next := h.next
  slots d hd := by
    have hiff : m + d ∈ insert i A ↔ m + d ∈ A :=
      ⟨fun hm => (Finset.mem_insert.1 hm).resolve_left (by omega), Finset.mem_insert_of_mem⟩
    rw [h.slots d hd]
    simp only [hiff]
  counted := h.counted

/-- What waits after the packet in front has come already waited. -/
theorem waiting_of_insert_front (h : Waiting (insert (Reorder.front A) A)) : Waiting A := by
  obtain ⟨i, hi, hlt⟩ := h
  have hfront := Nat.lt_trans (Reorder.front_lt_front_insert A) hlt
  exact ⟨i, (Finset.mem_insert.1 hi).resolve_left (Nat.ne_of_gt hfront), hfront⟩

/-- The buffer's clock counts from when the packets began to wait. -/
theorem Holds.after (h : Holds pkt s₀ timeout s j) (hx : UInt32.ofNat x.2 ≠ 0)
    (hw : Window pkt s₀ (Reorder.step s x).arrived (Reorder.front (Reorder.step s x).arrived) j')
    (hts : j'.gapTs = (Reorder.step s x).since.elim 0 UInt32.ofNat)
    (hto : j'.gapTimeoutMs = j.gapTimeoutMs) (hinit : j'.initialized = j.initialized) :
    Holds pkt s₀ timeout (Reorder.step s x) j' where
  window := hw
  since := Reorder.since_isSome s x
  clock := h.clock_step hx
  gapTs := hts
  timeout := by
    rw [← h.timeout, Jitter.timeout, Jitter.timeout, hto]
  init := hinit.trans h.init

/-- The packets an arrival lets through. -/
def through (pkt : ℕ → JitterPkt α) (s : Reorder.State) (x : ℕ × ℕ) : List (JitterPkt α) :=
  (List.range' (Reorder.front s.arrived)
    (Reorder.front (Reorder.step s x).arrived - Reorder.front s.arrived)).map pkt

theorem Holds.inOrder (h : Holds pkt s₀ timeout s j)
    (hp : Reorder.Prompt 128 32768 timeout s x) (hx : UInt32.ofNat x.2 ≠ 0)
    (hi : x.1 = Reorder.front s.arrived) :
    ∃ j', j.inOrder (pkt x.1) (UInt32.ofNat x.2) = some (j', through pkt s x) ∧
      Holds pkt s₀ timeout (Reorder.step s x) j' := by
  obtain ⟨k, hw, hout, hin, hend⟩ := (h.window.pass (front_notMem s.arrived)).drain
  obtain ⟨_, hdr, -, hts⟩ := drain_drained (j := { j with nextSeq := j.nextSeq + 1 }) h.window.counted
  set j₁ := Jitter.drain { j with nextSeq := j.nextSeq + 1 } with hj₁
  have hrest := hdr.rest
  -- the front moves past the packet and those drained behind it
  have hfront : Reorder.front (Reorder.step s x).arrived = Reorder.front s.arrived + 1 + k := by
    refine Reorder.front_eq (fun hm => ?_) fun i hlt => ?_
    · exact hend ((Finset.mem_insert.1 hm).resolve_left (by omega))
    · rcases Nat.lt_trichotomy i (Reorder.front s.arrived) with hlo | heq | hhi
      · exact Finset.mem_insert_of_mem (Reorder.mem_of_lt_front hlo)
      · exact Finset.mem_insert.2 (.inl (heq.trans hi.symm))
      · exact Finset.mem_insert_of_mem (hin i hhi hlt)
  have hthrough : through pkt s x = pkt x.1 :: j₁.2 := by
    rw [through, hfront, hout, hi, show Reorder.front s.arrived + 1 + k - Reorder.front s.arrived = k + 1
      by omega, List.range'_succ, List.map_cons]
  have hw' : Window pkt s₀ (Reorder.step s x).arrived
      (Reorder.front (Reorder.step s x).arrived) j₁.1 := by
    rw [hfront]
    exact hw.insert_of_lt (by omega)
  have hpend := hw'.pending_pos
  have hgap : j₁.1.gapTs = (Reorder.step s x).since.elim 0 UInt32.ofNat := by
    rw [hts]
    by_cases hwait : Waiting (Reorder.step s x).arrived
    · have hsince := h.since.2 (waiting_of_insert_front (hi ▸ hwait))
      obtain ⟨t, ht⟩ := Option.isSome_iff_exists.1 hsince
      rw [if_neg (Nat.ne_of_gt (hpend.2 hwait)), Reorder.since_of_waiting hwait]
      simp only [h.gapTs, ht, Option.elim_some, Option.getD_some]
    · have h0 : j₁.1.pending = 0 := Nat.eq_zero_of_not_pos fun hpos => hwait (hpend.1 hpos)
      rw [if_pos h0, Reorder.since_of_not_waiting hwait]
      rfl
  refine ⟨j₁.1, ?_, h.after hx hw' hgap (by rw [hrest]) (by rw [hrest])⟩
  unfold Jitter.inOrder
  simp only [← hj₁]
  by_cases hpos : 0 < j₁.1.pending
  · obtain ⟨t, ht⟩ := Option.isSome_iff_exists.1 ((Reorder.since_isSome s x).2 (hpend.1 hpos))
    obtain ⟨hle, hlt⟩ := hp.soon (Nat.le_of_eq hi.symm) t ht
    have hto : j₁.1.timeout.toNat = timeout := by
      rw [← h.timeout, Jitter.timeout, Jitter.timeout, hrest]
    rw [if_pos hpos, checkGap_soon (by rw [hgap, ht]; rfl) hle (by rw [hto]; exact hlt), hthrough]
    simp only [Option.map_some, List.append_nil]
  · rw [if_neg hpos, hthrough]

/-- A packet the buffer takes, with a flag it keeps. -/
structure Plain (p : JitterPkt α) : Prop where
  pos : p.len ≠ 0
  le : p.len ≤ jitterPktMax
  flag : p.isGopStart = 0 ∨ p.isGopStart = 1

theorem Window.cache {i : ℕ} (h : Window pkt s₀ A m j) (hm : m < i) (hi : i < m + 128)
    (hflag : (pkt i).isGopStart = 0 ∨ (pkt i).isGopStart = 1) (now : UInt32) :
    Window pkt s₀ (insert i A) m (j.cache (pkt i) (s₀ + UInt16.ofNat i) now) where
  near k hk := by
    rcases Finset.mem_insert.1 hk with rfl | hk
    · exact hi
    · exact h.near k hk
  next := h.next
  slots d hd := by
    obtain ⟨e, rfl⟩ := Nat.exists_eq_add_of_lt hm
    have hseq : s₀ + UInt16.ofNat (m + e + 1) = j.nextSeq + UInt16.ofNat (e + 1) := by
      rw [h.next, add_ofNat_add, Nat.add_assoc]
    have hslot : (j.cache (pkt (m + e + 1)) (s₀ + UInt16.ofNat (m + e + 1)) now).slotAt d =
        if d = e + 1 then some (pkt (m + e + 1)) else j.slotAt d := by
      have hkeep : ({ pkt (m + e + 1) with
          isGopStart := if (pkt (m + e + 1)).isGopStart = 0 then 0 else 1 } : JitterPkt α) =
            pkt (m + e + 1) := by
        rcases hflag with h0 | h1
        · rw [h0, if_pos rfl, ← h0]
        · rw [h1, if_neg (by decide), ← h1]
      show Function.update j.slots _ _ (jitterIndex (j.nextSeq + UInt16.ofNat d)) = _
      rw [Function.update_apply, hseq, hkeep]
      refine if_congr ⟨fun he => ?_, fun he => by rw [he]⟩ rfl rfl
      exact jitterIndex_add_inj hd (by omega) he
    rw [hslot]
    by_cases hde : d = e + 1
    · rw [if_pos hde, hde]
      exact (if_pos (Finset.mem_insert_self _ _)).symm
    · have hiff : m + d ∈ insert (m + e + 1) A ↔ m + d ∈ A :=
        ⟨fun hm => (Finset.mem_insert.1 hm).resolve_left (by omega), Finset.mem_insert_of_mem⟩
      rw [if_neg hde, h.slots d hd]
      simp only [hiff]
  counted := h.counted.cache _ _ now

theorem Holds.cache (h : Holds pkt s₀ timeout s j) (hp : Reorder.Prompt 128 32768 timeout s x)
    (hx : UInt32.ofNat x.2 ≠ 0) (hi : Reorder.front s.arrived < x.1) (hpkt : Plain (pkt x.1)) :
    ∃ j', (j.cache (pkt x.1) (s₀ + UInt16.ofNat x.1) (UInt32.ofNat x.2)).checkGap
        (UInt32.ofNat x.2) = some (j', through pkt s x) ∧
      Holds pkt s₀ timeout (Reorder.step s x) j' := by
  set now := UInt32.ofNat x.2 with hnow
  set j' := j.cache (pkt x.1) (s₀ + UInt16.ofNat x.1) now with hj'
  have hfront : Reorder.front (Reorder.step s x).arrived = Reorder.front s.arrived :=
    Reorder.front_insert (Nat.ne_of_gt hi)
  have hwait : Waiting (Reorder.step s x).arrived :=
    ⟨x.1, Finset.mem_insert_self _ _, hfront ▸ hi⟩
  have hw' : Window pkt s₀ (Reorder.step s x).arrived
      (Reorder.front (Reorder.step s x).arrived) j' := by
    rw [hfront]
    exact h.window.cache hi hp.near hpkt.flag now
  have hts : j'.gapTs = UInt32.ofNat (s.since.getD x.2) := by
    show (if j.gapTs = 0 then now else j.gapTs) = _
    rw [h.gapTs]
    cases hs : s.since with
    | none => exact if_pos rfl
    | some t => exact if_neg (h.clock t hs)
  obtain ⟨hle, hlt⟩ := hp.soon (Nat.le_of_lt hi) _ (Reorder.since_of_waiting hwait)
  refine ⟨j', ?_, h.after hx hw' ?_ rfl rfl⟩
  · have hto : j'.timeout.toNat = timeout := h.timeout
    rw [checkGap_soon hts hle (by rw [hto]; exact hlt), through, hfront, Nat.sub_self]
    rfl
  · rw [Reorder.since_of_waiting hwait]
    exact hts

/-- A packet that has been put out is dropped. -/
theorem Holds.stale (h : Holds pkt s₀ timeout s j) (hi : x.1 < Reorder.front s.arrived) (n : UInt32) :
    through pkt s x = [] ∧ Holds pkt s₀ timeout (Reorder.step s x) { j with nStale := n } := by
  have harr : (Reorder.step s x).arrived = s.arrived :=
    Finset.insert_eq_self.2 (Reorder.mem_of_lt_front hi)
  have hsince : (Reorder.step s x).since = s.since := by
    by_cases hwait : Waiting (Reorder.step s x).arrived
    · obtain ⟨t, ht⟩ := Option.isSome_iff_exists.1 (h.since.2 (harr ▸ hwait))
      rw [Reorder.since_of_waiting hwait, ht]
      rfl
    · rw [Reorder.since_of_not_waiting hwait]
      exact (Option.not_isSome_iff_eq_none.1 fun hs => hwait (harr ▸ h.since.1 hs)).symm
  refine ⟨by rw [through, harr, Nat.sub_self]; rfl, ?_, Reorder.since_isSome s x, ?_, ?_, h.timeout,
    h.init⟩
  · rw [harr]
    exact ⟨h.window.near, h.window.next, h.window.slots, h.window.counted⟩
  · rw [hsince]
    exact h.clock
  · rw [hsince]
    exact h.gapTs

theorem seq_sub (h : j.nextSeq = s₀ + UInt16.ofNat m) (i : ℕ) :
    (s₀ + UInt16.ofNat i - j.nextSeq).toNat = (i + 2 ^ 16 - m % 2 ^ 16) % 2 ^ 16 := by
  have hs := s₀.toNat_lt
  rw [h]
  simp only [UInt16.toNat_sub, UInt16.toNat_add, UInt16.toNat_ofNat']
  omega

/-- **One arrival**: what it lets through, and what the buffer holds after it. -/
theorem Holds.push (h : Holds pkt s₀ timeout s (j.anchored (s₀ + UInt16.ofNat x.1)))
    (hp : Reorder.Prompt 128 32768 timeout s x) (hx : UInt32.ofNat x.2 ≠ 0)
    (hpkt : Plain (pkt x.1)) :
    ∃ j', j.push (pkt x.1) (s₀ + UInt16.ofNat x.1) (UInt32.ofNat x.2) = some (j', through pkt s x) ∧
      Holds pkt s₀ timeout (Reorder.step s x) j' ∧
      ¬j.restarts (pkt x.1) (s₀ + UInt16.ofNat x.1) := by
  have hfits : ¬((pkt x.1).len = 0 ∨ jitterPktMax < (pkt x.1).len) :=
    not_or.2 ⟨hpkt.pos, Nat.not_lt.2 hpkt.le⟩
  set j₁ := j.anchored (s₀ + UInt16.ofNat x.1) with hj₁
  have hdist := seq_sub h.window.next x.1
  have hnear := hp.near
  have hrecent := hp.recent
  rw [Jitter.push, if_neg hfits, push.pushOn, restarts, ← hj₁]
  rcases Nat.lt_trichotomy x.1 (Reorder.front s.arrived) with hlt | heq | hgt
  · have hd : (s₀ + UInt16.ofNat x.1 - j₁.nextSeq).toNat =
        2 ^ 16 - (Reorder.front s.arrived - x.1) := by omega
    have hngt : seqGt (s₀ + UInt16.ofNat x.1) j₁.nextSeq = false := by
      rw [seqGt, hd]
      simp only [Bool.and_eq_false_iff, decide_eq_false_iff_not]
      omega
    have hne : s₀ + UInt16.ofNat x.1 ≠ j₁.nextSeq := by
      intro he
      rw [he, dist_self] at hd
      omega
    obtain ⟨hthrough, hh⟩ := h.stale hlt (j₁.nStale + 1)
    refine ⟨_, ?_, hh, fun hr => ?_⟩
    · rw [if_neg hne, hngt, if_neg Bool.false_ne_true, hthrough]
    · rw [hngt] at hr
      exact absurd hr.2.1 Bool.false_ne_true
  · have he : s₀ + UInt16.ofNat x.1 = j₁.nextSeq := by rw [h.window.next, heq]
    obtain ⟨j', hrun, hh⟩ := h.inOrder hp hx heq
    refine ⟨j', by rw [if_pos he, hrun], hh, fun hr => ?_⟩
    have := seqGt_pos hr.2.1
    rw [he, dist_self] at this
    exact absurd this (Nat.lt_irrefl 0)
  · have hd : (s₀ + UInt16.ofNat x.1 - j₁.nextSeq).toNat = x.1 - Reorder.front s.arrived := by omega
    have hg : seqGt (s₀ + UInt16.ofNat x.1) j₁.nextSeq = true := by
      rw [seqGt, hd]
      simp only [Bool.and_eq_true, decide_eq_true_eq]
      omega
    have hne : s₀ + UInt16.ofNat x.1 ≠ j₁.nextSeq := by
      intro he
      rw [he, dist_self] at hd
      omega
    have hcap : ¬jitterCap ≤ (s₀ + UInt16.ofNat x.1 - j₁.nextSeq).toNat := by
      rw [hd, jitterCap]
      omega
    obtain ⟨j', hrun, hh⟩ := h.cache hp hx hgt hpkt
    refine ⟨j', by rw [if_neg hne, if_pos hg, if_neg hcap, hrun], hh, fun hr => hcap hr.2.2⟩

theorem Holds.anchored (h : Holds pkt s₀ timeout s j) (seq : UInt16) :
    Holds pkt s₀ timeout s (j.anchored seq) := by
  rwa [Jitter.anchored, if_pos h.init]

/-- Before the first packet, which decides where the numbers begin. -/
theorem Holds.first (j : Jitter α) (pkt : ℕ → JitterPkt α) (s₀ : UInt16) :
    Holds pkt s₀ j.timeout.toNat ⟨∅, none⟩ (j.reset.anchored s₀) where
  window := by
    rw [Reorder.front_empty]
    exact ⟨fun i hi => absurd hi (Finset.notMem_empty i), (UInt16.add_zero s₀).symm,
      fun d _ => (if_neg (Finset.notMem_empty _)).symm,
      (@Sound.of_empty _ (fun _ => 0) _ (fun _ => rfl) rfl).pending⟩
  since := iff_of_false Bool.false_ne_true fun ⟨i, hi, _⟩ => absurd hi (Finset.notMem_empty i)
  clock t ht := by cases ht
  gapTs := rfl
  timeout := rfl
  init := rfl

end Jitter

/-! ## A stream -/

open Jitter

/-- The packet `x.1` of a stream arrives at the time `x.2`. -/
def arrivalPush (pkt : ℕ → JitterPkt α) (s₀ : UInt16) (x : ℕ × ℕ) : JitterPush α where
  pkt := pkt x.1
  seq := s₀ + UInt16.ofNat x.1
  now := UInt32.ofNat x.2

/-- The buffer has put out the packets in front of the first one missing, each once and in order. -/
structure Restores (pkt : ℕ → JitterPkt α) (A : Finset ℕ) (u : Uplink α) : Prop where
  epoch : u.epoch = 0
  emitted : u.emitted = (List.range (Reorder.front A)).map fun i => (0, pkt i)

variable {pkt : ℕ → JitterPkt α} {s₀ : UInt16} {s : Reorder.State} {x : ℕ × ℕ} {timeout : ℕ}
  {u : Uplink α} {xs : List (ℕ × ℕ)}

theorem Restores.push (h : Restores pkt s.arrived u)
    (hj : Holds pkt s₀ timeout s (u.jitter.anchored (s₀ + UInt16.ofNat x.1)))
    (hp : Reorder.Prompt 128 32768 timeout s x) (hx : UInt32.ofNat x.2 ≠ 0)
    (hpkt : Plain (pkt x.1)) :
    ∃ u', u.push (arrivalPush pkt s₀ x) = some u' ∧ Restores pkt (Reorder.step s x).arrived u' ∧
      Holds pkt s₀ timeout (Reorder.step s x) u'.jitter := by
  obtain ⟨j', hrun, hh, hr⟩ := hj.push hp hx hpkt
  have he : u.epochOf (arrivalPush pkt s₀ x) = 0 := (if_neg hr).trans h.epoch
  have hpush : u.push (arrivalPush pkt s₀ x) =
      some ⟨j', 0, u.emitted ++ (through pkt s x).map (0, ·)⟩ := by
    rw [Uplink.push, he]
    exact congrArg (Option.map _) hrun
  refine ⟨_, hpush, ⟨rfl, ?_⟩, hh⟩
  have hle : Reorder.front s.arrived ≤ Reorder.front (Reorder.step s x).arrived :=
    Reorder.front_le_front_insert s.arrived x.1
  have hrange := @List.range'_append_1 0 (Reorder.front s.arrived)
    (Reorder.front (Reorder.step s x).arrived - Reorder.front s.arrived)
  rw [Nat.zero_add, Nat.add_sub_cancel' hle] at hrange
  show u.emitted ++ _ = _
  rw [h.emitted, through, List.map_map, List.range_eq_range', List.range_eq_range', ← hrange,
    List.map_append]
  rfl

theorem Restores.run (h : Restores pkt s.arrived u)
    (hj : ∀ x ∈ xs.head?, Holds pkt s₀ timeout s (u.jitter.anchored (s₀ + UInt16.ofNat x.1)))
    (hp : Lts.Along Reorder.step (Reorder.Prompt 128 32768 timeout) s xs)
    (hx : ∀ x ∈ xs, UInt32.ofNat x.2 ≠ 0) (hpkt : ∀ i, Plain (pkt i)) :
    ∃ u', u.run (xs.map (arrivalPush pkt s₀)) = some u' ∧
      Restores pkt (Lts.run Reorder.step s xs).arrived u' := by
  induction xs generalizing s u with
  | nil => exact ⟨u, rfl, h⟩
  | cons x xs ih =>
    obtain ⟨hpx, hp⟩ := hp
    obtain ⟨u₁, hu₁, h₁, hh⟩ := h.push (hj x rfl) hpx (hx x List.mem_cons_self) (hpkt x.1)
    obtain ⟨u', hu', h'⟩ := ih h₁ (fun y _ => hh.anchored _) hp fun y hy => hx y (List.mem_cons_of_mem x hy)
    refine ⟨u', ?_, h'⟩
    rw [List.map_cons, Uplink.run, List.foldlM_cons, hu₁]
    exact hu'

/-- **Reordering and duplication are undone.**  After a reset, if packet 0 comes first, no packet
    comes a buffer ahead of the first one missing or `2 ^ 15` behind it, and no packet waits for the
    timeout, then whatever the order and however often each came, the buffer has put out exactly the
    packets before the first one missing, in order. -/
theorem jitter_restores (j : Jitter α) (s₀ : UInt16) (pkt : ℕ → JitterPkt α) (xs : List (ℕ × ℕ))
    (hpkt : ∀ i, Plain (pkt i)) (hx : ∀ x ∈ xs, UInt32.ofNat x.2 ≠ 0)
    (h0 : ∀ x ∈ xs.head?, x.1 = 0)
    (hp : Lts.Along Reorder.step (Reorder.Prompt 128 32768 j.timeout.toNat) ⟨∅, none⟩ xs) :
    ∃ u, (Uplink.start j.reset).run (xs.map (arrivalPush pkt s₀)) = some u ∧
      u.emitted = (List.range (Reorder.front (xs.map Prod.fst).toFinset)).map fun i => (0, pkt i) := by
  have hstart : Restores pkt ∅ (Uplink.start j.reset) := ⟨rfl, by rw [Reorder.front_empty]; rfl⟩
  have hfirst : ∀ x ∈ xs.head?,
      Holds pkt s₀ j.timeout.toNat ⟨∅, none⟩ (j.reset.anchored (s₀ + UInt16.ofNat x.1)) := by
    intro x hxs
    rw [h0 x hxs, show s₀ + UInt16.ofNat 0 = s₀ from UInt16.add_zero s₀]
    exact .first j pkt s₀
  obtain ⟨u, hu, h⟩ := @Restores.run _ pkt s₀ ⟨∅, none⟩ _ _ xs hstart hfirst hp hx hpkt
  refine ⟨u, hu, ?_⟩
  rw [h.emitted, Reorder.arrived_run, Finset.empty_union]

/-- Packet 2 overtakes 1, which comes twice; 4 overtakes 3. -/
def overtaken : List (ℕ × ℕ) := [(0, 1000), (2, 1010), (1, 1020), (1, 1021), (4, 1030), (3, 1040)]

theorem overtaken_prompt :
    Lts.Along Reorder.step (Reorder.Prompt 128 32768 50) ⟨∅, none⟩ overtaken := by
  decide

theorem jitter_restores_sample :
    ∃ u, (Uplink.start Timed.allocated.reset).run
        (overtaken.map (arrivalPush (fun _ => ⟨(), 12, 0⟩) 65534)) = some u ∧
      u.emitted = (List.range (Reorder.front (overtaken.map Prod.fst).toFinset)).map
        fun _ => (0, ⟨(), 12, 0⟩) :=
  jitter_restores Timed.allocated 65534 (fun _ => ⟨(), 12, 0⟩) overtaken
    (fun _ => ⟨by decide, by decide, .inl rfl⟩) (by decide) (by decide) overtaken_prompt

end NginxRtc
