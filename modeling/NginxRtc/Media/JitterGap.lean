/-
  The deadline of a gap in the reorder buffer.

  A number `d` ahead of the expected one is missing when its slot is empty.  What a push passes over
  without handing it on, it gives up.

  `jitter_deadline`: over any pushes of a clock that does not run backwards, a packet that is
  expected or less than the buffer ahead makes the buffer give something up exactly if packets have
  been waiting for the timeout, counted from the first one cached since the buffer was last empty;
  and then it gives up everything missing in front of the first packet that waits.
-/
import NginxRtc.Media.Jitter

namespace NginxRtc

universe u
variable {α : Type u}

theorem jitterIndex_add (n : UInt16) (d : ℕ) :
    (jitterIndex (n + UInt16.ofNat d)).val = (n.toNat + d) % 128 := by
  simp only [jitterIndex, UInt16.toNat_add, UInt16.toNat_ofNat', jitterCap]
  omega

theorem jitterIndex_add_inj {n : UInt16} {d e : ℕ} (hd : d < 128) (he : e < 128)
    (h : jitterIndex (n + UInt16.ofNat d) = jitterIndex (n + UInt16.ofNat e)) : d = e := by
  have hv := congrArg Fin.val h
  rw [jitterIndex_add, jitterIndex_add] at hv
  omega

/-- Every slot is that of a number less than the buffer ahead of `n`. -/
theorem exists_offset (n : UInt16) (i : Fin jitterCap) :
    ∃ d < 128, i = jitterIndex (n + UInt16.ofNat d) := by
  have hi : i.val < 128 := i.isLt
  refine ⟨(i.val + 128 - n.toNat % 128) % 128, Nat.mod_lt _ (by decide), Fin.ext ?_⟩
  rw [jitterIndex_add]
  omega

theorem ofNat_succ_add (n : UInt16) (d : ℕ) :
    n + 1 + UInt16.ofNat d = n + UInt16.ofNat (d + 1) := by
  rw [UInt16.ofNat_add, UInt16.add_assoc, UInt16.add_comm (UInt16.ofNat d)]
  rfl

theorem add_ofNat_add (n : UInt16) (d e : ℕ) :
    n + UInt16.ofNat d + UInt16.ofNat e = n + UInt16.ofNat (d + e) := by
  rw [UInt16.ofNat_add, UInt16.add_assoc]

namespace Jitter

variable {j j' : Jitter α}

/-- The slot of the number `d` ahead of the expected one. -/
def slotAt (j : Jitter α) (d : ℕ) : Option (JitterPkt α) :=
  j.slots (jitterIndex (j.nextSeq + UInt16.ofNat d))

theorem slotAt_zero (j : Jitter α) : j.slotAt 0 = j.front := by
  rw [slotAt, show j.nextSeq + UInt16.ofNat 0 = j.nextSeq from UInt16.add_zero _]
  rfl

/-- With nothing at the expected number there is nothing a buffer ahead of it. -/
theorem slotAt_cap (j : Jitter α) : j.slotAt 128 = j.front := by
  rw [← slotAt_zero]
  refine congrArg j.slots (Fin.ext ?_)
  rw [jitterIndex_add, jitterIndex_add]
  omega

/-- `j'` is `j` with the `k` numbers in front passed, and their slots empty. -/
structure Passed (j j' : Jitter α) (k : ℕ) : Prop where
  le : k ≤ 128
  next : j'.nextSeq = j.nextSeq + UInt16.ofNat k
  empty : ∀ d < k, j'.slots (jitterIndex (j.nextSeq + UInt16.ofNat d)) = none
  same : ∀ d, k ≤ d → d < 128 → j'.slots (jitterIndex (j.nextSeq + UInt16.ofNat d)) = j.slotAt d

/-- What a drain did to `j`: it passed `k` packets, all of them there. -/
structure Drained (j j' : Jitter α) (k : ℕ) : Prop extends Passed j j' k where
  held : ∀ d < k, (j.slotAt d).isSome
  counted : Counted j'
  rest : j' = { j with
    slots := j'.slots, nextSeq := j'.nextSeq, pending := j'.pending, gapTs := j'.gapTs }

theorem Drained.refl (h : Counted j) : Drained j j 0 where
  le := Nat.zero_le _
  next := (UInt16.add_zero _).symm
  empty := fun d hd => absurd hd (Nat.not_lt_zero d)
  same := fun _ _ _ => rfl
  held := fun d hd => absurd hd (Nat.not_lt_zero d)
  counted := h
  rest := rfl

theorem take_slotAt (j : Jitter α) (d : ℕ) :
    j.take.slotAt d =
      if jitterIndex (j.nextSeq + UInt16.ofNat (d + 1)) = jitterIndex j.nextSeq then none
        else j.slotAt (d + 1) := by
  show Function.update j.slots (jitterIndex j.nextSeq) none
      (jitterIndex (j.nextSeq + 1 + UInt16.ofNat d)) = _
  rw [ofNat_succ_add, Function.update_apply]
  rfl

/-- Only the expected number is less than the buffer ahead of itself. -/
theorem index_ne_front (n : UInt16) {d : ℕ} (hd : d + 1 < 128) :
    jitterIndex (n + UInt16.ofNat (d + 1)) ≠ jitterIndex n := by
  intro h
  have hv := congrArg Fin.val h
  rw [jitterIndex_add] at hv
  have hn : (jitterIndex n).val = n.toNat % 128 := rfl
  omega

theorem index_cap (n : UInt16) : jitterIndex (n + UInt16.ofNat 128) = jitterIndex n := by
  refine Fin.ext ?_
  rw [jitterIndex_add]
  have hn : (jitterIndex n).val = n.toNat % 128 := rfl
  omega

theorem drainLoop_drained (n : ℕ) (h : Counted j) :
    ∃ k, Drained j (drainLoop n j).1 k ∧ (drainLoop n j).1.gapTs = j.gapTs ∧
      (j.pending ≤ n → (drainLoop n j).1.front = none) := by
  induction n generalizing j with
  | zero =>
    refine ⟨0, .refl h, rfl, fun hp => ?_⟩
    cases hf : j.front with
    | none => exact hf
    | some pkt => exact absurd (h.pending_pos.2 ⟨_, pkt, hf⟩) (by omega)
  | succ n ih =>
    cases hf : j.front with
    | none =>
      rw [show drainLoop (n + 1) j = (j, []) by simp only [drainLoop, hf]]
      exact ⟨0, .refl h, rfl, fun _ => hf⟩
    | some pkt =>
      obtain ⟨k, hd, hts, hfront⟩ := ih (h.take hf)
      have hrun : (drainLoop (n + 1) j).1 = (drainLoop n j.take).1 := by simp only [drainLoop, hf]
      rw [hrun]
      -- the slot just emptied is a buffer ahead, so the run behind it is shorter than the buffer
      have hlast : j.take.slotAt 127 = none := by
        rw [take_slotAt, if_pos (index_cap j.nextSeq)]
      have hk : k ≤ 127 := by
        by_contra hk
        have := hd.held 127 (by omega)
        rw [hlast] at this
        cases this
      have hslot : ∀ d, j.take.nextSeq + UInt16.ofNat d = j.nextSeq + UInt16.ofNat (d + 1) :=
        fun d => ofNat_succ_add j.nextSeq d
      refine ⟨k + 1, ⟨⟨by omega, ?_, ?_, ?_⟩, ?_, hd.counted, ?_⟩, hts, fun hp => hfront ?_⟩
      · rw [hd.next, hslot]
      · intro d hdk
        cases d with
        | zero =>
          have h0 : j.nextSeq + UInt16.ofNat 0 = j.nextSeq := UInt16.add_zero _
          have h127 := hd.same 127 hk (by decide)
          rw [hlast, hslot, index_cap] at h127
          rw [h0]
          exact h127
        | succ d =>
          rw [← hslot]
          exact hd.empty d (by omega)
      · intro d hkd hd128
        obtain ⟨d, rfl⟩ : ∃ e, d = e + 1 := ⟨d - 1, by omega⟩
        rw [← hslot, hd.same d (by omega) (by omega), take_slotAt, if_neg (index_ne_front _ hd128)]
      · intro d hdk
        cases d with
        | zero => rw [slotAt_zero, hf]; rfl
        | succ d =>
          have hheld := hd.held d (by omega)
          rwa [take_slotAt, if_neg (index_ne_front _ (by omega))] at hheld
      · have hrest := hd.rest
        rw [hrest]
        rfl
      · show j.pending - 1 ≤ n
        omega

theorem drain_drained (h : Counted j) :
    ∃ k, Drained j j.drain.1 k ∧ j.drain.1.front = none ∧
      j.drain.1.gapTs = if j.drain.1.pending = 0 then 0 else j.gapTs := by
  obtain ⟨k, hd, hts, hfront⟩ := drainLoop_drained jitterCap h
  refine ⟨k, ⟨⟨hd.le, hd.next, hd.empty, hd.same⟩, hd.held, hd.counted, ?_⟩,
    hfront h.pending_le, by simp only [drain, hts]⟩
  have hrest := hd.rest
  simp only [drain]
  rw [hrest]

/-- The loop that skips a gap stops at the first packet that waits. -/
theorem skipLoop_finds {n d : ℕ} (hd : d < n) (h : (j.slotAt d).isSome) :
    ∃ e ≤ d, skipLoop n j =
        some { j with nextSeq := j.nextSeq + UInt16.ofNat e, nSkipped := j.nSkipped + UInt32.ofNat e } ∧
      (∀ i < e, j.slotAt i = none) ∧ (j.slotAt e).isSome := by
  induction n generalizing j d with
  | zero => exact absurd hd (Nat.not_lt_zero d)
  | succ n ih =>
    cases hf : j.front with
    | some pkt =>
      refine ⟨0, Nat.zero_le _, ?_, fun i hi => absurd hi (Nat.not_lt_zero i), ?_⟩
      · rw [skipLoop, hf, Option.isSome_some, if_pos rfl]
        simp
      · rw [slotAt_zero, hf]
        rfl
    | none =>
      obtain ⟨d, rfl⟩ : ∃ e, d = e + 1 := by
        cases d with
        | zero =>
          rw [slotAt_zero, hf] at h
          cases h
        | succ d => exact ⟨d, rfl⟩
      have hslot : ∀ i, slotAt { j with nextSeq := j.nextSeq + 1, nSkipped := j.nSkipped + 1 } i =
          j.slotAt (i + 1) := by
        intro i
        simp only [slotAt, ofNat_succ_add]
      obtain ⟨e, he, hrun, hnone, hsome⟩ := ih (Nat.lt_of_succ_lt_succ hd)
        (j := { j with nextSeq := j.nextSeq + 1, nSkipped := j.nSkipped + 1 }) (by rw [hslot]; exact h)
      refine ⟨e + 1, Nat.succ_le_succ he, ?_, fun i hi => ?_, by rw [← hslot]; exact hsome⟩
      · rw [skipLoop, hf, Option.isSome_none, if_neg Bool.false_ne_true, hrun]
        simp only [ofNat_succ_add]
        rw [UInt32.ofNat_add, UInt32.add_comm (UInt32.ofNat e), ← UInt32.add_assoc]
        rfl
      · cases i with
        | zero => rw [slotAt_zero, hf]
        | succ i => rw [← hslot]; exact hnone i (Nat.lt_of_succ_lt_succ hi)

/-- A skip passes the empty numbers in front of the first packet that waits, and that one. -/
theorem skipGap_skips (h : Counted j) {d : ℕ} (hd : d < 128) (hs : (j.slotAt d).isSome) :
    ∃ r e k, j.skipGap = some r ∧ e ≤ d ∧ (∀ i < e, j.slotAt i = none) ∧ (j.slotAt e).isSome ∧
      1 ≤ k ∧ Drained { j with
        nextSeq := j.nextSeq + UInt16.ofNat e, nSkipped := j.nSkipped + UInt32.ofNat e } r.1 k ∧
      r.1.front = none ∧ r.1.gapTs = if r.1.pending = 0 then 0 else j.gapTs := by
  obtain ⟨e, hed, hrun, hnone, hsome⟩ := skipLoop_finds hd hs
  set j₁ : Jitter α := { j with
    nextSeq := j.nextSeq + UInt16.ofNat e, nSkipped := j.nSkipped + UInt32.ofNat e } with hj₁
  obtain ⟨k, hdr, hfront, hts⟩ := drain_drained (j := j₁) h
  refine ⟨j₁.drain, e, k, ?_, hed, hnone, hsome, ?_, hdr, hfront, hts⟩
  · rw [skipGap, jitterCap, hrun]
    rfl
  · rcases Nat.eq_zero_or_pos k with rfl | hk
    · -- a drain that passed nothing left the packet in front where it was
      have hsame := hdr.same 0 (Nat.le_refl 0) (by decide)
      have hnext : j₁.nextSeq + UInt16.ofNat 0 = j₁.nextSeq := UInt16.add_zero _
      have h0 : j₁.drain.1.front = j₁.slotAt 0 := by
        rw [← hsame, front, hdr.next]
      have hne : (j₁.slotAt 0).isSome := by
        rw [slotAt_zero]
        exact hsome
      rw [← h0, hfront] at hne
      cases hne
    · exact hk

/-! ## An arrival -/

/-- The number `d` ahead of the expected one is cached, or arrives. -/
def there (j : Jitter α) (seq : UInt16) (d : ℕ) : Prop :=
  j.nextSeq + UInt16.ofNat d = seq ∨ (j.slotAt d).isSome = true

/-- `d` is missing in front of the first packet that waits. -/
structure FirstGap (occ : ℕ → Prop) (d : ℕ) : Prop where
  missing : ¬occ d
  waits : ∃ d', d < d' ∧ d' < 128 ∧ occ d'
  first : ∀ d₁ d₂, d₁ < d₂ → d₂ < d → occ d₂ → occ d₁

/-- In `b` the first `k` of the numbers `occ` from `n` on have been passed. -/
structure Stage (occ : ℕ → Prop) (n : UInt16) (b : Jitter α) (k : ℕ) : Prop where
  le : k ≤ 128
  next : b.nextSeq = n + UInt16.ofNat k
  passed : ∀ d < k, occ d
  empty : ∀ d < k, b.slots (jitterIndex (n + UInt16.ofNat d)) = none
  left : ∀ d, k ≤ d → d < 128 → ((b.slots (jitterIndex (n + UInt16.ofNat d))).isSome = true ↔ occ d)
  front : b.front = none
  counted : Counted b

variable {occ : ℕ → Prop} {n : UInt16} {b : Jitter α} {k : ℕ}

theorem Stage.slotAt (h : Stage occ n b k) (i : ℕ) :
    b.slotAt i = b.slots (jitterIndex (n + UInt16.ofNat (k + i))) := by
  rw [Jitter.slotAt, h.next, add_ofNat_add]

/-- Something waits in a stage: a number that is there. -/
theorem Stage.waiting (h : Stage occ n b k) (hp : 0 < b.pending) : ∃ d, k ≤ d ∧ d < 128 ∧ occ d := by
  obtain ⟨i, pkt, hi⟩ := h.counted.pending_pos.1 hp
  obtain ⟨d, hd, rfl⟩ := exists_offset n i
  have hk : k ≤ d := by
    by_contra hk
    rw [h.empty d (by omega)] at hi
    exact nomatch hi
  exact ⟨d, hk, hd, (h.left d hk hd).1 (by rw [hi]; rfl)⟩

/-- Nothing waits: everything that is there has been passed. -/
theorem Stage.idle (h : Stage occ n b k) (hp : b.pending = 0) {d : ℕ} (hd : d < 128) (ho : occ d) :
    d < k := by
  by_contra hk
  obtain ⟨pkt, hs⟩ := Option.isSome_iff_exists.1 ((h.left d (by omega) hd).2 ho)
  have := h.counted.pending_pos.2 ⟨_, pkt, hs⟩
  omega

/-- The first number not passed is missing. -/
theorem Stage.stops (h : Stage occ n b k) (hk : k < 128) : ¬occ k := by
  intro ho
  have hs := (h.left k (Nat.le_refl k) hk).2 ho
  have hf : b.slots (jitterIndex (n + UInt16.ofNat k)) = none := by
    rw [← h.next]
    exact h.front
  rw [hf] at hs
  exact nomatch hs

/-- What a stage that ends leaves: where the buffer got to, and its clock. -/
structure Ends (occ : ℕ → Prop) (n : UInt16) (b j' : Jitter α) (late : Prop) : Prop where
  passed : ∃ N ≤ 128, j'.nextSeq = n + UInt16.ofNat N ∧ (¬late → ∀ d < N, occ d) ∧
    (late → ∀ d, FirstGap occ d → d < N)
  front : j'.front = none
  counted : Counted j'
  gapTs : j'.gapTs = if j'.pending = 0 then 0 else b.gapTs
  timeout : j'.gapTimeoutMs = b.gapTimeoutMs
  init : j'.initialized = b.initialized

/-- **The deadline.**  Where packets wait, the first gap is given up if they have waited long
    enough, and nothing is given up if they have not. -/
theorem Stage.checkGap (h : Stage occ n b k) (hp : 0 < b.pending) (now : UInt32) :
    ∃ r, b.checkGap now = some r ∧ Ends occ n b r.1 (b.timeout ≤ now - b.gapTs) := by
  have hpos : b.pending ≠ 0 := Nat.ne_of_gt hp
  by_cases hlate : b.timeout ≤ now - b.gapTs
  · obtain ⟨d₀, hk, hd₀, ho⟩ := h.waiting hp
    have hs₀ : (b.slotAt (d₀ - k)).isSome := by
      rw [h.slotAt, Nat.add_sub_cancel' hk]
      exact (h.left d₀ hk hd₀).2 ho
    obtain ⟨r, e, m, hr, he, hnone, hsome, hm, hdr, hfront, hts⟩ :=
      skipGap_skips h.counted (by omega) hs₀
    have hrest := hdr.rest
    have hke : k + e < 128 := by omega
    have hne : e ≠ 0 := by
      rintro rfl
      rw [slotAt_zero, h.front] at hsome
      exact nomatch hsome
    have hocc : occ (k + e) := by
      rw [h.slotAt] at hsome
      exact (h.left (k + e) (by omega) hke).1 hsome
    have hbase : b.nextSeq + UInt16.ofNat e = n + UInt16.ofNat (k + e) := by
      rw [h.next, add_ofNat_add]
    -- the number a buffer ahead of the first one is that one's slot, which is empty
    have hN : k + e + m ≤ 128 := by
      by_contra hbig
      have hheld := hdr.held (128 - (k + e)) (by omega)
      have hslot : (Jitter.slotAt { b with
          nextSeq := b.nextSeq + UInt16.ofNat e, nSkipped := b.nSkipped + UInt32.ofNat e }
          (128 - (k + e))) = b.slots (jitterIndex n) := by
        simp only [Jitter.slotAt, hbase, add_ofNat_add]
        rw [Nat.add_sub_cancel' (by omega : k + e ≤ 128), index_cap]
      have hn : n + UInt16.ofNat 0 = n := UInt16.add_zero n
      have hempty : b.slots (jitterIndex n) = none := by
        rcases Nat.eq_zero_or_pos k with rfl | hkpos
        · have hf : b.slots (jitterIndex b.nextSeq) = none := h.front
          rwa [h.next, hn] at hf
        · have := h.empty 0 hkpos
          rwa [hn] at this
      rw [hslot, hempty] at hheld
      exact nomatch hheld
    refine ⟨r, by rw [Jitter.checkGap, if_pos hlate, hr], ⟨k + e + m, hN, ?_, fun hl => absurd hlate hl,
      fun _ d hd => ?_⟩, hfront, hdr.counted, hts, by rw [hrest], by rw [hrest]⟩
    · rw [hdr.next]
      simp only [hbase, add_ofNat_add]
    · by_contra hlarge
      exact h.stops (by omega) (hd.first k (k + e) (by omega) (by omega) hocc)
  · refine ⟨(b, []), by rw [Jitter.checkGap, if_neg hlate], ⟨k, h.le, h.next, fun _ => h.passed,
      fun hl => absurd hl hlate⟩, h.front, h.counted, ?_, rfl, rfl⟩
    simp only [if_neg hpos]

/-! ### The two arrivals that hand packets on -/

/-- Between two pushes nothing is cached at the expected number, and the clock runs while packets
    wait. -/
structure Settled (j : Jitter α) : Prop where
  front : j.front = none
  counted : Counted j
  clock : 0 < j.pending ↔ j.gapTs ≠ 0

/-- The time the packets that wait are counted from, if one arrives at `now`. -/
def clockAt (j : Jitter α) (now : UInt32) : UInt32 := if j.gapTs = 0 then now else j.gapTs

/-- The expected packet is passed with the run behind it. -/
theorem inOrder_stage (h : Settled j) :
    ∃ k, Stage (j.there j.nextSeq) j.nextSeq (drain { j with nextSeq := j.nextSeq + 1 }).1 k ∧
      (drain { j with nextSeq := j.nextSeq + 1 }).1.gapTs =
        (if (drain { j with nextSeq := j.nextSeq + 1 }).1.pending = 0 then 0 else j.gapTs) ∧
      (drain { j with nextSeq := j.nextSeq + 1 }).1.gapTimeoutMs = j.gapTimeoutMs ∧
      (drain { j with nextSeq := j.nextSeq + 1 }).1.initialized = j.initialized ∧
      (j.pending = 0 → (drain { j with nextSeq := j.nextSeq + 1 }).1.pending = 0) := by
  set j₁ : Jitter α := { j with nextSeq := j.nextSeq + 1 } with hj₁
  obtain ⟨k, hd, hfront, hts⟩ := drain_drained (j := j₁) h.counted
  have hrest := hd.rest
  have hslot : ∀ d, j₁.nextSeq + UInt16.ofNat d = j.nextSeq + UInt16.ofNat (d + 1) :=
    fun d => ofNat_succ_add j.nextSeq d
  have hheld : ∀ d, j₁.slotAt d = j.slotAt (d + 1) := by
    intro d
    rw [slotAt, slotAt, hslot]
  have hself : j.nextSeq + UInt16.ofNat 0 = j.nextSeq := UInt16.add_zero _
  -- the slot of the packet that came is empty, so the run ends before it
  have hk : k ≤ 127 := by
    by_contra hk
    have hbad := hd.held 127 (by omega)
    rw [hheld, slotAt_cap, h.front] at hbad
    exact nomatch hbad
  refine ⟨k + 1, ⟨by omega, ?_, ?_, ?_, ?_, hfront, hd.counted⟩, hts, by rw [hrest], by rw [hrest], ?_⟩
  · rw [hd.next, hslot]
  · intro d hdk
    cases d with
    | zero => exact .inl hself
    | succ d =>
      have := hd.held d (by omega)
      rw [hheld] at this
      exact .inr this
  · intro d hdk
    cases d with
    | zero =>
      have hs := hd.same 127 hk (by decide)
      rw [hslot, hheld, slotAt_cap, h.front, index_cap] at hs
      rw [hself]
      exact hs
    | succ d =>
      rw [← hslot]
      exact hd.empty d (by omega)
  · intro d hkd hd128
    obtain ⟨d, rfl⟩ : ∃ e, d = e + 1 := ⟨d - 1, by omega⟩
    rw [← hslot, hd.same d (by omega) (by omega), hheld]
    refine ⟨.inr, fun ho => ho.resolve_left fun heq => ?_⟩
    exact index_ne_front j.nextSeq hd128 (congrArg jitterIndex heq)
  · intro hp
    rcases Nat.eq_zero_or_pos j₁.drain.1.pending with h0 | hpos
    · exact h0
    · obtain ⟨i, pkt, hi⟩ := hd.counted.pending_pos.1 hpos
      obtain ⟨d, hd128, rfl⟩ := exists_offset j₁.nextSeq i
      have hkd : k ≤ d := by
        by_contra hkd
        rw [hd.empty d (by omega)] at hi
        exact nomatch hi
      rw [hd.same d hkd hd128] at hi
      have := (show Counted j from h.counted).pending_pos.2 ⟨_, pkt, hi⟩
      omega

/-- A packet ahead is cached in front of what waits, or among it. -/
theorem cache_stage (h : Settled j) (pkt : JitterPkt α) {seq : UInt16} (now : UInt32)
    (hpos : 0 < (seq - j.nextSeq).toNat) (hnear : (seq - j.nextSeq).toNat < jitterCap) :
    Stage (j.there seq) j.nextSeq (j.cache pkt seq now) 0 ∧ 0 < (j.cache pkt seq now).pending := by
  have hseq : j.nextSeq + UInt16.ofNat (seq - j.nextSeq).toNat = seq := by
    rw [UInt16.ofNat_toNat, UInt16.add_comm, UInt16.sub_add_cancel]
  have hidx : ∀ d < 128, (jitterIndex (j.nextSeq + UInt16.ofNat d) = jitterIndex seq ↔
      j.nextSeq + UInt16.ofNat d = seq) := by
    intro d hd
    refine ⟨fun hi => ?_, fun he => congrArg jitterIndex he⟩
    rw [← hseq] at hi ⊢
    rw [jitterIndex_add_inj hd hnear hi]
  have hcounted : Counted (j.cache pkt seq now) := h.counted.cache pkt seq now
  refine ⟨⟨Nat.zero_le _, (UInt16.add_zero _).symm, fun d hd => absurd hd (Nat.not_lt_zero d),
    fun d hd => absurd hd (Nat.not_lt_zero d), ?_, ?_, hcounted⟩, ?_⟩
  · intro d _ hd
    simp only [cache, Function.update_apply, hidx d hd, there, slotAt]
    split
    · next he => simp [he]
    · next he => simp [he]
  · have hfront := h.front
    have h0 := hidx 0 (by decide)
    have hself : j.nextSeq + UInt16.ofNat 0 = j.nextSeq := UInt16.add_zero _
    rw [hself] at h0
    have hne : ¬j.nextSeq = seq := by
      rintro rfl
      rw [dist_self] at hpos
      exact Nat.lt_irrefl 0 hpos
    show (Function.update j.slots (jitterIndex seq) _) (jitterIndex j.nextSeq) = none
    rw [Function.update_of_ne (mt h0.1 hne)]
    exact hfront
  · exact hcounted.pending_pos.2 ⟨jitterIndex seq, _, Function.update_self ..⟩

/-- What a packet that is expected, or less than the buffer ahead, does: it makes the buffer give
    something up only if packets have waited for the timeout, and then the first gap. -/
structure Handles (seq : UInt16) (now : UInt32) (j j' : Jitter α) : Prop where
  settled : Settled j'
  gapTs : j'.gapTs = if j'.pending = 0 then 0 else j.clockAt now
  timeout : j'.gapTimeoutMs = j.gapTimeoutMs
  init : j'.initialized = j.initialized
  passed : ∃ N ≤ 128, j'.nextSeq = j.nextSeq + UInt16.ofNat N ∧
    (¬j.timeout ≤ now - j.clockAt now → ∀ d < N, j.there seq d) ∧
    (j.timeout ≤ now - j.clockAt now → ∀ d, FirstGap (j.there seq) d → d < N)

theorem clockAt_ne_zero {now : UInt32} (hnow : now ≠ 0) : j.clockAt now ≠ 0 := by
  unfold clockAt
  split
  · exact hnow
  · assumption

/-- A clock that runs exactly while packets wait. -/
theorem clock_iff {ts c : UInt32} {pending : ℕ} (hc : c ≠ 0)
    (h : ts = if pending = 0 then 0 else c) : 0 < pending ↔ ts ≠ 0 := by
  rw [h]
  split
  · next h0 => simp [h0]
  · next h0 => simp [hc, Nat.pos_of_ne_zero h0]

theorem timeout_congr {b : Jitter α} (h : b.gapTimeoutMs = j.gapTimeoutMs) : b.timeout = j.timeout := by
  rw [timeout, timeout, h]

theorem inOrder_handles (h : Settled j) (pkt : JitterPkt α) {now : UInt32} (hnow : now ≠ 0) :
    ∃ r, j.inOrder pkt now = some r ∧ Handles j.nextSeq now j r.1 := by
  obtain ⟨k, hst, hts, htime, hinit, hidle⟩ := inOrder_stage h
  unfold inOrder
  set b : Jitter α := (drain { j with nextSeq := j.nextSeq + 1 }).1 with hb
  simp only
  by_cases hp : 0 < b.pending
  · have hne : b.pending ≠ 0 := Nat.ne_of_gt hp
    have hjp : 0 < j.pending := Nat.pos_of_ne_zero fun h0 => hne (hidle h0)
    have hclock : j.clockAt now = j.gapTs := if_neg (h.clock.1 hjp)
    rw [if_neg hne] at hts
    obtain ⟨r, hr, he⟩ := hst.checkGap hp now
    have hgap : r.1.gapTs = if r.1.pending = 0 then 0 else j.clockAt now := by
      rw [he.gapTs, hts, hclock]
    have hpassed := he.passed
    rw [timeout_congr htime, hts, ← hclock] at hpassed
    rw [if_pos hp, hr]
    exact ⟨_, rfl, ⟨he.front, he.counted, clock_iff (clockAt_ne_zero hnow) hgap⟩, hgap,
      he.timeout.trans htime, he.init.trans hinit, hpassed⟩
  · have h0 : b.pending = 0 := Nat.eq_zero_of_not_pos hp
    rw [if_pos h0] at hts
    have hgap : b.gapTs = if b.pending = 0 then 0 else j.clockAt now := by rw [hts, if_pos h0]
    rw [if_neg hp]
    refine ⟨_, rfl, ⟨hst.front, hst.counted, clock_iff (clockAt_ne_zero hnow) hgap⟩, hgap, htime,
      hinit, k, hst.le, hst.next, fun _ => hst.passed, fun _ d hd => ?_⟩
    obtain ⟨d', hlt, hd', ho⟩ := hd.waits
    exact hlt.trans (hst.idle h0 hd' ho)

theorem cache_handles (h : Settled j) (pkt : JitterPkt α) {seq : UInt16} {now : UInt32}
    (hnow : now ≠ 0) (hpos : 0 < (seq - j.nextSeq).toNat)
    (hnear : (seq - j.nextSeq).toNat < jitterCap) :
    ∃ r, (j.cache pkt seq now).checkGap now = some r ∧ Handles seq now j r.1 := by
  obtain ⟨hst, hp⟩ := cache_stage h pkt now hpos hnear
  obtain ⟨r, hr, he⟩ := hst.checkGap hp now
  have hclock : (j.cache pkt seq now).gapTs = j.clockAt now := rfl
  have hgap : r.1.gapTs = if r.1.pending = 0 then 0 else j.clockAt now := by rw [he.gapTs, hclock]
  have hpassed := he.passed
  have htime : (j.cache pkt seq now).timeout = j.timeout := rfl
  rw [htime, hclock] at hpassed
  exact ⟨r, hr, ⟨he.front, he.counted, clock_iff (clockAt_ne_zero hnow) hgap⟩, hgap, he.timeout,
    he.init, hpassed⟩

/-- **One arrival.** -/
theorem pushOn_handles (h : Settled j) (pkt : JitterPkt α) {seq : UInt16} {now : UInt32}
    (hnow : now ≠ 0) (hs : seq = j.nextSeq ∨ seqGt seq j.nextSeq = true)
    (hnear : (seq - j.nextSeq).toNat < jitterCap) :
    ∃ r, push.pushOn pkt seq now j = some r ∧ Handles seq now j r.1 := by
  unfold push.pushOn
  by_cases heq : seq = j.nextSeq
  · subst heq
    rw [if_pos rfl]
    exact inOrder_handles h pkt hnow
  · have hgt := hs.resolve_left heq
    rw [if_neg heq, if_pos hgt, if_neg (Nat.not_le.2 hnear)]
    exact cache_handles h pkt hnow (seqGt_pos hgt) hnear

/-- A state before the first packet, or between two. -/
structure Ready (j : Jitter α) : Prop where
  settled : Settled j
  idle : j.initialized = false → ∀ i, j.slots i = none

theorem Ready.anchored (h : Ready j) (seq : UInt16) : Settled (j.anchored seq) := by
  unfold Jitter.anchored
  split
  · exact h.settled
  · next hi => exact ⟨h.idle (by simpa using hi) _, h.settled.counted, h.settled.clock⟩

theorem Settled.of_empty (he : ∀ i, j.slots i = none) (hp : j.pending = 0) (ht : j.gapTs = 0) :
    Settled j where
  front := he _
  counted := (@Sound.of_empty _ (fun _ => 0) _ he hp).pending
  clock := by simp [hp, ht]

theorem Ready.reset (j : Jitter α) : Ready j.reset :=
  ⟨.of_empty (fun _ => rfl) rfl rfl, fun _ _ => rfl⟩

theorem Settled.empty_iff (h : Settled j) : (∀ i, j.slots i = none) ↔ j.pending = 0 := by
  have hp := h.counted.pending_pos
  constructor
  · intro he
    by_contra hne
    obtain ⟨i, pkt, hi⟩ := hp.1 (Nat.pos_of_ne_zero hne)
    exact nomatch (he i).symm.trans hi
  · intro h0 i
    exact Option.eq_none_iff_forall_ne_some.2 fun pkt hi => absurd (hp.2 ⟨i, pkt, hi⟩) (by omega)

end Jitter

/-! ## Runs of a clock -/

/-- A push, with the time it comes at. -/
structure JitterArrival (α : Type u) where
  pkt : JitterPkt α
  seq : UInt16
  time : ℕ

/-- The buffer sees the time in 32 bits. -/
def JitterArrival.now (p : JitterArrival α) : UInt32 := UInt32.ofNat p.time

/-- The clock does not run backwards, is never 0 and spans less than `2 ^ 31` milliseconds. -/
structure Clock (ps : List (JitterArrival α)) : Prop where
  ordered : ps.Pairwise fun p q => p.time ≤ q.time ∧ q.time < p.time + 2 ^ 31
  nonzero : ∀ p ∈ ps, p.now ≠ 0

/-- A buffer, and when the first packet was cached since it was last empty, if it is not. -/
structure Timed (α : Type u) where
  jitter : Jitter α
  opened : Option ℕ

namespace Timed
variable {t t' : Timed α} {p : JitterArrival α} {ps : List (JitterArrival α)}

def start (j : Jitter α) : Timed α := ⟨j.reset, none⟩

/-- The push `p` left the buffer `j'`. -/
def after (t : Timed α) (p : JitterArrival α) (j' : Jitter α) : Timed α :=
  ⟨j', if ∀ i, (j'.slots i).isNone then none else some (t.opened.getD p.time)⟩

def push (t : Timed α) (p : JitterArrival α) : Option (Timed α) :=
  (t.jitter.push p.pkt p.seq p.now).map fun r => t.after p r.1

def run (t : Timed α) (ps : List (JitterArrival α)) : Option (Timed α) := ps.foldlM push t

/-- The buffer `p` arrives at. -/
def base (t : Timed α) (p : JitterArrival α) : Jitter α := t.jitter.anchored p.seq

/-- The packet is expected, or ahead but not so far that the buffer starts over. -/
def Near (t : Timed α) (p : JitterArrival α) : Prop :=
  (p.pkt.len ≠ 0 ∧ p.pkt.len ≤ jitterPktMax) ∧
    (p.seq = (t.base p).nextSeq ∨ Jitter.seqGt p.seq (t.base p).nextSeq = true) ∧
    (p.seq - (t.base p).nextSeq).toNat < jitterCap

/-- The packets that wait have waited for the timeout. -/
def Overdue (t : Timed α) (p : JitterArrival α) : Prop :=
  t.opened.getD p.time + t.jitter.timeout.toNat ≤ p.time

/-- The push passes `m` over: there is no such packet, and it is no longer expected. -/
def GivenUp (t t' : Timed α) (p : JitterArrival α) (m : UInt16) : Prop :=
  (m - (t.base p).nextSeq).toNat < (t'.jitter.nextSeq - (t.base p).nextSeq).toNat ∧ m ≠ p.seq ∧
    (t.base p).slots (jitterIndex m) = none

/-- `m` is missing in front of the first packet that waits. -/
def HoldsBack (t : Timed α) (p : JitterArrival α) (m : UInt16) : Prop :=
  Jitter.FirstGap ((t.base p).there p.seq) (m - (t.base p).nextSeq).toNat

/-- What the pushes `ps` leave. -/
structure Tracks (ps : List (JitterArrival α)) (t : Timed α) : Prop where
  ready : t.jitter.Ready
  waits : 0 < t.jitter.pending → ∃ q ∈ ps, t.opened = some q.time ∧ t.jitter.gapTs = q.now
  idle : t.jitter.pending = 0 → t.opened = none

theorem Tracks.start (j : Jitter α) : Tracks [] (start j) :=
  ⟨.reset j, fun h => absurd h (Nat.lt_irrefl 0), fun _ => rfl⟩

/-- A push that leaves the clock as it should keeps track of it. -/
theorem Tracks.next (h : Tracks ps t) {j' : Jitter α} (hr : j'.Ready)
    (hts : j'.gapTs = if j'.pending = 0 then 0 else t.jitter.clockAt p.now) :
    Tracks (ps ++ [p]) (t.after p j') := by
  have hempty : (∀ i, (j'.slots i).isNone) ↔ j'.pending = 0 := by
    simp only [Option.isNone_iff_eq_none]
    exact hr.settled.empty_iff
  have hopen : j'.pending ≠ 0 → (t.after p j').opened = some (t.opened.getD p.time) :=
    fun hne => if_neg (mt hempty.1 hne)
  refine ⟨hr, fun hp => ?_, fun hp => if_pos (hempty.2 hp)⟩
  have hne : j'.pending ≠ 0 := Nat.ne_of_gt hp
  rw [if_neg hne] at hts
  rcases Nat.eq_zero_or_pos t.jitter.pending with h0 | hpos
  · have hgap : t.jitter.gapTs = 0 := by
      by_contra hgap
      exact absurd (h.ready.settled.clock.2 hgap) (by omega)
    refine ⟨p, by simp, ?_, ?_⟩
    · rw [hopen hne, h.idle h0]
      rfl
    · exact hts.trans (if_pos hgap)
  · obtain ⟨q, hq, hopened, hgap⟩ := h.waits hpos
    refine ⟨q, List.mem_append_left _ hq, ?_, ?_⟩
    · rw [hopen hne, hopened]
      rfl
    · exact hts.trans ((if_neg (h.ready.settled.clock.1 hpos)).trans hgap)

/-- A push that leaves the clock and what waits alone. -/
theorem Tracks.same (h : Tracks ps t) {j' : Jitter α} (hr : j'.Ready)
    (hp : j'.pending = t.jitter.pending) (hts : j'.gapTs = t.jitter.gapTs) :
    Tracks (ps ++ [p]) (t.after p j') := by
  refine h.next hr ?_
  have hclock := h.ready.settled.clock
  rw [hts, hp, Jitter.clockAt]
  split
  · next h0 =>
    by_contra hgap
    exact absurd (hclock.2 hgap) (by omega)
  · next hne => rw [if_neg (hclock.1 (Nat.pos_of_ne_zero hne))]

/-- The buffer gives up what it should. -/
structure Deadline (t t' : Timed α) (p : JitterArrival α) : Prop where
  early : ¬t.Overdue p → ∀ m, ¬t.GivenUp t' p m
  late : t.Overdue p → ∀ m, t.HoldsBack p m → t.GivenUp t' p m

theorem timeout_pos (j : Jitter α) : 0 < j.timeout.toNat := by
  refine Nat.pos_of_ne_zero fun h0 => ?_
  have hz : j.timeout = 0 := UInt32.toNat_inj.1 h0
  unfold Jitter.timeout at hz
  split at hz
  · exact absurd hz (by decide)
  · exact absurd hz ‹_›

/-- The buffer's own test of the deadline, on its 32-bit clock. -/
theorem Tracks.overdue_iff (h : Tracks ps t) (hc : Clock (ps ++ [p])) :
    t.jitter.timeout ≤ p.now - t.jitter.clockAt p.now ↔ t.Overdue p := by
  have hpos := timeout_pos t.jitter
  rw [UInt32.le_iff_toNat_le, Overdue]
  rcases Nat.eq_zero_or_pos t.jitter.pending with h0 | hp
  · have hgap : t.jitter.gapTs = 0 := by
      by_contra hgap
      exact absurd (h.ready.settled.clock.2 hgap) (by omega)
    have hself : (p.now - p.now).toNat = 0 := by rw [UInt32.sub_self]; rfl
    rw [h.idle h0, Jitter.clockAt, if_pos hgap, hself, Option.getD_none]
    omega
  · obtain ⟨q, hq, hopened, hgap⟩ := h.waits hp
    have hne := h.ready.settled.clock.1 hp
    have hlater := (List.pairwise_append.1 hc.ordered).2.2 q hq p (List.mem_singleton_self p)
    have hdiff : (p.now - q.now).toNat = p.time - q.time := by
      simp only [JitterArrival.now, UInt32.toNat_sub, UInt32.toNat_ofNat']
      omega
    rw [hopened, Jitter.clockAt, if_neg hne, hgap, hdiff, Option.getD_some]
    omega

/-- What an arrival gives up, by how far ahead it is. -/
theorem givenUp_iff {N : ℕ} (hN : N ≤ 128)
    (hn : t'.jitter.nextSeq = (t.base p).nextSeq + UInt16.ofNat N) (m : UInt16) :
    t.GivenUp t' p m ↔ (m - (t.base p).nextSeq).toNat < N ∧
      ¬(t.base p).there p.seq (m - (t.base p).nextSeq).toNat := by
  have hm : (t.base p).nextSeq + UInt16.ofNat (m - (t.base p).nextSeq).toNat = m := by
    rw [UInt16.ofNat_toNat, UInt16.add_comm, UInt16.sub_add_cancel]
  have hdist : (t'.jitter.nextSeq - (t.base p).nextSeq).toNat = N := by
    rw [hn, UInt16.add_comm, UInt16.add_sub_cancel, UInt16.toNat_ofNat_of_lt' (by
      simp only [UInt16.size]
      omega)]
  rw [GivenUp, hdist, Jitter.there, Jitter.slotAt, hm, not_or]
  simp

theorem clockAt_base (t : Timed α) (p : JitterArrival α) (now : UInt32) :
    (t.base p).clockAt now = t.jitter.clockAt now ∧ (t.base p).timeout = t.jitter.timeout := by
  unfold base Jitter.anchored
  split <;> exact ⟨rfl, rfl⟩

theorem pending_base (t : Timed α) (p : JitterArrival α) :
    (t.base p).pending = t.jitter.pending ∧ (t.base p).gapTs = t.jitter.gapTs := by
  unfold base Jitter.anchored
  split <;> exact ⟨rfl, rfl⟩

/-- A packet that is expected or near keeps the deadline. -/
theorem deadline_of_handles (h : Tracks ps t) (hc : Clock (ps ++ [p])) {j' : Jitter α}
    (hh : Jitter.Handles p.seq p.now (t.base p) j') : Deadline t (t.after p j') p := by
  obtain ⟨N, hN, hnext, hearly, hlate⟩ := hh.passed
  obtain ⟨hclock, htime⟩ := clockAt_base t p p.now
  rw [hclock, htime, h.overdue_iff hc] at hearly hlate
  refine ⟨fun ho m hm => ?_, fun ho m hm => ?_⟩
  · obtain ⟨hlt, hmissing⟩ := (givenUp_iff hN hnext m).1 hm
    exact hmissing (hearly ho _ hlt)
  · exact (givenUp_iff hN hnext m).2 ⟨hlate ho _ hm, hm.missing⟩

/-- **One push**: it is tracked, and keeps the deadline. -/
theorem Tracks.push (h : Tracks ps t) (hc : Clock (ps ++ [p])) :
    ∃ t', t.push p = some t' ∧ Tracks (ps ++ [p]) t' ∧ (t.Near p → Deadline t t' p) := by
  have hnow : p.now ≠ 0 := hc.nonzero p (by simp)
  have hset : (t.base p).Settled := h.ready.anchored p.seq
  have hon : (t.base p).initialized = true := Jitter.initialized_anchored
  obtain ⟨hpend, hgap⟩ := pending_base t p
  have hafter : ∀ r, t.jitter.push p.pkt p.seq p.now = some r → t.push p = some (t.after p r.1) :=
    fun r hr => by rw [Timed.push, hr]; rfl
  by_cases hfit : p.pkt.len = 0 ∨ jitterPktMax < p.pkt.len
  · refine ⟨_, hafter (t.jitter, []) (by rw [Jitter.push, if_pos hfit]), h.same h.ready rfl rfl,
      fun hn => ?_⟩
    have := hn.1
    omega
  have hpush : t.jitter.push p.pkt p.seq p.now = Jitter.push.pushOn p.pkt p.seq p.now (t.base p) := by
    rw [Jitter.push, if_neg hfit]
    rfl
  by_cases hs : p.seq = (t.base p).nextSeq ∨ Jitter.seqGt p.seq (t.base p).nextSeq = true
  · by_cases hnear : (p.seq - (t.base p).nextSeq).toNat < jitterCap
    · obtain ⟨r, hr, hh⟩ := Jitter.pushOn_handles hset p.pkt hnow hs hnear
      have hready : r.1.Ready := ⟨hh.settled, fun hi => by cases (hh.init.trans hon).symm.trans hi⟩
      have hts := hh.gapTs
      rw [(clockAt_base t p p.now).1] at hts
      exact ⟨_, hafter r (hpush.trans hr), h.next hready hts, fun _ => deadline_of_handles h hc hh⟩
    · -- too far ahead: the buffer starts over, empty
      have hne : p.seq ≠ (t.base p).nextSeq := by
        intro he
        rw [he, dist_self] at hnear
        exact hnear (by decide)
      have hr : Jitter.push.pushOn p.pkt p.seq p.now (t.base p) =
          some ((t.base p).reanchor p.seq, [p.pkt]) := by
        rw [Jitter.push.pushOn, if_neg hne, if_pos (hs.resolve_left hne),
          if_pos (Nat.le_of_not_lt hnear)]
      have hready : ((t.base p).reanchor p.seq).Ready :=
        ⟨.of_empty (fun _ => rfl) rfl rfl, fun hi => by cases hi⟩
      exact ⟨_, hafter _ (hpush.trans hr), h.next hready rfl, fun hn => absurd hn.2.2 hnear⟩
  · -- behind: counted as stale
    obtain ⟨hne, hbehind⟩ := not_or.1 hs
    have hr : Jitter.push.pushOn p.pkt p.seq p.now (t.base p) =
        some ({ t.base p with nStale := (t.base p).nStale + 1 }, []) := by
      rw [Jitter.push.pushOn, if_neg hne, if_neg hbehind]
    refine ⟨_, hafter _ (hpush.trans hr), h.same ⟨⟨hset.front, hset.counted, hset.clock⟩,
      fun hi => by cases hon.symm.trans hi⟩ hpend hgap, fun hn => absurd hn.2.1 hs⟩

theorem run_append (t : Timed α) (ps : List (JitterArrival α)) (p : JitterArrival α) :
    t.run (ps ++ [p]) = (t.run ps).bind (·.push p) := by
  simp only [run, List.foldlM_append, List.foldlM_cons, List.foldlM_nil, bind_pure]
  rfl

theorem Clock.init (h : Clock (ps ++ [p])) : Clock ps where
  ordered := (List.pairwise_append.1 h.ordered).1
  nonzero := fun q hq => h.nonzero q (List.mem_append_left _ hq)

theorem tracks_run (j : Jitter α) (hc : Clock ps) :
    ∃ t, (start j).run ps = some t ∧ Tracks ps t := by
  induction ps using List.reverseRecOn with
  | nil => exact ⟨_, rfl, .start j⟩
  | append_singleton ps p ih =>
    obtain ⟨t, ht, htr⟩ := ih (Clock.init hc)
    obtain ⟨t', ht', htr', -⟩ := htr.push hc
    exact ⟨t', by rw [run_append, ht]; exact ht', htr'⟩

/-- **The deadline of a gap.**  After any pushes from a reset, a packet that is expected or near
    makes the buffer give up nothing unless the packets that wait, counted from the first one cached
    since the buffer was last empty, have waited for the timeout; if they have, the buffer gives up
    there and then everything missing in front of the first packet that waits. -/
theorem jitter_deadline (j : Jitter α) (ps : List (JitterArrival α)) (p : JitterArrival α)
    (hc : Clock (ps ++ [p])) :
    ∃ t t', (start j).run ps = some t ∧ t.push p = some t' ∧ (t.Near p → Deadline t t' p) := by
  obtain ⟨t, ht, htr⟩ := tracks_run j (Clock.init hc)
  obtain ⟨t', ht', -, hd⟩ := htr.push hc
  exact ⟨t, t', ht, ht', hd⟩

/-! ### A gap that inherits the clock of another -/

/-- A buffer as it is allocated. -/
def allocated : Jitter Unit := ⟨fun _ => none, 0, 0, false, 0, 0, 0, 0, 0, 0⟩

def arrival (seq : UInt16) (time : ℕ) : JitterArrival Unit := ⟨⟨(), 12, 0⟩, seq, time⟩

/-- 1 and 2 come late; 6 waits for 4 and 5 from 1050 on. -/
def lateFill : List (JitterArrival Unit) :=
  [arrival 0 1000, arrival 3 1010, arrival 6 1050, arrival 1 1055, arrival 2 1056]

instance (t t' : Timed α) (p : JitterArrival α) (m : UInt16) : Decidable (t.GivenUp t' p m) :=
  inferInstanceAs (Decidable (_ ∧ _ ∧ _))

theorem lateFill_clock : Clock (lateFill ++ [arrival 7 1060]) where
  ordered := by decide
  nonzero := by decide

theorem jitter_deadline_sample :
    ∃ t t', (start allocated).run lateFill = some t ∧ t.push (arrival 7 1060) = some t' ∧
      (t.Near (arrival 7 1060) → Deadline t t' (arrival 7 1060)) :=
  jitter_deadline allocated lateFill (arrival 7 1060) lateFill_clock

/-- 4 is given up at 1060, though the first packet beyond it came at 1050. -/
theorem jitter_gives_up_early :
    Clock (lateFill ++ [arrival 7 1060]) ∧
    ∃ t t', (start allocated).run lateFill = some t ∧ t.push (arrival 7 1060) = some t' ∧
      t.GivenUp t' (arrival 7 1060) 4 ∧
      ∀ q ∈ lateFill ++ [arrival 7 1060], Jitter.seqGt q.seq 4 = true →
        1060 < q.time + t.jitter.timeout.toNat :=
  ⟨lateFill_clock, _, _, rfl, rfl, by decide, by decide⟩

end Timed

end NginxRtc
