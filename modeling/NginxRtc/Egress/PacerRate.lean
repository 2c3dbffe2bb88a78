/-
  What the pacer lets through in any stretch of time.

  `pacer_conforms`: no more than the bucket and what the target rate earned meanwhile, as long as
  every refill is earned; a pause of one burst refills the whole bucket, which the target rate has
  earned exactly if a burst holds a packet, so the bound holds of every run from 97120 bits per
  second on, and of no lower rate.
-/
import Mathlib.Data.Nat.Basic
import NginxRtc.Lib.Run
import NginxRtc.Egress.Pacer

namespace NginxRtc

/-- A call of `ngx_rtc_session_pacer_admit`. -/
structure Admit where
  len : ℕ
  now : ℕ
deriving DecidableEq

namespace Pacer

def step (p : Pacer) (c : Admit) : Pacer := p.pacerAdmit c.len c.now

/-- The bytes a call lets through. -/
def paid (p : Pacer) (c : Admit) : ℕ := if p.covers c.len c.now then c.len else 0

/-- The bytes let through from `t₀` to `t₁`. -/
def admittedIn (t₀ t₁ : ℕ) : Pacer → List Admit → ℕ
  | _, [] => 0
  | p, c :: cs =>
    (if t₀ ≤ c.now ∧ c.now ≤ t₁ then p.paid c else 0) + admittedIn t₀ t₁ (p.step c) cs

/-- What passes between two instants is within a bucket and what the target earns meanwhile. -/
def Conforms (p : Pacer) (calls : List Admit) : Prop :=
  ∀ t₀ t₁, t₀ ≤ t₁ →
    admittedIn t₀ t₁ p calls ≤ bucketBytes p.targetBps + p.targetBps * (t₁ - t₀) / 8000

/-- Times do not run backwards. -/
def Ordered (calls : List Admit) : Prop := calls.Pairwise fun c c' => c.now ≤ c'.now

/-- After a pause of a burst, the target has earned what is missing in the bucket. -/
def Earned (p : Pacer) (c : Admit) : Prop :=
  p.started = true → p.lastMs + pacerBurstMs ≤ c.now →
    bucketBytes p.targetBps ≤ p.tokens + p.targetBps * (c.now - p.lastMs) / 8000

instance (p : Pacer) (c : Admit) : Decidable (Earned p c) :=
  inferInstanceAs (Decidable (_ → _ → _))

instance (calls : List Admit) : Decidable (Ordered calls) :=
  inferInstanceAs (Decidable (calls.Pairwise _))

/-! ## One call -/

@[simp] theorem step_targetBps (p : Pacer) (c : Admit) : (p.step c).targetBps = p.targetBps := rfl

@[simp] theorem step_lastMs (p : Pacer) (c : Admit) : (p.step c).lastMs = c.now := rfl

@[simp] theorem step_started (p : Pacer) (c : Admit) : (p.step c).started = true := rfl

/-- What a call lets through it takes out of the refilled bucket. -/
theorem paid_add_tokens (p : Pacer) (c : Admit) :
    p.paid c + (p.step c).tokens = p.refilled c.now := by
  simp only [paid, step, pacerAdmit, covers, decide_eq_true_eq]
  split
  · next h => exact Nat.add_sub_cancel' h
  · exact Nat.zero_add _

/-- An earned refill is covered by the target rate. -/
theorem refilled_earned {p : Pacer} {c : Admit} (hs : p.started = true) (ht : p.lastMs ≤ c.now)
    (he : Earned p c) : p.refilled c.now ≤ p.tokens + p.targetBps * (c.now - p.lastMs) / 8000 := by
  simp only [refilled, hs, Bool.not_true, Bool.false_eq_true, if_false, if_pos ht]
  split
  · next hpause =>
    exact (Nat.min_le_right _ _).trans (he hs (by omega))
  · rw [Nat.mul_comm (c.now - p.lastMs)]
    exact Nat.min_le_left _ _

/-! ## A run -/

/-- Past the end of the stretch nothing counts. -/
theorem admittedIn_late {t₀ t₁ : ℕ} {p : Pacer} {calls : List Admit}
    (h : ∀ c ∈ calls, t₁ < c.now) : admittedIn t₀ t₁ p calls = 0 := by
  induction calls generalizing p with
  | nil => rfl
  | cons c cs ih =>
    have hc : t₁ < c.now := h c List.mem_cons_self
    rw [admittedIn, if_neg (by omega), Nat.zero_add]
    exact ih fun c' hc' => h c' (List.mem_cons_of_mem c hc')

/-- Inside the stretch, tokens are what is left of the bound. -/
theorem admittedIn_after {t₀ t₁ : ℕ} {p : Pacer} {calls : List Admit} (hs : p.started = true)
    (ht : t₀ ≤ p.lastMs) (hafter : ∀ c ∈ calls, p.lastMs ≤ c.now) (hord : Ordered calls)
    (he : Lts.Along step Earned p calls) :
    admittedIn t₀ t₁ p calls ≤ p.tokens + p.targetBps * (t₁ - p.lastMs) / 8000 := by
  induction calls generalizing p with
  | nil => exact Nat.zero_le _
  | cons c cs ih =>
    obtain ⟨hlater, hord⟩ := List.pairwise_cons.1 hord
    have hc : p.lastMs ≤ c.now := hafter c List.mem_cons_self
    rcases Nat.lt_or_ge t₁ c.now with hlt | hge
    · have hlate : ∀ c' ∈ c :: cs, t₁ < c'.now := by
        intro c' hc'
        rcases List.mem_cons.1 hc' with rfl | hc'
        · exact hlt
        · exact hlt.trans_le (hlater c' hc')
      rw [admittedIn_late hlate]
      exact Nat.zero_le _
    · have hrest := ih (p := p.step c) rfl (ht.trans hc) hlater hord he.2
      have hpaid := p.paid_add_tokens c
      have hrefill := refilled_earned hs hc he.1
      have hsplit : p.targetBps * (c.now - p.lastMs) / 8000 + p.targetBps * (t₁ - c.now) / 8000 ≤
          p.targetBps * (t₁ - p.lastMs) / 8000 := by
        have hsum : t₁ - p.lastMs = (c.now - p.lastMs) + (t₁ - c.now) := by omega
        rw [hsum, Nat.mul_add]
        exact Nat.div_add_div_le_add_div
      rw [admittedIn, if_pos ⟨ht.trans hc, hge⟩]
      simp only [step_targetBps, step_lastMs] at hrest
      omega

/-- **A run whose refills are earned conforms.** -/
theorem conforms_of_earned {p : Pacer} {calls : List Admit} (hord : Ordered calls)
    (he : Lts.Along step Earned p calls) : Conforms p calls := by
  intro t₀ t₁ ht
  induction calls generalizing p with
  | nil => exact Nat.zero_le _
  | cons c cs ih =>
    obtain ⟨hlater, hord⟩ := List.pairwise_cons.1 hord
    rw [admittedIn]
    by_cases hin : t₀ ≤ c.now ∧ c.now ≤ t₁
    · -- the stretch begins here, with what the bucket holds after the refill
      have hrest := @admittedIn_after t₀ t₁ (p.step c) cs rfl hin.1 hlater hord he.2
      have hpaid := p.paid_add_tokens c
      have hfull := p.refilled_le c.now
      have hmono : p.targetBps * (t₁ - c.now) / 8000 ≤ p.targetBps * (t₁ - t₀) / 8000 :=
        Nat.div_le_div_right (Nat.mul_le_mul_left _ (by omega))
      rw [if_pos hin]
      simp only [step_targetBps, step_lastMs] at hrest
      omega
    · rw [if_neg hin, Nat.zero_add]
      exact ih hord he.2

/-- From 97120 bits per second on, every refill is earned. -/
theorem earned_of_burst {p : Pacer} (h : maxRtpPkt * 8000 ≤ p.targetBps * pacerBurstMs)
    (c : Admit) : Earned p c := by
  intro _ hpause
  have hburst : p.targetBps * pacerBurstMs ≤ p.targetBps * (c.now - p.lastMs) :=
    Nat.mul_le_mul_left _ (Nat.le_sub_of_add_le' hpause)
  have hearned : p.targetBps * pacerBurstMs / 8000 ≤ p.targetBps * (c.now - p.lastMs) / 8000 :=
    Nat.div_le_div_right hburst
  have hpos : 0 < 8000 := by omega
  have hpkt : maxRtpPkt ≤ p.targetBps * pacerBurstMs / 8000 := (Nat.le_div_iff_mul_le hpos).2 h
  have hbucket : bucketBytes p.targetBps = p.targetBps * pacerBurstMs / 8000 := Nat.max_eq_left hpkt
  rw [hbucket]
  exact hearned.trans (Nat.le_add_left _ _)

/-! ## Low rates -/

/-- A packet of the largest size, and another one a burst later. -/
def largestTwice : List Admit := [⟨maxRtpPkt, 0⟩, ⟨maxRtpPkt, pacerBurstMs⟩]

theorem bucketBytes_low {bps : ℕ} (h : bps * pacerBurstMs < maxRtpPkt * 8000) :
    bps * pacerBurstMs / 8000 < maxRtpPkt ∧ bucketBytes bps = maxRtpPkt := by
  have hpos : 0 < 8000 := by omega
  have hlt : bps * pacerBurstMs / 8000 < maxRtpPkt := (Nat.div_lt_iff_lt_mul hpos).2 h
  exact ⟨hlt, Nat.max_eq_right (Nat.le_of_lt hlt)⟩

/-- Where a burst does not hold a packet, a refilled bucket lets through more than was earned. -/
theorem largestTwice_not_conforms {p : Pacer} (hs : p.started = false)
    (hfull : p.tokens = bucketBytes p.targetBps)
    (h : p.targetBps * pacerBurstMs < maxRtpPkt * 8000) : ¬Conforms p largestTwice := by
  obtain ⟨hlt, hbucket⟩ := bucketBytes_low h
  intro hc
  have hbound := hc 0 pacerBurstMs (Nat.zero_le _)
  have h₁ : p.refilled 0 = maxRtpPkt := by
    simp only [refilled, hs, Bool.not_false, if_true, hfull, hbucket]
  have htokens : (p.step ⟨maxRtpPkt, 0⟩).tokens = 0 := by
    simp [step, pacerAdmit, covers, h₁]
  have h₂ : (p.step ⟨maxRtpPkt, 0⟩).refilled pacerBurstMs = maxRtpPkt := by
    simp [refilled, htokens, hbucket]
  simp only [largestTwice, admittedIn, paid, covers, h₁, h₂, Nat.sub_zero] at hbound
  simp [hbucket] at hbound
  omega

/-- **What passes in any stretch of time**, at a rate of the allowed ones.  In a run whose refills are
    all earned, never more than a bucket and what the target earns; in every run, exactly if a burst
    at that rate holds a packet. -/
theorem pacer_conforms (bps : ℕ) (hmin : pacerMinBps ≤ bps) (hmax : bps ≤ pacerMaxBps) :
    (∀ (p : Pacer) (calls : List Admit), p.targetBps = bps → Ordered calls →
      Lts.Along step Earned p calls → Conforms p calls) ∧
    ((∀ (p : Pacer) (calls : List Admit), p.targetBps = bps → Ordered calls → Conforms p calls) ↔
      97120 ≤ bps) := by
  refine ⟨fun p calls _ => conforms_of_earned, fun h => ?_, fun h p calls hp hord => ?_⟩
  · by_contra hlow
    have hclamp : clampBps bps = bps := by
      rw [clampBps_eq, Nat.min_eq_left hmax, Nat.max_eq_right hmin]
    refine largestTwice_not_conforms (p := init bps) rfl rfl ?_ (h (init bps) _ hclamp (by decide))
    have htarget : (init bps).targetBps = bps := hclamp
    rw [htarget]
    unfold pacerBurstMs maxRtpPkt
    omega
  · have hkeep : ∀ (q : Pacer) (c : Admit), q.targetBps = bps → True → (q.step c).targetBps = bps :=
      fun q c hq _ => hq
    have hearned : ∀ (q : Pacer) (c : Admit), q.targetBps = bps → True → Earned q c := by
      intro q c hq _
      refine earned_of_burst ?_ c
      rw [hq]
      unfold maxRtpPkt pacerBurstMs
      omega
    exact conforms_of_earned hord (Lts.along_of_step hkeep hearned hp (Lts.along_true p calls))

/-- A session at 800 kilobits per second, and one at 64 whose packets come faster than the bursts. -/
theorem pacer_conforms_sample :
    Conforms (init 64000) [⟨1000, 5⟩, ⟨214, 30⟩, ⟨1000, 90⟩, ⟨500, 150⟩] ∧
      ∀ calls, Ordered calls → Conforms (init 800000) calls :=
  ⟨(pacer_conforms 64000 (by decide) (by decide)).1 _ _ rfl (by decide) (by decide),
    fun calls h => (pacer_conforms 800000 (by decide) (by decide)).2.2 (by decide) _ calls rfl h⟩

/-- At 64 kilobits per second, two packets of 1214 bytes pass within a burst, which earns 800. -/
theorem pacer_overpays :
    Ordered largestTwice ∧ (init 64000).targetBps = 64000 ∧
      admittedIn 0 100 (init 64000) largestTwice = 2428 ∧
      bucketBytes 64000 + 64000 * (100 - 0) / 8000 = 2014 ∧
      ¬Conforms (init 64000) largestTwice :=
  ⟨by decide, rfl, by decide, by decide, largestTwice_not_conforms rfl rfl (by decide)⟩

end Pacer

end NginxRtc
