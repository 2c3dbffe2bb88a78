/-
  The pacer and the loss controller in the words the session keeps them in.

  The fields are 64- and 32-bit words, and an operation is `none` when one of its subtractions,
  products, sums or divisions goes wrong; only the two counters of all packets may wrap.

  `admit_rep`, `cap_rep`, `onTwcc_rep`: no call goes wrong, and each does what the pacer over the
  natural numbers does.  `rate_control`: so in every run the target stays within its bounds and the
  tokens within the bucket, the calls move the target only as they should, and none starves the
  session.
-/
import NginxRtc.Lib.Checked
import NginxRtc.Egress.Pacer

namespace NginxRtc

/-- The rate fields of `ngx_rtc_session_t`. -/
structure RateFields where
  pacerStarted : Bool
  pacerTargetBps : UInt64
  pacerTokens : UInt64
  pacerLastMs : UInt64
  twccLost : UInt32
  twccReceived : UInt32
  twccWinLost : UInt32
  twccWinReceived : UInt32
  twccWinStarted : Bool
  twccWinStartMs : UInt64
deriving DecidableEq

namespace RateFields

/-! ## The source -/

/-- `ngx_rtc_pacer_bucket_bytes`. -/
def bucketBytes (targetBps : UInt64) : Option UInt64 := do
  let burst ← Checked.mul targetBps 100
  let bytes ← Checked.div burst 8000
  some (if bytes < 1214 then 1214 else bytes)

/-- A rate brought between the bounds. -/
def clampBps (bps : UInt64) : UInt64 := if bps < 64000 then 64000 else if 8000000 < bps then 8000000 else bps

/-- A session as it is allocated. -/
def zero : RateFields := ⟨false, 0, 0, 0, 0, 0, 0, 0, false, 0⟩

/-- `ngx_rtc_session_pacer_init`. -/
def pacerInit (s : RateFields) (startBps : UInt64) : Option RateFields := do
  let tokens ← bucketBytes (clampBps startBps)
  some { s with
    pacerTargetBps := clampBps startBps, pacerTokens := tokens, pacerLastMs := 0, pacerStarted := false }

/-- The tokens a pause of `deltaMs` earns; a long one fills the bucket. -/
def refillBytes (s : RateFields) (capacity deltaMs : UInt64) : Option UInt64 :=
  if 100 ≤ deltaMs then some capacity
  else do
    let earned ← Checked.mul deltaMs s.pacerTargetBps
    Checked.div earned 8000

/-- The refill of `ngx_rtc_session_pacer_admit`. -/
def refill (s : RateFields) (capacity now : UInt64) : Option RateFields :=
  if !s.pacerStarted then some { s with pacerStarted := true, pacerLastMs := now }
  else if s.pacerLastMs ≤ now then do
    let deltaMs ← Checked.sub now s.pacerLastMs
    let refill ← s.refillBytes capacity deltaMs
    let tokens ← Checked.add s.pacerTokens refill
    some { s with pacerLastMs := now, pacerTokens := if capacity < tokens then capacity else tokens }
  else some { s with pacerLastMs := now }

/-- `ngx_rtc_session_pacer_admit`: whether it is `NGX_RTC_OK`. -/
def pacerAdmit (s : RateFields) (pktBytes : UInt32) (now : UInt64) : Option (Bool × RateFields) := do
  let capacity ← bucketBytes s.pacerTargetBps
  let s ← s.refill capacity now
  if s.pacerTokens < pktBytes.toUInt64 then some (false, s)
  else do
    let tokens ← Checked.sub s.pacerTokens pktBytes.toUInt64
    some (true, { s with pacerTokens := tokens })

/-- A new target; the tokens above the new bucket are dropped. -/
def retarget (s : RateFields) (bps : UInt64) : Option RateFields := do
  let capacity ← bucketBytes bps
  some { s with
    pacerTargetBps := bps, pacerTokens := if capacity < s.pacerTokens then capacity else s.pacerTokens }

/-- `ngx_rtc_session_pacer_cap`. -/
def cap (s : RateFields) (bps : UInt64) : Option RateFields :=
  if s.pacerTargetBps ≤ clampBps bps then some s else s.retarget (clampBps bps)

/-- The target after a window with that loss, before it is clamped. -/
def aimd (target lossPermille : UInt64) : Option UInt64 :=
  if 50 < lossPermille then do
    let scaled ← Checked.mul target 85
    Checked.div scaled 100
  else if lossPermille < 20 then do
    let scaled ← Checked.mul target 8
    let more ← Checked.div scaled 100
    Checked.add target more
  else some target

/-- The window is over: the counters start again. -/
def closeWindow (s : RateFields) (now : UInt64) : RateFields :=
  { s with twccWinLost := 0, twccWinReceived := 0, twccWinStartMs := now }

/-- How long the window has been open; a clock that ran backwards counts as no time. -/
def windowMs (s : RateFields) (now : UInt64) : Option UInt64 :=
  if s.twccWinStartMs ≤ now then Checked.sub now s.twccWinStartMs else some 0

/-- `ngx_rtc_session_on_twcc`. -/
def onTwcc (s : RateFields) (lost received : UInt32) (now : UInt64) : Option RateFields := do
  let winLost ← Checked.add32 s.twccWinLost lost
  let winReceived ← Checked.add32 s.twccWinReceived received
  let s := { s with
    twccLost := s.twccLost + lost
    twccReceived := s.twccReceived + received
    twccWinLost := winLost
    twccWinReceived := winReceived }
  let total ← Checked.add winLost.toUInt64 winReceived.toUInt64
  if total = 0 then some s
  else if !s.twccWinStarted then some { s with twccWinStarted := true, twccWinStartMs := now }
  else do
    let deltaMs ← s.windowMs now
    if deltaMs < 500 ∧ total < 20 then some s
    else if s.pacerTargetBps = 0 then some (s.closeWindow now)
    else do
      let scaled ← Checked.mul winLost.toUInt64 1000
      let lossPermille ← Checked.div scaled total
      let target ← aimd s.pacerTargetBps lossPermille
      let s ← s.retarget (clampBps target)
      some (s.closeWindow now)

/-! ## What the words stand for -/

/-- The words hold the pacer and the statistics. -/
structure Rep (s : RateFields) (p : Pacer) (w : TwccStats) : Prop where
  started : s.pacerStarted = p.started
  targetBps : s.pacerTargetBps.toNat = p.targetBps
  tokens : s.pacerTokens.toNat = p.tokens
  lastMs : s.pacerLastMs.toNat = p.lastMs
  lost : s.twccLost = w.lost
  received : s.twccReceived = w.received
  winLost : s.twccWinLost = w.winLost
  winReceived : s.twccWinReceived = w.winReceived
  winStarted : s.twccWinStarted = w.winStarted
  winStartMs : s.twccWinStartMs.toNat = w.winStartMs

theorem bucketBytes_yields {bps : UInt64} (h : bps.toNat ≤ pacerMaxBps) :
    Checked.Yields (bucketBytes bps) (NginxRtc.bucketBytes bps.toNat) := by
  unfold pacerMaxBps at h
  have h100 : (100 : UInt64).toNat = 100 := rfl
  have h8000 : (8000 : UInt64).toNat = 8000 := rfl
  refine (Checked.mul_exact (by rw [h100]; omega)).bind fun burst hburst => ?_
  refine (Checked.div_exact (by rw [h8000]; omega)).bind fun bytes hbytes => ⟨_, rfl, ?_⟩
  rw [hburst, h100, h8000] at hbytes
  simp only [NginxRtc.bucketBytes, maxRtpPkt, pacerBurstMs, ← hbytes, UInt64.lt_iff_toNat_lt]
  have h1214 : (1214 : UInt64).toNat = 1214 := rfl
  split <;> omega

theorem toNat_clampBps (bps : UInt64) : (clampBps bps).toNat = NginxRtc.clampBps bps.toNat := by
  have hmin : (64000 : UInt64).toNat = 64000 := rfl
  have hmax : (8000000 : UInt64).toNat = 8000000 := rfl
  simp only [clampBps, NginxRtc.clampBps, UInt64.lt_iff_toNat_lt, hmin, hmax, pacerMinBps, pacerMaxBps]
  by_cases h₁ : bps.toNat < 64000
  · simp [h₁]
  · by_cases h₂ : 8000000 < bps.toNat
    · simp [h₁, h₂]
    · simp [h₁, h₂]

variable {s : RateFields} {p : Pacer} {w : TwccStats}

/-- A bucket holds a burst at the highest rate at most. -/
theorem bucketBytes_le {bps : ℕ} (h : bps ≤ pacerMaxBps) : NginxRtc.bucketBytes bps ≤ 100000 := by
  unfold pacerMaxBps at h
  unfold NginxRtc.bucketBytes maxRtpPkt pacerBurstMs
  omega

/-- Tokens cut to a capacity. -/
theorem toNat_smaller (capacity tokens : UInt64) :
    (if capacity < tokens then capacity else tokens).toNat = min tokens.toNat capacity.toNat := by
  split
  · next h => exact (Nat.min_eq_right (Nat.le_of_lt (UInt64.lt_iff_toNat_lt.1 h))).symm
  · next h => exact (Nat.min_eq_left (Nat.le_of_not_lt (mt UInt64.lt_iff_toNat_lt.2 h))).symm

theorem refillBytes_yields (h : Rep s p w) {capacity delta : UInt64}
    (hcap : capacity.toNat = NginxRtc.bucketBytes p.targetBps) :
    Checked.Yields (s.refillBytes capacity delta)
      (if pacerBurstMs ≤ delta.toNat then NginxRtc.bucketBytes p.targetBps
        else delta.toNat * p.targetBps / 8000) := by
  have htarget : p.targetBps ≤ 8000000 := p.targetBps_le
  have h8000 : (8000 : UInt64).toNat = 8000 := rfl
  have h100 : 100 ≤ delta ↔ pacerBurstMs ≤ delta.toNat := UInt64.le_iff_toNat_le
  unfold refillBytes
  by_cases hpause : pacerBurstMs ≤ delta.toNat
  · rw [if_pos (h100.2 hpause), if_pos hpause]
    exact ⟨capacity, rfl, hcap⟩
  · rw [if_neg (mt h100.1 hpause), if_neg hpause]
    have hlt : delta.toNat < 100 := Nat.lt_of_not_le hpause
    have hmul : delta.toNat * s.pacerTargetBps.toNat < 2 ^ 64 := by
      rw [h.targetBps]
      calc delta.toNat * p.targetBps ≤ 100 * 8000000 := Nat.mul_le_mul (Nat.le_of_lt hlt) htarget
        _ < 2 ^ 64 := by omega
    refine (Checked.mul_exact hmul).bind fun earned hearned => ?_
    have hdiv := Checked.div_exact (a := earned) (b := 8000) (by rw [h8000]; omega)
    rwa [hearned, h8000, h.targetBps] at hdiv

/-- The pacer after a refill. -/
def refilledPacer (p : Pacer) (now : ℕ) : Pacer :=
  { p with started := true, tokens := p.refilled now, lastMs := now, fill := p.refilled_le now }

theorem refill_rep (h : Rep s p w) {capacity : UInt64}
    (hcap : capacity.toNat = NginxRtc.bucketBytes p.targetBps) (now : UInt64) :
    ∃ s', s.refill capacity now = some s' ∧ Rep s' (refilledPacer p now.toNat) w := by
  have hbucket := bucketBytes_le p.targetBps_le
  have hfill := p.fill
  cases hs : s.pacerStarted with
  | false =>
    have hp : p.started = false := h.started.symm.trans hs
    have htokens : p.refilled now.toNat = p.tokens := by simp [Pacer.refilled, hp]
    refine ⟨{ s with pacerStarted := true, pacerLastMs := now }, by simp [refill, hs], ?_⟩
    exact { h with started := rfl, tokens := h.tokens.trans htokens.symm, lastMs := rfl }
  | true =>
    have hp : p.started = true := h.started.symm.trans hs
    by_cases ht : p.lastMs ≤ now.toNat
    · have hle : s.pacerLastMs ≤ now := UInt64.le_iff_toNat_le.2 (h.lastMs.trans_le ht)
      simp only [refill, hs, Bool.not_true, Bool.false_eq_true, if_false, if_pos hle]
      refine (Checked.sub_exact (h.lastMs.trans_le ht)).bind fun delta hdelta => ?_
      refine (refillBytes_yields h hcap).bind fun more hmore => ?_
      rw [hdelta, h.lastMs] at hmore
      have hmore_le : more.toNat ≤ 100000 := by
        rw [hmore]
        split
        · exact hbucket
        · next hshort =>
          have hlt : now.toNat - p.lastMs < 100 := Nat.lt_of_not_le hshort
          have htarget : p.targetBps ≤ 8000000 := p.targetBps_le
          calc (now.toNat - p.lastMs) * p.targetBps / 8000 ≤ 100 * 8000000 / 8000 :=
                Nat.div_le_div_right (Nat.mul_le_mul (Nat.le_of_lt hlt) htarget)
            _ = 100000 := rfl
      have hsum : s.pacerTokens.toNat + more.toNat < 2 ^ 64 := by
        rw [h.tokens]
        omega
      refine (Checked.add_exact hsum).bind fun tokens htokens => ⟨_, rfl, ?_⟩
      have hrefilled : p.refilled now.toNat = min tokens.toNat capacity.toNat := by
        rw [htokens, h.tokens, hmore, hcap]
        simp only [Pacer.refilled, hp, Bool.not_true, Bool.false_eq_true, if_false, if_pos ht]
      refine { h with started := rfl, tokens := ?_, lastMs := rfl }
      have hgoal : (if capacity < tokens then capacity else tokens).toNat =
          min tokens.toNat capacity.toNat := toNat_smaller capacity tokens
      exact hgoal.trans hrefilled.symm
    · have htokens : p.refilled now.toNat = p.tokens := by simp [Pacer.refilled, hp, ht]
      have hle : ¬s.pacerLastMs ≤ now := fun hle => ht (h.lastMs ▸ UInt64.le_iff_toNat_le.1 hle)
      refine ⟨{ s with pacerLastMs := now }, by simp [refill, hs, hle], ?_⟩
      exact { h with started := hs, tokens := h.tokens.trans htokens.symm, lastMs := rfl }

/-- **A call of `ngx_rtc_session_pacer_admit`** goes through, and decides as the pacer does. -/
theorem admit_rep (h : Rep s p w) (len : UInt32) (now : UInt64) :
    ∃ s', s.pacerAdmit len now = some (p.covers len.toNat now.toNat, s') ∧
      Rep s' (p.pacerAdmit len.toNat now.toNat) w := by
  have hbps : s.pacerTargetBps.toNat ≤ pacerMaxBps := h.targetBps.trans_le p.targetBps_le
  obtain ⟨capacity, hcapacity, hcap⟩ := bucketBytes_yields hbps
  rw [h.targetBps] at hcap
  obtain ⟨s₁, hrefill, h₁⟩ := refill_rep h hcap now
  have htokens : s₁.pacerTokens.toNat = p.refilled now.toNat := h₁.tokens
  have hlen : len.toUInt64.toNat = len.toNat := UInt32.toNat_toUInt64 len
  simp only [pacerAdmit, hcapacity, Option.bind_eq_bind, Option.bind_some, hrefill]
  by_cases hc : len.toNat ≤ p.refilled now.toNat
  · have hcov : p.covers len.toNat now.toNat = true := decide_eq_true hc
    have hnot : ¬s₁.pacerTokens < len.toUInt64 := by
      rw [UInt64.lt_iff_toNat_lt, htokens, hlen]
      omega
    obtain ⟨left, hsub, hleft⟩ := Checked.sub_exact (a := s₁.pacerTokens) (b := len.toUInt64)
      (by rw [htokens, hlen]; exact hc)
    rw [if_neg hnot, hsub, Option.bind_some, hcov]
    refine ⟨_, rfl, { h₁ with tokens := ?_ }⟩
    simp only [Pacer.pacerAdmit, hcov, if_true]
    rw [hleft, htokens, hlen]
  · have hcov : p.covers len.toNat now.toNat = false := decide_eq_false hc
    have hlt : s₁.pacerTokens < len.toUInt64 := by
      rw [UInt64.lt_iff_toNat_lt, htokens, hlen]
      omega
    rw [if_pos hlt, hcov]
    refine ⟨_, rfl, { h₁ with tokens := ?_ }⟩
    simp only [Pacer.pacerAdmit, hcov]
    exact htokens

theorem retarget_rep (h : Rep s p w) {bps : UInt64} {n : ℕ} (hn : bps.toNat = n)
    (hrange : pacerMinBps ≤ n ∧ n ≤ pacerMaxBps) :
    ∃ s', s.retarget bps = some s' ∧ Rep s' (p.retarget n hrange) w := by
  subst hn
  refine (bucketBytes_yields hrange.2).bind fun capacity hcap => ⟨_, rfl, ?_⟩
  refine { h with targetBps := rfl, tokens := ?_ }
  simp only [Pacer.retarget, ← hcap, ← h.tokens]
  exact toNat_smaller capacity s.pacerTokens

/-- **A call of `ngx_rtc_session_pacer_cap`** goes through. -/
theorem cap_rep (h : Rep s p w) (bps : UInt64) :
    ∃ s', s.cap bps = some s' ∧ Rep s' (p.cap bps.toNat) w := by
  have hclamp := toNat_clampBps bps
  by_cases hle : p.targetBps ≤ NginxRtc.clampBps bps.toNat
  · rw [cap, Pacer.cap, if_pos hle,
      if_pos (UInt64.le_iff_toNat_le.2 (by rw [h.targetBps, hclamp]; exact hle))]
    exact ⟨s, rfl, h⟩
  · rw [cap, Pacer.cap, if_neg hle,
      if_neg fun hs => hle (by rw [← h.targetBps, ← hclamp]; exact UInt64.le_iff_toNat_le.1 hs)]
    exact retarget_rep h hclamp _

/-! ### Feedback -/

/-- What has been counted in the open window is no more than a feedback reports, and nothing before
    the first one. -/
structure Window (w : TwccStats) : Prop where
  le : w.winLost.toNat + w.winReceived.toNat ≤ 65535
  empty : w.winStarted = false → w.winLost.toNat + w.winReceived.toNat = 0

theorem Window.zero : Window TwccStats.zero := ⟨Nat.zero_le _, fun _ => rfl⟩

/-- The counts of the window with a feedback do not wrap. -/
theorem Window.counts (h : Window w) {lost received : UInt32}
    (hr : lost.toNat + received.toNat ≤ 65535) :
    (w.winLost + lost).toNat = w.winLost.toNat + lost.toNat ∧
      (w.winReceived + received).toNat = w.winReceived.toNat + received.toNat := by
  have hle := h.le
  rw [UInt32.toNat_add, UInt32.toNat_add]
  omega

theorem Window.onTwcc (h : Window w) {lost received : UInt32}
    (hr : lost.toNat + received.toNat ≤ 65535) (p : Pacer) (now : ℕ) :
    Window (NginxRtc.onTwcc p w lost received now).2 := by
  obtain ⟨hlost, hreceived⟩ := h.counts hr
  have hle := h.le
  unfold NginxRtc.onTwcc
  simp only [hlost, hreceived]
  split
  · next h0 =>
    exact ⟨by simp only [hlost, hreceived]; omega, fun _ => by simp only [hlost, hreceived]; omega⟩
  · split
    · next hs =>
      have hempty := h.empty (by simpa using hs)
      exact ⟨by simp only [hlost, hreceived]; omega, fun h => by cases h⟩
    · next hs =>
      have hstarted : w.winStarted = true := by simpa using hs
      split
      · next hwait =>
        unfold twccMinPkts at hwait
        exact ⟨by simp only [hlost, hreceived]; omega, fun h => by cases hstarted.symm.trans h⟩
      · split
        · exact ⟨Nat.zero_le _, fun h => by cases hstarted.symm.trans h⟩
        · exact ⟨Nat.zero_le _, fun h => by cases hstarted.symm.trans h⟩

theorem aimd_yields {target permille : UInt64} (h : target.toNat ≤ pacerMaxBps) :
    Checked.Yields (aimd target permille) (NginxRtc.aimd target.toNat permille.toNat) := by
  unfold pacerMaxBps at h
  have h85 : (85 : UInt64).toNat = 85 := rfl
  have h8 : (8 : UInt64).toNat = 8 := rfl
  have h100 : (100 : UInt64).toNat = 100 := rfl
  have hhigh : 50 < permille ↔ twccLossHighPm < permille.toNat := UInt64.lt_iff_toNat_lt
  have hlow : permille < 20 ↔ permille.toNat < twccLossLowPm := UInt64.lt_iff_toNat_lt
  unfold aimd NginxRtc.aimd
  by_cases hh : twccLossHighPm < permille.toNat
  · rw [if_pos (hhigh.2 hh), if_pos hh]
    refine (Checked.mul_exact (by rw [h85]; omega)).bind fun scaled hscaled => ?_
    have hdiv := Checked.div_exact (a := scaled) (b := 100) (by rw [h100]; omega)
    rwa [hscaled, h85, h100] at hdiv
  · rw [if_neg (mt hhigh.1 hh), if_neg hh]
    by_cases hl : permille.toNat < twccLossLowPm
    · rw [if_pos (hlow.2 hl), if_pos hl]
      refine (Checked.mul_exact (by rw [h8]; omega)).bind fun scaled hscaled => ?_
      refine (Checked.div_exact (by rw [h100]; omega)).bind fun more hmore => ?_
      rw [hscaled, h8, h100] at hmore
      have hadd := Checked.add_exact (a := target) (b := more) (by omega)
      rwa [hmore] at hadd
    · rw [if_neg (mt hlow.1 hl), if_neg hl]
      exact ⟨target, rfl, rfl⟩

theorem windowMs_yields (h : Rep s p w) (now : UInt64) :
    Checked.Yields (s.windowMs now) (now.toNat - w.winStartMs) := by
  unfold windowMs
  split
  · next hle =>
    have hsub := Checked.sub_exact (a := now) (b := s.twccWinStartMs) (UInt64.le_iff_toNat_le.1 hle)
    rwa [h.winStartMs] at hsub
  · next hlt =>
    have hlt : now.toNat < w.winStartMs := by
      rw [← h.winStartMs]
      exact Nat.lt_of_not_le (mt UInt64.le_iff_toNat_le.2 hlt)
    exact ⟨0, rfl, (Nat.sub_eq_zero_of_le (Nat.le_of_lt hlt)).symm⟩

/-- The counts of a feedback. -/
theorem Rep.counted (h : Rep s p w) (lost received : UInt32) :
    Rep { s with
      twccLost := s.twccLost + lost, twccReceived := s.twccReceived + received,
      twccWinLost := w.winLost + lost, twccWinReceived := w.winReceived + received } p
    { w with
      lost := w.lost + lost, received := w.received + received,
      winLost := w.winLost + lost, winReceived := w.winReceived + received } :=
  { h with
    lost := by rw [h.lost]
    received := by rw [h.received]
    winLost := rfl
    winReceived := rfl }

theorem Rep.closed (h : Rep s p w) (now : UInt64) :
    Rep (s.closeWindow now) p { w with winLost := 0, winReceived := 0, winStartMs := now.toNat } :=
  { h with winLost := rfl, winReceived := rfl, winStartMs := rfl }

/-- **A call of `ngx_rtc_session_on_twcc`** goes through. -/
theorem onTwcc_rep (h : Rep s p w) (hw : Window w) {lost received : UInt32}
    (hr : lost.toNat + received.toNat ≤ 65535) (now : UInt64) :
    ∃ s', s.onTwcc lost received now = some s' ∧
      Rep s' (NginxRtc.onTwcc p w lost received now.toNat).1
        (NginxRtc.onTwcc p w lost received now.toNat).2 := by
  obtain ⟨hlost, hreceived⟩ := hw.counts hr
  have hle := hw.le
  have h500 : (500 : UInt64).toNat = 500 := rfl
  have h20 : (20 : UInt64).toNat = 20 := rfl
  have h1000 : (1000 : UInt64).toNat = 1000 := rfl
  rw [onTwcc, h.winLost, h.winReceived, Checked.add32_exact (by omega),
    Checked.add32_exact (by omega)]
  simp only [Option.bind_eq_bind, Option.bind_some]
  have h₁ := h.counted lost received
  set s₁ : RateFields := { s with
    twccLost := s.twccLost + lost, twccReceived := s.twccReceived + received,
    twccWinLost := w.winLost + lost, twccWinReceived := w.winReceived + received }
  set w₁ : TwccStats := { w with
    lost := w.lost + lost, received := w.received + received,
    winLost := w.winLost + lost, winReceived := w.winReceived + received } with hw₁
  refine (Checked.add_exact (by simp only [UInt32.toNat_toUInt64]; omega)).bind fun total htotal => ?_
  simp only [UInt32.toNat_toUInt64] at htotal
  have hzero : total = 0 ↔ total.toNat = 0 := by
    rw [← UInt64.toNat_inj]
    rfl
  simp only [NginxRtc.onTwcc, ← hw₁, ← htotal]
  by_cases h0 : total.toNat = 0
  · rw [if_pos (hzero.2 h0), if_pos h0]
    exact ⟨s₁, rfl, h₁⟩
  rw [if_neg (mt hzero.1 h0), if_neg h0, h₁.winStarted]
  cases hstarted : w₁.winStarted with
  | false => exact ⟨_, rfl, { h₁ with winStarted := rfl, winStartMs := rfl }⟩
  | true =>
    simp only [Bool.not_true, Bool.false_eq_true, if_false]
    refine (windowMs_yields h₁ now).bind fun delta hdelta => ?_
    have hwait : delta < 500 ∧ total < 20 ↔
        now.toNat - w₁.winStartMs < twccWindowMs ∧ total.toNat < twccMinPkts := by
      rw [UInt64.lt_iff_toNat_lt, UInt64.lt_iff_toNat_lt, hdelta]
      rfl
    by_cases hearly : now.toNat - w₁.winStartMs < twccWindowMs ∧ total.toNat < twccMinPkts
    · rw [if_pos (hwait.2 hearly), if_pos hearly]
      exact ⟨s₁, rfl, h₁⟩
    rw [if_neg (mt hwait.1 hearly), if_neg hearly]
    have htarget : s₁.pacerTargetBps = 0 ↔ p.targetBps = 0 := by
      rw [← UInt64.toNat_inj, h₁.targetBps]
      rfl
    by_cases hoff : p.targetBps = 0
    · rw [if_pos (htarget.2 hoff), if_pos hoff]
      exact ⟨_, rfl, hstarted ▸ h₁.closed now⟩
    rw [if_neg (mt htarget.1 hoff), if_neg hoff]
    refine (Checked.mul_exact (by rw [UInt32.toNat_toUInt64, hlost, h1000]; omega)).bind
      fun scaled hscaled => ?_
    refine (Checked.div_exact (by omega)).bind fun permille hpermille => ?_
    rw [hscaled, UInt32.toNat_toUInt64, h1000] at hpermille
    refine (aimd_yields (h₁.targetBps.trans_le p.targetBps_le)).bind fun target htgt => ?_
    rw [h₁.targetBps, hpermille] at htgt
    obtain ⟨s₂, hretarget, h₂⟩ := retarget_rep h₁ ((toNat_clampBps target).trans (by rw [htgt]))
      (clampBps_range (NginxRtc.aimd p.targetBps (w₁.winLost.toNat * 1000 / total.toNat)))
    rw [hretarget]
    exact ⟨_, rfl, hstarted ▸ h₂.closed now⟩

/-! ## What the calls do to the target -/

/-- The loss controller lowers the target on more than 5 percent of loss only. -/
theorem aimd_lowers {target lost total : ℕ} (ht : pacerMinBps ≤ target ∧ target ≤ pacerMaxBps)
    (htotal : 0 < total)
    (h : NginxRtc.clampBps (NginxRtc.aimd target (lost * 1000 / total)) < target) :
    5 * total < 100 * lost := by
  by_contra hlow
  have hpm : lost * 1000 / total ≤ 50 := by
    have hmul : lost * 1000 ≤ 50 * total := by omega
    calc lost * 1000 / total ≤ 50 * total / total := Nat.div_le_div_right hmul
      _ = 50 := Nat.mul_div_cancel _ htotal
  have hhigh : ¬twccLossHighPm < lost * 1000 / total := Nat.not_lt.2 hpm
  rw [clampBps_eq, NginxRtc.aimd, if_neg hhigh] at h
  split at h <;> omega

/-- It raises the target on less than 2 percent of loss only. -/
theorem aimd_raises {target lost total : ℕ} (ht : pacerMinBps ≤ target ∧ target ≤ pacerMaxBps)
    (htotal : 0 < total)
    (h : target < NginxRtc.clampBps (NginxRtc.aimd target (lost * 1000 / total))) :
    100 * lost < 2 * total := by
  by_contra hhigh
  have hpm : 20 ≤ lost * 1000 / total := by
    refine (Nat.le_div_iff_mul_le htotal).2 ?_
    omega
  have hlow : ¬lost * 1000 / total < twccLossLowPm := Nat.not_lt.2 hpm
  rw [clampBps_eq, NginxRtc.aimd, if_neg hlow] at h
  split at h <;> omega

/-- What a feedback does to the target: nothing, or what the loss of the window says. -/
theorem onTwcc_targetBps (hw : Window w) {lost received : UInt32}
    (hr : lost.toNat + received.toNat ≤ 65535) (now : ℕ) (hne : p.targetBps ≠ 0) :
    (NginxRtc.onTwcc p w lost received now).1.targetBps = p.targetBps ∨
      0 < w.winLost.toNat + lost.toNat + (w.winReceived.toNat + received.toNat) ∧
      (NginxRtc.onTwcc p w lost received now).1.targetBps =
        NginxRtc.clampBps (NginxRtc.aimd p.targetBps ((w.winLost.toNat + lost.toNat) * 1000 /
          (w.winLost.toNat + lost.toNat + (w.winReceived.toNat + received.toNat)))) := by
  obtain ⟨hlost, hreceived⟩ := hw.counts hr
  unfold NginxRtc.onTwcc
  simp only [hlost, hreceived]
  split
  · exact .inl rfl
  next h0 =>
  split
  · exact .inl rfl
  split
  · exact .inl rfl
  exact .inr ⟨Nat.pos_of_ne_zero h0, rfl⟩

/-- After a burst interval the bucket is full. -/
theorem covers_after_burst {len now : ℕ} (hs : p.started = true)
    (ht : p.lastMs + pacerBurstMs ≤ now) (hlen : len ≤ maxRtpPkt) : p.covers len now = true := by
  have hle : p.lastMs ≤ now := by omega
  have hpause : pacerBurstMs ≤ now - p.lastMs := Nat.le_sub_of_add_le' ht
  have hfull : p.refilled now = NginxRtc.bucketBytes p.targetBps := by
    simp only [Pacer.refilled, hs, Bool.not_true, Bool.false_eq_true, if_false, if_pos hle,
      if_pos hpause]
    exact Nat.min_eq_right (Nat.le_add_left _ _)
  have hbucket : maxRtpPkt ≤ NginxRtc.bucketBytes p.targetBps := Nat.le_max_right _ _
  exact decide_eq_true (by rw [hfull]; exact hlen.trans hbucket)

/-! ## Runs -/

/-- The calls that change the rate fields. -/
inductive Call where
  | pacerAdmit (pktBytes : UInt32) (now : UInt64)
  | cap (bps : UInt64)
  | onTwcc (lost received : UInt32) (now : UInt64)
deriving DecidableEq

/-- A feedback reports no more packets than the parser counts in one. -/
def Call.Reported : Call → Prop
  | pacerAdmit _ _ => True
  | cap _ => True
  | onTwcc lost received _ => lost.toNat + received.toNat ≤ 65535

instance : ∀ c : Call, Decidable c.Reported
  | .pacerAdmit _ _ => instDecidableTrue
  | .cap _ => instDecidableTrue
  | .onTwcc _ _ _ => inferInstanceAs (Decidable (_ ≤ _))

/-- The fields after a call. -/
def step (s : RateFields) : Call → Option RateFields
  | .pacerAdmit pktBytes now => (s.pacerAdmit pktBytes now).map Prod.snd
  | .cap bps => s.cap bps
  | .onTwcc lost received now => s.onTwcc lost received now

/-- The fields of a session that started at `startBps`, after the calls. -/
def run (startBps : UInt64) (calls : List Call) : Option RateFields := do
  let s ← zero.pacerInit startBps
  calls.foldlM step s

/-- The time of an admit. -/
def Call.admittedAt : Call → Option UInt64
  | pacerAdmit _ now => some now
  | _ => none

/-- The time of the last admit, if there was one. -/
def lastAdmit (calls : List Call) : Option UInt64 :=
  calls.foldl (fun last c => c.admittedAt.or last) none

/-- What every state of a run keeps: it stands for a pacer that is on, and knows its last admit. -/
structure Running (s : RateFields) (last : Option UInt64) : Prop where
  rep : ∃ p w, Rep s p w ∧ Window w ∧ p.targetBps ≠ 0
  started : ∀ t, last = some t → s.pacerStarted = true ∧ s.pacerLastMs = t

theorem pacerInit_rep (startBps : UInt64) :
    ∃ s, zero.pacerInit startBps = some s ∧ Rep s (Pacer.init startBps.toNat) .zero := by
  have hclamp := toNat_clampBps startBps
  have hmax : (clampBps startBps).toNat ≤ pacerMaxBps := by
    rw [hclamp]
    exact (clampBps_range _).2
  refine (bucketBytes_yields hmax).bind fun tokens htokens => ⟨_, rfl, ?_⟩
  rw [hclamp] at htokens
  exact ⟨rfl, hclamp, htokens, rfl, rfl, rfl, rfl, rfl, rfl, rfl⟩

theorem retarget_ne_zero {bps : ℕ} (h : pacerMinBps ≤ bps ∧ bps ≤ pacerMaxBps) :
    (p.retarget bps h).targetBps ≠ 0 := Nat.ne_of_gt (Nat.lt_of_lt_of_le (by decide) h.1)

/-- The clock of the bucket is moved by admits only. -/
theorem onTwcc_clock (lost received : UInt32) (now : ℕ) :
    (NginxRtc.onTwcc p w lost received now).1.started = p.started ∧
      (NginxRtc.onTwcc p w lost received now).1.lastMs = p.lastMs ∧
      (p.targetBps ≠ 0 → (NginxRtc.onTwcc p w lost received now).1.targetBps ≠ 0) := by
  unfold NginxRtc.onTwcc
  dsimp only
  split_ifs
  · exact ⟨rfl, rfl, id⟩
  · exact ⟨rfl, rfl, id⟩
  · exact ⟨rfl, rfl, id⟩
  · exact ⟨rfl, rfl, id⟩
  · exact ⟨rfl, rfl, fun _ => retarget_ne_zero (clampBps_range _)⟩

theorem cap_clock (bps : ℕ) :
    (p.cap bps).started = p.started ∧ (p.cap bps).lastMs = p.lastMs ∧
      (p.targetBps ≠ 0 → (p.cap bps).targetBps ≠ 0) := by
  unfold Pacer.cap
  split
  · exact ⟨rfl, rfl, id⟩
  · exact ⟨rfl, rfl, fun _ => retarget_ne_zero (clampBps_range bps)⟩

/-- Fields with the same clock know the same last admit. -/
theorem started_of_clock {s' : RateFields} {q : Pacer} {w' : TwccStats} {last : Option UInt64}
    (h : Rep s p w) (h' : Rep s' q w') (hstarted : q.started = p.started)
    (hlast : q.lastMs = p.lastMs)
    (hs : ∀ t, last = some t → s.pacerStarted = true ∧ s.pacerLastMs = t) :
    ∀ t, last = some t → s'.pacerStarted = true ∧ s'.pacerLastMs = t := by
  intro t ht
  obtain ⟨hon, htime⟩ := hs t ht
  refine ⟨by rw [h'.started, hstarted, ← h.started, hon], ?_⟩
  rw [← htime, ← UInt64.toNat_inj, h'.lastMs, h.lastMs, hlast]

/-- **No call goes wrong.** -/
theorem Running.step {last : Option UInt64} (h : Running s last) {c : Call} (hc : c.Reported) :
    ∃ s', s.step c = some s' ∧ Running s' (c.admittedAt.or last) := by
  obtain ⟨p, w, hrep, hw, hne⟩ := h.rep
  cases c with
  | pacerAdmit len now =>
    obtain ⟨s', hs', hrep'⟩ := admit_rep hrep len now
    refine ⟨s', by rw [RateFields.step, hs']; rfl, ⟨⟨_, w, hrep', hw, hne⟩, ?_⟩⟩
    rintro t ht
    obtain rfl : now = t := Option.some.inj ht
    exact ⟨hrep'.started, UInt64.toNat_inj.1 hrep'.lastMs⟩
  | cap bps =>
    obtain ⟨s', hs', hrep'⟩ := cap_rep hrep bps
    obtain ⟨hstarted, hlast, hpos⟩ := cap_clock (p := p) bps.toNat
    exact ⟨s', hs', ⟨_, w, hrep', hw, hpos hne⟩, started_of_clock hrep hrep' hstarted hlast h.started⟩
  | onTwcc lost received now =>
    obtain ⟨s', hs', hrep'⟩ := onTwcc_rep hrep hw hc now
    obtain ⟨hstarted, hlast, hpos⟩ := onTwcc_clock (p := p) (w := w) lost received now.toNat
    exact ⟨s', hs', ⟨_, _, hrep', hw.onTwcc hc p _, hpos hne⟩,
      started_of_clock hrep hrep' hstarted hlast h.started⟩

theorem Running.run {last : Option UInt64} (h : Running s last) {calls : List Call}
    (hc : ∀ c ∈ calls, c.Reported) :
    ∃ s', calls.foldlM RateFields.step s = some s' ∧
      Running s' (calls.foldl (fun last c => c.admittedAt.or last) last) := by
  induction calls generalizing s last with
  | nil => exact ⟨s, rfl, h⟩
  | cons c cs ih =>
    obtain ⟨s₁, hs₁, h₁⟩ := h.step (hc c List.mem_cons_self)
    obtain ⟨s₂, hs₂, h₂⟩ := ih h₁ fun c' hc' => hc c' (List.mem_cons_of_mem c hc')
    exact ⟨s₂, by rw [List.foldlM_cons, hs₁]; exact hs₂, h₂⟩

/-- What holds after the calls: the bounds, and what a further call does. -/
structure Controlled (s : RateFields) (calls : List Call) : Prop where
  range : pacerMinBps ≤ s.pacerTargetBps.toNat ∧ s.pacerTargetBps.toNat ≤ pacerMaxBps
  fill : ∃ capacity, bucketBytes s.pacerTargetBps = some capacity ∧ s.pacerTokens ≤ capacity
  cap : ∀ bps s', s.cap bps = some s' → s'.pacerTargetBps ≤ s.pacerTargetBps
  lowers : ∀ lost received now s', lost.toNat + received.toNat ≤ 65535 →
    s.onTwcc lost received now = some s' → s'.pacerTargetBps < s.pacerTargetBps →
      5 * (s.twccWinLost.toNat + lost.toNat + (s.twccWinReceived.toNat + received.toNat)) <
        100 * (s.twccWinLost.toNat + lost.toNat)
  raises : ∀ lost received now s', lost.toNat + received.toNat ≤ 65535 →
    s.onTwcc lost received now = some s' → s.pacerTargetBps < s'.pacerTargetBps →
      100 * (s.twccWinLost.toNat + lost.toNat) <
        2 * (s.twccWinLost.toNat + lost.toNat + (s.twccWinReceived.toNat + received.toNat))
  feeds : ∀ len now t, lastAdmit calls = some t → len.toNat ≤ maxRtpPkt →
    t.toNat + pacerBurstMs ≤ now.toNat → ∃ s', s.pacerAdmit len now = some (true, s')

theorem Running.controlled {calls : List Call} (h : Running s (lastAdmit calls)) :
    Controlled s calls := by
  obtain ⟨p, w, hrep, hw, hne⟩ := h.rep
  have hrange := p.range.resolve_left hne
  have hloss : ∀ {lost received : UInt32} {now : UInt64} {s' : RateFields},
      lost.toNat + received.toNat ≤ 65535 → s.onTwcc lost received now = some s' →
      s'.pacerTargetBps.toNat = (NginxRtc.onTwcc p w lost received now.toNat).1.targetBps := by
    intro lost received now s' hr hs'
    obtain ⟨s₁, hs₁, hrep₁⟩ := onTwcc_rep hrep hw hr now
    obtain rfl := Option.some.inj (hs₁.symm.trans hs')
    exact hrep₁.targetBps
  refine ⟨by rwa [hrep.targetBps], ?_, ?_, ?_, ?_, ?_⟩
  · obtain ⟨capacity, hcap, hn⟩ := bucketBytes_yields (hrep.targetBps.trans_le p.targetBps_le)
    refine ⟨capacity, hcap, UInt64.le_iff_toNat_le.2 ?_⟩
    rw [hn, hrep.targetBps, hrep.tokens]
    exact p.fill
  · intro bps s' hs'
    obtain ⟨s₁, hs₁, hrep₁⟩ := cap_rep hrep bps
    obtain rfl := Option.some.inj (hs₁.symm.trans hs')
    rw [UInt64.le_iff_toNat_le, hrep₁.targetBps, hrep.targetBps, Pacer.cap_targetBps]
    exact Nat.min_le_left _ _
  · intro lost received now s' hr hs' hlt
    rw [UInt64.lt_iff_toNat_lt, hloss hr hs', hrep.targetBps] at hlt
    rw [hrep.winLost, hrep.winReceived]
    rcases onTwcc_targetBps hw hr now.toNat hne with heq | ⟨hpos, heq⟩
    · omega
    · exact aimd_lowers hrange hpos (heq ▸ hlt)
  · intro lost received now s' hr hs' hlt
    rw [UInt64.lt_iff_toNat_lt, hloss hr hs', hrep.targetBps] at hlt
    rw [hrep.winLost, hrep.winReceived]
    rcases onTwcc_targetBps hw hr now.toNat hne with heq | ⟨hpos, heq⟩
    · omega
    · exact aimd_raises hrange hpos (heq ▸ hlt)
  · intro len now t ht hlen hnow
    obtain ⟨hon, htime⟩ := h.started t ht
    obtain ⟨s', hs', -⟩ := admit_rep hrep len now
    have hlast : p.lastMs = t.toNat := by rw [← hrep.lastMs, htime]
    rw [covers_after_burst (hrep.started ▸ hon) (by rw [hlast]; exact hnow) hlen] at hs'
    exact ⟨s', hs'⟩

/-- **The pacer and its rate control, over every run.**  From any start rate, whatever calls come at
    whatever times, none of them divides by zero, runs below zero or overflows; the target stays
    within its bounds and the tokens within the bucket, an estimate never raises the target, the
    loss controller lowers it only on more than 5 percent of loss in its window and raises it only on
    less than 2, and a burst interval after an admit the next one lets a packet through. -/
theorem rate_control (startBps : UInt64) (calls : List Call) (h : ∀ c ∈ calls, c.Reported) :
    ∃ s, run startBps calls = some s ∧ Controlled s calls := by
  obtain ⟨s₀, hs₀, hrep⟩ := pacerInit_rep startBps
  have hne : (Pacer.init startBps.toNat).targetBps ≠ 0 :=
    Nat.ne_of_gt (Nat.lt_of_lt_of_le (by decide) (clampBps_range startBps.toNat).1)
  have h₀ : Running s₀ none := ⟨⟨_, _, hrep, .zero, hne⟩, fun t ht => nomatch ht⟩
  obtain ⟨s, hs, hrun⟩ := h₀.run h
  exact ⟨s, by rw [RateFields.run, hs₀]; exact hs, hrun.controlled⟩

/-- A session that loses every other packet, with an estimate in between. -/
theorem rate_control_sample :
    ∃ s, run 800000 [.pacerAdmit 1000 5, .onTwcc 10 10 20, .cap 500000, .onTwcc 20 20 700,
          .pacerAdmit 1214 710] = some s ∧
      Controlled s [.pacerAdmit 1000 5, .onTwcc 10 10 20, .cap 500000, .onTwcc 20 20 700,
        .pacerAdmit 1214 710] :=
  rate_control 800000 _ (by decide)

end RateFields

end NginxRtc
