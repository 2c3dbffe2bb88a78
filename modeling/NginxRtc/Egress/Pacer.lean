/-
  The send pacer of a session and its rate control (`ngx_rtc_session_pacer_init`, `_admit`, `_cap`,
  `ngx_rtc_session_on_twcc`).

  Tokens are bytes.  The target rate is 0 until the pacer is initialised and stays between the two
  bounds afterwards, and the bucket never holds more than one burst at the target rate, so none of
  the 64-bit counters overflows.

  `remb_applied_iff`: a receiver estimate, parsed and applied, caps the target at its true value
  exactly when it fits the 32-bit field it is kept in, or the target was below what is left of it.
-/
import NginxRtc.Rtcp.Feedback
import NginxRtc.Worker.GopRing

namespace NginxRtc

def pacerMinBps : ℕ := 64000
def pacerMaxBps : ℕ := 8000000
def pacerBurstMs : ℕ := 100

/-- A rate brought between the two bounds. -/
def clampBps (bps : ℕ) : ℕ :=
  if bps < pacerMinBps then pacerMinBps
  else if pacerMaxBps < bps then pacerMaxBps
  else bps

theorem clampBps_eq (bps : ℕ) : clampBps bps = max pacerMinBps (min bps pacerMaxBps) := by
  unfold clampBps pacerMinBps pacerMaxBps
  split_ifs <;> omega

theorem clampBps_range (bps : ℕ) : pacerMinBps ≤ clampBps bps ∧ clampBps bps ≤ pacerMaxBps := by
  unfold clampBps pacerMinBps pacerMaxBps
  split_ifs <;> omega

/-- `ngx_rtc_pacer_bucket_bytes`: one burst at the rate `bps`, or one packet if that is more. -/
def bucketBytes (bps : ℕ) : ℕ := max (bps * pacerBurstMs / 8000) maxRtpPkt

/-- `pacer_started`, `pacer_target_bps`, `pacer_tokens` and `pacer_last_ms` of a session. -/
structure Pacer where
  started : Bool
  targetBps : ℕ
  tokens : ℕ
  lastMs : ℕ
  range : targetBps = 0 ∨ pacerMinBps ≤ targetBps ∧ targetBps ≤ pacerMaxBps
  fill : tokens ≤ bucketBytes targetBps
deriving DecidableEq

namespace Pacer

/-- The pacer of a new session. -/
def off : Pacer := ⟨false, 0, 0, 0, .inl rfl, Nat.zero_le _⟩

/-- `ngx_rtc_session_pacer_init`. -/
def init (startBps : ℕ) : Pacer where
  started := false
  targetBps := clampBps startBps
  tokens := bucketBytes (clampBps startBps)
  lastMs := 0
  range := .inr (clampBps_range startBps)
  fill := le_refl _

/-- The tokens after the refill of `ngx_rtc_session_pacer_admit`. -/
def refilled (p : Pacer) (now : ℕ) : ℕ :=
  if !p.started then p.tokens
  else if p.lastMs ≤ now then
    let refill :=
      if pacerBurstMs ≤ now - p.lastMs then bucketBytes p.targetBps
      else (now - p.lastMs) * p.targetBps / 8000
    min (p.tokens + refill) (bucketBytes p.targetBps)
  else p.tokens

theorem refilled_le (p : Pacer) (now : ℕ) : p.refilled now ≤ bucketBytes p.targetBps := by
  unfold refilled
  split_ifs
  · exact p.fill
  · exact Nat.min_le_right ..
  · exact Nat.min_le_right ..
  · exact p.fill

/-- The bucket covers a packet of `len` bytes: `NGX_RTC_OK` of `ngx_rtc_session_pacer_admit`. -/
def covers (p : Pacer) (len now : ℕ) : Bool := len ≤ p.refilled now

/-- What `ngx_rtc_session_pacer_admit` does to the pacer. -/
def pacerAdmit (p : Pacer) (len now : ℕ) : Pacer :=
  { p with
    started := true
    tokens := if p.covers len now then p.refilled now - len else p.refilled now
    lastMs := now
    fill := by
      have hle := p.refilled_le now
      split_ifs
      · exact (Nat.sub_le ..).trans hle
      · exact hle }

/-- Take the target to `bps`; a surplus above the new burst is dropped. -/
def retarget (p : Pacer) (bps : ℕ) (h : pacerMinBps ≤ bps ∧ bps ≤ pacerMaxBps) : Pacer :=
  { p with
    targetBps := bps
    tokens := min p.tokens (bucketBytes bps)
    range := .inr h
    fill := Nat.min_le_right .. }

/-- `ngx_rtc_session_pacer_cap`. -/
def cap (p : Pacer) (bps : ℕ) : Pacer :=
  if p.targetBps ≤ clampBps bps then p else p.retarget (clampBps bps) (clampBps_range bps)

theorem cap_targetBps (p : Pacer) (bps : ℕ) :
    (p.cap bps).targetBps = min p.targetBps (clampBps bps) := by
  unfold cap
  split_ifs with h
  · exact (Nat.min_eq_left h).symm
  · exact (Nat.min_eq_right (Nat.le_of_lt (not_le.1 h))).symm

theorem targetBps_le (p : Pacer) : p.targetBps ≤ pacerMaxBps := by
  rcases p.range with h | h
  · rw [h]
    exact Nat.zero_le _
  · exact h.2

end Pacer

/-! ## Receiver estimates -/

/-- **A receiver estimate caps the target at its true value** exactly when it fits the 32 bits it is
    kept in, or the target was no higher than what those leave of it. -/
theorem remb_applied_iff {b : Bytes} {pkt : Rtcp.Pkt} {n : ℕ} {bps : UInt32} {ssrcs : List UInt32}
    (htype : Rtcp.typeOf b = Rtcp.typePsfb) (hfmt : Rtcp.fmtOf b = Rtcp.fmtRemb)
    (hparse : Rtcp.parse b = some (.ok (pkt, n))) (hremb : pkt.remb = some (bps, ssrcs))
    (p : Pacer) :
    (p.cap bps.toNat).targetBps = min p.targetBps (clampBps (Rtcp.rembRate b)) ↔
      Rtcp.rembRate b < 2 ^ 32 ∨ p.targetBps ≤ max pacerMinBps (Rtcp.rembRate b % 2 ^ 32) := by
  have hbps := Rtcp.parse_remb htype hfmt hparse hremb
  have hmax : p.targetBps ≤ 8000000 := p.targetBps_le
  rw [Pacer.cap_targetBps, hbps, clampBps_eq, clampBps_eq]
  unfold pacerMinBps pacerMaxBps
  rcases Nat.lt_or_ge (Rtcp.rembRate b) (2 ^ 32) with hlt | hge
  · rw [Nat.mod_eq_of_lt hlt]
    exact iff_of_true rfl (.inl hlt)
  · omega

/-- An estimate with the mantissa 1. -/
def sampleRemb (word : Bytes) : Bytes :=
  [0x8f, 206, 0, 4, 0, 0, 0, 1, 0, 0, 0, 2, 0x52, 0x45, 0x4D, 0x42] ++ word

/-- Two megabit: `2 ^ 21`. -/
theorem remb_applied_iff_two_megabit :
    ((Pacer.init pacerMaxBps).cap (2 ^ 21)).targetBps =
        min (Pacer.init pacerMaxBps).targetBps
          (clampBps (Rtcp.rembRate (sampleRemb [0, 0x54, 0, 1]))) ↔
      Rtcp.rembRate (sampleRemb [0, 0x54, 0, 1]) < 2 ^ 32 ∨
        (Pacer.init pacerMaxBps).targetBps ≤
          max pacerMinBps (Rtcp.rembRate (sampleRemb [0, 0x54, 0, 1]) % 2 ^ 32) :=
  @remb_applied_iff (sampleRemb [0, 0x54, 0, 1]) _ _ (2 ^ 21) [] (by decide) (by decide) rfl rfl _

/-- An estimate of `2 ^ 32` bits per second takes the target to its floor. -/
theorem remb_truncated :
    ∃ pkt ssrcs, Rtcp.parse (sampleRemb [0, 0x80, 0, 1]) = some (.ok (pkt, 20)) ∧
      pkt.remb = some (0, ssrcs) ∧ Rtcp.rembRate (sampleRemb [0, 0x80, 0, 1]) = 2 ^ 32 ∧
      (Pacer.init pacerMaxBps).targetBps = pacerMaxBps ∧
      ((Pacer.init pacerMaxBps).cap (0 : UInt32).toNat).targetBps = pacerMinBps ∧
      ((Pacer.init pacerMaxBps).cap (0 : UInt32).toNat).targetBps ≠
        min (Pacer.init pacerMaxBps).targetBps
          (clampBps (Rtcp.rembRate (sampleRemb [0, 0x80, 0, 1]))) :=
  ⟨_, _, rfl, rfl, by decide, by decide, by decide, by decide⟩

/-! ## The loss controller -/

def twccWindowMs : ℕ := 500
def twccMinPkts : ℕ := 20
def twccLossHighPm : ℕ := 50
def twccLossLowPm : ℕ := 20

/-- `twcc_lost`, `twcc_received` and the `twcc_win_*` fields of a session. -/
structure TwccStats where
  lost : UInt32
  received : UInt32
  winLost : UInt32
  winReceived : UInt32
  winStarted : Bool
  winStartMs : ℕ
deriving DecidableEq

def TwccStats.zero : TwccStats := ⟨0, 0, 0, 0, false, 0⟩

/-- The target after a window with that loss, before it is clamped. -/
def aimd (target lossPermille : ℕ) : ℕ :=
  if twccLossHighPm < lossPermille then target * 85 / 100
  else if lossPermille < twccLossLowPm then target + target * 8 / 100
  else target

/-- `ngx_rtc_session_on_twcc`. -/
def onTwcc (p : Pacer) (w : TwccStats) (lost received : UInt32) (now : ℕ) : Pacer × TwccStats :=
  let w := { w with
    lost := w.lost + lost
    received := w.received + received
    winLost := w.winLost + lost
    winReceived := w.winReceived + received }
  let total := w.winLost.toNat + w.winReceived.toNat
  if total = 0 then (p, w)
  else if !w.winStarted then (p, { w with winStarted := true, winStartMs := now })
  else if now - w.winStartMs < twccWindowMs ∧ total < twccMinPkts then (p, w)
  else
    let w' := { w with winLost := 0, winReceived := 0, winStartMs := now }
    if p.targetBps = 0 then (p, w')
    else
      let bps := clampBps (aimd p.targetBps (w.winLost.toNat * 1000 / total))
      (p.retarget bps (clampBps_range _), w')

end NginxRtc
