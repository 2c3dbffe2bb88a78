/-
  Mapping RTP times to the wall clock (`ngx_rtc_avsync.c`).

  Two Sender Reports anchor a line from RTP to NTP time.  The newest accepted one is the reference;
  a late one may become the other end of the line.  A result `none` of the map is a division by zero.

  `step_sound`: every report keeps the two anchors apart and in order.  `mapRtpToWall_eq`: the map
  is the line through them, cut toward the reference, modulo 2^64.
-/
import Mathlib.Tactic.Ring
import NginxRtc.Lib.Run
import NginxRtc.Lib.Slope

namespace NginxRtc

/-- `ngx_rtc_avsync_t`. -/
structure Avsync where
  hasAnchor : Bool
  hasSlope : Bool
  ntpCur : UInt64
  rtpCur : UInt32
  ntpPrev : UInt64
  rtpPrev : UInt32
  slopeNum : UInt64
  slopeDen : UInt64
deriving DecidableEq, Repr

/-- What a report's two timestamps are. -/
structure SenderReport where
  ntp : UInt64
  rtpTs : UInt32

inductive AvsyncRc where
  | ok
  | again
deriving DecidableEq, Repr

/-- `NGX_RTC_OK` comes with the wall-clock time. -/
inductive WallTime where
  | ok (ntp : UInt64)
  | again
deriving DecidableEq, Repr

/-- `ngx_rtc_avsync_rtp_delta`. -/
def rtpDelta (a b : UInt32) : Int32 := (a - b).toInt32

namespace Avsync

/-- `ngx_rtc_avsync_calibrate`. -/
def calibrate (s : Avsync) (ntpPrev : UInt64) (rtpPrev : UInt32) (ntpCur : UInt64) (rtpCur : UInt32)
    (drtp : UInt32) : Avsync :=
  { s with
    ntpPrev := ntpPrev
    rtpPrev := rtpPrev
    ntpCur := ntpCur
    rtpCur := rtpCur
    slopeNum := ntpCur - ntpPrev
    slopeDen := drtp.toUInt64
    hasSlope := true }

/-- `ngx_rtc_avsync_init`. -/
def init : Avsync := ⟨false, false, 0, 0, 0, 0, 0, 0⟩

/-- `ngx_rtc_avsync_on_sr`. -/
def onSr (s : Avsync) (ntp : UInt64) (rtpTs : UInt32) : Avsync × AvsyncRc :=
  if !s.hasAnchor then ({ s with ntpCur := ntp, rtpCur := rtpTs, hasAnchor := true }, .again)
  else if ntp = s.ntpCur then (s, .ok)
  else if ntp < s.ntpCur then
    -- a late report becomes the earlier end of the line
    let drtp := rtpDelta s.rtpCur rtpTs
    if drtp ≤ 0 then (s, .ok)
    else (s.calibrate ntp rtpTs s.ntpCur s.rtpCur drtp.toUInt32, .ok)
  else
    let drtp := rtpDelta rtpTs s.rtpCur
    if drtp ≤ 0 then (s, .ok)
    else (s.calibrate s.ntpCur s.rtpCur ntp rtpTs drtp.toUInt32, .ok)

/-- `(uint64_t) ((__uint128_t) adelta * slope_num / slope_den)`.  The distance is at most 2^31, so
    the product does not overflow. -/
def ntpDelta (s : Avsync) (adelta : ℕ) : Option UInt64 :=
  if s.slopeDen = 0 then none
  else some (UInt64.ofNat (adelta * s.slopeNum.toNat / s.slopeDen.toNat))

/-- `ngx_rtc_avsync_map_rtp_to_wall`. -/
def mapRtpToWall (s : Avsync) (rtpTs : UInt32) : Option WallTime :=
  if !s.hasSlope then some .again
  else
    let delta := (rtpDelta rtpTs s.rtpCur).toInt
    if 0 ≤ delta then (s.ntpDelta delta.toNat).map fun d => .ok (s.ntpCur + d)
    else (s.ntpDelta (-delta).toNat).map fun d => .ok (s.ntpCur - d)

/-- A report comes in. -/
def step (s : Avsync) (sr : SenderReport) : Avsync := (s.onSr sr.ntp sr.rtpTs).1

/-! ## RTP distances -/

theorem rtpDelta_toInt (a b : UInt32) :
    (rtpDelta a b).toInt = ((a.toNat : ℤ) - b.toNat).bmod (2 ^ 32) := by
  have h : (rtpDelta a b).toInt = ((a - b).toNat : ℤ).bmod (2 ^ 32) :=
    BitVec.toInt_eq_toNat_bmod _
  have ha := a.toNat_lt
  have hb := b.toNat_lt
  rw [h, UInt32.toNat_sub]
  simp only [Int.bmod]
  omega

theorem rtpDelta_self (a : UInt32) : (rtpDelta a a).toInt = 0 := by
  rw [rtpDelta_toInt, Int.sub_self]
  rfl

/-- Seen from the other end, the distance changes sign. -/
theorem rtpDelta_swap {a b : UInt32} (h : 0 < (rtpDelta a b).toInt) :
    (rtpDelta b a).toInt = -(rtpDelta a b).toInt := by
  rw [rtpDelta_toInt] at h
  rw [rtpDelta_toInt, rtpDelta_toInt]
  simp only [Int.bmod] at *
  omega

/-- A positive distance is unchanged by the casts of `ngx_rtc_avsync_calibrate`. -/
theorem toNat_of_pos {d : Int32} (h : 0 < d.toInt) : (d.toUInt32.toUInt64.toNat : ℤ) = d.toInt := by
  have hd : d.toInt = (d.toUInt32.toNat : ℤ).bmod (2 ^ 32) := BitVec.toInt_eq_toNat_bmod _
  have hlt := d.toUInt32.toNat_lt
  rw [UInt32.toNat_toUInt64]
  simp only [Int.bmod] at hd
  omega

/-! ## Anchors -/

/-- The two anchors are apart and in order, and the slope is theirs. -/
structure Calibrated (s : Avsync) : Prop where
  ntp : s.ntpPrev < s.ntpCur
  num : s.slopeNum = s.ntpCur - s.ntpPrev
  den : (s.slopeDen.toNat : ℤ) = (rtpDelta s.rtpCur s.rtpPrev).toInt
  pos : 0 < (rtpDelta s.rtpCur s.rtpPrev).toInt

/-- Without an anchor the reference is still zero; with a slope the anchors are calibrated. -/
structure Sound (s : Avsync) : Prop where
  zero : s.hasAnchor = false → s.ntpCur = 0
  slope : s.hasSlope = true → s.Calibrated
  anchored : s.hasSlope = true → s.hasAnchor = true

theorem init_sound : init.Sound :=
  ⟨fun _ => rfl, by simp [init], by simp [init]⟩

theorem calibrate_calibrated (s : Avsync) {ntpPrev ntpCur : UInt64} {rtpPrev rtpCur : UInt32}
    (hntp : ntpPrev < ntpCur) (hpos : ¬ rtpDelta rtpCur rtpPrev ≤ 0) :
    (s.calibrate ntpPrev rtpPrev ntpCur rtpCur (rtpDelta rtpCur rtpPrev).toUInt32).Calibrated := by
  have h : 0 < (rtpDelta rtpCur rtpPrev).toInt := by
    rw [Int32.le_iff_toInt_le] at hpos
    simpa using hpos
  exact ⟨hntp, rfl, toNat_of_pos h, h⟩

/-- What a report does: it is the first one, it is ignored, or it recalibrates with itself at one
    end and the reference at the other. -/
theorem step_cases (s : Avsync) (sr : SenderReport) :
    (s.hasAnchor = false ∧
      s.step sr = { s with ntpCur := sr.ntp, rtpCur := sr.rtpTs, hasAnchor := true }) ∨
    (s.hasAnchor = true ∧
      (s.step sr = s ∨
        (sr.ntp < s.ntpCur ∧ ¬ rtpDelta s.rtpCur sr.rtpTs ≤ 0 ∧
          s.step sr = s.calibrate sr.ntp sr.rtpTs s.ntpCur s.rtpCur
            (rtpDelta s.rtpCur sr.rtpTs).toUInt32) ∨
        (s.ntpCur < sr.ntp ∧ ¬ rtpDelta sr.rtpTs s.rtpCur ≤ 0 ∧
          s.step sr = s.calibrate s.ntpCur s.rtpCur sr.ntp sr.rtpTs
            (rtpDelta sr.rtpTs s.rtpCur).toUInt32))) := by
  unfold step onSr
  cases ha : s.hasAnchor with
  | false => exact .inl ⟨rfl, rfl⟩
  | true =>
    refine .inr ⟨rfl, ?_⟩
    simp only [Bool.not_true, Bool.false_eq_true, if_false]
    split
    · exact .inl rfl
    · next hne =>
      split
      · next hlt =>
        split
        · exact .inl rfl
        · next hpos => exact .inr (.inl ⟨hlt, hpos, rfl⟩)
      · next hge =>
        split
        · exact .inl rfl
        · next hpos =>
          have hlt : s.ntpCur < sr.ntp := by
            rw [UInt64.lt_iff_toNat_lt] at hge ⊢
            have : sr.ntp.toNat ≠ s.ntpCur.toNat := fun he => hne (UInt64.toNat_inj.1 he)
            omega
          exact .inr (.inr ⟨hlt, hpos, rfl⟩)

theorem step_sound {s : Avsync} (h : s.Sound) (sr : SenderReport) : (s.step sr).Sound := by
  rcases s.step_cases sr with ⟨hno, he⟩ | ⟨ha, he | ⟨hlt, hpos, he⟩ | ⟨hlt, hpos, he⟩⟩
  · have hns : s.hasSlope = false := by
      cases hs : s.hasSlope with
      | false => rfl
      | true => rw [h.anchored hs] at hno; cases hno
    rw [he]
    exact ⟨by simp, by simp [hns], by simp⟩
  · rw [he]
    exact h
  · rw [he]
    exact ⟨by simp [calibrate, ha], fun _ => s.calibrate_calibrated hlt hpos, fun _ => ha⟩
  · rw [he]
    exact ⟨by simp [calibrate, ha], fun _ => s.calibrate_calibrated hlt hpos, fun _ => ha⟩

/-- The reference never goes back in time. -/
theorem step_ntpCur {s : Avsync} (h : s.Sound) (sr : SenderReport) :
    s.ntpCur ≤ (s.step sr).ntpCur := by
  rcases s.step_cases sr with ⟨hno, he⟩ | ⟨-, he | ⟨-, -, he⟩ | ⟨hlt, -, he⟩⟩ <;> rw [he]
  · rw [h.zero hno, UInt64.le_iff_toNat_le]
    exact Nat.zero_le _
  · exact UInt64.le_refl _
  · exact UInt64.le_refl _
  · exact UInt64.le_of_lt hlt

theorem run_sound {s : Avsync} (h : s.Sound) (srs : List SenderReport) : (Lts.run step s srs).Sound := by
  have hstep : ∀ (s : Avsync) (sr : SenderReport), s.Sound → True → (s.step sr).Sound :=
    fun _ sr hs _ => step_sound hs sr
  exact Lts.run_of_step hstep h (Lts.along_true s srs)

theorem run_ntpCur {s : Avsync} (h : s.Sound) (srs : List SenderReport) :
    s.ntpCur ≤ (Lts.run step s srs).ntpCur := by
  induction srs generalizing s with
  | nil => exact UInt64.le_refl _
  | cons sr srs ih => exact UInt64.le_trans (step_ntpCur h sr) (ih (step_sound h sr))

/-! ## The line -/

/-- How far `r` is from the reference in RTP time. -/
def offset (s : Avsync) (r : UInt32) : ℤ := (rtpDelta r s.rtpCur).toInt

/-- The exact line through the two anchors. -/
def line (s : Avsync) (r : UInt32) : ℚ :=
  s.ntpCur.toNat + s.offset r *
    (((s.ntpCur.toNat : ℚ) - s.ntpPrev.toNat) / (rtpDelta s.rtpCur s.rtpPrev).toInt)

theorem offset_rtpCur (s : Avsync) : s.offset s.rtpCur = 0 := rtpDelta_self s.rtpCur

theorem Calibrated.offset_rtpPrev {s : Avsync} (h : s.Calibrated) :
    s.offset s.rtpPrev = -s.slopeDen.toNat := by
  rw [offset, rtpDelta_swap h.pos, h.den]

theorem Calibrated.den_pos {s : Avsync} (h : s.Calibrated) : 0 < s.slopeDen.toNat := by
  have := h.pos
  have := h.den
  omega

theorem Calibrated.num_toNat {s : Avsync} (h : s.Calibrated) :
    s.slopeNum.toNat + s.ntpPrev.toNat = s.ntpCur.toNat := by
  have hle := UInt64.lt_iff_toNat_lt.1 h.ntp
  rw [h.num, UInt64.toNat_sub_of_le _ _ (UInt64.le_of_lt h.ntp)]
  omega

/-- The slope fields are the slope of the line. -/
theorem Calibrated.line_eq {s : Avsync} (h : s.Calibrated) (r : UInt32) :
    s.line r = s.ntpCur.toNat + s.offset r * ((s.slopeNum.toNat : ℚ) / s.slopeDen.toNat) := by
  have hnum : (s.slopeNum.toNat : ℚ) = s.ntpCur.toNat - s.ntpPrev.toNat := by
    rw [← h.num_toNat]
    push_cast
    ring
  have hden : (s.slopeDen.toNat : ℚ) = (rtpDelta s.rtpCur s.rtpPrev).toInt := by
    rw [← h.den]
    rfl
  rw [line, hnum, hden]

/-- The map's answer, as an integer: the reference plus the rise of the line, modulo 2^64. -/
theorem Calibrated.mapRtpToWall_eq {s : Avsync} (h : s.Calibrated) (hs : s.hasSlope = true)
    (r : UInt32) :
    ∃ w, s.mapRtpToWall r = some (.ok w) ∧ (w.toNat : ℤ) =
      (s.ntpCur.toNat + Slope.rise s.slopeNum.toNat s.slopeDen.toNat (s.offset r)) % 2 ^ 64 := by
  have hden : s.slopeDen ≠ 0 := fun h0 => by
    have := h.den_pos
    rw [h0] at this
    exact absurd this (by decide)
  have hlt := s.ntpCur.toNat_lt
  unfold mapRtpToWall ntpDelta
  simp only [hs, Bool.not_true, Bool.false_eq_true, if_false, hden]
  rw [← offset]
  split
  · next hx =>
    refine ⟨_, rfl, ?_⟩
    rw [Slope.rise_of_nonneg hx, UInt64.toNat_add, UInt64.toNat_ofNat']
    omega
  · next hx =>
    refine ⟨_, rfl, ?_⟩
    have hneg := Slope.rise_neg (m := s.slopeNum.toNat) (d := s.slopeDen.toNat) (s.offset r)
    rw [Slope.rise_of_nonneg (by omega)] at hneg
    rw [← Int.neg_neg (Slope.rise _ _ _), ← hneg, UInt64.toNat_sub, UInt64.toNat_ofNat']
    omega

theorem Calibrated.map_rtpCur {s : Avsync} (h : s.Calibrated) (hs : s.hasSlope = true) :
    s.mapRtpToWall s.rtpCur = some (.ok s.ntpCur) := by
  obtain ⟨w, hw, hv⟩ := h.mapRtpToWall_eq hs s.rtpCur
  have hlt := s.ntpCur.toNat_lt
  rw [offset_rtpCur, Slope.rise_zero] at hv
  rw [hw, (UInt64.toNat_inj.1 (by omega) : w = s.ntpCur)]

theorem Calibrated.map_rtpPrev {s : Avsync} (h : s.Calibrated) (hs : s.hasSlope = true) :
    s.mapRtpToWall s.rtpPrev = some (.ok s.ntpPrev) := by
  obtain ⟨w, hw, hv⟩ := h.mapRtpToWall_eq hs s.rtpPrev
  have hlt := s.ntpPrev.toNat_lt
  have hnum := h.num_toNat
  rw [h.offset_rtpPrev, Slope.rise_neg, Slope.rise_den h.den_pos] at hv
  rw [hw, (UInt64.toNat_inj.1 (by omega) : w = s.ntpPrev)]

/-- The exact image of `r` is an NTP time. -/
def InRange (s : Avsync) (r : UInt32) : Prop := 0 ≤ s.line r ∧ s.line r < 2 ^ 64

/-- Where the exact image is an NTP time, the map does not wrap. -/
theorem Calibrated.map_inRange {s : Avsync} (h : s.Calibrated) (hs : s.hasSlope = true) {r : UInt32}
    (hr : s.InRange r) :
    ∃ w, s.mapRtpToWall r = some (.ok w) ∧ (w.toNat : ℤ) =
      s.ntpCur.toNat + Slope.rise s.slopeNum.toNat s.slopeDen.toNat (s.offset r) := by
  obtain ⟨w, hw, hv⟩ := h.mapRtpToWall_eq hs r
  obtain ⟨h0, h1⟩ := hr
  have hlt := s.ntpCur.toNat_lt
  rw [h.line_eq] at h0 h1
  refine ⟨w, hw, hv.trans (Int.emod_eq_of_lt ?_ ?_)⟩
  · rcases le_total 0 (s.offset r) with hx | hx
    · exact Int.add_nonneg (Int.natCast_nonneg _) (Slope.rise_nonneg hx)
    · have hle := Slope.le_rise (m := s.slopeNum.toNat) h.den_pos hx
      have : (0 : ℚ) ≤ (s.ntpCur.toNat +
          Slope.rise s.slopeNum.toNat s.slopeDen.toNat (s.offset r) : ℤ) := by
        push_cast
        linarith
      exact_mod_cast this
  · rcases le_total 0 (s.offset r) with hx | hx
    · have hle := Slope.rise_le (m := s.slopeNum.toNat) h.den_pos hx
      have : ((s.ntpCur.toNat +
          Slope.rise s.slopeNum.toNat s.slopeDen.toNat (s.offset r) : ℤ) : ℚ) < (2 ^ 64 : ℤ) := by
        push_cast
        linarith
      exact_mod_cast this
    · have hle := Slope.rise_nonpos (m := s.slopeNum.toNat) (d := s.slopeDen.toNat) hx
      omega

theorem Calibrated.map_error {s : Avsync} (h : s.Calibrated) (hs : s.hasSlope = true) {r : UInt32}
    (hr : s.InRange r) :
    ∃ w, s.mapRtpToWall r = some (.ok w) ∧ |(w.toNat : ℚ) - s.line r| < 1 := by
  obtain ⟨w, hw, hv⟩ := h.map_inRange hs hr
  have hq : (w.toNat : ℚ) = s.ntpCur.toNat +
      Slope.rise s.slopeNum.toNat s.slopeDen.toNat (s.offset r) := by exact_mod_cast hv
  have herr := Slope.rise_error (m := s.slopeNum.toNat) h.den_pos (s.offset r)
  refine ⟨w, hw, ?_⟩
  rw [hq, h.line_eq, add_sub_add_left_eq_sub]
  exact herr

theorem Calibrated.map_mono {s : Avsync} (h : s.Calibrated) (hs : s.hasSlope = true) {r r' : UInt32}
    (hr : s.InRange r) (hr' : s.InRange r') (hle : s.offset r ≤ s.offset r') {w w' : UInt64}
    (hw : s.mapRtpToWall r = some (.ok w)) (hw' : s.mapRtpToWall r' = some (.ok w')) : w ≤ w' := by
  obtain ⟨v, hv, hval⟩ := h.map_inRange hs hr
  obtain ⟨v', hv', hval'⟩ := h.map_inRange hs hr'
  rw [hw] at hv
  rw [hw'] at hv'
  cases hv
  cases hv'
  have hmono := Slope.rise_mono (m := s.slopeNum.toNat) (d := s.slopeDen.toNat) hle
  rw [UInt64.le_iff_toNat_le]
  omega

/-- What the map promises once it has a slope: both anchors map to their own NTP times, and wherever
    the line through them stays in the NTP range the map is monotone and within one of it. -/
structure Consistent (s : Avsync) : Prop where
  den_pos : 0 < s.slopeDen.toNat
  den_lt : s.slopeDen.toNat < 2 ^ 31
  ordered : s.ntpPrev < s.ntpCur
  cur : s.mapRtpToWall s.rtpCur = some (.ok s.ntpCur)
  prev : s.mapRtpToWall s.rtpPrev = some (.ok s.ntpPrev)
  error : ∀ r, s.InRange r → ∃ w, s.mapRtpToWall r = some (.ok w) ∧ |(w.toNat : ℚ) - s.line r| < 1
  mono : ∀ r r' w w', s.InRange r → s.InRange r' → s.offset r ≤ s.offset r' →
    s.mapRtpToWall r = some (.ok w) → s.mapRtpToWall r' = some (.ok w') → w ≤ w'

theorem Calibrated.consistent {s : Avsync} (h : s.Calibrated) (hs : s.hasSlope = true) :
    s.Consistent where
  den_pos := h.den_pos
  den_lt := by
    have hlt := Int32.toInt_lt (rtpDelta s.rtpCur s.rtpPrev)
    have hden := h.den
    omega
  ordered := h.ntp
  cur := h.map_rtpCur hs
  prev := h.map_rtpPrev hs
  error _ hr := h.map_error hs hr
  mono _ _ _ _ hr hr' hle hw hw' := h.map_mono hs hr hr' hle hw hw'

/-- **The mapping is consistent with the reports**, whatever reports have come in, and the reference
    never goes back. -/
theorem avsync_consistent (srs : List SenderReport) :
    ((Lts.run step init srs).hasSlope = true → (Lts.run step init srs).Consistent) ∧
    ∀ later, (Lts.run step init srs).ntpCur ≤ (Lts.run step init (srs ++ later)).ntpCur := by
  have hsound := run_sound init_sound srs
  refine ⟨fun hs => (hsound.slope hs).consistent hs, fun later => ?_⟩
  rw [Lts.run_append]
  exact run_ntpCur hsound later

/-- Three reports, the RTP times wrapping and the last one late: the line is the one through the
    second and the third. -/
theorem avsync_late_report :
    (Lts.run step init [⟨1000, 0xfffffff0⟩, ⟨2000, 0x10⟩, ⟨1500, 0⟩]).Consistent ∧
      (Lts.run step init [⟨1000, 0xfffffff0⟩, ⟨2000, 0x10⟩, ⟨1500, 0⟩]).mapRtpToWall 0x20 =
        some (.ok 2500) :=
  ⟨(avsync_consistent [⟨1000, 0xfffffff0⟩, ⟨2000, 0x10⟩, ⟨1500, 0⟩]).1 (by decide), by decide⟩

end Avsync
end NginxRtc
