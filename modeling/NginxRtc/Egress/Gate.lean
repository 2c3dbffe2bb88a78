/-
  The GOP gate of a session: `drop_until_gop`, and the streak of EAGAINs that may arm it.

  `Gate` is the part of the send state the gate consists of, `Gate.next` what one video send does to
  it.  `gate_step`: the session's gate follows it, whatever else happens.

  `gop_gate_safe`: an armed gate opens for nothing but a GOP start that got out, it holds up no
  audio, and EAGAINs that are too few since the last accepted video packet, idle gaps apart, never
  arm it.
-/
import NginxRtc.Egress.Run

namespace NginxRtc

/-- `drop_until_gop`, `send_eagain_streak` and `send_eagain_ms`. -/
structure Gate where
  armed : Bool
  streak : ℕ
  lastMs : UInt64
deriving DecidableEq

namespace Gate

/-- The streak a further EAGAIN at `now` counts on from. -/
def before (g : Gate) (now : UInt64) : ℕ :=
  if 0 < g.streak ∧ eagainStreakIdleMs ≤ (now - g.lastMs).toNat then 0 else g.streak

/-- What the outcome of a video send does to the gate. -/
def next (t : SendTunables) (g : Gate) : Option (Attempt × Outcome) → Gate
  | some (a, .sent _) => ⟨g.armed && !a.gopStart, 0, g.lastMs⟩
  | some (_, .failed) | some (_, .short) => { g with armed := true }
  | some (a, .again) =>
    if t.eagainStreakMax ≤ g.before a.now + 1 then ⟨true, 0, a.now⟩
    else ⟨g.armed, g.before a.now + 1, a.now⟩
  | _ => g

end Gate

/-- The EAGAINs of video sends since the last accepted video packet, counted afresh after an idle
    gap. -/
structure Eagains where
  count : ℕ
  lastMs : UInt64
deriving DecidableEq

/-- The count a further EAGAIN at `now` counts on from. -/
def Eagains.before (c : Eagains) (now : UInt64) : ℕ :=
  if 0 < c.count ∧ eagainStreakIdleMs ≤ (now - c.lastMs).toNat then 0 else c.count

def Eagains.next (c : Eagains) : Option (Attempt × Outcome) → Eagains
  | some (_, .sent _) => ⟨0, c.lastMs⟩
  | some (a, .again) => ⟨c.before a.now + 1, a.now⟩
  | _ => c

namespace Egress

def gate (e : Egress) : Gate := ⟨e.dropUntilGop, e.eagainStreak, e.eagainMs⟩

/-- The video packet an operation offers, and what becomes of it. -/
def videoSend (t : SendTunables) (e : Egress) (op : SendOp) : Option (Attempt × Outcome) :=
  match op.attempt, e.outcome t op with
  | some a, some o => if e.setup.isVideo a.rtp then some (a, o) else none
  | _, _ => none

/-- The socket accepts a video packet of the operation. -/
def AcceptsVideo (t : SendTunables) (e : Egress) (op : SendOp) : Prop :=
  ∃ a d, e.videoSend t op = some (a, .sent d)

/-- A video packet of the operation fails other than by EAGAIN. -/
def FailsHard (t : SendTunables) (e : Egress) (op : SendOp) : Prop :=
  ∃ a, e.videoSend t op = some (a, .failed) ∨ e.videoSend t op = some (a, .short)

/-- A send and the gate: it is one of `Gate.next`, and nothing passes an armed gate but a GOP
    start. -/
theorem Sends.gate {t : SendTunables} {e e' : Egress} {a : Attempt} {o : Outcome}
    (h : Sends t e a e' o) :
    e'.gate = e.gate.next t (if e.setup.isVideo a.rtp then some (a, o) else none) ∧
      (∀ d, o = .sent d → e.setup.isVideo a.rtp = true → e.dropUntilGop = true →
        a.gopStart = true) := by
  obtain ⟨p, hp⟩ := e.charge_eq a
  cases h with
  | unready | gated =>
    refine ⟨?_, fun d hd => nomatch hd⟩
    split_ifs <;> rfl
  | paced | srtpFailed =>
    refine ⟨?_, fun d hd => nomatch hd⟩
    rw [hp]
    split_ifs <;> rfl
  | failed | short =>
    refine ⟨?_, fun d hd => nomatch hd⟩
    rw [hp]
    cases hv : e.setup.isVideo a.rtp <;> rfl
  | again =>
    refine ⟨?_, fun d hd => nomatch hd⟩
    have hb : ({ e with pacer := p } : Egress).streakBefore a.now = e.gate.before a.now := rfl
    rw [hp, blockSend_eq, hb]
    cases hv : e.setup.isVideo a.rtp with
    | false => rfl
    | true =>
      simp only [Gate.next, if_true]
      generalize e.gate.before a.now = n
      by_cases h : t.eagainStreakMax ≤ n + 1 <;> simp [Egress.gate, h]
  | sent cipher hpass =>
    constructor
    · rw [hp, drawSeq_eq, acceptSend_eq]
      cases hv : e.setup.isVideo a.rtp with
      | false => simp [Gate.next, Egress.gate]
      | true => simp [Gate.next, Egress.gate]
    · intro d hd hv harmed
      have hopen := hpass.ungated
      unfold gates at hopen
      rw [hv, harmed] at hopen
      simpa using hopen

theorem gate_quiet {e e' : Egress} (h : e.Quiet e') : e'.gate = e.gate := by
  unfold gate
  rw [h.dropUntilGop, h.eagainStreak, h.eagainMs]

/-- `step_cases`, said of the video packet. -/
theorem video_cases (t : SendTunables) (e : Egress) (op : SendOp) :
    (e.videoSend t op = none ∧ e.Quiet (e.step t op)) ∨
      ∃ a o e', op.attempt = some a ∧ Sends t e a e' o ∧ e'.Quiet (e.step t op) ∧
        e.videoSend t op = if e.setup.isVideo a.rtp then some (a, o) else none := by
  unfold videoSend
  rcases e.step_cases t op with ⟨hnone, hq⟩ | ⟨a, o, e', ha, ho, hs, hq⟩
  · rw [hnone]
    refine .inl ⟨?_, hq⟩
    split <;> first | rfl | contradiction
  · rw [ha, ho]
    exact .inr ⟨a, o, e', rfl, hs, hq, rfl⟩

/-- **What an operation does to the gate.** -/
theorem gate_step (t : SendTunables) (e : Egress) (op : SendOp) :
    (e.step t op).gate = e.gate.next t (e.videoSend t op) ∧
      (∀ a d, e.videoSend t op = some (a, .sent d) → e.dropUntilGop = true →
        a.gopStart = true) := by
  rcases e.video_cases t op with ⟨hv, hq⟩ | ⟨a, o, e', -, hs, hq, hv⟩
  · rw [hv, gate_quiet hq]
    exact ⟨rfl, fun a d hd => nomatch hd⟩
  · obtain ⟨hg, hpass⟩ := hs.gate
    rw [hv, gate_quiet hq]
    refine ⟨hg, fun b d hd harmed => ?_⟩
    split_ifs at hd with hvideo
    obtain ⟨rfl, rfl⟩ := Prod.mk.inj (Option.some.inj hd)
    exact hpass d rfl hvideo harmed

/-! ## The gate over a run -/

theorem dropUntilGop_step (t : SendTunables) (e : Egress) (op : SendOp) :
    (e.step t op).dropUntilGop = (e.gate.next t (e.videoSend t op)).armed :=
  congrArg Gate.armed (e.gate_step t op).1

/-- An armed gate stays armed until a video packet is accepted. -/
theorem armed_step {t : SendTunables} {e : Egress} {op : SendOp} (h : e.dropUntilGop = true)
    (hno : ¬ e.AcceptsVideo t op) : (e.step t op).dropUntilGop = true := by
  have harmed : e.gate.armed = true := h
  rw [dropUntilGop_step]
  unfold Gate.next
  split
  · next a d hv => exact absurd ⟨a, d, hv⟩ hno
  · rfl
  · rfl
  · split_ifs
    · rfl
    · exact harmed
  · exact harmed

/-- The gate and the EAGAINs that were counted beside it. -/
def countedStep (t : SendTunables) (s : Egress × Eagains) (op : SendOp) : Egress × Eagains :=
  (s.1.step t op, s.2.next (s.1.videoSend t op))

end Egress

/-- The streak is never ahead of the count. -/
structure Counted (g : Gate) (c : Eagains) : Prop where
  le : g.streak ≤ c.count
  last : 0 < g.streak → g.lastMs = c.lastMs

theorem Counted.before_le {g : Gate} {c : Eagains} (h : Counted g c) (now : UInt64) :
    g.before now ≤ c.before now := by
  have hle := h.le
  unfold Gate.before Eagains.before
  rcases Nat.eq_zero_or_pos g.streak with h0 | hpos
  · rw [h0, if_neg (by omega)]
    exact Nat.zero_le _
  · rw [h.last hpos]
    split_ifs <;> omega

/-- A video send keeps the streak behind the count, and arms the gate only by failing hard or when
    the count is up. -/
theorem Counted.next {g : Gate} {c : Eagains} (h : Counted g c) (t : SendTunables)
    (v : Option (Attempt × Outcome)) :
    Counted (g.next t v) (c.next v) ∧
      (g.armed = false → (g.next t v).armed = true →
        (∃ a, v = some (a, .failed) ∨ v = some (a, .short)) ∨
          t.eagainStreakMax ≤ (c.next v).count) := by
  have hkeep : g.armed = false → g.armed = true → False := fun h0 h1 => nomatch h0.symm.trans h1
  rcases v with _ | ⟨a, o⟩
  · exact ⟨h, fun h0 h1 => (hkeep h0 h1).elim⟩
  cases o with
  | unready | gated | paced | srtpFailed => exact ⟨h, fun h0 h1 => (hkeep h0 h1).elim⟩
  | failed => exact ⟨⟨h.le, h.last⟩, fun _ _ => .inl ⟨a, .inl rfl⟩⟩
  | short => exact ⟨⟨h.le, h.last⟩, fun _ _ => .inl ⟨a, .inr rfl⟩⟩
  | sent d =>
    refine ⟨⟨le_refl _, fun hpos => absurd hpos (lt_irrefl 0)⟩, fun h0 h1 => ?_⟩
    simp [Gate.next, h0] at h1
  | again =>
    have hle := h.before_le a.now
    have hcount : (c.next (some (a, .again))).count = c.before a.now + 1 := rfl
    rw [hcount]
    unfold Gate.next
    dsimp only
    split_ifs with hmax
    · exact ⟨⟨Nat.zero_le _, fun _ => rfl⟩, fun _ _ => .inr (by omega)⟩
    · refine ⟨⟨?_, fun _ => rfl⟩, fun h0 h1 => (hkeep h0 h1).elim⟩
      rw [hcount]
      exact Nat.add_le_add_right hle 1

namespace Egress

/-! ## Safety -/

/-- The gate of a session that has not counted an EAGAIN yet is armed, over any run, only by a hard
    failure or when the count is up. -/
theorem armed_only (t : SendTunables) {s : Egress × Eagains} (h : Counted s.1.gate s.2)
    (ops : List SendOp) :
    Lts.Along (countedStep t)
      (fun s op => s.1.dropUntilGop = false → (s.1.step t op).dropUntilGop = true →
        s.1.FailsHard t op ∨ t.eagainStreakMax ≤ (countedStep t s op).2.count) s ops := by
  induction ops generalizing s with
  | nil => trivial
  | cons op ops ih =>
    obtain ⟨hkeep, harm⟩ := h.next t (s.1.videoSend t op)
    refine ⟨fun h0 h1 => harm h0 ?_, ih ?_⟩
    · rw [← dropUntilGop_step]
      exact h1
    · have hg : (countedStep t s op).1.gate = s.1.gate.next t (s.1.videoSend t op) :=
        (s.1.gate_step t op).1
      rw [hg]
      exact hkeep

/-- **The GOP gate is safe.**  Once it is armed, the next video packet the socket accepts was offered
    as a GOP start; it holds up video packets only; and it is armed only by a video send that fails
    hard, or by as many EAGAINs of video sends since the last accepted video packet, counted afresh
    after an idle gap, as are configured. -/
theorem gop_gate_safe (t : SendTunables) :
    (∀ (e : Egress) (op : SendOp) (mid : List SendOp) (last : SendOp) (a : Attempt) (d : Datagram),
      (e.step t op).dropUntilGop = true →
      Lts.Along (step t) (fun e op => ¬ e.AcceptsVideo t op) (e.step t op) mid →
      (Lts.run (step t) (e.step t op) mid).videoSend t last = some (a, .sent d) →
      a.gopStart = true) ∧
    (∀ (e : Egress) (op : SendOp) (a : Attempt), op.attempt = some a →
      e.outcome t op = some .gated → e.setup.isVideo a.rtp = true) ∧
    (∀ (e : Egress) (ops : List SendOp), e.eagainStreak = 0 →
      Lts.Along (countedStep t)
        (fun s op => s.1.dropUntilGop = false → (s.1.step t op).dropUntilGop = true →
          s.1.FailsHard t op ∨ t.eagainStreakMax ≤ (countedStep t s op).2.count)
        (e, ⟨0, e.eagainMs⟩) ops) := by
  refine ⟨fun e op mid last a d harm hmid hlast => ?_, fun e op a ha ho => ?_,
    fun e ops h0 => ?_⟩
  · have harmed : (Lts.run (step t) (e.step t op) mid).dropUntilGop = true :=
      Lts.run_of_step (P := fun e => e.dropUntilGop = true) (fun _ _ h hno => armed_step h hno)
        harm hmid
    exact (gate_step t _ last).2 a d hlast harmed
  · rcases e.step_cases t op with ⟨hnone, -⟩ | ⟨b, o, e', hb, hout, hs, -⟩
    · exact nomatch hnone.symm.trans ho
    · obtain rfl : a = b := Option.some.inj (ha.symm.trans hb)
      obtain rfl : o = .gated := Option.some.inj (hout.symm.trans ho)
      cases hs with
      | gated _ hgate =>
        unfold gates at hgate
        simp only [Bool.and_eq_true] at hgate
        exact hgate.1.1
  · have hcounted : Counted e.gate ⟨0, e.eagainMs⟩ := ⟨h0.le, fun _ => rfl⟩
    exact armed_only t hcounted ops

/-! ### A worked run -/

/-- A video packet fails; audio still gets out, an inter frame does not, and a GOP start does. -/
theorem gop_gate_safe_failure :
    (Attempt.sample 1 true false true).gopStart = true ∧
      Egress.sample.setup.isVideo (Attempt.sample 1 false false true).rtp = true ∧
      Lts.Along (countedStep .sample)
        (fun s op => s.1.dropUntilGop = false → (s.1.step .sample op).dropUntilGop = true →
          s.1.FailsHard .sample op ∨
            SendTunables.sample.eagainStreakMax ≤ (countedStep .sample s op).2.count)
        (Egress.sample, ⟨0, 0⟩) [.video false false false, .audio true, .video true false true] :=
  ⟨(gop_gate_safe .sample).1 .sample (.video false false false) [.audio true]
      (.video true false true) _ _ rfl ⟨fun ⟨_, _, h⟩ => (nomatch h), trivial⟩ rfl,
    (gop_gate_safe .sample).2.1 (Egress.sample.step .sample (.video false false false))
      (.video false false true) _ rfl rfl,
    (gop_gate_safe .sample).2.2 .sample _ rfl⟩

end Egress

end NginxRtc
