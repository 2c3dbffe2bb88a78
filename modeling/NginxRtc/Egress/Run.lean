/-
  The operations on the send state of a session, and its runs.

  `ngx_rtc_session_send_rtp` and `ngx_rtc_session_retransmit_send` send; the NACK window
  (`ngx_rtc_session_nack_window_step`, `_nack_budget_take`), the pacer and the loss controller act
  in between, in any order.

  `step_cases`: an operation either sends one packet or leaves everything alone that a send looks
  at, but the pacer and the setup.  `stamps_consecutive`: the transport-wide sequence numbers on
  the datagrams the socket accepts are consecutive in every run.
-/
import NginxRtc.Egress.Send
import NginxRtc.Lib.Rtp
import NginxRtc.Lib.Run

namespace NginxRtc

namespace Egress

/-! ## The NACK window -/

/-- `ngx_rtc_session_nack_reset`. -/
def nackReset (e : Egress) : Egress := { e with nackSeen := [] }

/-- `ngx_rtc_session_nack_budget_take`. -/
def nackBudgetTake (e : Egress) : Egress × Bool :=
  if nackBudget ≤ e.nackRetransmitted then (e, false)
  else ({ e with nackRetransmitted := e.nackRetransmitted + 1 }, true)

/-- The width of the window that is current when a NACK comes. -/
def nackWidth (t : SendTunables) (e : Egress) : ℕ :=
  if e.nackWindowMs = 0 then t.nackWindowMs else e.nackWindowMs

/-- The width of the window after it. -/
def nackNextWidth (t : SendTunables) (e : Egress) : ℕ :=
  if nackBudget ≤ e.nackRetransmitted then min (e.nackWidth t * 2) t.nackWindowMaxMs
  else if e.nackRetransmitted = 0 then t.nackWindowMs
  else e.nackWidth t

/-- `ngx_rtc_session_nack_window_step`. -/
def nackWindowStep (t : SendTunables) (e : Egress) (now : UInt64) : Egress × Bool :=
  if (now - e.nackWindowStart).toNat < e.nackWidth t then
    ({ e with nackWindowMs := e.nackWidth t }, false)
  else
    ({ e with
        nackWindowMs := e.nackNextWidth t
        nackWindowStart := now
        nackRetransmitted := 0 }, true)

/-- Roll the window when it has elapsed; a new window has answered nothing yet. -/
def nackRoll (t : SendTunables) (e : Egress) (now : UInt64) : Egress :=
  if (e.nackWindowStep t now).2 then (e.nackWindowStep t now).1.nackReset
  else (e.nackWindowStep t now).1

/-- `ngx_rtc_session_retransmit_send`, with the outcome of its send if it makes one. -/
def retransmitSend (t : SendTunables) (e : Egress) (seq : UInt16) (a : Attempt) :
    Egress × Option Outcome :=
  if a.rtp.length = 0 then (e, none)
  else if seq ∈ e.nackSeen then (e, none)
  else
    let r := e.sendRtp t { a with gopStart := false }
    match r.2 with
    | .sent d =>
      (if r.1.nackSeen.length < nackBudget then { r.1 with nackSeen := r.1.nackSeen ++ [seq] }
        else r.1, some (.sent d))
    | o => (r.1, some o)

end Egress

/-! ## Runs -/

/-- An operation on the send state: a packet of the stream or of a replay, a retransmission, or what
    the feedback of the peer and the handshake do to it. -/
inductive SendOp where
  | send (a : Attempt)
  | retransmit (seq : UInt16) (a : Attempt)
  | nackRoll (now : UInt64)
  | nackBudgetTake
  | pacerInit (startBps : ℕ)
  | pacerCap (bps : ℕ)
  | onTwcc (lost received : UInt32) (now : UInt64)
  | setup (s : Setup)

/-- A sample video packet. -/
def SendOp.video (gop marker ok : Bool) : SendOp := .send (.sample 1 gop marker ok)

/-- A sample audio packet. -/
def SendOp.audio (ok : Bool) : SendOp := .send (.sample 2 false false ok)

/-- The packet an operation hands to `ngx_rtc_session_send_rtp`, should it come to that. -/
def SendOp.attempt : SendOp → Option Attempt
  | .send a => some a
  | .retransmit _ a => some { a with gopStart := false }
  | _ => none

namespace Egress

/-- The operation, and the outcome of the send it makes. -/
def exec (t : SendTunables) (e : Egress) : SendOp → Egress × Option Outcome
  | .send a => ((e.sendRtp t a).1, some (e.sendRtp t a).2)
  | .retransmit seq a => e.retransmitSend t seq a
  | .nackRoll now => (e.nackRoll t now, none)
  | .nackBudgetTake => (e.nackBudgetTake.1, none)
  | .pacerInit startBps => ({ e with pacer := .init startBps }, none)
  | .pacerCap bps => ({ e with pacer := e.pacer.cap bps }, none)
  | .onTwcc lost received now =>
    let r := NginxRtc.onTwcc e.pacer e.twcc lost received now.toNat
    ({ e with pacer := r.1, twcc := r.2 }, none)
  | .setup s => ({ e with setup := s }, none)

def step (t : SendTunables) (e : Egress) (op : SendOp) : Egress := (e.exec t op).1

def outcome (t : SendTunables) (e : Egress) (op : SendOp) : Option Outcome := (e.exec t op).2

/-- What no operation but a send changes. -/
structure Quiet (e e' : Egress) : Prop where
  twccSeq : e'.twccSeq = e.twccSeq
  dropUntilGop : e'.dropUntilGop = e.dropUntilGop
  eagainStreak : e'.eagainStreak = e.eagainStreak
  eagainMs : e'.eagainMs = e.eagainMs
  keyframeOpen : e'.keyframeOpen = e.keyframeOpen
  keyframePkts : e'.keyframePkts = e.keyframePkts

theorem Quiet.refl (e : Egress) : e.Quiet e := ⟨rfl, rfl, rfl, rfl, rfl, rfl⟩

theorem quiet_nackWindowStep (t : SendTunables) (e : Egress) (now : UInt64) :
    e.Quiet (e.nackWindowStep t now).1 := by
  unfold nackWindowStep
  split_ifs
  · exact ⟨rfl, rfl, rfl, rfl, rfl, rfl⟩
  · exact ⟨rfl, rfl, rfl, rfl, rfl, rfl⟩

theorem quiet_nackRoll (t : SendTunables) (e : Egress) (now : UInt64) :
    e.Quiet (e.nackRoll t now) := by
  have h := e.quiet_nackWindowStep t now
  unfold nackRoll
  split_ifs
  · exact ⟨h.twccSeq, h.dropUntilGop, h.eagainStreak, h.eagainMs, h.keyframeOpen, h.keyframePkts⟩
  · exact h

theorem quiet_nackBudgetTake (e : Egress) : e.Quiet e.nackBudgetTake.1 := by
  unfold nackBudgetTake
  split_ifs
  · exact .refl e
  · exact ⟨rfl, rfl, rfl, rfl, rfl, rfl⟩

/-- A retransmission sends a packet that is no GOP start, or leaves the state alone. -/
theorem retransmitSend_cases (t : SendTunables) (e : Egress) (seq : UInt16) (a : Attempt) :
    (e.retransmitSend t seq a = (e, none)) ∨
      (e.retransmitSend t seq a).2 = some (e.sendRtp t { a with gopStart := false }).2 ∧
        (e.sendRtp t { a with gopStart := false }).1.Quiet (e.retransmitSend t seq a).1 := by
  unfold retransmitSend
  split_ifs
  · exact .inl rfl
  · exact .inl rfl
  · refine .inr ?_
    dsimp only
    split
    · next d hd =>
      rw [hd]
      refine ⟨rfl, ?_⟩
      split_ifs
      · exact ⟨rfl, rfl, rfl, rfl, rfl, rfl⟩
      · exact .refl _
    · exact ⟨rfl, .refl _⟩

/-- **What an operation does**: it sends its packet, or sends nothing. -/
theorem step_cases (t : SendTunables) (e : Egress) (op : SendOp) :
    (e.outcome t op = none ∧ e.Quiet (e.step t op)) ∨
      ∃ a o e', op.attempt = some a ∧ e.outcome t op = some o ∧ Sends t e a e' o ∧
        e'.Quiet (e.step t op) := by
  cases op with
  | send a => exact .inr ⟨a, _, _, rfl, rfl, e.sendRtp_cases t a, .refl _⟩
  | retransmit seq a =>
    rcases e.retransmitSend_cases t seq a with h | ⟨ho, hq⟩
    · refine .inl ⟨congrArg Prod.snd h, ?_⟩
      rw [step, exec, h]
      exact .refl e
    · exact .inr ⟨_, _, _, rfl, ho, e.sendRtp_cases t _, hq⟩
  | nackRoll now => exact .inl ⟨rfl, e.quiet_nackRoll t now⟩
  | nackBudgetTake => exact .inl ⟨rfl, e.quiet_nackBudgetTake⟩
  | pacerInit startBps => exact .inl ⟨rfl, rfl, rfl, rfl, rfl, rfl, rfl⟩
  | pacerCap bps => exact .inl ⟨rfl, rfl, rfl, rfl, rfl, rfl, rfl⟩
  | onTwcc lost received now => exact .inl ⟨rfl, rfl, rfl, rfl, rfl, rfl, rfl⟩
  | setup s => exact .inl ⟨rfl, rfl, rfl, rfl, rfl, rfl, rfl⟩

/-! ## Transport-wide sequence numbers -/

/-- The number stamped on the datagram an operation gets out. -/
def stamp (t : SendTunables) (e : Egress) (op : SendOp) : List UInt16 :=
  match e.outcome t op with
  | some (.sent d) => d.transportSeq.toList
  | _ => []

/-- The numbers on the datagrams the socket accepts in a run, in send order. -/
def stamps (t : SendTunables) (e : Egress) (ops : List SendOp) : List UInt16 :=
  Lts.outputs (step t) (stamp t) e ops

/-- The numbers a send moves on by are those it puts on the wire. -/
theorem Sends.stamp {t : SendTunables} {e e' : Egress} {a : Attempt} {o : Outcome}
    (h : Sends t e a e' o) :
    (∀ d, o ≠ .sent d) ∧ e'.twccSeq = e.twccSeq ∨
      ∃ d, o = .sent d ∧ (d.transportSeq = none ∧ e'.twccSeq = e.twccSeq ∨
        d.transportSeq = some e.twccSeq ∧ e'.twccSeq = e.twccSeq + 1) := by
  obtain ⟨p, hp⟩ := e.charge_eq a
  cases h with
  | unready | gated => exact .inl ⟨fun d hd => (nomatch hd), rfl⟩
  | paced | srtpFailed | failed | short =>
    rw [hp]
    exact .inl ⟨fun d hd => (nomatch hd), rfl⟩
  | again =>
    rw [hp, blockSend_eq]
    exact .inl ⟨fun d hd => (nomatch hd), rfl⟩
  | sent cipher =>
    refine .inr ⟨_, rfl, ?_⟩
    rw [hp, drawSeq_eq, acceptSend_eq, transportSeq_plaintext]
    by_cases h : e.setup.stampExt a.rtp = 0
    · exact .inl ⟨if_pos h, if_neg (not_not.2 h)⟩
    · exact .inr ⟨if_neg h, if_pos h⟩

theorem stamp_step (t : SendTunables) (e : Egress) (op : SendOp) :
    e.stamp t op = [] ∧ (e.step t op).twccSeq = e.twccSeq ∨
      e.stamp t op = [e.twccSeq] ∧ (e.step t op).twccSeq = e.twccSeq + 1 := by
  unfold stamp
  rcases e.step_cases t op with ⟨hnone, hq⟩ | ⟨a, o, e', -, ho, hs, hq⟩
  · rw [hnone]
    exact .inl ⟨rfl, hq.twccSeq⟩
  · rw [ho, hq.twccSeq]
    rcases hs.stamp with ⟨hno, hseq⟩ | ⟨d, rfl, ⟨hd, hseq⟩ | ⟨hd, hseq⟩⟩
    · refine .inl ⟨?_, hseq⟩
      split
      · next d hd => exact absurd (Option.some.inj hd) (hno d)
      · rfl
    · exact .inl ⟨by simp only [hd, Option.toList_none], hseq⟩
    · exact .inr ⟨by simp only [hd, Option.toList_some], hseq⟩

/-- **The numbers on the accepted datagrams are consecutive**: whatever is sent, retransmitted and
    refused, the `i`-th datagram that gets out with a number carries the first one plus `i`. -/
theorem stamps_consecutive (t : SendTunables) (e : Egress) (ops : List SendOp) :
    e.stamps t ops =
      (List.range (e.stamps t ops).length).map fun i => e.twccSeq + UInt16.ofNat i := by
  unfold stamps
  induction ops generalizing e with
  | nil => rfl
  | cons op ops ih =>
    rw [Lts.outputs]
    rcases e.stamp_step t op with ⟨hs, hseq⟩ | ⟨hs, hseq⟩
    · rw [hs, List.nil_append]
      rw [← hseq]
      exact ih _
    · rw [hs, List.singleton_append, List.length_cons, Rtp.seqs_succ]
      rw [← hseq]
      exact congrArg _ (ih _)

end Egress

end NginxRtc
