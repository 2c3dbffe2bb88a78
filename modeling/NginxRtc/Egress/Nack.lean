/-
  What the feedback of a viewer does to its session (`ngx_rtc_stream_rtcp_cb`).

  A generic NACK for the video track is expanded into the packets it asks for, the response window
  rolls if it has elapsed, and the packets are retransmitted in turn while the window has budget
  left.  A PLI replays the cached keyframe, transport-cc feedback and receiver estimates go to the
  pacer.

  `rtcpCb_run`: whatever the feedback, it acts by the operations of `Egress.step`.

  `nack_in_order_iff`: a NACK is answered in its order, up to the budget, exactly when the packets
  its first 128 entries ask for are at most 512 or there is no budget left.
-/
import NginxRtc.Egress.Run
import NginxRtc.Rtcp.Feedback

namespace NginxRtc

/-- The room for expanded sequence numbers in the callback. -/
def nackSeqsCap : ℕ := 512

def typeBye : UInt8 := 203

/-- What a callback meets: the time, what a look into the caches finds and how a send goes (at the
    `i`-th packet the callback works on), and what a replay would send. -/
structure FeedbackEnv where
  now : UInt64
  lookup : ℕ → UInt16 → Option Bytes
  protect : ℕ → Bytes → Option Bytes
  sent : ℕ → ℤ
  replay : Option (List RetransmitSlot)

/-- The `i`-th send of the callback. -/
def FeedbackEnv.attempt (f : FeedbackEnv) (i : ℕ) (rtp : Bytes) (gop : Bool) : Attempt :=
  ⟨rtp, gop, f.now, f.protect i, f.sent i⟩

/-- What came of a feedback packet: the retransmissions that were attempted, and whether the packet
    got out; a keyframe was asked of the publisher; the peer said goodbye. -/
inductive FeedbackResult where
  | none
  | nack (attempts : List (UInt16 × Bool))
  | keyframeRequest
  | bye
deriving DecidableEq

def FeedbackResult.attempts : FeedbackResult → List (UInt16 × Bool)
  | .nack attempts => attempts
  | _ => []

def Outcome.isSent : Outcome → Bool
  | .sent _ => true
  | _ => false

namespace Egress

/-! ## The callback -/

/-- `ngx_rtc_stream_retransmit`; the flag says `NGX_RTC_OK`. -/
def streamRetransmit (t : SendTunables) (f : FeedbackEnv) (i : ℕ) (e : Egress) (seq : UInt16) :
    Egress × Bool :=
  match f.lookup i seq with
  | none => (e, false)
  | some rtp =>
    let r := e.retransmitSend t seq (f.attempt i rtp false)
    (r.1, r.2.any Outcome.isSent)

/-- The loop over the expanded sequence numbers, from the `i`-th on. -/
def retransmitAll (t : SendTunables) (f : FeedbackEnv) :
    ℕ → List UInt16 → Egress → Egress × List (UInt16 × Bool)
  | _, [], e => (e, [])
  | i, seq :: seqs, e =>
    match e.nackBudgetTake with
    | (e, false) => (e, [])
    | (e, true) =>
      let r := streamRetransmit t f i e seq
      let rest := retransmitAll t f (i + 1) seqs r.1
      (rest.1, (seq, r.2) :: rest.2)

/-- The branch of a generic NACK for the video track. -/
def onNack (t : SendTunables) (f : FeedbackEnv) (e : Egress) (pkt : Rtcp.Pkt) :
    Egress × List (UInt16 × Bool) :=
  match Rtcp.nackExpand pkt nackSeqsCap with
  | .error _ => (e, [])
  | .ok seqs => retransmitAll t f 0 seqs (e.nackRoll t f.now)

/-- The packets of a replay, from the `i`-th on, until one does not get out or closes the access
    unit. -/
def replayAll (t : SendTunables) (f : FeedbackEnv) : ℕ → List RetransmitSlot → Egress → Egress
  | _, [], e => e
  | i, slot :: slots, e =>
    let r := e.sendRtp t (f.attempt i slot.data slot.isGopStart)
    if !r.2.isSent || slot.closes then r.1 else replayAll t f (i + 1) slots r.1

/-- `ngx_rtc_stream_rtcp_cb`. -/
def rtcpCb (t : SendTunables) (f : FeedbackEnv) (e : Egress) (pkt : Rtcp.Pkt) :
    Egress × FeedbackResult :=
  match e.setup.source with
  | none => (e, .none)
  | some (video, _) =>
    if pkt.type = Rtcp.typeRtpfb ∧ pkt.fmt = Rtcp.fmtNack then
      if pkt.mediaSsrc = video then
        let r := onNack t f e pkt
        (r.1, .nack r.2)
      else (e, .none)
    else if pkt.type = Rtcp.typePsfb ∧ pkt.fmt = Rtcp.fmtPli then
      if pkt.mediaSsrc = video then
        match f.replay with
        | none => (e, .keyframeRequest)
        | some slots => (replayAll t f 0 slots e, .none)
      else (e, .none)
    else if pkt.type = Rtcp.typeRtpfb ∧ pkt.fmt = Rtcp.fmtTwcc then
      (e.step t (.onTwcc pkt.twccLost pkt.twccReceived f.now), .none)
    else
      match pkt.remb with
      | some (bps, _) => (e.step t (.pacerCap bps.toNat), .none)
      | none => (e, if pkt.type = typeBye then .bye else .none)

/-! ## The callback as a run -/

/-- The state is one some run leads to. -/
def Runs (t : SendTunables) (e e' : Egress) : Prop := Lts.Reachable (step t) e e'

theorem Runs.trans {t : SendTunables} {e₁ e₂ e₃ : Egress} (h : Runs t e₁ e₂) (h' : Runs t e₂ e₃) :
    Runs t e₁ e₃ := by
  obtain ⟨ops, rfl⟩ := h
  obtain ⟨ops', rfl⟩ := h'
  exact ⟨ops ++ ops', Lts.run_append e₁ ops ops'⟩

theorem runs_step (t : SendTunables) (e : Egress) (op : SendOp) : Runs t e (e.step t op) :=
  ⟨[op], rfl⟩

theorem runs_streamRetransmit (t : SendTunables) (f : FeedbackEnv) (i : ℕ) (e : Egress)
    (seq : UInt16) : Runs t e (streamRetransmit t f i e seq).1 := by
  unfold streamRetransmit
  split
  · exact .refl e
  · next rtp _ => exact runs_step t e (.retransmit seq (f.attempt i rtp false))

theorem runs_retransmitAll (t : SendTunables) (f : FeedbackEnv) (i : ℕ) (seqs : List UInt16)
    (e : Egress) : Runs t e (retransmitAll t f i seqs e).1 := by
  induction seqs generalizing i e with
  | nil => exact .refl e
  | cons seq seqs ih =>
    have htake : Runs t e e.nackBudgetTake.1 := runs_step t e .nackBudgetTake
    unfold retransmitAll
    split
    · next e' he =>
      rw [he] at htake
      exact htake
    · next e' he =>
      rw [he] at htake
      exact htake.trans ((runs_streamRetransmit t f i e' seq).trans (ih _ _))

theorem runs_replayAll (t : SendTunables) (f : FeedbackEnv) (i : ℕ) (slots : List RetransmitSlot)
    (e : Egress) : Runs t e (replayAll t f i slots e) := by
  induction slots generalizing i e with
  | nil => exact .refl e
  | cons slot slots ih =>
    have hsend : Runs t e (e.sendRtp t (f.attempt i slot.data slot.isGopStart)).1 :=
      runs_step t e (.send (f.attempt i slot.data slot.isGopStart))
    unfold replayAll
    dsimp only
    split_ifs
    · exact hsend
    · exact hsend.trans (ih _ _)

/-- **A callback acts by the operations of a run.** -/
theorem rtcpCb_run (t : SendTunables) (f : FeedbackEnv) (e : Egress) (pkt : Rtcp.Pkt) :
    ∃ ops, (rtcpCb t f e pkt).1 = Lts.run (step t) e ops := by
  have hruns : Runs t e (rtcpCb t f e pkt).1 := by
    unfold rtcpCb
    split
    · exact .refl e
    · dsimp only
      split_ifs
      · unfold onNack
        split
        · exact .refl e
        · exact (runs_step t e (.nackRoll f.now)).trans (runs_retransmitAll t f 0 _ _)
      · exact .refl e
      · split
        · exact .refl e
        · exact runs_replayAll t f 0 _ e
      · exact .refl e
      · exact runs_step t e _
      · split
        · exact runs_step t e _
        · exact .refl e
      · split
        · exact runs_step t e _
        · exact .refl e
  obtain ⟨ops, hops⟩ := hruns
  exact ⟨ops, hops.symm⟩

end Egress

/-! ## The response window -/

/-- `nack_window_start`, `nack_window_ms`, `nack_retransmitted` and `nack_seen`. -/
structure NackWindow where
  start : UInt64
  width : ℕ
  used : ℕ
  seen : List UInt16
deriving DecidableEq

/-- An attempt that may have got out. -/
def NackWindow.attempted (w : NackWindow) (p : UInt16 × Bool) : NackWindow :=
  { w with
    used := w.used + 1
    seen := if p.2 ∧ w.seen.length < nackBudget then w.seen ++ [p.1] else w.seen }

namespace Egress

def window (e : Egress) : NackWindow :=
  ⟨e.nackWindowStart, e.nackWindowMs, e.nackRetransmitted, e.nackSeen⟩

/-- A send does not touch the window. -/
theorem Sends.window {t : SendTunables} {e e' : Egress} {a : Attempt} {o : Outcome}
    (h : Sends t e a e' o) : e'.window = e.window := by
  obtain ⟨p, hp⟩ := e.charge_eq a
  cases h with
  | unready | gated => rfl
  | paced | srtpFailed | failed | short =>
    rw [hp]
    rfl
  | again =>
    rw [hp, blockSend_eq]
    rfl
  | sent cipher =>
    rw [hp, drawSeq_eq, acceptSend_eq]
    rfl

/-- A retransmission that gets out was not remembered before, and is afterwards if there is room. -/
theorem retransmitSend_window (t : SendTunables) (e : Egress) (seq : UInt16) (a : Attempt) :
    ((e.retransmitSend t seq a).2.any Outcome.isSent = true ∧ seq ∉ e.nackSeen ∧
        (e.retransmitSend t seq a).1.window =
          { e.window with
            seen := if e.nackSeen.length < nackBudget then e.nackSeen ++ [seq] else e.nackSeen }) ∨
      ((e.retransmitSend t seq a).2.any Outcome.isSent = false ∧
        (e.retransmitSend t seq a).1.window = e.window) := by
  have hwin := (e.sendRtp_cases t { a with gopStart := false }).window
  unfold retransmitSend
  by_cases hlen : a.rtp.length = 0
  · rw [if_pos hlen]
    exact .inr ⟨rfl, rfl⟩
  rw [if_neg hlen]
  by_cases hseen : seq ∈ e.nackSeen
  · rw [if_pos hseen]
    exact .inr ⟨rfl, rfl⟩
  · rw [if_neg hseen]
    generalize e.sendRtp t { a with gopStart := false } = r at hwin ⊢
    obtain ⟨e', o⟩ := r
    have hkept : e'.nackSeen = e.nackSeen := congrArg NackWindow.seen hwin
    cases o with
    | sent d =>
      refine .inl ⟨rfl, hseen, ?_⟩
      dsimp only
      rw [← hkept, ← hwin]
      split_ifs <;> rfl
    | _ => exact .inr ⟨rfl, hwin⟩

/-- One attempt of the callback: it counts, and what got out was not seen before and is
    remembered. -/
theorem attempt_window (t : SendTunables) (f : FeedbackEnv) (i : ℕ) (e : Egress) (seq : UInt16) :
    let e₁ : Egress := { e with nackRetransmitted := e.nackRetransmitted + 1 }
    let r := streamRetransmit t f i e₁ seq
    r.1.window = e.window.attempted (seq, r.2) ∧ (r.2 = true → seq ∉ e.nackSeen) := by
  intro e₁ r
  have hmiss : e₁.window = e.window.attempted (seq, false) := rfl
  cases hl : f.lookup i seq with
  | none =>
    have hr : r = (e₁, false) := by
      simp only [r, streamRetransmit, hl]
    rw [hr]
    exact ⟨hmiss, fun h => nomatch h⟩
  | some rtp =>
    have hr : r = ((e₁.retransmitSend t seq (f.attempt i rtp false)).1,
        (e₁.retransmitSend t seq (f.attempt i rtp false)).2.any Outcome.isSent) := by
      simp only [r, streamRetransmit, hl]
    rw [hr]
    rcases e₁.retransmitSend_window t seq (f.attempt i rtp false) with ⟨hok, hnew, hw⟩ | ⟨hok, hw⟩
    · rw [hok, hw]
      refine ⟨?_, fun _ => hnew⟩
      simp only [NackWindow.attempted, true_and]
      rfl
    · rw [hok, hw]
      exact ⟨hmiss, fun h => nomatch h⟩

/-- The budget left to a NACK that comes at `now`, in the window that is current then. -/
def nackRemaining (t : SendTunables) (e : Egress) (now : UInt64) : ℕ :=
  nackBudget - (e.nackRoll t now).nackRetransmitted

/-- The loop attempts the first packets of the list, while there is budget. -/
theorem retransmitAll_attempts (t : SendTunables) (f : FeedbackEnv) (i : ℕ) (seqs : List UInt16)
    (e : Egress) :
    (retransmitAll t f i seqs e).2.map Prod.fst = seqs.take (nackBudget - e.nackRetransmitted) := by
  induction seqs generalizing i e with
  | nil => rw [List.take_nil]; rfl
  | cons seq seqs ih =>
    unfold retransmitAll nackBudgetTake
    split_ifs with hfull
    · rw [Nat.sub_eq_zero_of_le hfull]
      rfl
    · obtain ⟨hw, -⟩ := attempt_window t f i e seq
      have hused := congrArg NackWindow.used hw
      have hleft : nackBudget - e.nackRetransmitted =
          nackBudget - (e.nackRetransmitted + 1) + 1 := by omega
      dsimp only
      rw [List.map_cons, ih, hleft, List.take_succ_cons]
      exact congrArg (fun n => seq :: seqs.take (nackBudget - n)) hused

/-- **A NACK is answered in its order**, up to the budget that is left, exactly if its first 128
    entries ask for no more than 512 packets, or there is no budget left. -/
theorem nack_in_order_iff (t : SendTunables) (f : FeedbackEnv) (e : Egress) {b : Bytes}
    {pkt : Rtcp.Pkt} {n : ℕ} {audio : UInt32} {es : List (UInt16 × UInt16)}
    (htype : Rtcp.typeOf b = Rtcp.typeRtpfb) (hfmt : Rtcp.fmtOf b = Rtcp.fmtNack)
    (hparse : Rtcp.parse b = some (.ok (pkt, n)))
    (hsource : e.setup.source = some (pkt.mediaSsrc, audio)) (hes : Rtcp.nackList b = some es) :
    (rtcpCb t f e pkt).2.attempts.map Prod.fst =
        (Rtcp.requested es).take (e.nackRemaining t f.now) ↔
      (Rtcp.requested (es.take Rtcp.maxNackEntries)).length ≤ nackSeqsCap ∨
        e.nackRemaining t f.now = 0 := by
  obtain ⟨hpt, hpf, es', hes', hkept⟩ := Rtcp.parse_nack htype hfmt hparse
  obtain rfl : es = es' := Option.some.inj (hes.symm.trans hes')
  have hcb : (rtcpCb t f e pkt).2.attempts = (onNack t f e pkt).2 := by
    simp only [rtcpCb, hsource, hpt, hpf, and_self, if_true]
    rfl
  have hbudget : e.nackRemaining t f.now ≤ Rtcp.maxNackEntries := Nat.sub_le ..
  have htake := Rtcp.take_requested es hbudget
  rw [hcb, onNack, Rtcp.nackExpand_eq, hkept]
  split_ifs with hfits
  · rw [retransmitAll_attempts, ← htake]
    exact iff_of_true rfl (.inl hfits)
  · have hlen : 0 < (Rtcp.requested (es.take Rtcp.maxNackEntries)).length := by omega
    rw [← htake]
    constructor
    · intro h
      refine .inr (Nat.eq_zero_of_not_pos fun hpos => ?_)
      have hz := congrArg List.length h
      rw [List.length_take, List.map_nil, List.length_nil] at hz
      omega
    · rintro (h | h)
      · exact absurd h hfits
      · rw [h]
        rfl

/-! ### Worked callbacks -/

/-- A NACK for the video track of `Egress.sample` with `n` entries. -/
def nackBytes (n : ℕ) (blp : UInt8) : Bytes :=
  [0x81, 205, 0, UInt8.ofNat (n + 2), 0, 0, 0, 9, 0, 0, 0, 1] ++
    (List.replicate n [0, 7, blp, blp]).flatten

/-- Feedback that comes after a second and finds nothing in the caches. -/
def sampleEnv : FeedbackEnv :=
  ⟨1000, fun _ _ => none, fun _ => some, fun _ => 0, none⟩

/-- One entry. -/
theorem nack_in_order_iff_one :
    ∃ pkt, Rtcp.parse (nackBytes 1 0) = some (.ok (pkt, 16)) ∧
      ((rtcpCb .sample sampleEnv .sample pkt).2.attempts.map Prod.fst =
          (Rtcp.requested [(7, 0)]).take (Egress.sample.nackRemaining .sample 1000) ↔
        (Rtcp.requested ([(7, 0)].take Rtcp.maxNackEntries)).length ≤ nackSeqsCap ∨
          Egress.sample.nackRemaining .sample 1000 = 0) :=
  ⟨_, rfl, @nack_in_order_iff .sample sampleEnv .sample (nackBytes 1 0) _ 16 2 [(7, 0)] rfl rfl rfl
    rfl rfl⟩

set_option maxRecDepth 4000 in
/-- **A NACK that asks for too much is not answered at all**: 31 full entries ask for 527 packets,
    none is attempted and the budget of 128 is left. -/
theorem nack_dropped :
    ∃ pkt es, Rtcp.parse (nackBytes 31 0xff) = some (.ok (pkt, 136)) ∧
      Rtcp.typeOf (nackBytes 31 0xff) = Rtcp.typeRtpfb ∧
      Rtcp.fmtOf (nackBytes 31 0xff) = Rtcp.fmtNack ∧
      Egress.sample.setup.source = some (pkt.mediaSsrc, 2) ∧
      Rtcp.nackList (nackBytes 31 0xff) = some es ∧ (Rtcp.requested es).length = 527 ∧
      Egress.sample.nackRemaining .sample 1000 = 128 ∧
      (rtcpCb .sample sampleEnv .sample pkt).2.attempts = [] ∧
      (rtcpCb .sample sampleEnv .sample pkt).2.attempts.map Prod.fst ≠
        (Rtcp.requested es).take (Egress.sample.nackRemaining .sample 1000) := by
  refine ⟨_, List.replicate 31 (7, 0xffff), rfl, rfl, rfl, rfl, rfl, ?_⟩
  exact ⟨by decide +kernel, by decide +kernel, by decide +kernel, by decide +kernel⟩

end Egress

end NginxRtc
