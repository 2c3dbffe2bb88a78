/-
  The session lifecycle machine (`ngx_rtc_session_fsm.c`).

  NEW, ICE_BOUND, DTLS_HANDSHAKE, SRTP_READY and CLOSED are children of one root state; an event
  goes to the current state's table first and bubbles to the root's.  Guards only look at the
  context of the event and abstain when there is none.

  `fsmDispatch_phase`: no event takes a session back to an earlier phase.  `fsmDispatch_ready`:
  a session becomes ready only out of a handshake.
-/
import NginxRtc.Basic

namespace NginxRtc

inductive SessionEvent where
  | stunBinding
  | dtlsPacket
  | dtlsHandshakeDone
  | srtpReady
  | timeout
  | close
  | rtcpBye
deriving DecidableEq, Repr

/-- `ngx_rtc_session_fsm_ctx_t`: the connection a binding came in on and the datagram of a DTLS
    record. -/
structure FsmCtx where
  conn : Option ℕ
  data : Option Bytes

def sessionDtlsRecordMin : ℕ := 13
def sessionDtlsTypeMin : UInt8 := 20
def sessionDtlsTypeMax : UInt8 := 63

/-- `s_session_binding_guard`. -/
def bindingGuard : Option FsmCtx → Bool
  | none => true
  | some ctx => ctx.conn.isSome

/-- `s_session_dtls_guard`: a record long enough, of a DTLS content type. -/
def dtlsGuard : Option FsmCtx → Bool
  | none => true
  | some ctx =>
    match ctx.data with
    | none => false
    | some data =>
      sessionDtlsRecordMin ≤ data.length &&
        data.head?.any fun b => sessionDtlsTypeMin ≤ b && b ≤ sessionDtlsTypeMax

/-! ## Tables -/

/-- A table row; an internal transition has no target. -/
structure FsmTransition where
  event : SessionEvent
  target : Option SessionState
  guard : Option FsmCtx → Bool

def noGuard : Option FsmCtx → Bool := fun _ => true

/-- `s_session_top_transitions`. -/
def topTransitions : List FsmTransition :=
  [⟨.close, some .closed, noGuard⟩,
    ⟨.timeout, some .closed, noGuard⟩,
    ⟨.rtcpBye, some .closed, noGuard⟩]

/-- The table of each state. -/
def sessionTransitions : SessionState → List FsmTransition
  | .new => [⟨.stunBinding, some .iceBound, bindingGuard⟩]
  | .iceBound =>
    [⟨.stunBinding, none, bindingGuard⟩,
      ⟨.dtlsPacket, some .dtlsHandshake, dtlsGuard⟩]
  | .dtlsHandshake =>
    [⟨.dtlsHandshakeDone, some .srtpReady, noGuard⟩,
      ⟨.srtpReady, some .srtpReady, noGuard⟩,
      ⟨.stunBinding, none, bindingGuard⟩]
  | .srtpReady =>
    [⟨.srtpReady, none, noGuard⟩,
      ⟨.stunBinding, none, bindingGuard⟩]
  | .closed =>
    [⟨.close, none, noGuard⟩,
      ⟨.timeout, none, noGuard⟩,
      ⟨.rtcpBye, none, noGuard⟩]
  | .unknown => []

/-- The first row for the event whose guard passes. -/
def findTransition (rows : List FsmTransition) (ev : SessionEvent) (ctx : Option FsmCtx) :
    Option FsmTransition :=
  rows.find? fun t => t.event = ev && t.guard ctx

/-- `ngx_rtc_session_fsm_dispatch_ctx`: the next state, and whether the event was handled. -/
def fsmDispatch (s : SessionState) (ev : SessionEvent) (ctx : Option FsmCtx) :
    SessionState × Bool :=
  match (findTransition (sessionTransitions s) ev ctx).or (findTransition topTransitions ev ctx) with
  | some t => (t.target.getD s, true)
  | none => (s, false)

/-- `ngx_rtc_session_fsm_is_ready`. -/
def SessionState.isReady (s : SessionState) : Bool := s = .srtpReady

/-- `ngx_rtc_session_fsm_dtls_pending`. -/
def SessionState.dtlsPending (s : SessionState) : Bool := s = .new || s = .iceBound

/-! ## Phases -/

/-- The order in which a session goes through its states. -/
def SessionState.phase : SessionState → ℕ
  | .unknown => 0
  | .new => 1
  | .iceBound => 2
  | .dtlsHandshake => 3
  | .srtpReady => 4
  | .closed => 5

theorem findTransition_mem {rows : List FsmTransition} {ev : SessionEvent} {ctx : Option FsmCtx}
    {t : FsmTransition} (h : findTransition rows ev ctx = some t) :
    t ∈ rows ∧ t.event = ev ∧ t.guard ctx = true := by
  have hp := List.find?_some h
  rw [Bool.and_eq_true, decide_eq_true_eq] at hp
  exact ⟨List.mem_of_find?_eq_some h, hp⟩

/-- What a dispatch can do: nothing, or the target of a row for the event. -/
theorem fsmDispatch_cases (s : SessionState) (ev : SessionEvent) (ctx : Option FsmCtx) :
    fsmDispatch s ev ctx = (s, false) ∨
      ∃ t ∈ sessionTransitions s ++ topTransitions, t.event = ev ∧ t.guard ctx = true ∧
        fsmDispatch s ev ctx = (t.target.getD s, true) := by
  unfold fsmDispatch
  cases hown : findTransition (sessionTransitions s) ev ctx with
  | some t =>
    obtain ⟨hmem, hev, hg⟩ := findTransition_mem hown
    exact .inr ⟨t, List.mem_append_left _ hmem, hev, hg, rfl⟩
  | none =>
    cases htop : findTransition topTransitions ev ctx with
    | some t =>
      obtain ⟨hmem, hev, hg⟩ := findTransition_mem htop
      exact .inr ⟨t, List.mem_append_right _ hmem, hev, hg, rfl⟩
    | none => exact .inl rfl

theorem phase_le_target (s : SessionState) :
    ∀ t ∈ sessionTransitions s ++ topTransitions, s.phase ≤ (t.target.getD s).phase := by
  cases s <;> simp [sessionTransitions, topTransitions, SessionState.phase]

/-- **No event takes a session back to an earlier phase.** -/
theorem fsmDispatch_phase (s : SessionState) (ev : SessionEvent) (ctx : Option FsmCtx) :
    s.phase ≤ (fsmDispatch s ev ctx).1.phase := by
  rcases fsmDispatch_cases s ev ctx with h | ⟨t, ht, -, -, h⟩
  · exact Nat.le_of_eq (congrArg (fun r => r.1.phase) h.symm)
  · rw [h]
    exact phase_le_target s t ht

theorem target_ready (s : SessionState) :
    ∀ t ∈ sessionTransitions s ++ topTransitions, t.target.getD s = .srtpReady →
      s = .srtpReady ∨ s = .dtlsHandshake ∧ (t.event = .dtlsHandshakeDone ∨ t.event = .srtpReady) := by
  cases s <;> simp [sessionTransitions, topTransitions]

/-- **A session becomes ready only out of a handshake.** -/
theorem fsmDispatch_ready {s : SessionState} {ev : SessionEvent} {ctx : Option FsmCtx}
    (h : (fsmDispatch s ev ctx).1 = .srtpReady) :
    s = .srtpReady ∨ s = .dtlsHandshake ∧ (ev = .dtlsHandshakeDone ∨ ev = .srtpReady) := by
  rcases fsmDispatch_cases s ev ctx with hs | ⟨t, ht, rfl, -, hs⟩ <;> rw [hs] at h
  · exact .inl h
  · exact target_ready s t ht h

/-- Every close-class event ends the session. -/
theorem fsmDispatch_closing (s : SessionState) (ctx : Option FsmCtx) {ev : SessionEvent}
    (h : ev = .close ∨ ev = .timeout ∨ ev = .rtcpBye) : (fsmDispatch s ev ctx).1 = .closed := by
  rcases h with rfl | rfl | rfl <;> cases s <;> rfl

end NginxRtc
