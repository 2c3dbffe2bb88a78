/-
  The life of a session's machine (`ngx_rtc_session_fsm.c`, its entry points).

  A session starts in NEW; a binding on a connection, a record of DTLS, and the end of the handshake
  take it to SRTP_READY, and every close-class event ends it.

  `session_machine`: which of these have happened is what the state says, in every run of the engine,
  and `session_ready_iff`: when a session is ready.  `session_restored`: a machine that adopts the
  state of another goes on as that one does.
-/
import NginxRtc.Lib.Stages
import NginxRtc.Session.SessionChart

namespace NginxRtc

variable {α υ : Type}

/-! ## Entry points -/

/-- `NGX_RTC_SESSION_FSM_MAX_DEPTH`. -/
def sessionFsmMaxDepth : UInt8 := 2

/-- `ngx_rtc_session_fsm_state_object`. -/
def sessionStateObject : SessionState → Option SessionState
  | .unknown => none
  | s => some s

section
variable (T : Chart SessionState α (Option FsmCtx) υ)

/-- `ngx_rtc_session_fsm_init`; `fsm_path` is the buffer. -/
def sessionFsmInit (sm : Hsm SessionState α υ) (fsmPath : List (Option SessionState))
    (fits : sessionFsmMaxDepth.toNat ≤ fsmPath.length) (sess : υ) : Option (HsmTrace SessionState α υ) :=
  T.init sm (some .new) fsmPath sessionFsmMaxDepth fits sess none

/-- `ngx_rtc_session_fsm_get_state`. -/
def sessionFsmGetState (sm : Hsm SessionState α υ) : SessionState :=
  if T.isInState sm (some .srtpReady) then .srtpReady
  else if T.isInState sm (some .dtlsHandshake) then .dtlsHandshake
  else if T.isInState sm (some .iceBound) then .iceBound
  else if T.isInState sm (some .closed) then .closed
  else if T.isInState sm (some .new) then .new
  else .unknown

/-- `ngx_rtc_session_fsm_dtls_pending`. -/
def sessionFsmDtlsPending (sm : Hsm SessionState α υ) : Bool :=
  T.isInState sm (some .new) || T.isInState sm (some .iceBound)

/-- `ngx_rtc_session_fsm_is_ready`. -/
def sessionFsmIsReady (sm : Hsm SessionState α υ) : Bool := T.isInState sm (some .srtpReady)

end

/-- `ngx_rtc_session_fsm_restore`. -/
def sessionFsmRestore (sm : Hsm SessionState α υ) (state : SessionState) :
    Bool × Hsm SessionState α υ :=
  sm.restoreState (sessionStateObject state)

/-- `ngx_rtc_session_fsm_set_reporter`. -/
def sessionFsmSetReporter (sm : Hsm SessionState α υ) (reporter : Option α) : Hsm SessionState α υ :=
  { sm with unhandledEventHook := reporter }

section
variable {effect : α → Hsm SessionState α υ → Option (HsmEvent (Option FsmCtx)) → Hsm SessionState α υ}
variable {sm : Hsm SessionState α υ} {s : SessionState}

/-- The machine is in a state exactly if that is its own or the root. -/
theorem sessionChart_isInState (hc : sm.currentState = some s) (x : SessionState) :
    (sessionChart effect).isInState sm (some x) = decide (x = s ∨ x = .unknown) := by
  rw [Bool.eq_iff_iff, Chart.isInState_iff, hc, decide_eq_true_eq]
  rcases eq_or_ne s .unknown with rfl | hs
  · rw [sessionChart_path_root, List.mem_singleton, or_self]
  · rw [sessionChart_path hs, List.mem_cons, List.mem_singleton]

theorem sessionFsmGetState_eq (hc : sm.currentState = some s) :
    sessionFsmGetState (sessionChart effect) sm = s := by
  simp only [sessionFsmGetState, sessionChart_isInState hc]
  cases s <;> rfl

theorem sessionFsmDtlsPending_eq (hc : sm.currentState = some s) :
    sessionFsmDtlsPending (sessionChart effect) sm = s.dtlsPending := by
  simp only [sessionFsmDtlsPending, sessionChart_isInState hc]
  cases s <;> rfl

end

/-! ## Stages -/

/-- An event the source calls close-class. -/
def SessionEvent.closing (ev : SessionEvent) : Prop := ev = .close ∨ ev = .timeout ∨ ev = .rtcpBye

/-- What a session waits for: a binding on a connection, a DTLS record, the end of the handshake. -/
def sessionStages : List (SessionEvent × Option FsmCtx → Bool) :=
  [fun e => e.1 = .stunBinding && bindingGuard e.2, fun e => e.1 = .dtlsPacket && dtlsGuard e.2,
    fun e => e.1 = .dtlsHandshakeDone || e.1 = .srtpReady]

/-- What it waits for in a state. -/
def SessionState.todo : SessionState → List (SessionEvent × Option FsmCtx → Bool)
  | .new => sessionStages
  | .iceBound => sessionStages.drop 1
  | .dtlsHandshake => sessionStages.drop 2
  | _ => []

/-- An event that closes nothing completes the stage the session waits in, or changes nothing. -/
theorem fsmDispatch_todo (s : SessionState) (e : SessionEvent × Option FsmCtx) (h : ¬ e.1.closing) :
    (fsmDispatch s e.1 e.2).1.todo = Stages.pass e s.todo := by
  obtain ⟨ev, ctx⟩ := e
  cases ev with
  | close | timeout | rtcpBye => exact absurd (by simp [SessionEvent.closing]) h
  | stunBinding =>
    cases hg : bindingGuard ctx <;> cases s <;>
      simp [fsmDispatch, findTransition, sessionTransitions, topTransitions, SessionState.todo,
        sessionStages, Stages.pass, hg]
  | dtlsPacket =>
    cases hg : dtlsGuard ctx <;> cases s <;>
      simp [fsmDispatch, findTransition, sessionTransitions, topTransitions, SessionState.todo,
        sessionStages, Stages.pass, hg]
  | dtlsHandshakeDone | srtpReady => cases s <;> rfl

theorem target_closed {s : SessionState} (hs : s ≠ .closed) :
    ∀ t ∈ sessionTransitions s ++ topTransitions, t.target.getD s = .closed → t.event.closing := by
  cases s <;> simp [sessionTransitions, topTransitions, SessionEvent.closing] at hs ⊢

/-- Only a close-class event closes a session. -/
theorem fsmDispatch_closed {s : SessionState} {e : SessionEvent × Option FsmCtx} (hs : s ≠ .closed)
    (h : ¬ e.1.closing) : (fsmDispatch s e.1 e.2).1 ≠ .closed := by
  rcases fsmDispatch_cases s e.1 e.2 with hd | ⟨t, ht, hev, -, hd⟩ <;> rw [hd]
  · exact hs
  · exact fun hc => h (hev ▸ target_closed hs t ht hc)

/-- The states a session goes through. -/
abbrev lifeOf (s : SessionState) (evs : List (SessionEvent × Option FsmCtx)) : SessionState :=
  Lts.run (fun s e => (fsmDispatch s e.1 e.2).1) s evs

theorem lifeOf_closed (evs : List (SessionEvent × Option FsmCtx)) : lifeOf .closed evs = .closed := by
  induction evs with
  | nil => rfl
  | cons e evs ih =>
    have hstay : (fsmDispatch .closed e.1 e.2).1 = .closed := by
      obtain ⟨ev, ctx⟩ := e
      cases ev <;> rfl
    rw [lifeOf, Lts.run_cons, hstay]
    exact ih

/-- **A session is closed exactly if a close-class event has come.** -/
theorem lifeOf_closed_iff {s : SessionState} (hs : s ≠ .closed)
    (evs : List (SessionEvent × Option FsmCtx)) :
    lifeOf s evs = .closed ↔ ∃ e ∈ evs, e.1.closing := by
  induction evs generalizing s with
  | nil => exact iff_of_false hs (by simp)
  | cons e evs ih =>
    rw [lifeOf, Lts.run_cons, List.exists_mem_cons_iff]
    by_cases he : e.1.closing
    · rw [fsmDispatch_closing s e.2 he]
      exact iff_of_true (lifeOf_closed evs) (.inl he)
    · rw [or_iff_right he]
      exact ih (fsmDispatch_closed hs he)

/-- Before it is closed, a session's phase says what it waits for. -/
theorem phase_todo {s : SessionState} (hs : s.phase ≠ 0) (hc : s ≠ .closed) :
    s.todo.length + s.phase = 4 := by
  cases s <;> first | rfl | exact absurd rfl hs | exact absurd rfl hc

/-- **How far a session gets**: past the first `k` stages exactly if the events for them have come. -/
theorem lifeOf_phase {evs : List (SessionEvent × Option FsmCtx)} (h : ∀ e ∈ evs, ¬ e.1.closing) {k : ℕ}
    (hk : k ≤ 3) :
    k < (lifeOf .new evs).phase ↔ Stages.Completes (sessionStages.take k) evs := by
  have htodo : (lifeOf .new evs).todo = Stages.left sessionStages evs :=
    Stages.run_stages fsmDispatch_todo h
  have hopen : lifeOf .new evs ≠ .closed := fun hc => by
    obtain ⟨e, he, hclose⟩ := (lifeOf_closed_iff (by decide) evs).1 hc
    exact h e he hclose
  have hphase : (lifeOf .new evs).phase ≠ 0 := Nat.ne_of_gt (run_phase .new evs)
  have hlen := phase_todo hphase hopen
  have hsum : (Stages.left sessionStages evs).length + (lifeOf .new evs).phase = 4 := htodo ▸ hlen
  have hlength : sessionStages.length = 3 := rfl
  rw [← Stages.length_left_iff (hlength.symm ▸ hk)]
  omega

theorem isReady_iff {s : SessionState} (h : s ≠ .closed) : s.isReady = true ↔ 3 < s.phase := by
  cases s <;> first | exact absurd rfl h | decide

theorem dtlsPending_iff {s : SessionState} (h : s.phase ≠ 0) : s.dtlsPending = true ↔ ¬ 2 < s.phase := by
  cases s <;> first | exact absurd rfl h | decide

/-! ## Runs -/

section
variable {effect : α → Hsm SessionState α υ → Option (HsmEvent (Option FsmCtx)) → Hsm SessionState α υ}
variable (hT : (sessionChart effect).Inert)
include hT

/-- **What the machine of a session says**, after whatever events since its start.  It is closed exactly
    if a close-class event has come; till then it is past a stage exactly if, in their order, the events
    for that stage and those before have come. -/
theorem session_machine (sm : Hsm SessionState α υ) (fsmPath : List (Option SessionState))
    (fits : sessionFsmMaxDepth.toNat ≤ fsmPath.length) (sess : υ) (reporter : Option α)
    (evs : List (SessionEvent × Option FsmCtx)) :
    ∃ r sm', sessionFsmInit (sessionChart effect) sm fsmPath fits sess = some r ∧
      (sessionChart effect).dispatchAll (sessionFsmSetReporter r.sm reporter)
        (evs.map fun e => ⟨e.1.id, e.2⟩) = some sm' ∧
      (sessionFsmGetState (sessionChart effect) sm' = .closed ↔ ∃ e ∈ evs, e.1.closing) ∧
      ((∀ e ∈ evs, ¬ e.1.closing) → ∀ k ≤ 3,
        (k < (sessionFsmGetState (sessionChart effect) sm').phase ↔
          Stages.Completes (sessionStages.take k) evs)) ∧
      (sessionFsmIsReady (sessionChart effect) sm' = true ↔
        (∀ e ∈ evs, ¬ e.1.closing) ∧ Stages.Completes sessionStages evs) ∧
      (sessionFsmDtlsPending (sessionChart effect) sm' = true ↔
        (∀ e ∈ evs, ¬ e.1.closing) ∧ ¬ Stages.Completes (sessionStages.take 2) evs) := by
  obtain ⟨r, hr, hcur, hsize, -⟩ := @sessionChart_init _ _ effect sm _ _ fits sess (by decide)
  have hstart : (sessionFsmSetReporter r.sm reporter).currentState = some .new := hcur
  obtain ⟨sm', hrun, hlast⟩ := sessionChart_run hT hstart (by
    show 2 ≤ r.sm.bufferSize.toNat
    rw [hsize]
    decide) evs
  change sm'.currentState = some (lifeOf .new evs) at hlast
  have hclosed := lifeOf_closed_iff (s := .new) (by decide) evs
  have hphase : 1 ≤ (lifeOf .new evs).phase := run_phase .new evs
  refine ⟨r, sm', hr, hrun, ?_, ?_, ?_, ?_⟩
  · rw [sessionFsmGetState_eq hlast]
    exact hclosed
  · rw [sessionFsmGetState_eq hlast]
    exact fun h k hk => lifeOf_phase h hk
  · rw [sessionFsmIsReady, sessionChart_isReady hlast]
    by_cases h : ∀ e ∈ evs, ¬ e.1.closing
    · have hopen : lifeOf .new evs ≠ .closed := fun hc => by
        obtain ⟨e, he, hclose⟩ := hclosed.1 hc
        exact h e he hclose
      rw [isReady_iff hopen, and_iff_right h]
      exact lifeOf_phase h (Nat.le_refl 3)
    · refine iff_of_false (fun hready => h fun e he hclose => ?_) fun hc => h hc.1
      rw [hclosed.2 ⟨e, he, hclose⟩] at hready
      exact Bool.false_ne_true hready
  · rw [sessionFsmDtlsPending_eq hlast]
    by_cases h : ∀ e ∈ evs, ¬ e.1.closing
    · rw [← lifeOf_phase h (by decide), dtlsPending_iff (Nat.ne_of_gt hphase), and_iff_right h]
    · refine iff_of_false (fun hpending => h fun e he hclose => ?_) fun hc => h hc.1
      rw [hclosed.2 ⟨e, he, hclose⟩] at hpending
      exact Bool.false_ne_true hpending

/-- **A machine that adopts the state of another goes on as that one does.** -/
theorem session_restored {sm₁ sm₂ : Hsm SessionState α υ} {s : SessionState}
    (h₁ : sm₁.currentState = some s) (hs : s ≠ .unknown) (hsize₁ : 2 ≤ sm₁.bufferSize.toNat)
    (hsize₂ : 2 ≤ sm₂.bufferSize.toNat) (evs : List (SessionEvent × Option FsmCtx)) :
    ∃ sm₂' sm₁'' sm₂'', sessionFsmRestore sm₂ (sessionFsmGetState (sessionChart effect) sm₁) =
        (true, sm₂') ∧
      (sessionChart effect).dispatchAll sm₁ (evs.map fun e => ⟨e.1.id, e.2⟩) = some sm₁'' ∧
      (sessionChart effect).dispatchAll sm₂' (evs.map fun e => ⟨e.1.id, e.2⟩) = some sm₂'' ∧
      sessionFsmGetState (sessionChart effect) sm₁'' = sessionFsmGetState (sessionChart effect) sm₂'' := by
  obtain ⟨sm₁'', hrun₁, hlast₁⟩ := sessionChart_run hT h₁ hsize₁ evs
  have h₂ : (sm₂.setCurrent (some s)).currentState = some s := rfl
  obtain ⟨sm₂'', hrun₂, hlast₂⟩ := sessionChart_run hT h₂ hsize₂ evs
  refine ⟨_, sm₁'', sm₂'', ?_, hrun₁, hrun₂, ?_⟩
  · rw [sessionFsmGetState_eq h₁, sessionFsmRestore]
    cases s <;> first | rfl | exact absurd rfl hs
  · rw [sessionFsmGetState_eq hlast₁, sessionFsmGetState_eq hlast₂]

end

/-- A machine whose reporter does nothing. -/
def sampleSession : Hsm SessionState Unit Unit :=
  ⟨none, none, (), none, [], 0, Nat.zero_le _⟩

/-- A session that was bound, sent a record of DTLS and finished the handshake is ready. -/
theorem session_machine_ready :
    ∃ r sm', sessionFsmInit (sessionChart fun _ sm _ => sm) sampleSession [none, none] (Nat.le_refl 2) () =
        some r ∧
      (sessionChart fun _ sm _ => sm).dispatchAll (sessionFsmSetReporter r.sm (some ()))
        ([(.stunBinding, none), (.dtlsPacket, none), (.stunBinding, none), (.dtlsHandshakeDone, none)].map
          fun e => ⟨SessionEvent.id e.1, e.2⟩) = some sm' ∧
      sessionFsmIsReady (sessionChart fun _ sm _ => sm) sm' = true := by
  have hT : (sessionChart fun (_ : Unit) (sm : Hsm SessionState Unit Unit) _ => sm).Inert :=
    fun _ sm _ => .refl sm
  obtain ⟨r, sm', hr, hrun, -, -, hready, -⟩ := session_machine hT sampleSession [none, none] (Nat.le_refl 2) () (some ())
      [(.stunBinding, none), (.dtlsPacket, none), (.stunBinding, none), (.dtlsHandshakeDone, none)]
  refine ⟨r, sm', hr, hrun, hready.2 ⟨?_, ?_⟩⟩
  · simp [SessionEvent.closing]
  · exact .cons rfl (.cons rfl (.cons_right (.cons rfl .nil)))

end NginxRtc
