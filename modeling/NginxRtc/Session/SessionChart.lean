/-
  The session machine as a chart of the engine.

  The tables of `ngx_rtc_session_fsm.c` hang on six states: NEW, ICE_BOUND, DTLS_HANDSHAKE, SRTP_READY
  and CLOSED below one root, the state that `ngx_rtc_session_fsm_get_state` calls UNKNOWN.

  `sessionChart_dispatch`: what the engine does on these tables is `fsmDispatch`.
  `sessionChart_run`: so a session's machine goes through the states `fsmDispatch` goes through, and
  `sessionChart_phase`: none of its runs goes back.
-/
import NginxRtc.Lib.Run
import NginxRtc.Session.Dispatch
import NginxRtc.Session.Fsm

namespace NginxRtc

variable {α υ : Type}

/-- `ngx_rtc_session_event_t`. -/
def SessionEvent.id : SessionEvent → UInt32
  | .stunBinding => 0x01
  | .dtlsPacket => 0x02
  | .dtlsHandshakeDone => 0x03
  | .srtpReady => 0x04
  | .timeout => 0x10
  | .close => 0x20
  | .rtcpBye => 0x30

theorem SessionEvent.id_inj {a b : SessionEvent} : a.id = b.id ↔ a = b := by
  cases a <;> cases b <;> decide

/-- A row of the session's tables in the engine's format. -/
def FsmTransition.row (t : FsmTransition) : HsmTransition SessionState α (Option FsmCtx) υ :=
  ⟨t.event.id, t.target, some fun _ e => t.guard e.context, none,
    if t.target = none then .internal else .external⟩

def sessionParent : SessionState → Option SessionState
  | .unknown => none
  | _ => some .unknown

def sessionUp : (s : SessionState) → Up sessionParent (some s)
  | .unknown => .node _ .null
  | .new | .iceBound | .dtlsHandshake | .srtpReady | .closed => .node _ (.node _ .null)

/-- The table of each state, the root's included. -/
def sessionRows : SessionState → List FsmTransition
  | .unknown => topTransitions
  | s => sessionTransitions s

/-- The session states; `effect` is what the reporter of unhandled events does. -/
def sessionChart (effect : α → Hsm SessionState α υ → Option (HsmEvent (Option FsmCtx)) →
    Hsm SessionState α υ) : Chart SessionState α (Option FsmCtx) υ where
  parent := sessionParent
  up := sessionUp
  entryAction _ := none
  exitAction _ := none
  transitions s := (sessionRows s).map FsmTransition.row
  effect := effect

section
variable {effect : α → Hsm SessionState α υ → Option (HsmEvent (Option FsmCtx)) → Hsm SessionState α υ}
variable {sm : Hsm SessionState α υ} {s x : SessionState} {ev : SessionEvent} {ctx : Option FsmCtx}

theorem row_accepts (t : FsmTransition) :
    (t.row : HsmTransition SessionState α (Option FsmCtx) υ).accepts sm ⟨ev.id, ctx⟩ =
      (t.event = ev && t.guard ctx) := by
  simp [HsmTransition.accepts, FsmTransition.row, SessionEvent.id_inj]

theorem sessionChart_find :
    (sessionChart effect).findMatchingTransition s sm ⟨ev.id, ctx⟩ =
      (findTransition (sessionRows s) ev ctx).map FsmTransition.row := by
  simp only [Chart.findMatchingTransition, sessionChart, List.find?_map, findTransition]
  refine congrArg (Option.map _) (congrArg (List.find? · _) (funext fun t => ?_))
  exact row_accepts t

theorem sessionChart_path_root : (sessionChart effect).path (some .unknown) = [.unknown] := rfl

theorem sessionChart_path (hs : s ≠ .unknown) :
    (sessionChart effect).path (some s) = [s, .unknown] := by
  cases s <;> first | exact absurd rfl hs | rfl

theorem callsIn_none (c : Option SessionState) {fns : List (Option α)} (h : ∀ fn ∈ fns, fn = none) :
    callsIn c fns = [] := by
  simp only [callsIn, List.filterMap_eq_nil_iff]
  intro fn hfn
  rw [h fn hfn]
  rfl

/-- A row that fires takes the session to its target, and no callback runs. -/
theorem sessionChart_fires (hT : (sessionChart effect).Inert) (hc : sm.currentState = some s)
    (hsize : 2 ≤ sm.bufferSize.toNat) {t : FsmTransition}
    (h : (sessionChart effect).Fires sm ⟨ev.id, ctx⟩ x t.row) :
    ∃ r, (sessionChart effect).dispatch sm ⟨ev.id, ctx⟩ = some (true, r) ∧
      r.sm.Moved sm (some (t.target.getD s)) ∧ r.calls = [] := by
  have hdeep : ∀ s, ((sessionChart effect).path (some s)).length ≤ sm.bufferSize.toNat := by
    intro s
    refine le_trans ?_ hsize
    rcases eq_or_ne s .unknown with rfl | hs
    · exact Nat.le_succ 1
    · rw [sessionChart_path hs]
      exact Nat.le_refl 2
  cases htarget : t.target with
  | none =>
    obtain ⟨r, hr, hsm, hcalls⟩ := h.dispatch_internal hT (by simp [FsmTransition.row, htarget])
    refine ⟨r, hr, hsm.moved hc, ?_⟩
    rw [hcalls, callsIn_none _ (by simp [FsmTransition.row])]
  | some τ =>
    have htype : (t.row : HsmTransition SessionState α (Option FsmCtx) υ).type = .external := by
      simp [FsmTransition.row, htarget]
    by_cases hself : s = τ
    · obtain ⟨r, hr, hsm, hcalls⟩ := h.dispatch_self hT hc htype (htarget.trans (by rw [hself]))
      refine ⟨r, hr, hsm.moved (by rw [hc, hself]; rfl), ?_⟩
      rw [hcalls, callsIn_none _ (by simp [FsmTransition.row, sessionChart])]
    · obtain ⟨r, hr, hmoved, hcalls⟩ := h.dispatch_moves hT hc htype htarget hself hdeep
      refine ⟨r, hr, hmoved, ?_⟩
      rw [hcalls _ (Forest.isLca_lca _ _), callsIn_none _ (by simp [FsmTransition.row, sessionChart]),
        callsIn_none _ (by simp [sessionChart])]
      rfl

theorem sessionRows_of_ne (hs : s ≠ .unknown) : sessionRows s = sessionTransitions s := by
  cases s <;> first | exact absurd rfl hs | rfl

theorem fsmDispatch_of_some {t : FsmTransition} (h : findTransition (sessionRows s) ev ctx = some t) :
    fsmDispatch s ev ctx = (t.target.getD s, true) := by
  rcases eq_or_ne s .unknown with rfl | hs
  · have hnone : findTransition (sessionTransitions .unknown) ev ctx = none := rfl
    rw [sessionRows] at h
    rw [fsmDispatch, hnone, Option.none_or, h]
  · rw [sessionRows_of_ne hs] at h
    rw [fsmDispatch, h, Option.some_or]

theorem fsmDispatch_of_none (h : findTransition (sessionRows s) ev ctx = none) :
    fsmDispatch s ev ctx =
      (findTransition (sessionRows .unknown) ev ctx).elim (s, false)
        fun t => (t.target.getD s, true) := by
  have hown : findTransition (sessionTransitions s) ev ctx = none := by
    rcases eq_or_ne s .unknown with rfl | hs
    · rfl
    · rw [← sessionRows_of_ne hs]
      exact h
  rw [fsmDispatch, hown, Option.none_or, sessionRows]
  cases findTransition topTransitions ev ctx <;> rfl

/-- **The engine on the session's tables is `fsmDispatch`**: the same next state and the same answer,
    with no callback but the reporter of an unhandled event. -/
theorem sessionChart_dispatch (hT : (sessionChart effect).Inert) (hc : sm.currentState = some s)
    (hsize : 2 ≤ sm.bufferSize.toNat) (ev : SessionEvent) (ctx : Option FsmCtx) :
    ∃ r, (sessionChart effect).dispatch sm ⟨ev.id, ctx⟩ = some ((fsmDispatch s ev ctx).2, r) ∧
      r.sm.Moved sm (some (fsmDispatch s ev ctx).1) ∧
      r.calls = if (fsmDispatch s ev ctx).2 then [] else callsIn (some s) [sm.unhandledEventHook] := by
  cases hown : findTransition (sessionRows s) ev ctx with
  | some t =>
    have hself : s ∈ (sessionChart effect).path sm.currentState := hc ▸ Forest.mem_path_self
    have hfires : (sessionChart effect).Fires sm ⟨ev.id, ctx⟩ s t.row :=
      Chart.fires_of_find hself (by rw [hc, Forest.below_self]; simp)
        (by rw [sessionChart_find, hown]; rfl)
    rw [fsmDispatch_of_some hown]
    exact sessionChart_fires hT hc hsize hfires
  | none =>
    have hign : (sessionChart effect).Ignores s sm ⟨ev.id, ctx⟩ := by
      rw [Chart.ignores_iff, sessionChart_find, hown]
      rfl
    rw [fsmDispatch_of_none hown]
    cases htop : findTransition (sessionRows .unknown) ev ctx with
    | some t =>
      have hs : s ≠ .unknown := by
        rintro rfl
        rw [hown] at htop
        cases htop
      have hbelow : (sessionChart effect).below (some .unknown) (some s) = [s] := by
        simp [Forest.below, sessionChart_path hs, hs]
      have hfires : (sessionChart effect).Fires sm ⟨ev.id, ctx⟩ .unknown t.row := by
        refine Chart.fires_of_find ?_ ?_ ?_
        · rw [hc, sessionChart_path hs]
          simp
        · rw [hc, hbelow]
          simpa using hign
        · rw [sessionChart_find, htop]
          rfl
      exact sessionChart_fires hT hc hsize hfires
    | none =>
      have hroot : (sessionChart effect).Ignores .unknown sm ⟨ev.id, ctx⟩ := by
        rw [Chart.ignores_iff, sessionChart_find, htop]
        rfl
      have hall : ∀ x ∈ (sessionChart effect).path sm.currentState,
          (sessionChart effect).Ignores x sm ⟨ev.id, ctx⟩ := by
        rcases eq_or_ne s .unknown with rfl | hs
        · rw [hc, sessionChart_path_root]
          simpa using hroot
        · rw [hc, sessionChart_path hs]
          simpa using ⟨hign, hroot⟩
      obtain ⟨r, hr, hsm, hcalls⟩ := Chart.dispatch_ignored hT hall
      refine ⟨r, hr, hsm.moved hc, ?_⟩
      rw [hcalls, hc]
      rfl

/-- **The machine goes through the states `fsmDispatch` goes through**, whatever the events. -/
theorem sessionChart_run (hT : (sessionChart effect).Inert) (hc : sm.currentState = some s)
    (hsize : 2 ≤ sm.bufferSize.toNat) (evs : List (SessionEvent × Option FsmCtx)) :
    ∃ sm', (sessionChart effect).dispatchAll sm (evs.map fun e => ⟨e.1.id, e.2⟩) = some sm' ∧
      sm'.currentState = some (Lts.run (fun s e => (fsmDispatch s e.1 e.2).1) s evs) := by
  induction evs generalizing sm s with
  | nil => exact ⟨sm, rfl, hc⟩
  | cons e evs ih =>
    obtain ⟨r, hr, hmoved, -⟩ := sessionChart_dispatch hT hc hsize e.1 e.2
    obtain ⟨sm', hsm', hlast⟩ := ih hmoved.current (hmoved.size ▸ hsize)
    refine ⟨sm', ?_, hlast⟩
    rw [List.map_cons, Chart.dispatchAll, hr, Option.bind_some]
    exact hsm'

theorem run_phase (s : SessionState) (evs : List (SessionEvent × Option FsmCtx)) :
    s.phase ≤ (Lts.run (fun s e => (fsmDispatch s e.1 e.2).1) s evs).phase := by
  induction evs generalizing s with
  | nil => exact Nat.le_refl _
  | cons e evs ih => exact (fsmDispatch_phase s e.1 e.2).trans (ih _)

/-- **No run of the engine takes a session back** to an earlier phase. -/
theorem sessionChart_phase (hT : (sessionChart effect).Inert) (hc : sm.currentState = some s)
    (hsize : 2 ≤ sm.bufferSize.toNat) (evs : List (SessionEvent × Option FsmCtx)) :
    ∃ sm' s', (sessionChart effect).dispatchAll sm (evs.map fun e => ⟨e.1.id, e.2⟩) = some sm' ∧
      sm'.currentState = some s' ∧ s.phase ≤ s'.phase := by
  obtain ⟨sm', hsm', hlast⟩ := sessionChart_run hT hc hsize evs
  exact ⟨sm', _, hsm', hlast, run_phase s evs⟩

/-- `ngx_rtc_session_fsm_is_ready` asks the engine whether the machine is in SRTP_READY. -/
theorem sessionChart_isReady (hc : sm.currentState = some s) :
    (sessionChart effect).isInState sm (some .srtpReady) = s.isReady := by
  have hmem : (.srtpReady ∈ (sessionChart effect).path (some s)) ↔ s.isReady = true := by
    rcases eq_or_ne s .unknown with rfl | hs
    · rw [sessionChart_path_root]
      decide
    · rw [sessionChart_path hs]
      simp [SessionState.isReady, eq_comm]
  rw [Bool.eq_iff_iff, Chart.isInState_iff, hc]
  exact hmem

/-- A mirror that restores SRTP_READY is ready. -/
theorem sessionChart_restore (s : SessionState) :
    (sessionChart effect).isInState (sm.restoreState (some s)).2 (some .srtpReady) = s.isReady :=
  sessionChart_isReady rfl

/-- A session's machine starts in NEW, with a buffer for its two levels. -/
theorem sessionChart_init (sm : Hsm SessionState α υ) {buffer : List (Option SessionState)}
    {size : UInt8} (fits : size.toNat ≤ buffer.length) (userData : υ) (h : 0 < size) :
    ∃ r, (sessionChart effect).init sm (some .new) buffer size fits userData none = some r ∧
      r.sm.currentState = some .new ∧ r.sm.bufferSize = size ∧ r.calls = [] :=
  ⟨_, Chart.init_eq sm .new fits userData none h, rfl, rfl, rfl⟩

end
end NginxRtc
