/-
  The hierarchical state machine engine (`ngx_rtc_hsm.c`).

  A state is a node of a forest of parent pointers with its callbacks and its transition table; a
  loop of the source that follows the pointers is a recursion on the way up.  A callback may do
  anything to the machine (`effect`); a trace records which callbacks have run and what the current
  state was when they did.  A result `none` is a null pointer followed or an array read past its end.
-/
import Mathlib.Data.List.Basic
import NginxRtc.Lib.Forest

namespace NginxRtc

/-- `ngx_rtc_hsm_event_t`. -/
structure HsmEvent (κ : Type) where
  id : UInt32
  context : κ

inductive HsmTransitionType where
  | external
  | internal
deriving DecidableEq, Repr

/-- `ngx_rtc_hsm_t`.  States are values of `σ`, callbacks are named by `α`, and `υ` is what the user
    data points at; the buffer is empty when its pointer is null. -/
structure Hsm (σ α υ : Type) where
  currentState : Option σ
  initialState : Option σ
  userData : υ
  unhandledEventHook : Option α
  entryPathBuffer : List (Option σ)
  bufferSize : UInt8
  /-- `buffer_size` is the element count of the buffer. -/
  fits : bufferSize.toNat ≤ entryPathBuffer.length

/-- `ngx_rtc_hsm_transition_t`. -/
structure HsmTransition (σ α κ υ : Type) where
  eventId : UInt32
  target : Option σ
  guard : Option (Hsm σ α υ → HsmEvent κ → Bool)
  action : Option α
  type : HsmTransitionType

/-- The states of a machine, `ngx_rtc_hsm_state_t` each, and what its callbacks do. -/
structure Chart (σ α κ υ : Type) extends Forest σ where
  entryAction : σ → Option α
  exitAction : σ → Option α
  transitions : σ → List (HsmTransition σ α κ υ)
  effect : α → Hsm σ α υ → Option (HsmEvent κ) → Hsm σ α υ

/-- A callback that has run, and the current state it saw. -/
structure Call (σ α : Type) where
  fn : α
  state : Option σ
deriving DecidableEq, Repr

/-- The machine and the callbacks run so far. -/
structure HsmTrace (σ α υ : Type) where
  sm : Hsm σ α υ
  calls : List (Call σ α)

variable {σ α κ υ : Type}

/-- `sm->current_state = s`. -/
def Hsm.setCurrent (sm : Hsm σ α υ) (s : Option σ) : Hsm σ α υ := { sm with currentState := s }

/-- `sm->entry_path_buffer[i] = s`. -/
def Hsm.setEntry (sm : Hsm σ α υ) (i : ℕ) (s : σ) : Hsm σ α υ :=
  { sm with
    entryPathBuffer := sm.entryPathBuffer.set i (some s)
    fits := by rw [List.length_set]; exact sm.fits }

/-- The test of one table row: the event's id, and a guard that is absent or passes. -/
def HsmTransition.accepts (t : HsmTransition σ α κ υ) (sm : Hsm σ α υ) (e : HsmEvent κ) : Bool :=
  t.eventId = e.id && t.guard.all fun g => g sm e

namespace Chart
variable (T : Chart σ α κ υ)

/-- Call a callback unless its pointer is null. -/
def call (fn : Option α) (e : Option (HsmEvent κ)) (r : HsmTrace σ α υ) : HsmTrace σ α υ :=
  match fn with
  | none => r
  | some f => ⟨T.effect f r.sm e, r.calls ++ [⟨f, r.sm.currentState⟩]⟩

/-! ## Transitions -/

/-- `hsm_get_state_depth`, from `depth` on; the counter is a byte. -/
def stateDepth {it : Option σ} (depth : UInt8) : Up T.parent it → UInt8
  | .null => depth
  | .node _ rest => stateDepth (depth + 1) rest

/-- The climb of `hsm_find_lca` from depth `depth` to depth `limit`. -/
def climb {it : Option σ} (depth limit : UInt8) : Up T.parent it → Option (Option σ × UInt8)
  | .null => if limit < depth then none else some (none, depth)
  | .node s rest =>
    if limit < depth then climb (depth - 1) limit rest else some (some s, depth)

section
variable [DecidableEq σ]

/-- The last loop of `hsm_find_lca`: both pointers up until they meet. -/
def meet {p1 : Option σ} (p2 : Option σ) : Up T.parent p1 → Option (Option σ)
  | .null => if p2 = none then some none else none
  | .node s rest =>
    if p2 = some s then some (some s) else p2.bind fun q => meet (T.parent q) rest

/-- `hsm_find_lca`. -/
def findLca : Option σ → Option σ → Option (Option σ)
  | none, s2 => some s2
  | some s1, none => some (some s1)
  | some s1, some s2 => do
    let depth1 := T.stateDepth 0 (T.up s1)
    let depth2 := T.stateDepth 0 (T.up s2)
    let (p1, depth1) ← T.climb depth1 depth2 (T.up s1)
    let (p2, _) ← T.climb depth2 depth1 (T.up s2)
    T.meet p2 (T.upFrom p1)

/-- `hsm_build_entry_path`, with `path_idx` slots written. -/
def buildEntryPath {it : Option σ} (lca : Option σ) (pathIdx : UInt8) (sm : Hsm σ α υ) :
    Up T.parent it → Bool × Hsm σ α υ
  | .null => (true, sm)
  | .node s rest =>
    if some s = lca then (true, sm)
    else if pathIdx < sm.bufferSize then
      buildEntryPath lca (pathIdx + 1) (sm.setEntry pathIdx.toNat s) rest
    else (false, sm)

/-- The count of `path_length` in `hsm_perform_transition`. -/
def countPath {it : Option σ} (lca : Option σ) (pathLength : UInt8) : Up T.parent it → UInt8
  | .null => pathLength
  | .node s rest => if some s = lca then pathLength else countPath lca (pathLength + 1) rest

/-- `hsm_execute_exit_actions`. -/
def executeExitActions {it : Option σ} (lca : Option σ) (e : Option (HsmEvent κ))
    (r : HsmTrace σ α υ) : Up T.parent it → HsmTrace σ α υ
  | .null => r
  | .node s rest =>
    if some s = lca then r
    else executeExitActions lca e (T.call (T.exitAction s) e r) rest

/-- The loop of `hsm_execute_entry_actions`, down from slot `n - 1`. -/
def entryLoop (e : Option (HsmEvent κ)) : ℕ → HsmTrace σ α υ → Option (HsmTrace σ α υ)
  | 0, r => some r
  | n + 1, r => do
    match ← r.sm.entryPathBuffer[n]? with
    | none => entryLoop e n r
    | some s => entryLoop e n (T.call (T.entryAction s) e r)

/-- `hsm_execute_entry_actions`. -/
def executeEntryActions (pathLength : UInt8) (e : Option (HsmEvent κ)) (r : HsmTrace σ α υ) :
    Option (HsmTrace σ α υ) :=
  if r.sm.entryPathBuffer = [] then some r else T.entryLoop e pathLength.toNat r

/-- `hsm_perform_transition`: whether the machine moved, and the trace. -/
def performTransition (target : Option σ) (e : Option (HsmEvent κ)) (r : HsmTrace σ α υ) :
    Option (Bool × HsmTrace σ α υ) :=
  match target with
  | none => some (false, r)
  | some t =>
    if r.sm.currentState = some t then
      -- out of the state and into it again
      some (true, T.call (T.entryAction t) e (T.call (T.exitAction t) e r))
    else do
      let source := r.sm.currentState
      let lca ← T.findLca source (some t)
      match T.buildEntryPath lca 0 r.sm (T.up t) with
      | (false, sm) => some (false, { r with sm := sm })
      | (true, sm) =>
        let pathLength := T.countPath lca 0 (T.up t)
        let r := T.executeExitActions lca e { r with sm := sm } (T.upFrom source)
        let r ← T.executeEntryActions pathLength e { r with sm := r.sm.setCurrent (some t) }
        some (true, r)

/-! ## Events -/

/-- `hsm_find_matching_transition`. -/
def findMatchingTransition (s : σ) (sm : Hsm σ α υ) (e : HsmEvent κ) :
    Option (HsmTransition σ α κ υ) :=
  (T.transitions s).find? fun t => t.accepts sm e

/-- `hsm_execute_transition`: the action, then the change of state. -/
def executeTransition (t : HsmTransition σ α κ υ) (e : HsmEvent κ) (r : HsmTrace σ α υ) :
    Option (Bool × HsmTrace σ α υ) :=
  let r := T.call t.action (some e) r
  match t.type with
  | .internal => some (true, r)
  | .external => T.performTransition t.target (some e) r

/-- `hsm_process_state_transitions`. -/
def processStateTransitions (s : σ) (e : HsmEvent κ) (r : HsmTrace σ α υ) :
    Option (Bool × HsmTrace σ α υ) :=
  match T.findMatchingTransition s r.sm e with
  | none => some (false, r)
  | some t => T.executeTransition t e r

/-- The loop of `ngx_rtc_hsm_dispatch`: a state that does not handle the event leaves it to its
    parent. -/
def bubble (e : HsmEvent κ) {it : Option σ} (r : HsmTrace σ α υ) :
    Up T.parent it → Option (Bool × HsmTrace σ α υ)
  | .null => some (false, r)
  | .node s rest => do
    match ← T.processStateTransitions s e r with
    | (true, r) => some (true, r)
    | (false, r) => bubble e r rest

/-- `ngx_rtc_hsm_dispatch`: whether the event was handled, and the trace. -/
def dispatch (sm : Hsm σ α υ) (e : HsmEvent κ) : Option (Bool × HsmTrace σ α υ) := do
  match ← T.bubble e ⟨sm, []⟩ (T.upFrom sm.currentState) with
  | (true, r) => some (true, r)
  | (false, r) => some (false, T.call r.sm.unhandledEventHook (some e) r)

/-! ## The other entry points -/

/-- `ngx_rtc_hsm_init`; a bad argument leaves the machine alone. -/
def init (sm : Hsm σ α υ) (initialState : Option σ) (buffer : List (Option σ)) (bufferSize : UInt8)
    (fits : bufferSize.toNat ≤ buffer.length) (userData : υ) (hook : Option α) :
    Option (HsmTrace σ α υ) :=
  if initialState.isSome && buffer ≠ [] && 0 < bufferSize then do
    let sm : Hsm σ α υ := ⟨none, initialState, userData, hook, buffer, bufferSize, fits⟩
    let (_, r) ← T.performTransition initialState none ⟨sm, []⟩
    some r
  else some ⟨sm, []⟩

/-- `ngx_rtc_hsm_reset`. -/
def reset (sm : Hsm σ α υ) : Option (HsmTrace σ α υ) :=
  if sm.initialState.isSome then do
    let (_, r) ← T.performTransition sm.initialState none ⟨sm, []⟩
    some r
  else some ⟨sm, []⟩

/-- The loop of `ngx_rtc_hsm_is_in_state`. -/
def reaches {it : Option σ} (s : σ) : Up T.parent it → Bool
  | .null => false
  | .node c rest => if c = s then true else reaches s rest

/-- `ngx_rtc_hsm_is_in_state`. -/
def isInState (sm : Hsm σ α υ) : Option σ → Bool
  | none => false
  | some s => T.reaches s (T.upFrom sm.currentState)

end

end Chart

/-- `ngx_rtc_hsm_restore_state`. -/
def Hsm.restoreState (sm : Hsm σ α υ) : Option σ → Bool × Hsm σ α υ
  | none => (false, sm)
  | some s => (true, sm.setCurrent (some s))

end NginxRtc
