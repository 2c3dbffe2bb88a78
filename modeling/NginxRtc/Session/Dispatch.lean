/-
  What dispatching an event does to a hierarchical state machine.

  A transition fires when it is the first one for the event of the innermost state, on the way up
  from the current one, that has one (`Fires`).

  `dispatch_semantics`: the transition that fires is carried out, and an event nobody has a row for
  goes to the hook.  `Fires.dispatch_refused`: what has run when an entry path does not fit.
-/
import NginxRtc.Session.Transition

namespace NginxRtc

variable {σ α κ υ : Type}

/-- The row is for the event: its id is the event's, and its guard, if it has one, passes. -/
def HsmTransition.Matches (t : HsmTransition σ α κ υ) (sm : Hsm σ α υ) (ev : HsmEvent κ) : Prop :=
  t.eventId = ev.id ∧ ∀ g, t.guard = some g → g sm ev = true

theorem HsmTransition.accepts_iff {t : HsmTransition σ α κ υ} {sm : Hsm σ α υ} {ev : HsmEvent κ} :
    t.accepts sm ev = true ↔ t.Matches sm ev := by
  cases hg : t.guard <;> simp [accepts, Matches, hg]

namespace Chart
variable {T : Chart σ α κ υ}

/-! ## Which transition fires -/

/-- No row of a state's table is for the event. -/
def Ignores (T : Chart σ α κ υ) (s : σ) (sm : Hsm σ α υ) (ev : HsmEvent κ) : Prop :=
  ∀ t ∈ T.transitions s, ¬ t.Matches sm ev

variable {sm : Hsm σ α υ} {ev : HsmEvent κ}

theorem ignores_iff {s : σ} : T.Ignores s sm ev ↔ T.findMatchingTransition s sm ev = none := by
  simp [Ignores, findMatchingTransition, HsmTransition.accepts_iff]

theorem find_iff {s : σ} {t : HsmTransition σ α κ υ} :
    T.findMatchingTransition s sm ev = some t ↔ t.Matches sm ev ∧ ∃ before after,
      T.transitions s = before ++ t :: after ∧ ∀ t' ∈ before, ¬ t'.Matches sm ev := by
  simp [findMatchingTransition, List.find?_eq_some_iff_append, ← HsmTransition.accepts_iff]

/-- The machine and the calls after the action alone. -/
theorem Inert.action (hT : T.Inert) (t : HsmTransition σ α κ υ) (sm : Hsm σ α υ) (ev : HsmEvent κ) :
    (T.call t.action (some ev) ⟨sm, []⟩).sm.Same sm ∧
      (T.call t.action (some ev) ⟨sm, []⟩).calls = callsIn sm.currentState [t.action] :=
  ⟨hT.call _ _, call_calls _ _⟩

section
variable [DecidableEq σ]

/-! ## Bubbling -/

/-- `t` fires: it is the first row for the event in the table of the innermost state that has one. -/
structure Fires (T : Chart σ α κ υ) (sm : Hsm σ α υ) (ev : HsmEvent κ) (s : σ)
    (t : HsmTransition σ α κ υ) : Prop where
  onPath : s ∈ T.path sm.currentState
  innermost : ∀ x ∈ T.below (some s) sm.currentState, T.Ignores x sm ev
  isMatch : t.Matches sm ev
  first : ∃ before after, T.transitions s = before ++ t :: after ∧
    ∀ t' ∈ before, ¬ t'.Matches sm ev

theorem Fires.find {s : σ} {t : HsmTransition σ α κ υ} (h : T.Fires sm ev s t) :
    T.findMatchingTransition s sm ev = some t := find_iff.2 ⟨h.isMatch, h.first⟩

theorem fires_of_find {s : σ} {t : HsmTransition σ α κ υ} (hs : s ∈ T.path sm.currentState)
    (hbelow : ∀ x ∈ T.below (some s) sm.currentState, T.Ignores x sm ev)
    (h : T.findMatchingTransition s sm ev = some t) : T.Fires sm ev s t :=
  ⟨hs, hbelow, (find_iff.1 h).1, (find_iff.1 h).2⟩

/-- A transition fires unless every state on the way up ignores the event. -/
theorem exists_fires (h : ¬ ∀ s ∈ T.path sm.currentState, T.Ignores s sm ev) :
    ∃ s t, T.Fires sm ev s t := by
  have hinner : ∀ it, (¬ ∀ s ∈ T.path it, T.Ignores s sm ev) →
      ∃ s ∈ T.path it, (∀ x ∈ T.below (some s) it, T.Ignores x sm ev) ∧ ¬ T.Ignores s sm ev := by
    intro it
    induction it using T.up_induction with
    | null => simp
    | node c ih =>
      intro hnot
      by_cases hc : T.Ignores c sm ev
      · have hrest : ¬ ∀ s ∈ T.path (T.parent c), T.Ignores s sm ev := by
          rw [T.path_some, List.forall_mem_cons] at hnot
          exact fun hall => hnot ⟨hc, hall⟩
        obtain ⟨s, hs, hbelow, hign⟩ := ih hrest
        have hne : some c ≠ some s := fun he => hign (Option.some.inj he ▸ hc)
        refine ⟨s, by simp [hs], ?_, hign⟩
        rw [Forest.below_parent hne, List.forall_mem_cons]
        exact ⟨hc, hbelow⟩
      · exact ⟨c, Forest.mem_path_self, by simp [Forest.below_self], hc⟩
  obtain ⟨s, hs, hbelow, hign⟩ := hinner _ h
  rw [ignores_iff, ← ne_eq, Option.ne_none_iff_exists'] at hign
  obtain ⟨t, ht⟩ := hign
  exact ⟨s, t, fires_of_find hs hbelow ht⟩

theorem bubble_some (s : σ) (r : HsmTrace σ α υ) :
    T.bubble ev r (T.upFrom (some s)) = (T.processStateTransitions s ev r).bind fun p =>
      if p.1 then some p else T.bubble ev p.2 (T.upFrom (T.parent s)) := by
  rw [Up.unique (T.upFrom (some s)) (.node s (T.upFrom (T.parent s))), bubble]
  refine congrArg (Option.bind _) (funext fun p => ?_)
  rcases p with ⟨_ | _, r⟩ <;> rfl

theorem Ignores.bubble {s : σ} {r : HsmTrace σ α υ} (h : T.Ignores s r.sm ev) :
    T.bubble ev r (T.upFrom (some s)) = T.bubble ev r (T.upFrom (T.parent s)) := by
  rw [bubble_some, processStateTransitions, ignores_iff.1 h]
  rfl

/-- An event nobody on the way up has a row for. -/
theorem bubble_ignored {it : Option σ} {r : HsmTrace σ α υ}
    (h : ∀ s ∈ T.path it, T.Ignores s r.sm ev) :
    T.bubble ev r (T.upFrom it) = some (false, r) := by
  induction it using T.up_induction with
  | null => rfl
  | node s ih =>
    rw [T.path_some, List.forall_mem_cons] at h
    rw [h.1.bubble]
    exact ih h.2

/-- States that ignore the event are passed over. -/
theorem bubble_below {it : Option σ} {r : HsmTrace σ α υ} {s : σ} (hs : s ∈ T.path it)
    (h : ∀ x ∈ T.below (some s) it, T.Ignores x r.sm ev) :
    T.bubble ev r (T.upFrom it) = T.bubble ev r (T.upFrom (some s)) := by
  induction it using T.up_induction with
  | null => cases hs
  | node c ih =>
    by_cases hc : c = s
    · rw [hc]
    · rw [T.path_some, List.mem_cons, or_iff_right (Ne.symm hc)] at hs
      rw [Forest.below_parent (by simpa using hc), List.forall_mem_cons] at h
      rw [h.1.bubble]
      exact ih hs h.2

/-- The event reaches the state whose transition fires, and that transition is executed. -/
theorem Fires.bubble {s : σ} {t : HsmTransition σ α κ υ} (h : T.Fires sm ev s t) :
    T.bubble ev ⟨sm, []⟩ (T.upFrom sm.currentState) =
      (T.executeTransition t ev ⟨sm, []⟩).bind fun p =>
        if p.1 then some p else T.bubble ev p.2 (T.upFrom (T.parent s)) := by
  rw [bubble_below h.onPath h.innermost, bubble_some, processStateTransitions, h.find]

/-! ## Dispatching -/

theorem dispatch_eq : T.dispatch sm ev =
    (T.bubble ev ⟨sm, []⟩ (T.upFrom sm.currentState)).bind fun p =>
      some (if p.1 then p else (false, T.call p.2.sm.unhandledEventHook (some ev) p.2)) := by
  refine congrArg (Option.bind _) (funext fun p => ?_)
  rcases p with ⟨_ | _, r⟩ <;> rfl

theorem Fires.dispatch {s : σ} {t : HsmTransition σ α κ υ} (h : T.Fires sm ev s t)
    {r : HsmTrace σ α υ} (hr : T.executeTransition t ev ⟨sm, []⟩ = some (true, r)) :
    T.dispatch sm ev = some (true, r) := by
  rw [dispatch_eq, h.bubble, hr]
  rfl

theorem executeTransition_external {t : HsmTransition σ α κ υ} {target : Option σ}
    (htype : t.type = .external) (htarget : t.target = target) (r : HsmTrace σ α υ) :
    T.executeTransition t ev r = T.performTransition target (some ev) (T.call t.action (some ev) r) := by
  simp only [executeTransition, htype, htarget]

theorem Fires.dispatch_internal {s : σ} {t : HsmTransition σ α κ υ} (h : T.Fires sm ev s t)
    (hT : T.Inert) (htype : t.type = .internal) :
    ∃ r, T.dispatch sm ev = some (true, r) ∧ r.sm.Same sm ∧
      r.calls = callsIn sm.currentState [t.action] :=
  ⟨_, h.dispatch (by rw [executeTransition, htype]), hT.action t sm ev⟩

theorem Fires.dispatch_self {s c : σ} {t : HsmTransition σ α κ υ} (h : T.Fires sm ev s t)
    (hT : T.Inert) (hc : sm.currentState = some c) (htype : t.type = .external)
    (htarget : t.target = some c) :
    ∃ r, T.dispatch sm ev = some (true, r) ∧ r.sm.Same sm ∧
      r.calls = callsIn (some c) [t.action, T.exitAction c, T.entryAction c] := by
  obtain ⟨hact, hcalls⟩ := hT.action t sm ev
  have hc1 := hact.current.trans hc
  have hexec := performTransition_self (T := T) (e := some ev) hc1
  obtain ⟨hsm, hall⟩ := hT.callAll (e := some ev) [T.exitAction c, T.entryAction c]
    (T.call t.action (some ev) ⟨sm, []⟩)
  refine ⟨_, h.dispatch ((executeTransition_external htype htarget _).trans hexec), hsm.trans hact, ?_⟩
  rw [hall, hcalls, hc1, hc, ← callsIn_cons]

theorem Fires.dispatch_moves {s c τ : σ} {t : HsmTransition σ α κ υ} (h : T.Fires sm ev s t)
    (hT : T.Inert) (hc : sm.currentState = some c) (htype : t.type = .external)
    (htarget : t.target = some τ) (hne : c ≠ τ)
    (hdeep : ∀ s, (T.path (some s)).length ≤ sm.bufferSize.toNat) :
    ∃ r, T.dispatch sm ev = some (true, r) ∧ r.sm.Moved sm (some τ) ∧
      ∀ a, T.IsLca (some c) (some τ) a →
        r.calls = callsIn (some c) (t.action :: (T.below a (some c)).map T.exitAction) ++
          callsIn (some τ) ((T.below a (some τ)).reverse.map T.entryAction) := by
  have hsize := sm.bufferSize.toNat_lt
  obtain ⟨hact, hcalls⟩ := hT.action t sm ev
  have hfit := (Forest.below_length_le (T.lca (some c) (some τ)) (some τ)).trans (hdeep τ)
  obtain ⟨r, hexec, hmoved, hall⟩ := hT.performTransition_moves (e := some ev)
    (hact.current.trans hc) hne ((hdeep c).trans_lt hsize) ((hdeep τ).trans_lt hsize)
    (hact.size ▸ hfit)
  refine ⟨r, h.dispatch ((executeTransition_external htype htarget _).trans hexec),
    ⟨hmoved.current, hmoved.initial.trans hact.initial, hmoved.hook.trans hact.hook,
      hmoved.size.trans hact.size⟩, fun a ha => ?_⟩
  rw [hall, hcalls, hc, ha.eq, ← callsIn_cons]

theorem dispatch_ignored (hT : T.Inert) (h : ∀ s ∈ T.path sm.currentState, T.Ignores s sm ev) :
    ∃ r, T.dispatch sm ev = some (false, r) ∧ r.sm.Same sm ∧
      r.calls = callsIn sm.currentState [sm.unhandledEventHook] := by
  rw [dispatch_eq, bubble_ignored h]
  exact ⟨_, rfl, hT.call _ _, call_calls _ _⟩

/-- What a transition out of the state `c` leaves once it is carried out. -/
structure Carried (T : Chart σ α κ υ) (sm : Hsm σ α υ) (c : σ) (t : HsmTransition σ α κ υ)
    (r : HsmTrace σ α υ) : Prop where
  internal : t.type = .internal → r.sm.Same sm ∧ r.calls = callsIn (some c) [t.action]
  self : t.type = .external → t.target = some c →
    r.sm.Same sm ∧ r.calls = callsIn (some c) [t.action, T.exitAction c, T.entryAction c]
  /-- Out of the states below the least common ancestor, each once, and into the target's. -/
  moves : ∀ τ a, t.type = .external → t.target = some τ → c ≠ τ → T.IsLca (some c) (some τ) a →
    r.sm.Moved sm (some τ) ∧ (T.below a (some c)).Nodup ∧ (T.below a (some τ)).Nodup ∧
      r.calls = callsIn (some c) (t.action :: (T.below a (some c)).map T.exitAction) ++
        callsIn (some τ) ((T.below a (some τ)).reverse.map T.entryAction)

theorem Fires.carried {s c : σ} {t : HsmTransition σ α κ υ} (h : T.Fires sm ev s t) (hT : T.Inert)
    (htargets : ∀ s, ∀ t ∈ T.transitions s, t.type = .external → t.target ≠ none)
    (hdeep : ∀ s, (T.path (some s)).length ≤ sm.bufferSize.toNat)
    (hc : sm.currentState = some c) :
    ∃ r, T.dispatch sm ev = some (true, r) ∧ T.Carried sm c t r ∧ ∃ c', r.sm.Moved sm (some c') := by
  cases htype : t.type with
  | internal =>
    obtain ⟨r, hr, hsm, hcalls⟩ := h.dispatch_internal hT htype
    exact ⟨r, hr, ⟨fun _ => ⟨hsm, hc ▸ hcalls⟩, by simp [htype], by simp [htype]⟩, c, hsm.moved hc⟩
  | external =>
    obtain ⟨before, after, heq, -⟩ := h.first
    obtain ⟨τ, hτ⟩ := Option.ne_none_iff_exists'.1 (htargets s t (by simp [heq]) htype)
    by_cases hself : c = τ
    · obtain ⟨r, hr, hsm, hcalls⟩ := h.dispatch_self hT hc htype (hself ▸ hτ)
      refine ⟨r, hr, ⟨by simp [htype], fun _ _ => ⟨hsm, hcalls⟩, fun τ' a _ hτ' hne => ?_⟩, c,
        hsm.moved hc⟩
      exact absurd (hself.trans (Option.some.inj (hτ.symm.trans hτ'))) hne
    · obtain ⟨r, hr, hmoved, hcalls⟩ := h.dispatch_moves hT hc htype hτ hself hdeep
      refine ⟨r, hr, ⟨by simp [htype], fun _ htc => ?_, fun τ' a _ hτ' _ ha => ?_⟩, τ, hmoved⟩
      · exact absurd (Option.some.inj (htc.symm.trans hτ)) hself
      · obtain rfl := Option.some.inj (hτ.symm.trans hτ')
        exact ⟨hmoved, Forest.below_nodup _ _, Forest.below_nodup _ _, hcalls a ha⟩

/-- **Dispatch follows the transition semantics**: the transition that fires is carried out, and an
    event that no state on the way up has a row for goes to the hook. -/
theorem dispatch_semantics (hT : T.Inert) (sm : Hsm σ α υ) (ev : HsmEvent κ)
    (htargets : ∀ s, ∀ t ∈ T.transitions s, t.type = .external → t.target ≠ none)
    (hdeep : ∀ s, (T.path (some s)).length ≤ sm.bufferSize.toNat) :
    (∀ c s t, sm.currentState = some c → T.Fires sm ev s t →
      ∃ r, T.dispatch sm ev = some (true, r) ∧ T.Carried sm c t r) ∧
    ((∀ s ∈ T.path sm.currentState, T.Ignores s sm ev) →
      ∃ r, T.dispatch sm ev = some (false, r) ∧ r.sm.Same sm ∧
        r.calls = callsIn sm.currentState [sm.unhandledEventHook]) := by
  refine ⟨fun c s t hc hfires => ?_, dispatch_ignored hT⟩
  obtain ⟨r, hr, hcarried, -⟩ := hfires.carried hT htargets hdeep hc
  exact ⟨r, hr, hcarried⟩

/-! ## Runs -/

/-- The machine after some events. -/
def dispatchAll (T : Chart σ α κ υ) (sm : Hsm σ α υ) : List (HsmEvent κ) → Option (Hsm σ α υ)
  | [] => some sm
  | ev :: evs => (T.dispatch sm ev).bind fun p => dispatchAll T p.2.sm evs

/-- One event leaves the machine in some state, with its buffer as long as before. -/
theorem dispatch_some (hT : T.Inert) (ev : HsmEvent κ)
    (htargets : ∀ s, ∀ t ∈ T.transitions s, t.type = .external → t.target ≠ none)
    (hdeep : ∀ s, (T.path (some s)).length ≤ sm.bufferSize.toNat) {c : σ}
    (hc : sm.currentState = some c) :
    ∃ p c', T.dispatch sm ev = some p ∧ p.2.sm.Moved sm (some c') := by
  by_cases hign : ∀ s ∈ T.path sm.currentState, T.Ignores s sm ev
  · obtain ⟨r, hr, hsm, -⟩ := dispatch_ignored hT hign
    exact ⟨_, c, hr, hsm.moved hc⟩
  · obtain ⟨s, t, hfires⟩ := exists_fires hign
    obtain ⟨r, hr, -, c', hmoved⟩ := hfires.carried hT htargets hdeep hc
    exact ⟨_, c', hr, hmoved⟩

/-- **No run of events follows a null pointer** or leaves the entry-path buffer. -/
theorem dispatchAll_some (hT : T.Inert)
    (htargets : ∀ s, ∀ t ∈ T.transitions s, t.type = .external → t.target ≠ none)
    (hdeep : ∀ s, (T.path (some s)).length ≤ sm.bufferSize.toNat) {c : σ}
    (hc : sm.currentState = some c) (evs : List (HsmEvent κ)) :
    ∃ sm' c', T.dispatchAll sm evs = some sm' ∧ sm'.currentState = some c' := by
  induction evs generalizing sm c with
  | nil => exact ⟨sm, c, rfl, hc⟩
  | cons ev evs ih =>
    obtain ⟨p, c', hp, hmoved⟩ := dispatch_some hT ev htargets hdeep hc
    rw [dispatchAll, hp, Option.bind_some]
    exact ih (hmoved.size ▸ hdeep) hmoved.current

end

end Chart

/-! ## A machine of four states -/

/-- TOP with its children A and B, and DEEP below B. -/
inductive SampleState where
  | top
  | a
  | b
  | deep
deriving DecidableEq, Repr

inductive SampleFn where
  | exitA
  | entryB
  | entryDeep
  | mark
  | unhandled
deriving DecidableEq, Repr

def sampleParent : SampleState → Option SampleState
  | .top => none
  | .a | .b => some .top
  | .deep => some .b

def sampleUp : (s : SampleState) → Up sampleParent (some s)
  | .top => .node _ .null
  | .a | .b => .node _ (.node _ .null)
  | .deep => .node _ (.node _ (.node _ .null))

/-- Event 4 leads from A to DEEP, and so does event 5, which leads to B from anywhere else. -/
def sampleChart : Chart SampleState SampleFn Unit Unit where
  parent := sampleParent
  up := sampleUp
  entryAction s :=
    match s with
    | .b => some .entryB
    | .deep => some .entryDeep
    | _ => none
  exitAction s := if s = .a then some .exitA else none
  transitions s :=
    match s with
    | .top => [⟨5, some .b, none, none, .external⟩]
    | .a => [⟨4, some .deep, none, some .mark, .external⟩, ⟨5, some .deep, none, some .mark, .external⟩]
    | _ => []
  effect _ sm _ := sm

/-- A machine in A with a buffer of `n` entries. -/
def sampleMachine (n : UInt8) : Hsm SampleState SampleFn Unit where
  currentState := some .a
  initialState := some .a
  userData := ()
  unhandledEventHook := some .unhandled
  entryPathBuffer := List.replicate n.toNat none
  bufferSize := n
  fits := by rw [List.length_replicate]

theorem sampleChart_inert : sampleChart.Inert := fun _ sm _ => .refl sm

theorem sampleChart_depth (s : SampleState) : (sampleChart.path (some s)).length ≤ 3 := by
  cases s <;> decide

/-- Event 4 fires the first row of A. -/
theorem sampleChart_fires (n : UInt8) :
    sampleChart.Fires (sampleMachine n) ⟨4, ()⟩ .a
      ⟨4, some .deep, none, some .mark, .external⟩ where
  onPath := Forest.mem_path_self
  innermost := by
    intro x hx
    rw [sampleMachine, Forest.below_self] at hx
    cases hx
  isMatch := ⟨rfl, by simp⟩
  first := ⟨[], _, rfl, by simp⟩

theorem sampleChart_isLca : sampleChart.IsLca (some .a) (some .deep) (some .top) :=
  Forest.isLca_lca (F := sampleChart.toForest) (some .a) (some .deep)

/-- From A to DEEP: out of A, then into B and DEEP. -/
theorem sampleChart_dispatch : ∃ r, sampleChart.dispatch (sampleMachine 3) ⟨4, ()⟩ = some (true, r) ∧
    r.sm.currentState = some .deep ∧
    r.calls = [⟨.mark, some .a⟩, ⟨.exitA, some .a⟩, ⟨.entryB, some .deep⟩,
      ⟨.entryDeep, some .deep⟩] := by
  have htargets : ∀ s, ∀ t ∈ sampleChart.transitions s, t.type = .external → t.target ≠ none := by
    intro s
    cases s <;> simp [sampleChart]
  obtain ⟨r, hr, hcarried⟩ := (Chart.dispatch_semantics sampleChart_inert (sampleMachine 3) ⟨4, ()⟩
    htargets sampleChart_depth).1 .a .a _ rfl (sampleChart_fires 3)
  obtain ⟨hmoved, -, -, hcalls⟩ :=
    hcarried.moves .deep (some .top) rfl rfl (by decide) sampleChart_isLca
  exact ⟨r, hr, hmoved.current, hcalls⟩

namespace Chart
variable {T : Chart σ α κ υ} {sm : Hsm σ α υ} {ev : HsmEvent κ}

section
variable [DecidableEq σ]

/-! ## Refusal -/

/-- **A transition whose entry path does not fit** is refused when its action has run and before any
    exit or entry: the machine is the one the action left, up to the scratch buffer, and when no
    outer state has a row for the event it is reported unhandled. -/
theorem Fires.dispatch_refused {s c τ : σ} {a : Option σ} {t : HsmTransition σ α κ υ}
    (h : T.Fires sm ev s t) (htype : t.type = .external) (htarget : t.target = some τ)
    (hdepth : ∀ s, (T.path (some s)).length ≤ 255)
    (hc : (T.call t.action (some ev) ⟨sm, []⟩).sm.currentState = some c)
    (ha : T.IsLca (some c) (some τ) a)
    (hlong : (T.call t.action (some ev) ⟨sm, []⟩).sm.bufferSize.toNat <
      (T.below a (some τ)).length) :
    ∃ r, T.executeTransition t ev ⟨sm, []⟩ = some (false, r) ∧
      r.calls = callsIn sm.currentState [t.action] ∧
      r.sm.userData = (T.call t.action (some ev) ⟨sm, []⟩).sm.userData ∧
      r.sm.Moved (T.call t.action (some ev) ⟨sm, []⟩).sm (some c) ∧
      ((∀ x ∈ T.path (T.parent s), T.Ignores x r.sm ev) →
        T.dispatch sm ev = some (false, T.call r.sm.unhandledEventHook (some ev) r)) := by
  have hne : c ≠ τ := by
    rintro rfl
    rw [← ha.eq, Forest.lca_of_mem Forest.mem_path_self, Forest.below_self] at hlong
    cases hlong
  rw [← ha.eq] at hlong
  have hexec := (executeTransition_external htype htarget ⟨sm, []⟩).trans
    (performTransition_refused (e := some ev) hc hne (Nat.lt_succ_of_le (hdepth c))
      (Nat.lt_succ_of_le (hdepth τ)) hlong)
  have hmoved := Hsm.setEntries_moved (T.call t.action (some ev) ⟨sm, []⟩).sm 0
    ((T.below (T.lca (some c) (some τ)) (some τ)).take
      (T.call t.action (some ev) ⟨sm, []⟩).sm.bufferSize.toNat)
  refine ⟨_, hexec, call_calls _ _, Hsm.setEntries_userData .., hc ▸ hmoved, fun hignored => ?_⟩
  rw [dispatch_eq, h.bubble, hexec]
  simp only [Option.bind_some, Bool.false_eq_true, if_false, bubble_ignored hignored]

end

end Chart

/-- From A with one slot: the action has run, the machine is still in A, and the hook is told. -/
theorem sampleChart_refused : ∃ r, sampleChart.dispatch (sampleMachine 1) ⟨4, ()⟩ = some (false, r) ∧
    r.sm.currentState = some .a ∧ r.calls = [⟨.mark, some .a⟩, ⟨.unhandled, some .a⟩] := by
  obtain ⟨r, -, hcalls, -, hmoved, hdispatch⟩ := (sampleChart_fires 1).dispatch_refused rfl rfl
    (fun s => (sampleChart_depth s).trans (by decide)) rfl sampleChart_isLca (by decide)
  have hignored : ∀ x ∈ sampleChart.path (some .top), sampleChart.Ignores x r.sm ⟨4, ()⟩ := by
    simp [Chart.Ignores, HsmTransition.Matches, sampleChart, sampleParent]
  refine ⟨_, hdispatch hignored, ?_, ?_⟩
  · rw [hmoved.hook, ← hmoved.current]
    rfl
  · rw [Chart.call_calls, hcalls, hmoved.hook, hmoved.current]
    rfl

/-! ## A chain deeper than a byte counts -/

def chainParent : Fin 257 → Option (Fin 257)
  | ⟨0, _⟩ => none
  | ⟨n + 1, h⟩ => some ⟨n, by omega⟩

def chainUp : (n : ℕ) → (h : n < 257) → Up chainParent (some ⟨n, h⟩)
  | 0, _ => .node _ .null
  | n + 1, h => .node _ (chainUp n (by omega))

/-- A chain of 257 states; event 1 leads from the root to the state at the bottom. -/
def chainChart : Chart (Fin 257) SampleFn Unit Unit where
  parent := chainParent
  up s := chainUp s.val s.isLt
  entryAction _ := none
  exitAction _ := none
  transitions s := if s = 0 then [⟨1, some 256, none, none, .external⟩] else []
  effect _ sm _ := sm

/-- A machine at the root of the chain with one slot. -/
def chainMachine : Hsm (Fin 257) SampleFn Unit where
  currentState := some 0
  initialState := some 0
  userData := ()
  unhandledEventHook := none
  entryPathBuffer := [none]
  bufferSize := 1
  fits := Nat.le_refl 1

/-- **A refused transition has run its action**; an outer state's transition may then fire; and at a
    depth of 257 the two depths look equal, so the climb runs off the root. -/
theorem refused_not_free :
    (sampleChart.Fires (sampleMachine 1) ⟨4, ()⟩ .a ⟨4, some .deep, none, some .mark, .external⟩ ∧
      sampleChart.IsLca (some .a) (some .deep) (some .top) ∧
      (sampleMachine 1).bufferSize.toNat < (sampleChart.below (some .top) (some .deep)).length ∧
      (sampleChart.dispatch (sampleMachine 1) ⟨4, ()⟩).map (fun p => p.2.calls) =
        some [⟨.mark, some .a⟩, ⟨.unhandled, some .a⟩]) ∧
    (sampleChart.dispatch (sampleMachine 1) ⟨5, ()⟩).map (fun p => (p.1, p.2.sm.currentState)) =
      some (true, some .b) ∧
    (chainChart.dispatch chainMachine ⟨1, ()⟩).isNone = true :=
  ⟨⟨sampleChart_fires 1, sampleChart_isLca, by decide, by decide⟩, by decide, by decide +kernel⟩

end NginxRtc
