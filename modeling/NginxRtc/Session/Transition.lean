/-
  One transition of a hierarchical state machine.

  The loops of the engine, each as what it computes: `findLca_spec` finds the least common ancestor,
  `buildEntryPath_eq` records the entry path as far as the buffer goes, `Inert.entryLoop` enters the
  states recorded.  `Inert.performTransition_moves`: from one state to another the callbacks are the
  exits up to the least common ancestor and the entries from there down.
  `performTransition_refused`: an entry path that does not fit changes nothing.
-/
import NginxRtc.Session.Hsm

namespace NginxRtc

variable {σ α κ υ : Type}

/-! ## Callbacks -/

/-- Two machines that differ at most in the user data. -/
structure Hsm.Same (sm sm' : Hsm σ α υ) : Prop where
  current : sm.currentState = sm'.currentState
  initial : sm.initialState = sm'.initialState
  hook : sm.unhandledEventHook = sm'.unhandledEventHook
  buffer : sm.entryPathBuffer = sm'.entryPathBuffer
  size : sm.bufferSize = sm'.bufferSize

theorem Hsm.Same.refl (sm : Hsm σ α υ) : sm.Same sm := ⟨rfl, rfl, rfl, rfl, rfl⟩

theorem Hsm.Same.trans {sm sm' sm'' : Hsm σ α υ} (h : sm.Same sm') (h' : sm'.Same sm'') :
    sm.Same sm'' :=
  ⟨h.current.trans h'.current, h.initial.trans h'.initial, h.hook.trans h'.hook,
    h.buffer.trans h'.buffer, h.size.trans h'.size⟩

/-- Slots `i`, `i + 1`, … of the entry path, filled with the states of a list. -/
def Hsm.setEntries (sm : Hsm σ α υ) (i : ℕ) : List σ → Hsm σ α υ
  | [] => sm
  | s :: l => setEntries (sm.setEntry i s) (i + 1) l

/-- The machine is in state `c`; its scratch buffer and the user data may have changed. -/
structure Hsm.Moved (sm sm' : Hsm σ α υ) (c : Option σ) : Prop where
  current : sm.currentState = c
  initial : sm.initialState = sm'.initialState
  hook : sm.unhandledEventHook = sm'.unhandledEventHook
  size : sm.bufferSize = sm'.bufferSize

theorem Hsm.Same.moved {sm sm' : Hsm σ α υ} {c : Option σ} (h : sm.Same sm')
    (hc : sm'.currentState = c) : sm.Moved sm' c := ⟨h.current.trans hc, h.initial, h.hook, h.size⟩

theorem Hsm.setEntries_moved (sm : Hsm σ α υ) (i : ℕ) (l : List σ) :
    (sm.setEntries i l).Moved sm sm.currentState := by
  induction l generalizing sm i with
  | nil => exact ⟨rfl, rfl, rfl, rfl⟩
  | cons s l ih =>
    obtain ⟨hc, hi, hh, hs⟩ := ih (sm.setEntry i s) (i + 1)
    exact ⟨hc, hi, hh, hs⟩

theorem Hsm.setEntries_userData (sm : Hsm σ α υ) (i : ℕ) (l : List σ) :
    (sm.setEntries i l).userData = sm.userData := by
  induction l generalizing sm i with
  | nil => rfl
  | cons s l ih => exact ih (sm.setEntry i s) (i + 1)

theorem Hsm.setEntries_before (sm : Hsm σ α υ) {i j : ℕ} (l : List σ) (h : j < i) :
    (sm.setEntries i l).entryPathBuffer[j]? = sm.entryPathBuffer[j]? := by
  induction l generalizing sm i with
  | nil => rfl
  | cons s l ih =>
    rw [setEntries, ih _ (by omega), setEntry]
    exact List.getElem?_set_ne (by omega)

theorem Hsm.setEntries_get (sm : Hsm σ α υ) (i : ℕ) (l : List σ)
    (h : i + l.length ≤ sm.entryPathBuffer.length) {j : ℕ} (hj : j < l.length) :
    (sm.setEntries i l).entryPathBuffer[i + j]? = some (some l[j]) := by
  induction l generalizing sm i j with
  | nil => cases hj
  | cons s l ih =>
    rw [List.length_cons] at h hj
    cases j with
    | zero =>
      rw [setEntries, setEntries_before _ _ (by omega)]
      exact List.getElem?_set_self (by omega)
    | succ j =>
      have hroom : i + 1 + l.length ≤ (sm.setEntry i s).entryPathBuffer.length := by
        rw [setEntry, List.length_set]
        omega
      rw [setEntries, show i + (j + 1) = i + 1 + j by omega]
      exact ih (sm.setEntry i s) (i + 1) hroom (by omega)

/-- The calls of some callbacks, null pointers left out, all in one current state. -/
def callsIn (c : Option σ) (fns : List (Option α)) : List (Call σ α) :=
  fns.filterMap fun fn => fn.map fun f => ⟨f, c⟩

theorem callsIn_cons (c : Option σ) (fn : Option α) (fns : List (Option α)) :
    callsIn c (fn :: fns) = callsIn c [fn] ++ callsIn c fns := by
  cases fn <;> rfl

namespace Chart

/-- No callback changes the machine: only what the user data points at. -/
def Inert (T : Chart σ α κ υ) : Prop := ∀ f sm e, (T.effect f sm e).Same sm

variable (T : Chart σ α κ υ)

/-- Several callbacks in a row. -/
def callAll (fns : List (Option α)) (e : Option (HsmEvent κ)) (r : HsmTrace σ α υ) :
    HsmTrace σ α υ :=
  fns.foldl (fun r fn => T.call fn e r) r

variable {T} {e : Option (HsmEvent κ)}

theorem Inert.call (hT : T.Inert) (fn : Option α) (r : HsmTrace σ α υ) :
    (T.call fn e r).sm.Same r.sm := by
  cases fn with
  | none => exact .refl _
  | some f => exact hT f r.sm e

theorem call_calls (fn : Option α) (r : HsmTrace σ α υ) :
    (T.call fn e r).calls = r.calls ++ callsIn r.sm.currentState [fn] := by
  cases fn with
  | none => exact (List.append_nil _).symm
  | some f => rfl

theorem Inert.callAll (hT : T.Inert) (fns : List (Option α)) (r : HsmTrace σ α υ) :
    (T.callAll fns e r).sm.Same r.sm ∧
      (T.callAll fns e r).calls = r.calls ++ callsIn r.sm.currentState fns := by
  induction fns generalizing r with
  | nil => exact ⟨.refl _, (List.append_nil _).symm⟩
  | cons fn fns ih =>
    obtain ⟨hsm, hcalls⟩ := ih (T.call fn e r)
    refine ⟨hsm.trans (hT.call fn r), ?_⟩
    rw [callsIn_cons, ← List.append_assoc, ← call_calls (T := T) (e := e), ← (hT.call fn r).current]
    exact hcalls

/-! ## The least common ancestor -/

/-- A byte counter that does not wrap. -/
theorem toNat_succ {n : UInt8} (h : n.toNat + 1 < 256) : (n + 1).toNat = n.toNat + 1 := by
  rw [UInt8.toNat_add]
  exact Nat.mod_eq_of_lt h

theorem stateDepth_toNat {it : Option σ} (u : Up T.parent it) {d : UInt8}
    (h : d.toNat + (T.path it).length < 256) :
    (T.stateDepth d u).toNat = d.toNat + (T.path it).length := by
  induction u generalizing d with
  | null => rfl
  | node s rest ih =>
    rw [T.path_some, List.length_cons] at h ⊢
    have hd : (d + 1).toNat = d.toNat + 1 := toNat_succ (by omega)
    rw [stateDepth, ih (by omega), hd]
    omega

section
variable [DecidableEq σ]

/-- A climb stops at the depth it was told, with the same common ancestor as before. -/
theorem climb_spec {it : Option σ} (jt : Option σ) (u : Up T.parent it) {d limit : UInt8}
    (hd : d.toNat = (T.path it).length) (hl : (T.path jt).length ≤ limit.toNat) :
    ∃ p d', T.climb d limit u = some (p, d') ∧ d'.toNat = (T.path p).length ∧
      d'.toNat = min d.toNat limit.toNat ∧ T.lca p jt = T.lca it jt ∧ T.lca jt p = T.lca jt it := by
  induction u generalizing d with
  | null =>
    have hlt : ¬ limit < d := by
      rw [UInt8.lt_iff_toNat_lt, hd]
      simp
    rw [climb, if_neg hlt]
    rw [UInt8.lt_iff_toNat_lt] at hlt
    exact ⟨_, _, rfl, hd, by omega, rfl, rfl⟩
  | node s rest ih =>
    rw [climb]
    split
    · next hlt =>
      rw [UInt8.lt_iff_toNat_lt] at hlt
      have hd1 : (d - 1).toNat = d.toNat - 1 :=
        UInt8.toNat_sub_of_le d 1 (UInt8.le_iff_toNat_le.2 (by simp; omega))
      have hs : s ∉ T.path jt := Forest.not_mem_path (by omega)
      rw [T.path_some, List.length_cons] at hd
      obtain ⟨p, d', hp, hlen, hmin, hleft, hright⟩ := ih (d := d - 1) (by omega)
      refine ⟨p, d', hp, hlen, by omega, ?_, ?_⟩
      · rw [hleft, Forest.lca_parent_left hs]
      · rw [hright, Forest.lca_parent_right hs]
    · next hlt =>
      rw [UInt8.lt_iff_toNat_lt] at hlt
      exact ⟨_, _, rfl, hd, by omega, rfl, rfl⟩

/-- From equal depths the two pointers meet in the least common ancestor. -/
theorem meet_spec {p1 p2 : Option σ} (u : Up T.parent p1)
    (h : (T.path p1).length = (T.path p2).length) : T.meet p2 u = some (T.lca p1 p2) := by
  induction u generalizing p2 with
  | null =>
    cases p2 with
    | none => rfl
    | some q => simp at h
  | node s rest ih =>
    rw [meet]
    split
    · next heq => rw [heq, Forest.lca_of_mem Forest.mem_path_self]
    · next hne =>
      cases p2 with
      | none => simp at h
      | some q =>
        simp only [T.path_some, List.length_cons, Nat.add_right_cancel_iff] at h
        have hq : q ∉ T.path (T.parent s) := Forest.not_mem_path (by simp [h])
        have hs : s ∉ T.path (some q) := by
          rw [T.path_some, List.mem_cons, not_or]
          exact ⟨fun he => hne (by rw [he]), Forest.not_mem_path (by simp [h])⟩
        rw [Forest.lca_parent_left hs, Forest.lca_parent_right hq]
        exact ih h

/-- **The least common ancestor is found** in a tree whose depths fit a byte. -/
theorem findLca_spec {s1 s2 : σ} (h1 : (T.path (some s1)).length < 256)
    (h2 : (T.path (some s2)).length < 256) :
    T.findLca (some s1) (some s2) = some (T.lca (some s1) (some s2)) := by
  have hd1 := stateDepth_toNat (T.up s1) (d := 0) (by simpa using h1)
  have hd2 := stateDepth_toNat (T.up s2) (d := 0) (by simpa using h2)
  rw [UInt8.toNat_zero, Nat.zero_add] at hd1 hd2
  obtain ⟨p1, d1, hp1, hlen1, hmin1, hl1, -⟩ := climb_spec (some s2) (T.up s1) hd1 hd2.ge
  obtain ⟨p2, d2, hp2, hlen2, hmin2, -, hl2⟩ := climb_spec p1 (T.up s2) hd2 hlen1.ge
  simp only [findLca, hp1, hp2, Option.bind_eq_bind, Option.bind_some]
  rw [meet_spec (T.upFrom p1) (by omega), hl2, hl1]

/-! ## Exit and entry -/

theorem executeExitActions_eq {it : Option σ} (u : Up T.parent it) (a : Option σ)
    (r : HsmTrace σ α υ) :
    T.executeExitActions a e r u = T.callAll ((T.below a it).map T.exitAction) e r := by
  induction u generalizing r with
  | null => rfl
  | node s rest ih =>
    rw [executeExitActions]
    split
    · next hs => rw [← hs, Forest.below_self]; rfl
    · next hs => rw [ih, Forest.below_parent hs]; rfl

theorem countPath_toNat {it : Option σ} (u : Up T.parent it) (a : Option σ) {n : UInt8}
    (h : n.toNat + (T.below a it).length < 256) :
    (T.countPath a n u).toNat = n.toNat + (T.below a it).length := by
  induction u generalizing n with
  | null => rfl
  | node s rest ih =>
    rw [countPath]
    split
    · next hs => rw [← hs, Forest.below_self]; rfl
    · next hs =>
      rw [Forest.below_parent hs, List.length_cons] at h ⊢
      have hn : (n + 1).toNat = n.toNat + 1 := toNat_succ (by omega)
      rw [ih (by omega), hn]
      omega

/-- The entry path is recorded as far as the buffer goes, and has to end there. -/
theorem buildEntryPath_eq {it : Option σ} (u : Up T.parent it) (a : Option σ) {i : UInt8}
    (sm : Hsm σ α υ) (hi : i ≤ sm.bufferSize) :
    T.buildEntryPath a i sm u =
      (decide (i.toNat + (T.below a it).length ≤ sm.bufferSize.toNat),
        sm.setEntries i.toNat ((T.below a it).take (sm.bufferSize.toNat - i.toNat))) := by
  rw [UInt8.le_iff_toNat_le] at hi
  induction u generalizing i sm with
  | null => simp [buildEntryPath, hi, Hsm.setEntries]
  | node s rest ih =>
    rw [buildEntryPath]
    split
    · next hs => simp [← hs, Forest.below_self, hi, Hsm.setEntries]
    · next hs =>
      rw [Forest.below_parent hs, List.length_cons]
      split
      · next hlt =>
        rw [UInt8.lt_iff_toNat_lt] at hlt
        have hsize := sm.bufferSize.toNat_lt
        have hn : (i + 1).toNat = i.toNat + 1 := toNat_succ (by omega)
        have hroom : sm.bufferSize.toNat - i.toNat = sm.bufferSize.toNat - (i.toNat + 1) + 1 := by
          omega
        rw [ih _ (by rw [hn]; exact hlt), hn, hroom, List.take_succ_cons, Hsm.setEntries]
        simp only [Hsm.setEntry, Nat.add_assoc, Nat.add_comm 1]
      · next hlt =>
        rw [UInt8.lt_iff_toNat_lt] at hlt
        have hroom : sm.bufferSize.toNat - i.toNat = 0 := by omega
        have hlong : ¬ i.toNat + ((T.below a (T.parent s)).length + 1) ≤ sm.bufferSize.toNat := by omega
        simp [hroom, hlong, Hsm.setEntries]

end

/-- The slots recorded are entered from the last one down. -/
theorem Inert.entryLoop (hT : T.Inert) (l : List σ) {r : HsmTrace σ α υ}
    (hl : ∀ i (h : i < l.length), r.sm.entryPathBuffer[i]? = some (some l[i])) :
    T.entryLoop e l.length r = some (T.callAll (l.reverse.map T.entryAction) e r) := by
  induction l using List.reverseRecOn generalizing r with
  | nil => rfl
  | append_singleton l s ih =>
    have hlast := hl l.length (by simp)
    simp only [List.getElem_append_right (Nat.le_refl l.length), Nat.sub_self,
      List.getElem_cons_zero] at hlast
    rw [List.length_append, List.length_singleton, Chart.entryLoop, hlast]
    simp only [Option.bind_eq_bind, Option.bind_some, List.reverse_append, List.reverse_singleton,
      List.singleton_append, List.map_cons]
    refine ih fun i h => ?_
    rw [(hT.call _ r).buffer, hl i (by simp; omega), List.getElem_append_left h]

/-! ## Changing state -/

section
variable [DecidableEq σ]

/-- Out of a state and into it again. -/
theorem performTransition_self {r : HsmTrace σ α υ} {c : σ} (hc : r.sm.currentState = some c) :
    T.performTransition (some c) e r =
      some (true, T.callAll [T.exitAction c, T.entryAction c] e r) := by
  simp [performTransition, hc, callAll]

/-- An entry path longer than the buffer: nothing has run, and only the scratch buffer is written. -/
theorem performTransition_refused {r : HsmTrace σ α υ} {c τ : σ} (hc : r.sm.currentState = some c)
    (hne : c ≠ τ) (hdc : (T.path (some c)).length < 256) (hdt : (T.path (some τ)).length < 256)
    (hlong : r.sm.bufferSize.toNat < (T.below (T.lca (some c) (some τ)) (some τ)).length) :
    T.performTransition (some τ) e r =
      some (false, ⟨r.sm.setEntries 0
        ((T.below (T.lca (some c) (some τ)) (some τ)).take r.sm.bufferSize.toNat), r.calls⟩) := by
  have hbuild := buildEntryPath_eq (T.up τ) (T.lca (some c) (some τ)) r.sm (i := 0) (by simp)
  simp only [UInt8.toNat_zero, Nat.zero_add, Nat.sub_zero, Nat.not_le.2 hlong, decide_false] at hbuild
  simp [performTransition, hc, hne, findLca_spec hdc hdt, hbuild]

/-- Exits up to the least common ancestor, entries from there down to the target. -/
theorem Inert.performTransition_moves (hT : T.Inert) {r : HsmTrace σ α υ} {c τ : σ}
    (hc : r.sm.currentState = some c) (hne : c ≠ τ) (hdc : (T.path (some c)).length < 256)
    (hdt : (T.path (some τ)).length < 256)
    (hfit : (T.below (T.lca (some c) (some τ)) (some τ)).length ≤ r.sm.bufferSize.toNat) :
    ∃ r', T.performTransition (some τ) e r = some (true, r') ∧ r'.sm.Moved r.sm (some τ) ∧
      r'.calls = r.calls ++
        callsIn (some c) ((T.below (T.lca (some c) (some τ)) (some c)).map T.exitAction) ++
        callsIn (some τ) ((T.below (T.lca (some c) (some τ)) (some τ)).reverse.map T.entryAction) := by
  set a := T.lca (some c) (some τ) with ha
  set l := T.below a (some τ) with hl
  have hsize := r.sm.bufferSize.toNat_lt
  have hbuild := buildEntryPath_eq (T.up τ) a r.sm (i := 0) (by simp)
  simp only [UInt8.toNat_zero, Nat.zero_add, Nat.sub_zero, ← hl, hfit, decide_true,
    List.take_of_length_le hfit] at hbuild
  have hcount : (T.countPath a 0 (T.up τ)).toNat = l.length := by
    rw [countPath_toNat (T.up τ) a (by rw [← hl, UInt8.toNat_zero]; omega), ← hl, UInt8.toNat_zero,
      Nat.zero_add]
  -- the machine after the exits, then with its current state set
  obtain ⟨hexit, hexitCalls⟩ := hT.callAll (e := e) ((T.below a (some c)).map T.exitAction)
    ⟨r.sm.setEntries 0 l, r.calls⟩
  set r1 := T.callAll ((T.below a (some c)).map T.exitAction) e ⟨r.sm.setEntries 0 l, r.calls⟩
  set r2 : HsmTrace σ α υ := ⟨r1.sm.setCurrent (some τ), r1.calls⟩ with hr2
  have hslots : ∀ i (h : i < l.length), r2.sm.entryPathBuffer[i]? = some (some l[i]) := by
    intro i h
    have hget := r.sm.setEntries_get 0 l (by have := r.sm.fits; omega) h
    rw [Nat.zero_add] at hget
    rw [← hget, ← hexit.buffer]
    rfl
  have hentry : T.executeEntryActions (T.countPath a 0 (T.up τ)) e r2 =
      some (T.callAll (l.reverse.map T.entryAction) e r2) := by
    rw [executeEntryActions, hcount]
    split
    · next hnil =>
      have h0 : l = [] := by
        by_contra hne
        have := hslots 0 (List.length_pos_iff.2 hne)
        rw [hnil] at this
        cases this
      rw [h0]
      rfl
    · exact hT.entryLoop l hslots
  obtain ⟨hsm, hcalls⟩ := hT.callAll (e := e) (l.reverse.map T.entryAction) r2
  have hmoved := r.sm.setEntries_moved 0 l
  refine ⟨T.callAll (l.reverse.map T.entryAction) e r2, ?_, ⟨hsm.current, ?_, ?_, ?_⟩, ?_⟩
  · simp only [performTransition, hc, Option.some.injEq, hne, if_false, findLca_spec hdc hdt, ← ha,
      Option.bind_eq_bind, Option.bind_some, hbuild, executeExitActions_eq]
    exact congrArg (Option.bind · _) hentry
  · exact hsm.initial.trans (hexit.initial.trans hmoved.initial)
  · exact hsm.hook.trans (hexit.hook.trans hmoved.hook)
  · exact hsm.size.trans (hexit.size.trans hmoved.size)
  · rw [hcalls]
    refine congrArg (· ++ callsIn (some τ) _) (hexitCalls.trans ?_)
    rw [hmoved.current, hc]

/-! ## The other entry points -/

/-- Without a current state the entry path is empty. -/
theorem performTransition_initial {r : HsmTrace σ α υ} (hc : r.sm.currentState = none) (s : σ) :
    T.performTransition (some s) e r = some (true, ⟨r.sm.setCurrent (some s), r.calls⟩) := by
  have hbuild : T.buildEntryPath (some s) 0 r.sm (T.up s) = (true, r.sm) := by
    rw [buildEntryPath_eq _ _ _ (by simp), Forest.below_self]
    simp [Hsm.setEntries]
  have hcount : (T.countPath (some s) 0 (T.up s)).toNat = 0 := by
    rw [countPath_toNat _ _ (by simp [Forest.below_self]), Forest.below_self]
    rfl
  have hentry : ∀ r', T.executeEntryActions (T.countPath (some s) 0 (T.up s)) e r' = some r' := by
    intro r'
    rw [executeEntryActions, hcount]
    split <;> rfl
  have hexit : ∀ r', T.executeExitActions (some s) e r' (T.upFrom r.sm.currentState) = r' := by
    intro r'
    rw [executeExitActions_eq, hc]
    rfl
  simp [performTransition, hc, findLca, hbuild, hexit, hentry]

/-- Initialising puts the machine in its initial state, whose entry action does not run. -/
theorem init_eq (sm : Hsm σ α υ) (s : σ) {buffer : List (Option σ)} {size : UInt8}
    (fits : size.toNat ≤ buffer.length) (userData : υ) (hook : Option α) (h : 0 < size) :
    T.init sm (some s) buffer size fits userData hook =
      some ⟨⟨some s, some s, userData, hook, buffer, size, fits⟩, []⟩ := by
  have hbuffer : buffer ≠ [] := by
    rintro rfl
    rw [UInt8.lt_iff_toNat_lt] at h
    exact absurd (h.trans_le fits) (Nat.lt_irrefl 0)
  rw [init, if_pos (by simp [hbuffer, h])]
  dsimp only
  rw [performTransition_initial rfl]
  rfl

/-- A reset leads to the initial state from wherever the machine is. -/
theorem Inert.reset_current (hT : T.Inert) {sm : Hsm σ α υ} {c τ : σ} (hc : sm.currentState = some c)
    (hτ : sm.initialState = some τ) (hdeep : ∀ s, (T.path (some s)).length ≤ sm.bufferSize.toNat) :
    ∃ r, T.reset sm = some r ∧ r.sm.currentState = some τ := by
  have hsize := sm.bufferSize.toNat_lt
  simp only [reset, hτ, Option.isSome_some, if_true]
  by_cases hself : c = τ
  · subst hself
    rw [performTransition_self hc]
    exact ⟨_, rfl, (hT.callAll _ _).1.current.trans hc⟩
  · obtain ⟨r, hr, hmoved, -⟩ := hT.performTransition_moves (e := none) (r := ⟨sm, []⟩) hc hself
      ((hdeep c).trans_lt hsize) ((hdeep τ).trans_lt hsize)
      ((Forest.below_length_le _ _).trans (hdeep τ))
    rw [hr]
    exact ⟨r, rfl, hmoved.current⟩

theorem reaches_iff {it : Option σ} (u : Up T.parent it) (s : σ) :
    T.reaches s u = true ↔ s ∈ T.path it := by
  induction u with
  | null => simp [reaches]
  | node c rest ih =>
    rw [reaches, T.path_some, List.mem_cons, ← ih]
    split
    · next h => simp [h]
    · next h => simp [Ne.symm h]

/-- The machine is in a state when that is the current one or an ancestor of it. -/
theorem isInState_iff {sm : Hsm σ α υ} {s : σ} :
    T.isInState sm (some s) = true ↔ s ∈ T.path sm.currentState := reaches_iff _ s

end

end Chart
end NginxRtc
