/-
  Kicks: the control plane asks for sessions to be closed, the reap timers close them
  (`ngx_rtc_http_kick_handler`, `ngx_rtc_http_disconnect_handler`, `ngx_rtc_stream_reap_timer`).

  A request flags skeletons and touches no session.  Each worker looks the flags of its sessions up
  when its timer fires.

  `tick_exact`: a tick closes the sessions that are idle or flagged, and leaves every other one as
  it is.  `kick_takes`, `disconnect_takes`: a skeleton that was asked to close is gone after the next
  tick of the worker that owns it then.  `disconnect_run`: a disconnect is a kick of each viewer in the
  list of the stream, and of nobody else.
-/
import NginxRtc.System.WhipName
import NginxRtc.Worker.Backed
import NginxRtc.Worker.Lifetime

namespace NginxRtc

/-! ## The endpoints -/

/-- The answers of the control endpoints. -/
inductive ControlStatus where
  | ok
  | notAllowed
  | badRequest
  | serviceUnavailable
  | notFound
deriving DecidableEq

/-- `ngx_rtc_http_kick_handler`; `atoi` is `ngx_atoi`. -/
def httpKick (sh : Option ShmCtx) (post : Bool) (q : Query) (atoi : Bytes → Option ℕ) :
    Option ShmCtx × ControlStatus :=
  if !post then (sh, .notAllowed)
  else
    match (q.argDecoded (Text.ascii "id")).bind atoi with
    | none | some 0 => (sh, .badRequest)
    | some id =>
      match sh with
      | none => (none, .serviceUnavailable)
      | some c =>
        match c.sessionRequestClose id with
        | (c', .ok) => (some c', .ok)
        | (c', _) => (some c', .notFound)

namespace ShmCtx

/-- Flag the skeleton at `a`. -/
def flag (c : ShmCtx) (a : ℕ) : ShmCtx :=
  { c with sessions := c.sessions.modify a fun s => { s with closeRequested := true } }

/-- `ngx_rtc_shm_source_request_close`. -/
def sourceRequestClose (c : ShmCtx) (name : SourceName) : ShmCtx × Rc :=
  match c.source? name with
  | none => (c, .error)
  | some src => (src.subscribers.foldl flag c, .ok)

end ShmCtx

/-- `ngx_rtc_http_disconnect_handler`. -/
def httpDisconnect (sh : Option ShmCtx) (post : Bool) (q : Query) : Option ShmCtx × ControlStatus :=
  if !post then (sh, .notAllowed)
  else
    match q.argDecoded (Text.ascii "name") with
    | none | some [] => (sh, .badRequest)
    | some val =>
      match sh with
      | none => (none, .serviceUnavailable)
      | some c =>
        match (BStr.ofBytes shmSourceNameMax val).map c.sourceRequestClose with
        | some (c', .ok) => (some c', .ok)
        | _ => (some c, .notFound)

namespace ShmCtx

/-- **A disconnect kicks each viewer in the list of the stream**, one after the other. -/
theorem disconnect_run {c : ShmCtx} (hc : c.Shape) (name : SourceName) :
    (c.sourceRequestClose name).1 =
      Lts.run (fun c op => ShmOp.step c op) c
        ((((c.source? name).map ShmSource.subscribers).getD []).filterMap fun a =>
          (c.sessions.get a).map fun s => .requestClose s.id) := by
  unfold sourceRequestClose
  cases hsrc : c.source? name with
  | none => rfl
  | some src =>
    obtain ⟨b, -, hb, -⟩ := source?_eq_some hsrc
    have hlisted : ∀ a ∈ src.subscribers, (c.sessions.get a).isSome := by
      intro a ha
      obtain ⟨s, hs, -⟩ := hc.listed b src a hb ha
      rw [hs]
      rfl
    show src.subscribers.foldl flag c = Lts.run _ c (src.subscribers.filterMap _)
    -- the ids of the skeletons stay as they are read from `c`, whatever was flagged so far
    have hfold : ∀ (l : List ℕ) (d : ShmCtx), d.Shape → (∀ a ∈ l, (c.sessions.get a).isSome) →
        (∀ a, (d.sessions.get a).map ShmSession.id = (c.sessions.get a).map ShmSession.id) →
        l.foldl flag d = Lts.run (fun c op => ShmOp.step c op) d (l.filterMap fun a =>
          (c.sessions.get a).map fun s => .requestClose s.id) := by
      intro l
      induction l with
      | nil => exact fun _ _ _ _ => rfl
      | cons a l ih =>
        intro d hd hl hids
        obtain ⟨s, hs⟩ := Option.isSome_iff_exists.1 (hl a List.mem_cons_self)
        have hida := hids a
        rw [hs] at hida
        obtain ⟨t, ht, hid⟩ := Option.map_eq_some_iff.1 hida
        have hfind : d.sessions.find? (fun u => u.id = s.id) = some a :=
          Pool.find?_eq_of_unique ht (decide_eq_true hid) fun b u hu hub =>
            hd.ids b a u t hu ht ((of_decide_eq_true hub).trans hid.symm)
        have hstep : (ShmOp.requestClose s.id).step d = d.flag a := by
          simp only [ShmOp.step, sessionRequestClose, hfind]
          rfl
        rw [List.foldl_cons, List.filterMap_cons, hs, Option.map_some]
        show l.foldl flag (d.flag a) = Lts.run _ ((ShmOp.requestClose s.id).step d) _
        have hshape := ShmOp.shape_step hd (.requestClose s.id)
        rw [hstep] at hshape ⊢
        refine ih (d.flag a) hshape (fun b hb => hl b (List.mem_cons_of_mem _ hb)) fun b => ?_
        rw [← hids b]
        show ((d.sessions.modify a _).get b).map _ = _
        rw [Pool.get_modify]
        split_ifs
        · rw [Option.map_map]
          rfl
        · rfl
    exact hfold src.subscribers c hc hlisted fun _ => rfl

/-- Whether a flag is up, under distinct user names. -/
theorem Distinct.closeRequested_iff {c : ShmCtx} (h : c.Distinct) {ufrag : Ufrag} :
    c.sessionIsCloseRequested ufrag = true ↔
      ∃ b s, c.sessions.get b = some s ∧ s.iceUfrag = ufrag ∧ s.closeRequested = true := by
  rw [sessionIsCloseRequested, Option.any_eq_true]
  constructor
  · rintro ⟨s, hs, hflag⟩
    obtain ⟨b, hl, hb⟩ := Option.bind_eq_some_iff.1 hs
    obtain ⟨t, ht, hu⟩ := Pool.find?_spec hl
    obtain rfl := Option.some.inj (hb.symm.trans ht)
    exact ⟨b, s, hb, of_decide_eq_true hu, hflag⟩
  · rintro ⟨b, s, hb, rfl, hflag⟩
    exact ⟨s, by rw [h.lookup hb, Option.bind_some, hb], hflag⟩

/-- A removal frees no skeleton of another user name. -/
theorem removeIfOwner_other {c : ShmCtx} {now slot b : ℕ} {ufrag : Ufrag} {s : ShmSession}
    (hs : c.sessions.get b = some s) (hu : s.iceUfrag ≠ ufrag) :
    (c.sessionRemoveIfOwner now ufrag slot).sessions.get b = some s := by
  unfold sessionRemoveIfOwner
  split
  · exact hs
  · next a ha =>
    split
    · exact hs
    · split_ifs
      · rw [sessionFree_session, if_neg ?_]
        · exact hs
        · rintro rfl
          obtain ⟨t, ht, hut⟩ := Pool.find?_spec ha
          obtain rfl := Option.some.inj (hs.symm.trans ht)
          exact hu (of_decide_eq_true hut)
      · exact hs

theorem releasePublish_sessions (c : ShmCtx) (now : ℕ) (name : SourceName) (kind : PublisherKind) :
    (c.sourceReleasePublish now name kind).sessions = c.sessions := by
  unfold sourceReleasePublish modifySource
  split
  · rfl
  · split_ifs
    · rfl
    · split <;> rfl

theorem sourceRemove_sessions (c : ShmCtx) (name : SourceName) :
    (c.sourceRemove name).sessions = c.sessions := by
  unfold sourceRemove
  split
  · rfl
  · split
    · rfl
    · split_ifs <;> rfl

end ShmCtx

/-! ## A tick of the reap timer -/

theorem publishRelease_skeletons (sh : Option ShmCtx) (now : ℕ) (v : Source) :
    (publishRelease sh now v).1.map ShmCtx.sessions = sh.map ShmCtx.sessions := by
  unfold publishRelease publishReleaseIn
  split
  · rfl
  · rfl
  · rfl
  · next c kind hk =>
    rw [hk]
    show some _ = some _
    rw [ShmCtx.sourceRemove_sessions, ShmCtx.releasePublish_sessions]

namespace Proc
variable {p q : Proc} {slot : ℕ} {conf : StreamConf} {now : ℕ} {heap : Heap}

theorem releaseOwned_skeletons (p : Proc) (now : ℕ) (sess : Session) :
    (p.releaseOwned now sess).sh.map ShmCtx.sessions = p.sh.map ShmCtx.sessions := by
  unfold Proc.releaseOwned
  split
  · rfl
  · split_ifs
    · show (Proc.atSource _ _ _ _).1.sh.map _ = _
      unfold Proc.atSource
      split
      · rfl
      · exact publishRelease_skeletons p.sh now _
    · rfl

/-- A close frees the session it is told to, and no other. -/
theorem sessionClose_get (p : Proc) (now : ℕ) (heap : Heap) (ev : SessionEvent) (a x : ℕ) :
    (p.sessionClose now heap ev a).w.sessions.get x = if x = a then none else p.w.sessions.get x := by
  by_cases hx : x = a
  · rw [if_pos hx, hx]
    exact sessionClose_gone p now heap ev a
  · rw [if_neg hx]
    unfold Proc.sessionClose
    split
    · rfl
    · next sess _ =>
      refine ((leave_sessions _ a sess).2 x).trans ((if_neg hx).trans ?_)
      rw [releaseOwned_sessions]
      exact (Pool.get_modify_of_ne hx _).trans ((detach_sessions p.w heap.closeEv a sess).2 x hx)

/-- A skeleton of another user name is there after a close exactly if it was before. -/
theorem sessionClose_skeleton {now : ℕ} {heap : Heap} {ev : SessionEvent} {a : ℕ} {sess : Session}
    (hsess : p.w.sessions.get a = some sess) {s : ShmSession} (hu : s.iceUfrag ≠ sess.iceUfrag) (b : ℕ) :
    (∃ c, (p.sessionClose now heap ev a).sh = some c ∧ c.sessions.get b = some s) ↔
      ∃ c, p.sh = some c ∧ c.sessions.get b = some s := by
  have hclose : (p.sessionClose now heap ev a).sh =
      ((p.upd fun w => (w.detach heap.closeEv a sess).modifySession a
        (Session.dispatch ev none)).releaseOwned now sess).sh.map fun c =>
          c.sessionRemoveIfOwner now sess.iceUfrag p.w.slot := by
    rw [Proc.sessionClose, hsess]
    rfl
  have hrel := releaseOwned_skeletons (p.upd fun w => (w.detach heap.closeEv a sess).modifySession a
    (Session.dispatch ev none)) now sess
  change _ = p.sh.map ShmCtx.sessions at hrel
  rw [hclose]
  constructor
  · rintro ⟨c', hc', hs⟩
    obtain ⟨d, hd, rfl⟩ := Option.map_eq_some_iff.1 hc'
    rw [hd] at hrel
    obtain ⟨c, hc, hsessions⟩ := Option.map_eq_some_iff.1 hrel.symm
    exact ⟨c, hc, hsessions ▸ (d.thins_sessionRemoveIfOwner now _ _).get b s hs⟩
  · rintro ⟨c, hc, hs⟩
    rw [hc] at hrel
    obtain ⟨d, hd, hsessions⟩ := Option.map_eq_some_iff.1 hrel
    exact ⟨_, by rw [hd]; rfl, ShmCtx.removeIfOwner_other (hsessions ▸ hs) hu⟩

/-- Whether a session is kicked, under distinct user names. -/
theorem Backed.kicked_iff (h : p.Backed slot) (t : Session) :
    p.kicked t = true ↔ ∃ b s, (∃ c, p.sh = some c ∧ c.sessions.get b = some s) ∧
      s.iceUfrag = t.iceUfrag ∧ s.closeRequested = true := by
  rw [Proc.kicked, Option.any_eq_true]
  constructor
  · rintro ⟨c, hc, hflag⟩
    obtain ⟨b, s, hs, hu, hreq⟩ := (h.registry c hc).closeRequested_iff.1 hflag
    exact ⟨b, s, ⟨c, hc, hs⟩, hu, hreq⟩
  · rintro ⟨b, s, ⟨c, hc, hs⟩, hu, hreq⟩
    exact ⟨c, hc, (h.registry c hc).closeRequested_iff.2 ⟨b, s, hs, hu, hreq⟩⟩

/-- A close kicks nobody else, and saves nobody else from a kick. -/
theorem Backed.kicked_close (h : p.Backed slot) {a : ℕ} {sess : Session}
    (hsess : p.w.sessions.get a = some sess) {t : Session} (hu : t.iceUfrag ≠ sess.iceUfrag) (now : ℕ)
    (heap : Heap) (ev : SessionEvent) : (p.sessionClose now heap ev a).kicked t = p.kicked t := by
  rw [Bool.eq_iff_iff, (h.sessionClose now heap ev a).kicked_iff, h.kicked_iff]
  refine exists_congr fun b => exists_congr fun s => and_congr_left fun hs => ?_
  exact sessionClose_skeleton hsess (hs.1 ▸ hu) b

/-- Whether the timer closes the session. -/
def reaps (conf : StreamConf) (now : ℕ) (p : Proc) (t : Session) : Bool :=
  p.kicked t || t.idle conf now

/-- One turn of the timer's loop. -/
theorem Backed.reapSession_spec (h : p.Backed slot) (conf : StreamConf) (now : ℕ) (heap : Heap)
    (a : ℕ) :
    (∀ x, (Proc.reapSession conf now heap p a).w.sessions.get x =
      if x = a then (p.w.sessions.get x).filter fun t => !reaps conf now p t else p.w.sessions.get x) ∧
    ∀ x t, x ≠ a → p.w.sessions.get x = some t →
      (Proc.reapSession conf now heap p a).kicked t = p.kicked t := by
  unfold Proc.reapSession
  cases hsess : p.w.sessions.get a with
  | none =>
    refine ⟨fun x => ?_, fun _ _ _ _ => rfl⟩
    split_ifs with hx
    · rw [hx, hsess, Option.filter_none]
    · rfl
  | some sess =>
    have hother : ∀ ev x t, x ≠ a → p.w.sessions.get x = some t →
        (p.sessionClose now heap ev a).kicked t = p.kicked t := fun ev x t hx ht =>
      h.kicked_close hsess (fun hu => hx (h.sessions.user x a t sess ht hsess hu)) now heap ev
    dsimp only
    split_ifs with hkick hidle
    · refine ⟨fun x => ?_, hother .close⟩
      rw [sessionClose_get]
      split_ifs with hx
      · rw [hx, hsess, Option.filter_some, reaps, hkick]
        rfl
      · rfl
    · refine ⟨fun x => ?_, hother .timeout⟩
      rw [sessionClose_get]
      split_ifs with hx
      · rw [hx, hsess, Option.filter_some, reaps, hidle, Bool.or_true]
        rfl
      · rfl
    · refine ⟨fun x => ?_, fun _ _ _ _ => rfl⟩
      split_ifs with hx
      · rw [hx, hsess, Option.filter_some, reaps, Bool.eq_false_iff.2 hkick,
          Bool.eq_false_iff.2 hidle]
        rfl
      · rfl

/-- The loop of the timer. -/
theorem Backed.reap_fold (h : p.Backed slot) {l : List ℕ} (hl : l.Nodup) (x : ℕ) :
    (l.foldl (Proc.reapSession conf now heap) p).w.sessions.get x =
      if x ∈ l then (p.w.sessions.get x).filter fun t => !reaps conf now p t
      else p.w.sessions.get x := by
  induction l generalizing p with
  | nil => simp
  | cons a l ih =>
    obtain ⟨ha, hl⟩ := List.nodup_cons.1 hl
    obtain ⟨hget, hkick⟩ := h.reapSession_spec conf now heap a
    rw [List.foldl_cons, ih (h.reapSession conf now heap a) hl, hget]
    by_cases hx : x = a
    · rw [if_neg (hx ▸ ha), if_pos hx, if_pos (hx ▸ List.mem_cons_self)]
    · simp only [List.mem_cons, hx, false_or, if_false]
      split_ifs
      · cases ht : p.w.sessions.get x with
        | none => rfl
        | some t => rw [Option.filter_some, Option.filter_some, reaps, reaps, hkick x t hx ht]
      · rfl

theorem reap_exact (h : p.Backed slot) (conf : StreamConf) (now : ℕ) (heap : Heap) (x : ℕ) :
    (p.reapTimer conf now heap).w.sessions.get x = (p.w.sessions.get x).filter fun t =>
      !(p.call (.expire now false)).kicked t && !t.idle conf now := by
  have hexp : (p.call (.expire now false)).Backed slot := h.quiet (quiet_call p rfl)
  have hnodup : p.w.sessions.addrs.Nodup := p.w.sessions.nodup
  rw [reapTimer, hexp.reap_fold hnodup]
  simp only [reaps, Bool.not_or]
  split_ifs with hx
  · rfl
  · rw [Pool.mem_addrs_iff, Bool.not_eq_true, Option.isSome_eq_false_iff, Option.isNone_iff_eq_none] at hx
    show p.w.sessions.get x = _
    rw [hx, Option.filter_none]

/-- A player registered by another worker, and attached on worker 1, where its handshake completes. -/
def sampleEvents : List ProcEvent :=
  [.others (.sourceGet (.at 0) sampleName), .others (.sessionAdd (.at 0) (.sample 1 false)), .accept,
    sampleBinding 0, .dtls 5 Heap.ample 0 (22 :: List.replicate 12 0) ⟨true, true, true, true⟩]

def sampleBound : Proc := Lts.run step (.init 1 (some (.init 2 []))) sampleEvents

theorem fresh_sampleEvents : Lts.Along step FreshNames (.init 1 (some (.init 2 []))) sampleEvents := by
  refine ⟨⟨nofun, nofun⟩, ⟨nofun, fun env args ho c hc b s hs => ?_⟩, trivial, trivial, trivial,
    trivial⟩
  obtain rfl := Option.some.inj hc
  exact nomatch hs

end Proc

/-! ## What becomes of a flag -/

namespace ShmCtx

/-- The skeleton with the id `k` is flagged, or gone. -/
structure Asked (k : ℕ) (c : ShmCtx) : Prop where
  given : k < c.nextSessionId
  flag : ∀ b s, c.sessions.get b = some s → s.id = k → s.closeRequested = true

/-- The skeleton with the id `k` is gone. -/
structure Gone (k : ℕ) (c : ShmCtx) : Prop where
  given : k < c.nextSessionId
  gone : ∀ b s, c.sessions.get b = some s → s.id ≠ k

theorem lasting_asked (k : ℕ) : Proc.Lasting (Asked k) where
  call c op h := by
    refine ⟨h.given.trans_le (c.since_step op).nextId, fun b s hs hid => ?_⟩
    rcases edit_step hs with ⟨t, ht, rfl⟩ | ⟨-, env, args, src, -, -, rfl⟩
    · exact ShmOp.edit_requests _ _ _ _ (h.flag b t ht ((ShmOp.edit_id ..).symm.trans hid))
    · exact absurd hid (Nat.ne_of_gt h.given)
  thins c c' ht h := ⟨ht.nextId ▸ h.given, fun b s hs => h.flag b s (ht.get b s hs)⟩

theorem lasting_gone (k : ℕ) : Proc.Lasting (Gone k) where
  call c op h := by
    refine ⟨h.given.trans_le (c.since_step op).nextId, fun b s hs => ?_⟩
    rcases edit_step hs with ⟨t, ht, rfl⟩ | ⟨-, env, args, src, -, -, rfl⟩
    · rw [ShmOp.edit_id]
      exact h.gone b t ht
    · exact Nat.ne_of_gt h.given
  thins c c' ht h := ⟨ht.nextId ▸ h.given, fun b s hs => h.gone b s (ht.get b s hs)⟩

/-- A request flags the skeleton it names. -/
theorem asked_requestClose {c : ShmCtx} (hc : c.Shape) {k : ℕ} (hk : k < c.nextSessionId) :
    Asked k ((ShmOp.requestClose k).step c) where
  given := hk.trans_le (c.since_step _).nextId
  flag b t ht hid := by
    rw [ShmOp.step, sessionRequestClose] at ht
    cases hf : c.sessions.find? fun u => u.id = k with
    | none =>
      rw [hf] at ht
      exact absurd hid (of_decide_eq_false (Pool.find?_eq_none.1 hf b t ht))
    | some a =>
      rw [hf] at ht
      change (c.sessions.modify a _).get b = some t at ht
      rw [Pool.get_modify] at ht
      split_ifs at ht with hb
      · obtain ⟨u, -, rfl⟩ := Option.map_eq_some_iff.1 ht
        rfl
      · obtain ⟨u, hu, huid⟩ := Pool.find?_spec hf
        exact absurd (hc.ids b a t u ht hu (hid.trans (of_decide_eq_true huid).symm)) hb

/-- A request among others does. -/
theorem asked_run {c : ShmCtx} (hc : c.Shape) {k : ℕ} (hk : k < c.nextSessionId) {ops : List ShmOp}
    (hmem : .requestClose k ∈ ops) : Asked k (Lts.run (fun c op => ShmOp.step c op) c ops) := by
  induction ops generalizing c with
  | nil => exact nomatch hmem
  | cons op ops ih =>
    rcases List.mem_cons.1 hmem with rfl | hmem
    · -- once up, the flag stays up until the skeleton goes
      exact Lts.run_of_step (G := fun _ _ => True) (fun d op hd _ => (lasting_asked k).call d op hd)
        (asked_requestClose hc hk) (Lts.along_true _ _)
    · exact ih (ShmOp.shape_step hc op) (hk.trans_le (c.since_step op).nextId) hmem

/-- A disconnect flags each viewer in the list of the stream. -/
theorem asked_sourceRequestClose {c : ShmCtx} (hc : c.Shape) {name : SourceName} {src : ShmSource}
    (hsrc : c.source? name = some src) {a : ℕ} (ha : a ∈ src.subscribers) {s : ShmSession}
    (hs : c.sessions.get a = some s) : Asked s.id (c.sourceRequestClose name).1 := by
  rw [disconnect_run hc, hsrc]
  exact asked_run hc (hc.idBound a s hs) (List.mem_filterMap.2 ⟨a, ha, by rw [hs]; rfl⟩)

end ShmCtx

namespace Proc
variable {p : Proc} {slot : ℕ} {conf : StreamConf} {now : ℕ} {heap : Heap}

theorem sessionClose_thin (p : Proc) (now : ℕ) (heap : Heap) (ev : SessionEvent) (a : ℕ) :
    ThinSh p.sh (p.sessionClose now heap ev a).sh := by
  unfold Proc.sessionClose
  split
  · exact .refl _
  · next sess _ => exact (without_leave p now heap ev a sess).registry.trans (thinSh_call _ rfl)

theorem reapSession_thin (p : Proc) (conf : StreamConf) (now : ℕ) (heap : Heap) (a : ℕ) :
    ThinSh p.sh (Proc.reapSession conf now heap p a).sh := by
  unfold Proc.reapSession
  split
  · exact .refl _
  · split_ifs
    · exact sessionClose_thin p now heap .close a
    · exact sessionClose_thin p now heap .timeout a
    · exact .refl _

theorem reapTimer_thin (p : Proc) (conf : StreamConf) (now : ℕ) (heap : Heap) :
    ThinSh (p.call (.expire now false)).sh (p.reapTimer conf now heap).sh := by
  have hfold : ∀ (l : List ℕ) (q : Proc),
      ThinSh q.sh (l.foldl (Proc.reapSession conf now heap) q).sh := by
    intro l
    induction l with
    | nil => exact fun q => .refl _
    | cons a l ih => exact fun q => (reapSession_thin q conf now heap a).trans (ih _)
  exact hfold _ (p.call (.expire now false))

theorem Backed.reapTimer (h : p.Backed slot) (conf : StreamConf) (now : ℕ) (heap : Heap) :
    (p.reapTimer conf now heap).Backed slot := by
  have hfold : ∀ (l : List ℕ) (q : Proc), q.Backed slot →
      (l.foldl (Proc.reapSession conf now heap) q).Backed slot := by
    intro l
    induction l with
    | nil => exact fun q hq => hq
    | cons a l ih => exact fun q hq => ih _ (hq.reapSession conf now heap a)
  exact hfold _ _ (h.quiet (quiet_call p rfl))

/-- The worker owns the skeleton with the id `k`, if that is still there. -/
def Owns (k slot : ℕ) (p : Proc) : Prop :=
  ∀ c b s, p.sh = some c → c.sessions.get b = some s → s.id = k → s.ownerSlot = some slot

/-- A tick removes a flagged skeleton of the worker, for good. -/
theorem Backed.asked_tick (h : p.Backed slot) {k : ℕ} (hask : p.Has (ShmCtx.Asked k))
    (hown : p.Owns k slot) : (p.reapTimer conf now heap).Has (ShmCtx.Gone k) := by
  intro c hc
  obtain ⟨d, hd, hthin⟩ := reapTimer_thin p conf now heap c hc
  have hafter : (p.reapTimer conf now heap).Has (ShmCtx.Asked k) := by
    rw [reapTimer_run]
    exact hask.run (ShmCtx.lasting_asked k) _
  refine ⟨(hafter c hc).given, fun b s hs hid => ?_⟩
  have hreq := (hafter c hc).flag b s hs hid
  obtain ⟨e, he, rfl⟩ := Option.map_eq_some_iff.1 hd
  have hexp := hthin.get b s hs
  -- the skeleton stands for a session that is still there, though it was kicked
  have hslot : s.ownerSlot = some (p.reapTimer conf now heap).w.slot := by
    rw [(h.reapTimer conf now heap).number]
    rcases ShmCtx.edit_step hexp with ⟨t, ht, rfl⟩ | ⟨-, env, args, src, ho, -⟩
    · exact hown e b _ he ht hid
    · exact nomatch ho
  obtain ⟨a, t, ht, hu, -⟩ := (h.reapTimer conf now heap).held c hc b s hs hslot
  rw [reap_exact h, Option.filter_eq_some_iff] at ht
  have hkick : (p.call (.expire now false)).kicked t = true :=
    ((h.quiet (quiet_call p rfl)).kicked_iff t).2 ⟨b, s, ⟨_, hd, hexp⟩, hu.symm, hreq⟩
  rw [hkick] at ht
  exact nomatch ht.2

theorem Backed.requestClose (h : p.Backed slot) (k : ℕ) : (p.call (.requestClose k)).Backed slot :=
  h.others (Option.some_ne_none _).symm fun _ _ ho => nomatch ho

/-- Requests of the control plane change no user name, no state and no owner. -/
theorem Backed.requests (h : p.Backed slot) (ks : List ℕ) :
    (⟨p.sh.map fun c => Lts.run (fun c op => ShmOp.step c op) c (ks.map .requestClose), p.w⟩ :
      Proc).Backed slot := by
  induction ks generalizing p with
  | nil =>
    rw [List.map_nil, show (fun c : ShmCtx => Lts.run (fun c op => ShmOp.step c op) c []) = id from rfl,
      Option.map_id]
    exact h
  | cons k ks ih =>
    have hall := ih (h.requestClose k)
    rw [show (p.call (.requestClose k)).sh = p.sh.map (ShmOp.requestClose k).step from rfl,
      Option.map_map] at hall
    exact hall

end Proc

/-! ## Runs -/

section Runs
variable {slot nworkers : ℕ} {rings : List (Option MediaRing)} {es : List ProcEvent} {p : Proc}
  {sh' : Option ShmCtx} {query : Query}

theorem httpKick_ok {sh : Option ShmCtx} {atoi : Bytes → Option ℕ} {k : ℕ}
    (hk : (query.argDecoded (Text.ascii "id")).bind atoi = some k)
    (h : httpKick sh true query atoi = (sh', .ok)) :
    ∃ c b s, sh = some c ∧ c.sessions.get b = some s ∧ s.id = k ∧
      sh' = some ((ShmOp.requestClose k).step c) := by
  rw [httpKick, hk] at h
  cases k with
  | zero => exact nomatch congrArg Prod.snd h
  | succ k =>
    cases sh with
    | none => exact nomatch congrArg Prod.snd h
    | some c =>
      have hstep : (ShmOp.requestClose (k + 1)).step c = (c.sessionRequestClose (k + 1)).1 := rfl
      unfold ShmCtx.sessionRequestClose at h hstep
      cases hf : c.sessions.find? fun s => s.id = k + 1 with
      | none =>
        simp only [hf] at h
        exact nomatch congrArg Prod.snd h
      | some b =>
        simp only [hf] at h hstep
        obtain ⟨s, hs, hid⟩ := Pool.find?_spec hf
        exact ⟨c, b, s, rfl, hs, of_decide_eq_true hid, by rw [hstep]; exact (congrArg Prod.fst h).symm⟩

theorem httpDisconnect_ok {sh : Option ShmCtx} {name : SourceName}
    (hname : (query.argDecoded (Text.ascii "name")).bind (BStr.ofBytes shmSourceNameMax) = some name)
    (h : httpDisconnect sh true query = (sh', .ok)) :
    ∃ c src, sh = some c ∧ c.source? name = some src ∧ sh' = some (c.sourceRequestClose name).1 := by
  obtain ⟨val, hval, hbytes⟩ := Option.bind_eq_some_iff.1 hname
  rw [httpDisconnect, hval] at h
  cases val with
  | nil => exact nomatch congrArg Prod.snd h
  | cons x val =>
    cases sh with
    | none => exact nomatch congrArg Prod.snd h
    | some c =>
      have hreq : (c.sourceRequestClose name).2 = .ok → ∃ src, c.source? name = some src := by
        unfold ShmCtx.sourceRequestClose
        split
        · exact nofun
        · next src hsrc => exact fun _ => ⟨src, hsrc⟩
      simp only [Bool.not_true, Bool.false_eq_true, if_false, hbytes, Option.map_some] at h
      split at h
      · next c' hc' =>
        have hpair := Option.some.inj hc'
        obtain ⟨src, hsrc⟩ := hreq (congrArg Prod.snd hpair)
        exact ⟨c, src, rfl, hsrc, (congrArg Prod.fst h).symm.trans
          (congrArg some (congrArg Prod.fst hpair).symm)⟩
      · exact nomatch congrArg Prod.snd h

/-- What was asked of the registry is done at the next tick of the owner, and stays done. -/
theorem Proc.Backed.asked_gone (h : (⟨sh', p.w⟩ : Proc).Backed slot) {k : ℕ}
    (hask : (⟨sh', p.w⟩ : Proc).Has (ShmCtx.Asked k))
    (es' : List ProcEvent) (hes' : Lts.Along Proc.step Proc.FreshNames ⟨sh', p.w⟩ es')
    (hown : (Lts.run Proc.step ⟨sh', p.w⟩ es').Owns k slot) (conf : StreamConf) (now : ℕ) (heap : Heap)
    (es'' : List ProcEvent) :
    (Lts.run Proc.step ((Lts.run Proc.step ⟨sh', p.w⟩ es').reapTimer conf now heap) es'').Has
      (ShmCtx.Gone k) := by
  have hback : (Lts.run Proc.step ⟨sh', p.w⟩ es').Backed slot :=
    Lts.run_of_step (P := fun p => Proc.Backed p slot) (fun _ _ h he => h.step he) h hes'
  exact (hback.asked_tick (hask.run (ShmCtx.lasting_asked k) es') hown).run (ShmCtx.lasting_gone k) es''

variable (hes : Lts.Along Proc.step Proc.FreshNames (.init slot (some (.init nworkers rings))) es)
  (hp : Lts.run Proc.step (.init slot (some (.init nworkers rings))) es = p)
include hes hp

theorem Proc.Backed.reached : p.Backed slot ∧ p.Shaped := by
  have hinit : (Proc.init slot (some (.init nworkers rings))).Shaped :=
    shaped_some.2 (ShmCtx.shape_init nworkers rings)
  subst hp
  exact ⟨(Proc.backed_run hes).last, Proc.shaped_run hinit es⟩

/-- **A tick closes the sessions that are kicked or idle**, in every run, and leaves every other one as
    it is. -/
theorem tick_exact (conf : StreamConf) (now : ℕ) (heap : Heap) (x : ℕ) :
    (p.reapTimer conf now heap).w.sessions.get x = (p.w.sessions.get x).filter fun t =>
      !(p.call (.expire now false)).kicked t && !t.idle conf now :=
  Proc.reap_exact (Proc.Backed.reached hes hp).1 conf now heap x

/-- **A kick takes**: a session that was kicked is gone from the registry after the next tick of the
    worker that owns it then, and stays so, whatever happens in between and after. -/
theorem kick_takes {atoi : Bytes → Option ℕ} {k : ℕ}
    (hk : (query.argDecoded (Text.ascii "id")).bind atoi = some k)
    (hkick : httpKick p.sh true query atoi = (sh', .ok))
    (es' : List ProcEvent) (hes' : Lts.Along Proc.step Proc.FreshNames ⟨sh', p.w⟩ es')
    (hown : (Lts.run Proc.step ⟨sh', p.w⟩ es').Owns k slot) (conf : StreamConf) (now : ℕ) (heap : Heap)
    (es'' : List ProcEvent) :
    (Lts.run Proc.step ((Lts.run Proc.step ⟨sh', p.w⟩ es').reapTimer conf now heap) es'').Has
      (ShmCtx.Gone k) := by
  obtain ⟨hback, hshape⟩ := Proc.Backed.reached hes hp
  obtain ⟨c, b, s, hc, hs, rfl, rfl⟩ := httpKick_ok hk hkick
  have hcall : p.call (.requestClose s.id) = ⟨some ((ShmOp.requestClose s.id).step c), p.w⟩ := by
    rw [Proc.call, hc]
    rfl
  refine Proc.Backed.asked_gone (hcall ▸ hback.requestClose s.id) (fun d hd => ?_) es' hes' hown conf
    now heap es''
  obtain rfl := Option.some.inj hd
  exact ShmCtx.asked_requestClose (hshape c hc) ((hshape c hc).idBound b s hs)

/-- **A disconnect takes**: so is each viewer in the list of a stream that was disconnected. -/
theorem disconnect_takes {name : SourceName}
    (hname : (query.argDecoded (Text.ascii "name")).bind (BStr.ofBytes shmSourceNameMax) = some name)
    (hdisc : httpDisconnect p.sh true query = (sh', .ok))
    {c : ShmCtx} {src : ShmSource} {a : ℕ} {s : ShmSession} (hc : p.sh = some c)
    (hsrc : c.source? name = some src) (ha : a ∈ src.subscribers)
    (hs : c.sessions.get a = some s) (es' : List ProcEvent)
    (hes' : Lts.Along Proc.step Proc.FreshNames ⟨sh', p.w⟩ es')
    (hown : (Lts.run Proc.step ⟨sh', p.w⟩ es').Owns s.id slot) (conf : StreamConf) (now : ℕ) (heap : Heap)
    (es'' : List ProcEvent) :
    (Lts.run Proc.step ((Lts.run Proc.step ⟨sh', p.w⟩ es').reapTimer conf now heap) es'').Has
      (ShmCtx.Gone s.id) := by
  obtain ⟨hback, hshape⟩ := Proc.Backed.reached hes hp
  obtain ⟨d, src', hd, hsrc', rfl⟩ := httpDisconnect_ok hname hdisc
  obtain rfl := Option.some.inj (hc.symm.trans hd)
  have hreq := hback.requests (src.subscribers.filterMap fun a => (c.sessions.get a).map ShmSession.id)
  refine Proc.Backed.asked_gone ?_ (fun e he => ?_) es' hes' hown conf now heap es''
  · rw [ShmCtx.disconnect_run (hshape c hc), hsrc]
    rw [hc, Option.map_some, List.map_filterMap] at hreq
    simp only [Option.map_map] at hreq
    exact hreq
  · obtain rfl := Option.some.inj he
    exact ShmCtx.asked_sourceRequestClose (hshape c hc) hsrc ha hs

end Runs

/-- A request with one argument, which needs no decoding. -/
def sampleQuery (name value : Bytes) : Query where
  arg n := if n = name then some value else none
  unescape := id
  pnalloc _ := true

/-- A tick long after the last sign of the player closes it. -/
theorem tick_exact_idle :
    (Proc.sampleBound.w.sessions.get 0).isSome ∧
      (Proc.sampleBound.reapTimer .default 100000 Heap.ample).w.sessions.get 0 = none :=
  ⟨by decide, (tick_exact Proc.fresh_sampleEvents rfl .default 100000 Heap.ample 0).trans (by decide)⟩

theorem kick_takes_player :
    (httpKick Proc.sampleBound.sh true (sampleQuery (Text.ascii "id") (Text.ascii "1"))
      fun v => if v = Text.ascii "1" then some 1 else none).2 = .ok ∧
    ∀ es'', (Lts.run Proc.step (Proc.reapTimer ⟨(httpKick Proc.sampleBound.sh true
      (sampleQuery (Text.ascii "id") (Text.ascii "1"))
        fun v => if v = Text.ascii "1" then some 1 else none).1, Proc.sampleBound.w⟩ .default 6
          Heap.ample) es'').Has (ShmCtx.Gone 1) := by
  have hok : (httpKick Proc.sampleBound.sh true (sampleQuery (Text.ascii "id") (Text.ascii "1"))
      fun v => if v = Text.ascii "1" then some 1 else none).2 = .ok := by decide
  have hown : ∀ c ∈ (httpKick Proc.sampleBound.sh true (sampleQuery (Text.ascii "id") (Text.ascii "1"))
      fun v => if v = Text.ascii "1" then some 1 else none).1,
        ∀ x ∈ c.sessions.cells, x.2.ownerSlot = some 1 := by decide
  exact ⟨hok, kick_takes Proc.fresh_sampleEvents rfl (by decide) (Prod.ext rfl hok) [] trivial
    (fun c b s hc hs _ => hown c hc (b, s) (Pool.mem_cells_iff.2 hs)) .default 6 Heap.ample⟩

/-- The whole stream of the player is disconnected. -/
theorem disconnect_takes_player :
    (httpDisconnect Proc.sampleBound.sh true (sampleQuery (Text.ascii "name") sampleName.bytes)).2 = .ok ∧
    ∀ es'', (Lts.run Proc.step (Proc.reapTimer ⟨(httpDisconnect Proc.sampleBound.sh true
      (sampleQuery (Text.ascii "name") sampleName.bytes)).1, Proc.sampleBound.w⟩ .default 6
        Heap.ample) es'').Has (ShmCtx.Gone 1) := by
  have hok : (httpDisconnect Proc.sampleBound.sh true
      (sampleQuery (Text.ascii "name") sampleName.bytes)).2 = .ok := by decide
  have hown : ∀ c ∈ (httpDisconnect Proc.sampleBound.sh true
      (sampleQuery (Text.ascii "name") sampleName.bytes)).1,
        ∀ x ∈ c.sessions.cells, x.2.ownerSlot = some 1 := by decide
  have hlisted : Proc.sampleBound.sh.any (fun c => (c.source? sampleName).any fun src =>
      decide (0 ∈ src.subscribers) && (c.sessions.get 0).any fun s => decide (s.id = 1)) = true := by
    decide
  obtain ⟨c, hc, hlisted⟩ := (Option.any_eq_true ..).1 hlisted
  obtain ⟨src, hsrc, hlisted⟩ := (Option.any_eq_true ..).1 hlisted
  rw [Bool.and_eq_true, decide_eq_true_eq] at hlisted
  obtain ⟨s, hs, hid⟩ := (Option.any_eq_true ..).1 hlisted.2
  rw [← of_decide_eq_true hid]
  have hname : ((sampleQuery (Text.ascii "name") sampleName.bytes).argDecoded (Text.ascii "name")).bind
      (BStr.ofBytes shmSourceNameMax) = some sampleName := by decide
  exact ⟨hok, disconnect_takes Proc.fresh_sampleEvents rfl hname (Prod.ext rfl hok) hc hsrc hlisted.1
    hs [] trivial (fun c b s hc hs _ => hown c hc (b, s) (Pool.mem_cells_iff.2 hs)) .default 6 Heap.ample⟩

end NginxRtc
