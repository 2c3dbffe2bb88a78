/-
  The skeletons a worker owns stand for its sessions.

  A worker binds a skeleton when it attaches a session or finishes a handshake, writes the state of
  the session into it, and removes it with the session.

  `Proc.Backed`: user names are not shared, each skeleton the worker owns has a session of its name
  here, and shows the state of that session, unless that has bound no connection yet.
  `backed_run`: this holds in every run in which new user names are unused ones and no other worker
  acts under this worker's number.  `attach_new`: a worker never attaches a session whose handshake
  is done.
-/
import NginxRtc.Worker.Attempt
import NginxRtc.Worker.Links
import NginxRtc.Worker.Quiet

namespace NginxRtc

/-! ## User names -/

/-- No two skeletons have one user name, and a ready one has an owner. -/
structure ShmCtx.Distinct (c : ShmCtx) : Prop where
  user : ∀ b b' s s', c.sessions.get b = some s → c.sessions.get b' = some s' →
    s.iceUfrag = s'.iceUfrag → b = b'
  ready : ∀ b s, c.sessions.get b = some s → s.srtpReady = true → s.ownerSlot.isSome

/-- No two sessions have one user name, and one with a handshake under way is in that state. -/
structure Worker.Distinct (w : Worker) : Prop where
  user : ∀ a a' t t', w.sessions.get a = some t → w.sessions.get a' = some t' →
    t.iceUfrag = t'.iceUfrag → a = a'
  handshake : ∀ a t, w.sessions.get a = some t → t.dtls = some false → t.fsm = .dtlsHandshake

namespace ShmCtx
variable {c c' : ShmCtx}

theorem Distinct.thins (h : c.Distinct) (ht : c.Thins c') : c'.Distinct where
  user b b' s s' hs hs' := h.user b b' s s' (ht.get b s hs) (ht.get b' s' hs')
  ready b s hs := h.ready b s (ht.get b s hs)

theorem Distinct.lookup (h : c.Distinct) {b : ℕ} {s : ShmSession} (hs : c.sessions.get b = some s) :
    c.sessionLookup s.iceUfrag = some b :=
  Pool.find?_eq_of_unique hs (decide_eq_true rfl) fun b' s' hs' hu =>
    h.user b' b s' s hs' hs (of_decide_eq_true hu)

/-- User names stay distinct when new ones are unused. -/
theorem Distinct.step (h : c.Distinct) {op : ShmOp} (hadd : ∀ env args, op = .sessionAdd env args →
    ∀ b s, c.sessions.get b = some s → s.iceUfrag ≠ args.ufrag) : (op.step c).Distinct where
  user b b' s s' hs hs' hu := by
    rcases edit_step hs with ⟨t, ht, rfl⟩ | ⟨hb, env, args, src, hop, -, rfl⟩
    · rw [ShmOp.edit_ufrag] at hu
      rcases edit_step hs' with ⟨t', ht', rfl⟩ | ⟨-, env, args, src, hop, -, rfl⟩
      · exact h.user b b' t t' ht ht' (hu.trans (ShmOp.edit_ufrag ..))
      · exact absurd hu (hadd env args hop b t ht)
    · rcases edit_step hs' with ⟨t', ht', rfl⟩ | ⟨hb', -⟩
      · exact absurd ((ShmOp.edit_ufrag ..).symm.trans hu.symm) (hadd env args hop b' t' ht')
      · exact hb.trans hb'.symm
  ready b s hs := by
    rcases edit_step hs with ⟨t, ht, rfl⟩ | ⟨rfl, env, args, src, rfl, -, rfl⟩
    · exact ShmOp.edit_ready (h.ready b t ht)
    · exact fun hr => nomatch hr

/-- What a worker's removal leaves of a user name is not its own. -/
theorem Distinct.removed (h : c.Distinct) {now slot b : ℕ} {ufrag : Ufrag} {s : ShmSession}
    (hs : (c.sessionRemoveIfOwner now ufrag slot).sessions.get b = some s) (hu : s.iceUfrag = ufrag) :
    s.ownableBy slot = false := by
  have hold := (c.thins_sessionRemoveIfOwner now ufrag slot).get b s hs
  have hl := h.lookup hold
  rw [hu] at hl
  rw [sessionRemoveIfOwner, hl] at hs
  simp only [hold] at hs
  split_ifs at hs with hown
  · rw [sessionFree_session, if_pos rfl] at hs
    exact absurd hs (Option.some_ne_none s).symm
  · exact Bool.eq_false_iff.2 hown

end ShmCtx

/-- The call shows the state `st` in the skeleton called `ufrag`, if that is then owned by `slot`, and
    writes no other. -/
def ShmOp.Shows (c : ShmCtx) (ufrag : Ufrag) (slot : ℕ) (st : SessionState) (op : ShmOp) : Prop :=
  ∀ b s, c.sessions.get b = some s →
    (s.iceUfrag ≠ ufrag → op.edit c b s = s) ∧
      (s.iceUfrag = ufrag → (op.edit c b s).ownerSlot = some slot → (op.edit c b s).state = st)

theorem ShmCtx.Distinct.shows_setState {c : ShmCtx} (h : c.Distinct) (ufrag : Ufrag) (slot : ℕ)
    (st : SessionState) : (ShmOp.setState ufrag slot st).Shows c ufrag slot st := by
  intro b s hs
  have hl := h.lookup hs
  refine ⟨fun hu => ?_, fun hu => ?_⟩
  · simp only [ShmOp.edit]
    refine if_neg fun hc => hu ?_
    obtain ⟨t, ht, hut⟩ := Pool.find?_spec hc.1
    obtain rfl := Option.some.inj (hs.symm.trans ht)
    exact of_decide_eq_true hut
  · simp only [ShmOp.edit]
    split_ifs with hc
    · exact fun _ => rfl
    · intro hw
      exact absurd ⟨hu ▸ hl, (ShmSession.ownableBy_owned hw).2 rfl⟩ hc

theorem ShmCtx.Distinct.shows_activate {c : ShmCtx} (h : c.Distinct) (ufrag : Ufrag) (slot : ℕ) :
    (ShmOp.activate ufrag slot).Shows c ufrag slot .srtpReady := by
  intro b s hs
  have hl := h.lookup hs
  refine ⟨fun hu => ?_, fun hu => ?_⟩
  · simp only [ShmOp.edit]
    refine if_neg fun hc => hu ?_
    obtain ⟨t, ht, hut⟩ := Pool.find?_spec hc.1
    obtain rfl := Option.some.inj (hs.symm.trans ht)
    exact of_decide_eq_true hut
  · simp only [ShmOp.edit]
    split_ifs with hc
    · exact fun _ => rfl
    · exact fun _ => rfl
    · intro hw
      exact absurd ⟨hu ▸ hl, (ShmSession.ownableBy_owned hw).2 rfl⟩ hc

namespace Proc

/-- **The skeletons a worker owns stand for its sessions.** -/
structure Backed (p : Proc) (slot : ℕ) : Prop where
  number : p.w.slot = slot
  registry : ∀ c, p.sh = some c → c.Distinct
  sessions : p.w.Distinct
  held : ∀ c, p.sh = some c → ∀ b s, c.sessions.get b = some s → s.ownerSlot = some p.w.slot →
    ∃ a t, p.w.sessions.get a = some t ∧ t.iceUfrag = s.iceUfrag ∧ (t.fsm = .new ∨ s.state = t.fsm)

/-- No skeleton has the user name. -/
def Unregistered (ufrag : Ufrag) (p : Proc) : Prop :=
  ∀ c, p.sh = some c → ∀ b s, c.sessions.get b = some s → s.iceUfrag ≠ ufrag

/-- No skeleton and no session of this worker has the user name. -/
def Unused (ufrag : Ufrag) (p : Proc) : Prop :=
  p.Unregistered ufrag ∧ ∀ a t, p.w.sessions.get a = some t → t.iceUfrag ≠ ufrag

section Backed
variable {p q : Proc} {slot : ℕ} {ufrag : Ufrag}

theorem Backed.quiet (h : p.Backed slot) (hq : p.Quiet q) : q.Backed slot where
  number := hq.slot.trans h.number
  registry c' hc' := by
    obtain ⟨c, hc, hthin⟩ := hq.registry c' hc'
    exact (h.registry c hc).thins hthin
  sessions := by
    refine ⟨fun a a' t t' ht ht' hu => ?_, fun a t ht hd => ?_⟩
    · obtain ⟨u, hs, hf⟩ := hq.before ht
      obtain ⟨u', hs', hf'⟩ := hq.before ht'
      exact h.sessions.user a a' u u' hs hs'
        (((Session.face_eq hf).1.trans hu).trans (Session.face_eq hf').1.symm)
    · obtain ⟨u, hs, hf⟩ := hq.before ht
      obtain ⟨-, hfsm, hdtls⟩ := Session.face_eq hf
      exact hfsm ▸ h.sessions.handshake a u hs (hdtls.trans hd)
  held c' hc' b s hs hw := by
    obtain ⟨c, hc, hthin⟩ := hq.registry c' hc'
    obtain ⟨a, t, ht, hu, hstate⟩ := h.held c hc b s (hthin.get b s hs) (hq.slot ▸ hw)
    obtain ⟨t', ht', hf⟩ := hq.after ht
    obtain ⟨huser, hfsm, -⟩ := Session.face_eq hf
    exact ⟨a, t', ht', huser.trans hu, hfsm ▸ hstate⟩

theorem Unregistered.quiet (h : p.Unregistered ufrag) (hq : p.Quiet q) : q.Unregistered ufrag := by
  intro c' hc' b s hs
  obtain ⟨c, hc, hthin⟩ := hq.registry c' hc'
  exact h c hc b s (hthin.get b s hs)

theorem Unused.quiet (h : p.Unused ufrag) (hq : p.Quiet q) : q.Unused ufrag := by
  refine ⟨h.1.quiet hq, fun a t ht => ?_⟩
  obtain ⟨u, hu, hf⟩ := hq.before ht
  exact (Session.face_eq hf).1 ▸ h.2 a u hu

/-- A call of another worker. -/
theorem Backed.others (h : p.Backed slot) {op : ShmOp} (hop : op.slot? ≠ some p.w.slot)
    (hadd : ∀ env args, op = .sessionAdd env args → p.Unregistered args.ufrag) :
    (p.call op).Backed slot where
  number := h.number
  registry c' hc' := by
    obtain ⟨c, hc, rfl⟩ := Option.map_eq_some_iff.1 hc'
    exact (h.registry c hc).step fun env args ho => hadd env args ho c hc
  sessions := h.sessions
  held c' hc' b s hs hw := by
    obtain ⟨c, hc, rfl⟩ := Option.map_eq_some_iff.1 hc'
    rcases ShmCtx.edit_step hs with ⟨t, ht, rfl⟩ | ⟨rfl, env, args, src, rfl, -, rfl⟩
    · obtain ⟨howner, hstate⟩ := ShmOp.edit_other hop hw
      rw [hstate, ShmOp.edit_ufrag]
      exact h.held c hc b t ht howner
    · exact nomatch hw

/-! ### Writing the state of a session -/

/-- The session at `a` goes to the state `st`, and the call shows that state. -/
theorem Backed.write (h : p.Backed slot) {a : ℕ} {t : Session} (ht : p.w.sessions.get a = some t)
    (w : Worker) (st : SessionState) (d : Option Bool) (hslot : w.slot = p.w.slot)
    (hface : ∀ x, (w.sessions.get x).map Session.face =
      if x = a then some (t.iceUfrag, st, d) else (p.w.sessions.get x).map Session.face)
    (hd : d = some false → st = .dtlsHandshake) {op : ShmOp}
    (hadd : ∀ env args, op ≠ .sessionAdd env args)
    (hshow : ∀ c, p.sh = some c → op.Shows c t.iceUfrag p.w.slot st) :
    (Proc.call ⟨p.sh, w⟩ op).Backed slot := by
  have hself : ∃ u, w.sessions.get a = some u ∧ u.face = (t.iceUfrag, st, d) := by
    have ha := hface a
    rw [if_pos rfl] at ha
    exact Option.map_eq_some_iff.1 ha
  -- a session of `w` is one of `p`, or the one rewritten
  have hold : ∀ x u, w.sessions.get x = some u → (∃ v, p.w.sessions.get x = some v ∧
      v.iceUfrag = u.iceUfrag) ∧ (u.dtls = some false → u.fsm = .dtlsHandshake) := by
    intro x u hu
    have hx := hface x
    rw [hu, Option.map_some] at hx
    split_ifs at hx with hxa
    · obtain ⟨huser, hfsm, hdtls⟩ := Prod.mk.inj (Option.some.inj hx) |>.imp id Prod.mk.inj
      exact ⟨⟨t, hxa ▸ ht, huser.symm⟩, fun hu => hfsm.trans (hd (hdtls ▸ hu))⟩
    · obtain ⟨v, hv, hf⟩ := Option.map_eq_some_iff.1 hx.symm
      obtain ⟨huser, hfsm, hdtls⟩ := Session.face_eq hf
      exact ⟨⟨v, hv, huser⟩, fun hu => hfsm ▸ h.sessions.handshake x v hv (hdtls.trans hu)⟩
  refine ⟨hslot.trans h.number, fun c' hc' => ?_,
    ⟨fun x x' u u' hu hu' huser => ?_, fun x u hu => (hold x u hu).2⟩, fun c' hc' b s hs hw => ?_⟩
  · obtain ⟨c, hc, rfl⟩ := Option.map_eq_some_iff.1 hc'
    exact (h.registry c hc).step fun env args ho => absurd ho (hadd env args)
  · obtain ⟨⟨v, hv, hvu⟩, -⟩ := hold x u hu
    obtain ⟨⟨v', hv', hvu'⟩, -⟩ := hold x' u' hu'
    exact h.sessions.user x x' v v' hv hv' ((hvu.trans huser).trans hvu'.symm)
  · obtain ⟨c, hc, rfl⟩ := Option.map_eq_some_iff.1 hc'
    rcases ShmCtx.edit_step hs with ⟨s, hold, rfl⟩ | ⟨-, env, args, src, ho, -⟩
    · obtain ⟨hmiss, hhit⟩ := hshow c hc b s hold
      by_cases hu : s.iceUfrag = t.iceUfrag
      · obtain ⟨u, hget, hf⟩ := hself
        obtain ⟨huser, hfsm⟩ := Prod.mk.inj hf |>.imp id fun hf => (Prod.mk.inj hf).1
        refine ⟨a, u, hget, ?_, .inr ?_⟩
        · rw [ShmOp.edit_ufrag, hu]
          exact huser
        · exact (hhit hu (hslot ▸ hw)).trans hfsm.symm
      · rw [hmiss hu] at hw ⊢
        obtain ⟨x, v, hv, hvu, hstate⟩ := h.held c hc b s hold (hslot ▸ hw)
        have hne : x ≠ a := by
          rintro rfl
          obtain rfl := Option.some.inj (ht.symm.trans hv)
          exact hu hvu.symm
        have hx := hface x
        rw [if_neg hne, hv] at hx
        obtain ⟨u, hget, hf⟩ := Option.map_eq_some_iff.1 hx
        obtain ⟨huser, hfsm, -⟩ := Session.face_eq hf
        exact ⟨x, u, hget, huser.trans hvu, hfsm ▸ hstate⟩
    · exact absurd ho (hadd env args)

/-- What a rewrite of the session at `a` makes of the faces. -/
theorem face_modify {w : Worker} {a : ℕ} {t : Session} (ht : w.sessions.get a = some t)
    (f : Session → Session) (x : ℕ) :
    ((w.modifySession a f).sessions.get x).map Session.face =
      if x = a then some (f t).face else (w.sessions.get x).map Session.face := by
  show ((w.sessions.modify a f).get x).map _ = _
  rw [Pool.get_modify]
  split_ifs with hx
  · rw [hx, ht, Option.map_some, Option.map_some]
  · rfl

/-- The session at `a` changes, and its state is published. -/
theorem Backed.publish (h : p.Backed slot) {a : ℕ} {t : Session} (ht : p.w.sessions.get a = some t)
    {f : Session → Session} (huser : (f t).iceUfrag = t.iceUfrag)
    (hd : (f t).dtls = some false → (f t).fsm = .dtlsHandshake) :
    ((p.upd fun w => w.modifySession a f).publishState a).Backed slot := by
  have hget : (p.w.modifySession a f).sessions.get a = some (f t) := by
    show (p.w.sessions.modify a f).get a = _
    rw [Pool.get_modify, if_pos rfl, ht, Option.map_some]
  have hpublish : (p.upd fun w => w.modifySession a f).publishState a =
      Proc.call ⟨p.sh, p.w.modifySession a f⟩ (.setState t.iceUfrag p.w.slot (f t).fsm) := by
    rw [Proc.publishState]
    simp only [Proc.upd, hget, huser]
    rfl
  rw [hpublish]
  refine h.write ht (p.w.modifySession a f) (f t).fsm (f t).dtls rfl (fun x => ?_) hd
    (fun _ _ ho => by cases ho) fun c hc => (h.registry c hc).shows_setState _ _ _
  rw [face_modify ht f x, Session.face, huser]

theorem Backed.bindConn (h : p.Backed slot) (now c a : ℕ) : (p.bindConn now c a).Backed slot := by
  unfold Proc.bindConn
  refine Backed.quiet ?_ (quiet_upd _ rfl rfl)
  cases ht : p.w.sessions.get a with
  | none =>
    have hnone : (p.w.sessions.modify a fun s =>
        { (s.dispatch .stunBinding (some ⟨some c, none⟩)) with conn := some c, lastActive := now }) =
          p.w.sessions := Pool.modify_of_none ht _
    have hw : (p.upd fun w => w.modifySession a fun s =>
        { (s.dispatch .stunBinding (some ⟨some c, none⟩)) with conn := some c, lastActive := now }) =
          p := by
      show (⟨p.sh, { p.w with sessions := _ }⟩ : Proc) = p
      rw [hnone]
    rw [hw, Proc.publishState, ht]
    exact h
  | some t =>
    refine h.publish ht rfl fun hd => ?_
    -- a handshake under way is not disturbed by a binding
    show (fsmDispatch t.fsm .stunBinding (some ⟨some c, none⟩)).1 = .dtlsHandshake
    rw [h.sessions.handshake a t ht hd]
    rfl

/-- A session of an unused name is registered. -/
theorem Backed.enter (h : p.Backed slot) {t : Session}
    (hnew : ∀ a u, p.w.sessions.get a = some u → u.iceUfrag ≠ t.iceUfrag) (hdtls : t.dtls = none) :
    (p.upd fun w => w.sessionAdd t).Backed slot := by
  have hget : ∀ x, (p.upd fun w => w.sessionAdd t).w.sessions.get x =
      if x = p.w.sessions.next then some t else p.w.sessions.get x := Pool.get_alloc _ _
  refine ⟨h.number, h.registry, ⟨fun x x' u u' hu hu' hname => ?_, fun x u hu hd => ?_⟩,
    fun c hc b s hs hw => ?_⟩
  · rw [hget] at hu hu'
    split_ifs at hu hu' with hx hx' hx'
    · exact hx.trans hx'.symm
    · exact absurd ((Option.some.inj hu) ▸ hname.symm) (hnew x' u' hu')
    · exact absurd ((Option.some.inj hu') ▸ hname) (hnew x u hu)
    · exact h.sessions.user x x' u u' hu hu' hname
  · rw [hget] at hu
    split_ifs at hu
    · obtain rfl := Option.some.inj hu
      exact nomatch hdtls.symm.trans hd
    · exact h.sessions.handshake x u hu hd
  · obtain ⟨a, u, hu, hname, hstate⟩ := h.held c hc b s hs hw
    exact ⟨a, u, Pool.get_alloc_of_some hu, hname, hstate⟩

/-- The skeleton of a session that has bound no connection is bound. -/
theorem Backed.bind (h : p.Backed slot) {a : ℕ} {t : Session} (ht : p.w.sessions.get a = some t)
    (hfsm : t.fsm = .new) : (p.call (.bind t.iceUfrag p.w.slot)).Backed slot := by
  refine ⟨h.number, fun c' hc' => ?_, h.sessions, fun c' hc' b s hs hw => ?_⟩
  · obtain ⟨c, hc, rfl⟩ := Option.map_eq_some_iff.1 hc'
    exact (h.registry c hc).step fun _ _ ho => nomatch ho
  · obtain ⟨c, hc, rfl⟩ := Option.map_eq_some_iff.1 hc'
    rcases ShmCtx.edit_step hs with ⟨u, hu, rfl⟩ | ⟨-, env, args, src, ho, -⟩
    · by_cases hname : u.iceUfrag = t.iceUfrag
      · exact ⟨a, t, ht, (hname.symm.trans (ShmOp.edit_ufrag ..).symm), .inl hfsm⟩
      · have hsame : (ShmOp.bind t.iceUfrag p.w.slot).edit c b u = u := by
          simp only [ShmOp.edit]
          refine if_neg fun hl => hname ?_
          obtain ⟨v, hv, hvu⟩ := Pool.find?_spec hl.1
          obtain rfl := Option.some.inj (hu.symm.trans hv)
          exact of_decide_eq_true hvu
        rw [hsame] at hw ⊢
        exact h.held c hc b u hu hw
    · exact nomatch ho

/-- **Only an unowned skeleton that is not ready is attached**, by a worker that has no session of its
    name. -/
theorem Backed.attach_cases (h : p.Backed slot) (env : Env) (heap : Heap)
    (hfind : p.w.sessionFind ufrag = none) :
    p.attachFromShm env heap ufrag = (p, none) ∨
      ∃ c b s, p.sh = some c ∧ c.sessions.get b = some s ∧ s.iceUfrag = ufrag ∧ s.ownerSlot = none ∧
        s.srtpReady = false ∧
        p.attachFromShm env heap ufrag =
          ((Proc.attachSource ⟨some ((ShmOp.bind ufrag p.w.slot).step c), p.w⟩ env heap
              (c.snapshotOf s)).1.upd fun w =>
            w.sessionAdd { Session.ofSnapshot env.now (c.snapshotOf s) with
              source := (Proc.attachSource ⟨some ((ShmOp.bind ufrag p.w.slot).step c), p.w⟩ env heap
                (c.snapshotOf s)).2 }, some p.w.sessions.next) := by
  cases hsh : p.sh with
  | none =>
    left
    rw [Proc.attachFromShm, hsh]
  | some c =>
    cases hheap : heap.session with
    | false =>
      left
      rw [Proc.attachFromShm, hsh]
      simp [hheap]
    | true =>
      cases hl : c.sessionLookup ufrag with
      | none =>
        left
        rw [Proc.attachFromShm, hsh]
        simp [hheap, ShmCtx.sessionBind, hl]
      | some b =>
        obtain ⟨s, hs, hu⟩ := Pool.find?_spec hl
        obtain rfl := of_decide_eq_true hu
        by_cases hown : s.ownableBy p.w.slot = true
        · have hnone : s.ownerSlot = none := by
            rw [ShmSession.ownableBy, Bool.or_eq_true, decide_eq_true_eq, decide_eq_true_eq] at hown
            refine hown.resolve_right fun hw => ?_
            obtain ⟨a, t, ht, hname, -⟩ := h.held c hsh b s hs hw
            exact of_decide_eq_false (Pool.find?_eq_none.1 hfind a t ht) hname
          refine .inr ⟨c, b, s, rfl, hs, rfl, hnone, ?_, ?_⟩
          · refine Bool.eq_false_iff.2 fun hr => ?_
            have hsome := (h.registry c hsh).ready b s hs hr
            rw [hnone] at hsome
            exact Bool.false_ne_true hsome
          · rw [Proc.attachFromShm, hsh]
            simp [hheap, ShmCtx.sessionBind, hl, hs, hown, ShmOp.step]
        · left
          rw [Proc.attachFromShm, hsh]
          simp [hheap, ShmCtx.sessionBind, hl, hs, hown]

/-- **No attached session starts in SRTP_READY.** -/
theorem Backed.attach_new (h : p.Backed slot) {env : Env} {heap : Heap} {a : ℕ} {t : Session}
    (hfind : p.w.sessionFind ufrag = none) (ha : (p.attachFromShm env heap ufrag).2 = some a)
    (ht : (p.attachFromShm env heap ufrag).1.w.sessions.get a = some t) : t.fsm = .new := by
  rcases h.attach_cases env heap hfind with he | ⟨c, b, s, -, -, -, -, hr, he⟩ <;> rw [he] at ha ht
  · exact nomatch ha
  · obtain rfl := Option.some.inj ha
    have hsessions := attachSource_sessions
      ⟨some ((ShmOp.bind ufrag p.w.slot).step c), p.w⟩ env heap (c.snapshotOf s)
    change (Pool.alloc _ _).get _ = some t at ht
    rw [hsessions, Pool.get_alloc_self] at ht
    obtain rfl := Option.some.inj ht
    show (if s.srtpReady = true then SessionState.srtpReady else .new) = .new
    rw [hr]
    rfl

theorem Backed.findOrAttach (h : p.Backed slot) (env : Env) (heap : Heap) (ufrag : Ufrag) :
    (p.findOrAttach env heap ufrag).1.Backed slot := by
  unfold Proc.findOrAttach
  cases hfind : p.w.sessionFind ufrag with
  | some a => exact h
  | none =>
    rcases h.attach_cases env heap hfind with he | ⟨c, b, s, hc, hs, rfl, -, hr, he⟩
    · rw [he]
      exact h
    · rw [he]
      have hsessions := attachSource_sessions
        ⟨some ((ShmOp.bind s.iceUfrag p.w.slot).step c), p.w⟩ env heap (c.snapshotOf s)
      have hq := quiet_attachSource
        ⟨some ((ShmOp.bind s.iceUfrag p.w.slot).step c), p.w⟩ env heap (c.snapshotOf s)
      have hfsm : (Session.ofSnapshot env.now (c.snapshotOf s)).fsm = .new := by
        show (if s.srtpReady = true then SessionState.srtpReady else .new) = .new
        rw [hr]
        rfl
      have henter : (p.upd fun w => w.sessionAdd { Session.ofSnapshot env.now (c.snapshotOf s) with
          source := (Proc.attachSource ⟨some ((ShmOp.bind s.iceUfrag p.w.slot).step c), p.w⟩ env heap
            (c.snapshotOf s)).2 }).Backed slot :=
        h.enter (fun a t ht hu => of_decide_eq_false (Pool.find?_eq_none.1 hfind a t ht) hu) rfl
      refine (henter.bind (Pool.get_alloc_self _ _) hfsm).quiet ⟨hq.slot, fun a => ?_, ?_⟩
      · show ((Pool.alloc _ _).get a).map _ = ((Pool.alloc _ _).get a).map _
        rw [hsessions]
      · show ThinSh (p.sh.map _) _
        rw [hc]
        exact hq.registry

theorem Backed.onStun (h : p.Backed slot) (env : Env) (heap : Heap) (c : ℕ) (ufrag : Ufrag)
    (verified : Pwd → Bool) : (p.onStun env heap c ufrag verified).Backed slot := by
  have hf := h.findOrAttach env heap ufrag
  unfold Proc.onStun
  split
  · next he =>
    rw [he] at hf
    exact hf
  · next a he =>
    rw [he] at hf
    split
    · exact hf
    · split_ifs
      · exact hf.bindConn env.now c a
      · exact hf

/-! ### Closing -/

/-- The sessions but the one at `a` and the skeletons are let alone, and the one at `a` is gone. -/
structure Without (a : ℕ) (p q : Proc) : Prop where
  slot : q.w.slot = p.w.slot
  gone : q.w.sessions.get a = none
  face : ∀ x, x ≠ a → (q.w.sessions.get x).map Session.face = (p.w.sessions.get x).map Session.face
  registry : ThinSh p.sh q.sh

theorem leave_sessions (w : Worker) (a : ℕ) (sess : Session) :
    (w.leave a sess).slot = w.slot ∧ ∀ x,
      (w.leave a sess).sessions.get x = if x = a then none else w.sessions.get x := by
  unfold Worker.leave
  split
  · exact ⟨rfl, fun x => Pool.get_free ..⟩
  · next src _ =>
    rcases w.unsubscribe_cases src a with he | ⟨-, hd⟩
    · rw [he]
      exact ⟨rfl, fun x => Pool.get_free ..⟩
    · refine ⟨hd.slot, fun x => ?_⟩
      show ((w.unsubscribe src a).sessions.free a).get x = _
      rw [hd.sessions, Pool.get_free]
      split_ifs with hx
      · rfl
      · exact Pool.get_modify_of_ne hx _

theorem detach_sessions (w : Worker) (closeEv : Bool) (a : ℕ) (sess : Session) :
    (w.detach closeEv a sess).slot = w.slot ∧ ∀ x, x ≠ a →
      (w.detach closeEv a sess).sessions.get x = w.sessions.get x := by
  unfold Worker.detach
  split
  · exact ⟨rfl, fun _ _ => rfl⟩
  · exact ⟨rfl, fun x hx => Pool.get_modify_of_ne hx _⟩

/-- A close up to the removal of the skeleton. -/
theorem without_leave (p : Proc) (now : ℕ) (heap : Heap) (ev : SessionEvent) (a : ℕ)
    (sess : Session) :
    Without a p (((p.upd fun w => (w.detach heap.closeEv a sess).modifySession a
      (Session.dispatch ev none)).releaseOwned now sess).upd fun w => w.leave a sess) := by
  obtain ⟨hslot, hother⟩ := detach_sessions p.w heap.closeEv a sess
  have hq := quiet_releaseOwned (p.upd fun w => (w.detach heap.closeEv a sess).modifySession a
    (Session.dispatch ev none)) now sess
  obtain ⟨hleave, hget⟩ := leave_sessions ((p.upd fun w => (w.detach heap.closeEv a sess).modifySession a
    (Session.dispatch ev none)).releaseOwned now sess).w a sess
  refine ⟨(hleave.trans hq.slot).trans hslot, (hget a).trans (if_pos rfl), fun x hx => ?_, hq.registry⟩
  refine (congrArg (Option.map Session.face) ((hget x).trans (if_neg hx))).trans ((hq.face x).trans ?_)
  show (((p.w.detach heap.closeEv a sess).sessions.modify a _).get x).map _ = _
  rw [Pool.get_modify_of_ne hx, hother x hx]

/-- The skeleton of the session that went goes with it. -/
theorem Backed.without (h : p.Backed slot) {a : ℕ} {t : Session} (ht : p.w.sessions.get a = some t)
    (hq : Without a p q) (now : ℕ) : (q.call (.removeIfOwner now t.iceUfrag q.w.slot)).Backed slot := by
  have hold : ∀ x u, q.w.sessions.get x = some u →
      ∃ v, p.w.sessions.get x = some v ∧ v.face = u.face := by
    intro x u hu
    have hx : x ≠ a := fun hx => nomatch (hx ▸ hq.gone).symm.trans hu
    have hf := hq.face x hx
    rw [hu] at hf
    exact Option.map_eq_some_iff.1 hf.symm
  refine ⟨hq.slot.trans h.number, fun c' hc' => ?_,
    ⟨fun x x' u u' hu hu' huser => ?_, fun x u hu hd => ?_⟩, fun c' hc' b s hs hw => ?_⟩
  · obtain ⟨d, hd, rfl⟩ := Option.map_eq_some_iff.1 hc'
    obtain ⟨c, hc, hthin⟩ := hq.registry d hd
    exact ((h.registry c hc).thins hthin).step fun _ _ ho => nomatch ho
  · obtain ⟨v, hv, hf⟩ := hold x u hu
    obtain ⟨v', hv', hf'⟩ := hold x' u' hu'
    exact h.sessions.user x x' v v' hv hv'
      (((Session.face_eq hf).1.trans huser).trans (Session.face_eq hf').1.symm)
  · obtain ⟨v, hv, hf⟩ := hold x u hu
    obtain ⟨-, hvf, hvd⟩ := Session.face_eq hf
    exact hvf ▸ h.sessions.handshake x v hv (hvd.trans hd)
  · obtain ⟨d, hd, rfl⟩ := Option.map_eq_some_iff.1 hc'
    obtain ⟨c, hc, hthin⟩ := hq.registry d hd
    have hsd := (d.thins_sessionRemoveIfOwner now t.iceUfrag q.w.slot).get b s hs
    obtain ⟨x, v, hv, hvu, hstate⟩ := h.held c hc b s (hthin.get b s hsd) (hq.slot ▸ hw)
    have hx : x ≠ a := by
      rintro rfl
      obtain rfl := Option.some.inj (ht.symm.trans hv)
      have hnot := ((h.registry c hc).thins hthin).removed hs hvu.symm
      have hown : s.ownableBy q.w.slot = true := (ShmSession.ownableBy_owned hw).2 rfl
      exact Bool.false_ne_true (hnot.symm.trans hown)
    have hf := hq.face x hx
    rw [hv] at hf
    obtain ⟨u, hu, hf⟩ := Option.map_eq_some_iff.1 hf
    obtain ⟨hf1, hf2, -⟩ := Session.face_eq hf
    exact ⟨x, u, hu, hf1.trans hvu, hf2 ▸ hstate⟩

theorem Backed.sessionClose (h : p.Backed slot) (now : ℕ) (heap : Heap) (ev : SessionEvent) (a : ℕ) :
    (p.sessionClose now heap ev a).Backed slot := by
  unfold Proc.sessionClose
  split
  · exact h
  · next sess ht =>
    have hq := without_leave p now heap ev a sess
    have hc := h.without ht hq now
    rw [hq.slot] at hc
    exact hc

/-! ### The handshake -/

/-- A rewrite that keeps the name and the state. -/
theorem Backed.modify (h : p.Backed slot) (a : ℕ) {f : Session → Session}
    (huser : ∀ t, (f t).iceUfrag = t.iceUfrag) (hfsm : ∀ t, (f t).fsm = t.fsm)
    (hd : ∀ t, p.w.sessions.get a = some t → (f t).dtls = some false → t.fsm = .dtlsHandshake) :
    (p.upd fun w => w.modifySession a f).Backed slot := by
  have hold : ∀ x u, (p.w.modifySession a f).sessions.get x = some u → ∃ v,
      p.w.sessions.get x = some v ∧ v.iceUfrag = u.iceUfrag ∧
        (u.dtls = some false → u.fsm = .dtlsHandshake) := by
    intro x u hu
    change (p.w.sessions.modify a f).get x = some u at hu
    rw [Pool.get_modify] at hu
    split_ifs at hu with hx
    · obtain ⟨v, hv, rfl⟩ := Option.map_eq_some_iff.1 hu
      exact ⟨v, hv, (huser v).symm, fun hu => (hfsm v).trans (hd v (hx ▸ hv) hu)⟩
    · exact ⟨u, hu, rfl, h.sessions.handshake x u hu⟩
  refine ⟨h.number, h.registry, ⟨fun x x' u u' hu hu' hname => ?_, fun x u hu => ?_⟩,
    fun c hc b s hs hw => ?_⟩
  · obtain ⟨v, hv, hvu, -⟩ := hold x u hu
    obtain ⟨v', hv', hvu', -⟩ := hold x' u' hu'
    exact h.sessions.user x x' v v' hv hv' ((hvu.trans hname).trans hvu'.symm)
  · obtain ⟨v, hv, -, hh⟩ := hold x u hu
    exact hh
  · obtain ⟨x, v, hv, hvu, hstate⟩ := h.held c hc b s hs hw
    by_cases hx : x = a
    · refine ⟨x, f v, ?_, (huser v).trans hvu, (hfsm v).symm ▸ hstate⟩
      show (p.w.sessions.modify a f).get x = _
      rw [Pool.get_modify, if_pos hx, hv, Option.map_some]
    · exact ⟨x, v, (Pool.get_modify_of_ne hx f).trans hv, hvu, hstate⟩

theorem Backed.closeIfPending (h : p.Backed slot) (now : ℕ) (heap : Heap) (a : ℕ) :
    (Proc.dtlsFinish.closeIfPending now heap a p).Backed slot := by
  unfold Proc.dtlsFinish.closeIfPending
  split_ifs
  · exact h.sessionClose now heap .close a
  · exact h

theorem Backed.dtlsDone (h : p.Backed slot) (now a : ℕ) (keys : Bool)
    (hh : ∀ t, p.w.sessions.get a = some t → t.fsm = .dtlsHandshake ∧ t.dtls ≠ some false) :
    (p.dtlsDone now a keys).Backed slot := by
  unfold Proc.dtlsDone
  split_ifs
  · exact h.quiet (quiet_modifySession p a fun _ => rfl)
  · split
    · exact h
    · next t ht =>
      obtain ⟨hfsm, hdtls⟩ := hh t ht
      have hready : (t.dispatch .dtlsHandshakeDone none).fsm = .srtpReady := by
        show (fsmDispatch t.fsm .dtlsHandshakeDone none).1 = _
        rw [hfsm]
        rfl
      have hbase := face_modify ht fun s =>
        { (s.dispatch .dtlsHandshakeDone none) with lastActive := now }
      refine h.write ht _ .srtpReady t.dtls ?_ (fun x => ?_) (fun hd => absurd hd hdtls)
        (fun _ _ ho => nomatch ho) fun c hc => (h.registry c hc).shows_activate _ _
      · dsimp only [Proc.upd]
        split <;> rfl
      · rw [show (t.iceUfrag, SessionState.srtpReady, t.dtls) =
          Session.face { (t.dispatch .dtlsHandshakeDone none) with lastActive := now } by
            rw [← hready]; rfl, ← hbase x]
        dsimp only [Proc.upd]
        split
        · exact face_subscribe _ _ a x
        · rfl

theorem Backed.dtlsFinish (h : p.Backed slot) (now : ℕ) (heap : Heap) (a : ℕ) {sess : Session}
    (v : DtlsVerdict) (hs : ∀ t, p.w.sessions.get a = some t → t.face = sess.face) :
    (p.dtlsFinish now heap a sess v).Backed slot := by
  unfold Proc.dtlsFinish
  split_ifs with hc
  · have hset : (p.upd fun w => w.modifySession a fun s => { s with dtls := some true }).Backed slot :=
      h.modify a (fun _ => rfl) (fun _ => rfl) fun _ _ ht => nomatch ht
    refine (hset.dtlsDone now a v.keys fun t ht => ?_).closeIfPending now heap a
    change (p.w.sessions.modify a _).get a = some t at ht
    rw [Pool.get_modify, if_pos rfl] at ht
    obtain ⟨u, hu, rfl⟩ := Option.map_eq_some_iff.1 ht
    exact ⟨h.sessions.handshake a u hu ((Session.face_eq (hs u hu)).2.2.trans hc.1), nofun⟩
  · exact h.closeIfPending now heap a

theorem Backed.dtlsFeed (h : p.Backed slot) (now : ℕ) (heap : Heap) (a : ℕ) (v : DtlsVerdict) :
    (p.dtlsFeed now heap a v).Backed slot := by
  unfold Proc.dtlsFeed
  split
  · exact h
  · next sess hsess =>
    have ht := h.quiet (quiet_touch p now a)
    split_ifs
    · exact ht.sessionClose now heap .close a
    · refine ht.dtlsFinish now heap a v fun t hget => ?_
      obtain ⟨u, hu, hf⟩ := (quiet_touch p now a).before hget
      obtain rfl := Option.some.inj (hsess.symm.trans hu)
      exact hf.symm

/-- A DTLS record that is handled starts the handshake. -/
theorem fsmDispatch_record_state {s : SessionState} {ctx : Option FsmCtx}
    (h : (fsmDispatch s .dtlsPacket ctx).2 = true) :
    (fsmDispatch s .dtlsPacket ctx).1 = .dtlsHandshake := by
  rcases fsmDispatch_cases s .dtlsPacket ctx with hd | ⟨t, ht, hev, -, hd⟩
  · rw [hd] at h
    exact nomatch h
  · rw [hd]
    revert t
    cases s <;> simp_all [sessionTransitions, topTransitions]

theorem Backed.onDtls (h : p.Backed slot) (now : ℕ) (heap : Heap) (c : ℕ) (data : Bytes)
    (v : DtlsVerdict) : (p.onDtls now heap c data v).Backed slot := by
  unfold Proc.onDtls
  split
  · exact h
  · next a _ =>
    split
    · exact h
    · next sess hsess =>
      have hp : ¬ (!(fsmDispatch sess.fsm .dtlsPacket (some ⟨some c, some data⟩)).2) = true →
          ((p.upd fun w => w.modifySession a
            (Session.dispatch .dtlsPacket (some ⟨some c, some data⟩))).publishState a).Backed slot :=
        fun hhandled => h.publish hsess rfl fun _ => fsmDispatch_record_state (by simpa using hhandled)
      have hset : ¬ (!(fsmDispatch sess.fsm .dtlsPacket (some ⟨some c, some data⟩)).2) = true → ∀ t,
          ((p.upd fun w => w.modifySession a (Session.dispatch .dtlsPacket
            (some ⟨some c, some data⟩))).publishState a).w.sessions.get a = some t →
          some false = some false → t.fsm = .dtlsHandshake := by
        intro hhandled t ht _
        rw [publishState_w] at ht
        change (p.w.sessions.modify a _).get a = some t at ht
        rw [Pool.get_modify, if_pos rfl, hsess] at ht
        obtain rfl := Option.some.inj ht
        exact fsmDispatch_record_state (by simpa using hhandled)
      split_ifs with hpending hhandled hcreate
      · exact h
      · exact ((hp hhandled).modify a (f := fun s => { s with conn := some c, dtls := some false })
          (fun _ => rfl) (fun _ => rfl) (hset hhandled)).dtlsFeed now heap a v
      · exact ((hp hhandled).quiet (quiet_modifySession _ a (f := fun s => { s with conn := some c })
          fun _ => rfl)).sessionClose now heap .close a
      · exact h.dtlsFeed now heap a v

theorem Backed.dtlsTimer (h : p.Backed slot) (now : ℕ) (heap : Heap) (a : ℕ) (v : DtlsVerdict) :
    (p.dtlsTimer now heap a v).Backed slot := by
  unfold Proc.dtlsTimer
  split
  · exact h
  · next sess hsess =>
    split_ifs
    · refine h.dtlsFinish now heap a v fun t ht => ?_
      rw [Option.some.inj (hsess.symm.trans ht)]
    · exact h.sessionClose now heap .timeout a
    · exact h

theorem Backed.onRtcp (h : p.Backed slot) (now : ℕ) (heap : Heap) (c : ℕ) (plain : Option Bool) :
    (p.onRtcp now heap c plain).Backed slot := by
  unfold Proc.onRtcp
  split
  · exact h
  · next a _ =>
    split
    · exact h
    · split_ifs
      · exact h
      · exact (h.quiet (quiet_touch p now a)).sessionClose now heap .rtcpBye a
      · exact h.quiet (quiet_touch p now a)

theorem Backed.reapSession (h : p.Backed slot) (conf : StreamConf) (now : ℕ) (heap : Heap) (a : ℕ) :
    (Proc.reapSession conf now heap p a).Backed slot := by
  unfold Proc.reapSession
  split
  · exact h
  · split_ifs
    · exact h.sessionClose now heap .close a
    · exact h.sessionClose now heap .timeout a
    · exact h

/-! ### Requests -/

/-- No worker owns a skeleton of the user name. -/
def Unowned (ufrag : Ufrag) (p : Proc) : Prop :=
  ∀ c, p.sh = some c → ∀ b s, c.sessions.get b = some s → s.iceUfrag = ufrag → s.ownerSlot = none

theorem Unowned.quiet (h : p.Unowned ufrag) (hq : p.Quiet q) : q.Unowned ufrag := by
  intro c' hc' b s hs
  obtain ⟨c, hc, hthin⟩ := hq.registry c' hc'
  exact h c hc b s (hthin.get b s hs)

theorem Backed.openSession (h : p.Backed slot) {r : Request} (hu : p.Unused r.ufrag) (src : ℕ)
    (publishing : Bool) : (p.openSession r src publishing).Backed slot := by
  unfold Proc.openSession
  split
  · exact h
  · exact h.enter hu.2 rfl

/-- The skeleton of a session with an unregistered name is added; nobody owns it. -/
theorem Backed.addSkeleton (h : p.Backed slot) (envAdd : Env) (name : SourceName) (a : ℕ)
    (hu : p.Unregistered ufrag)
    (ha : ∀ t, p.w.sessions.get a = some t → t.iceUfrag = ufrag) :
    (p.addSkeleton envAdd name a).Backed slot ∧ (p.addSkeleton envAdd name a).Unowned ufrag := by
  have hkeep : p.Backed slot ∧ p.Unowned ufrag := ⟨h, fun c hc b s hs he => absurd he (hu c hc b s hs)⟩
  unfold Proc.addSkeleton
  split
  · next c sess hc hsess =>
    have hname : (sess.args name).ufrag = ufrag := ha sess hsess
    have hsh : (p.call (.sessionAdd envAdd (sess.args name))).sh =
        some (c.sessionAdd envAdd (sess.args name)).1 := by
      show p.sh.map _ = _
      rw [hc]
      rfl
    have hadd : (p.call (.sessionAdd envAdd (sess.args name))).Backed slot :=
      h.others nofun fun env args ho => by
        cases ho
        exact hname ▸ hu
    have hnone : (p.call (.sessionAdd envAdd (sess.args name))).Unowned ufrag := by
      intro d hd b s hs he
      obtain ⟨c', hc', rfl⟩ := Option.map_eq_some_iff.1 hd
      rcases ShmCtx.edit_step hs with ⟨t, ht, rfl⟩ | ⟨-, env, args, src, -, -, rfl⟩
      · exact absurd he (hu c' hc' b _ ht)
      · rfl
    have hquiet : ∀ {q}, Quiet (p.call (.sessionAdd envAdd (sess.args name))) q →
        q.Backed slot ∧ q.Unowned ufrag := fun hq => ⟨hadd.quiet hq, hnone.quiet hq⟩
    refine hquiet ⟨?_, ?_, hsh ▸ .refl _⟩
    · split <;> rfl
    · split
      · exact fun _ => rfl
      · exact face_modifySession p.w a fun _ => rfl
  · exact hkeep

/-- The session a request registers is dropped again, before any worker binds its skeleton. -/
theorem Backed.drop (h : p.Backed slot) {a : ℕ} (hu : p.Unowned ufrag)
    (ha : ∀ t, p.w.sessions.get a = some t → t.iceUfrag = ufrag) :
    (p.upd fun w => w.sessionRemove a).Backed slot := by
  have hold : ∀ x u, (p.w.sessions.free a).get x = some u → p.w.sessions.get x = some u := by
    intro x u hu
    rw [Pool.get_free] at hu
    split_ifs at hu
    exact hu
  refine ⟨h.number, h.registry,
    ⟨fun x x' u u' hu hu' => h.sessions.user x x' u u' (hold x u hu) (hold x' u' hu'),
      fun x u hu => h.sessions.handshake x u (hold x u hu)⟩, fun c hc b s hs hw => ?_⟩
  obtain ⟨x, u, hget, hname, hstate⟩ := h.held c hc b s hs hw
  have hx : x ≠ a := by
    rintro rfl
    exact nomatch (hu c hc b s hs (hname.symm.trans (ha u hget))).symm.trans hw
  exact ⟨x, u, (Pool.get_free_of_ne hx).trans hget, hname, hstate⟩

theorem openSession_name (p : Proc) (r : Request) (src : ℕ) (publishing : Bool) {t : Session}
    (ht : (p.openSession r src publishing).w.sessions.get p.w.sessions.next = some t) :
    t.iceUfrag = r.ufrag := by
  unfold Proc.openSession at ht
  split at ht
  · rw [Pool.get_next] at ht
    exact nomatch ht
  · change (Pool.alloc _ _).get _ = some t at ht
    rw [Pool.get_alloc_self] at ht
    obtain rfl := Option.some.inj ht
    rfl

theorem Backed.play (h : p.Backed slot) {r : Request} (hu : p.Unused r.ufrag) :
    (p.play r).Backed slot := by
  unfold Proc.play
  split
  · exact h
  · next w src created hw =>
    have hq := (quiet_sourceCreate p hw).trans (quiet_shmSourceGet ⟨p.sh, w⟩ r.env r.name)
    have hid := hq.trans (quiet_takeIdentity _ r.offer r.name src
      (Proc.shmSourceGet ⟨p.sh, w⟩ r.env r.name).2)
    have hsessions : (Proc.takeIdentity (Proc.shmSourceGet ⟨p.sh, w⟩ r.env r.name).1 r.offer r.name src
        (Proc.shmSourceGet ⟨p.sh, w⟩ r.env r.name).2).w.sessions.next =
        (Proc.shmSourceGet ⟨p.sh, w⟩ r.env r.name).1.w.sessions.next := by
      unfold Proc.takeIdentity
      split
      · split <;> rfl
      · rfl
    unfold Proc.play.playOn
    split_ifs
    · have hnew : Unregistered r.ufrag ((Proc.takeIdentity (Proc.shmSourceGet ⟨p.sh, w⟩ r.env r.name).1
          r.offer r.name src (Proc.shmSourceGet ⟨p.sh, w⟩ r.env r.name).2).openSession r src false) :=
        fun c hc => (hu.quiet hid).1 c (openSession_sh .. ▸ hc)
      refine (((h.quiet hid).openSession (hu.quiet hid) src false).addSkeleton r.envAdd r.name _ hnew
        fun t ht => ?_).1
      exact openSession_name _ r src false (hsessions ▸ ht)
    · exact h.quiet (hid.trans (quiet_rollback _ created r.name))

theorem Backed.whipGranted (h : p.Backed slot) {r : Request} (hu : p.Unused r.ufrag) (src : ℕ)
    (created : Bool) : (p.whipGranted r src created).Backed slot := by
  have hid : p.Quiet (Proc.whipGranted.identified p r src) := quiet_takeIdentity p _ _ _ _
  have hsessions : (Proc.whipGranted.identified p r src).w.sessions.next = p.w.sessions.next := by
    unfold Proc.whipGranted.identified Proc.takeIdentity
    split
    · split <;> rfl
    · rfl
  have hopen := (h.quiet hid).openSession (hu.quiet hid) src true
  have hget := quiet_shmSourceGet ((Proc.whipGranted.identified p r src).openSession r src true)
    r.env r.name
  have hfresh : ((Proc.whipGranted.identified p r src).openSession r src true).Unregistered r.ufrag :=
    fun c hc => (hu.quiet hid).1 c (openSession_sh .. ▸ hc)
  have hname : ∀ t, ((Proc.whipGranted.identified p r src).openSession r src
      true).w.sessions.get p.w.sessions.next = some t → t.iceUfrag = r.ufrag := fun t ht =>
    openSession_name _ r src true (hsessions ▸ ht)
  -- once registered, the session has the drawn name, and nobody owns its skeleton
  have hreg : (Proc.whipGranted.registered p r src).Backed slot ∧
      (Proc.whipGranted.registered p r src).Unowned r.ufrag ∧
      ∀ t, (Proc.whipGranted.registered p r src).w.sessions.get p.w.sessions.next = some t →
        t.iceUfrag = r.ufrag := by
    have hgot : ∀ t, (((Proc.whipGranted.identified p r src).openSession r src true).shmSourceGet r.env
        r.name).1.w.sessions.get p.w.sessions.next = some t → t.iceUfrag = r.ufrag := by
      intro t ht
      rw [shmSourceGet_w] at ht
      exact hname t ht
    unfold Proc.whipGranted.registered
    split
    · next p' he =>
      rw [he] at hget hgot
      exact ⟨hopen.quiet hget, fun c hc b s hs hn => absurd hn (hfresh.quiet hget c hc b s hs), hgot⟩
    · next p' b he =>
      rw [he] at hget hgot
      obtain ⟨hb, hn⟩ := (hopen.quiet hget).addSkeleton r.envAdd r.name p.w.sessions.next
        (hfresh.quiet hget) hgot
      refine ⟨hb, hn, fun t ht => ?_⟩
      unfold Proc.addSkeleton at ht
      split at ht
      · dsimp only at ht
        split at ht
        · exact hgot t ht
        · change (p'.w.sessions.modify _ _).get _ = some t at ht
          rw [Pool.get_modify, if_pos rfl] at ht
          obtain ⟨u, hget', rfl⟩ := Option.map_eq_some_iff.1 ht
          exact hgot u hget'
      · exact hgot t ht
  unfold Proc.whipGranted
  split_ifs
  · exact hreg.1
  · obtain ⟨hb, hn, hg⟩ := hreg
    have hrel := quiet_release (Proc.whipGranted.registered p r src) r.env.now src
    refine ((hb.quiet hrel).drop (hn.quiet hrel) fun t ht => ?_).quiet (quiet_rollback _ created r.name)
    obtain ⟨u, hu, hf⟩ := hrel.before ht
    exact (Session.face_eq hf).1 ▸ hg u hu
  · exact h.quiet ((hid.trans (quiet_release _ r.env.now src)).trans (quiet_rollback _ created r.name))

theorem Backed.whip (h : p.Backed slot) {r : Request} (hu : p.Unused r.ufrag) :
    (p.whip r).Backed slot := by
  unfold Proc.whip
  split
  · exact h
  · next w src created hw =>
    have hq := quiet_sourceCreate p hw
    have hclaim := hq.trans (quiet_claim ⟨p.sh, w⟩ r.env src .whip)
    split_ifs
    · exact h.quiet (hq.trans (quiet_rollback _ created r.name))
    · split <;> next he => rw [he] at hclaim; first
        | exact h.quiet (hclaim.trans (quiet_rollback _ created r.name))
        | exact (h.quiet hclaim).whipGranted (hu.quiet hclaim) src created

end Backed

/-! ## Runs -/

/-- New user names are unused ones, and no other worker acts under the number of this one. -/
def FreshNames (p : Proc) : ProcEvent → Prop
  | .play r | .whip r => p.Unused r.ufrag
  | .others op => op.slot? ≠ some p.w.slot ∧
      ∀ env args, op = .sessionAdd env args → p.Unregistered args.ufrag
  | _ => True

theorem Backed.step {p : Proc} {slot : ℕ} (h : p.Backed slot) {e : ProcEvent} (he : p.FreshNames e) :
    (p.step e).Backed slot := by
  cases e with
  | play r => exact h.play he
  | whip r => exact h.whip he
  | accept => exact h.quiet (quiet_upd p rfl rfl)
  | stun env heap c ufrag verified =>
    simp only [Proc.step]
    split_ifs
    · exact h.onStun env heap c ufrag verified
    · exact h
  | dtls now heap c data v => exact h.onDtls now heap c data v
  | dtlsTimer now heap a v => exact h.dtlsTimer now heap a v
  | rtcp now heap c plain => exact h.onRtcp now heap c plain
  | srtp now slab c plain emitted => exact h.quiet (quiet_onSrtp p now slab c plain emitted)
  | reap conf now heap a => exact h.reapSession conf now heap a
  | finalize c => exact h.quiet (quiet_finalize p c)
  | rtmpVideo env heap name => exact h.quiet (quiet_rtmpSync p env heap name)
  | rtmpAudio env heap name header => exact h.quiet (quiet_rtmpAudio p env heap name header)
  | rtmpRelease now name => exact h.quiet (quiet_rtmpRelease p now name)
  | others op => exact h.others he.1 he.2

theorem backed_init (slot nworkers : ℕ) (rings : List (Option MediaRing)) :
    (Proc.init slot (some (.init nworkers rings))).Backed slot where
  number := rfl
  registry c hc := by
    obtain rfl := Option.some.inj hc
    exact ⟨fun _ _ _ _ hs => (nomatch hs), fun _ _ hs => nomatch hs⟩
  sessions := ⟨fun _ _ _ _ ht => (nomatch ht), fun _ _ ht => nomatch ht⟩
  held c hc b s hs := by
    obtain rfl := Option.some.inj hc
    exact nomatch hs

/-- **In every run the skeletons of a worker stand for its sessions**, and show their states. -/
theorem backed_run {slot nworkers : ℕ} {rings : List (Option MediaRing)} {es : List ProcEvent}
    (hes : Lts.Along Proc.step FreshNames (.init slot (some (.init nworkers rings))) es) :
    Lts.Visits Proc.step (fun p => p.Backed slot) (.init slot (some (.init nworkers rings))) es :=
  Lts.visits_of_step (P := fun p => p.Backed slot) (fun _ _ h he => Backed.step h he)
    (backed_init slot nworkers rings) hes

theorem unused_init (slot nworkers : ℕ) (rings : List (Option MediaRing)) (ufrag : Ufrag) :
    Unused ufrag (.init slot (some (.init nworkers rings))) := by
  refine ⟨fun c hc b s hs => ?_, fun a t ht => nomatch ht⟩
  obtain rfl := Option.some.inj hc
  exact nomatch hs

theorem backed_run_player :
    Lts.Visits step (fun p => p.Backed 0) (.init 0 (some (.init 1 [])))
      [.play (sampleRequest 1), .accept, sampleBinding 0] :=
  backed_run ⟨unused_init 0 1 [] _, trivial, trivial, trivial⟩

end Proc

end NginxRtc
