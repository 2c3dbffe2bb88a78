/-
  The handlers of a worker use its registry as they should.

  `Core.Models c w`: the links of `c` spell out the subscriber lists of the worker `w`.
  `Worker.Traced w w'`: whatever models `w`, some operations its callers are allowed to make lead
  from there to a model of `w'`.

  `Proc.traced_step`: so does every handler.  `source_lifetimes`: the promises of `Core.Lifetimes`
  hold after any operations in any order, and every run of a worker is such a run.
-/
import NginxRtc.Worker.Core
import NginxRtc.Worker.Stream

namespace NginxRtc

/-! ## Sessions and their handshake -/

/-- A session that left the states before the handshake does not return to them. -/
theorem fsmDispatch_pending {s : SessionState} (h : s.dtlsPending = false) (ev : SessionEvent)
    (ctx : Option FsmCtx) : (fsmDispatch s ev ctx).1.dtlsPending = false := by
  rcases fsmDispatch_cases s ev ctx with hd | ⟨t, ht, -, -, hd⟩ <;> rw [hd]
  · exact h
  · revert t
    cases s <;> simp_all [sessionTransitions, topTransitions, SessionState.dtlsPending]

/-- A DTLS record that is handled starts the handshake. -/
theorem fsmDispatch_record {s : SessionState} {ctx : Option FsmCtx} (hp : s.dtlsPending = true)
    (h : (fsmDispatch s .dtlsPacket ctx).2 = true) :
    (fsmDispatch s .dtlsPacket ctx).1.dtlsPending = false := by
  rcases fsmDispatch_cases s .dtlsPacket ctx with hd | ⟨t, ht, hev, -, hd⟩
  · rw [hd] at h
    exact nomatch h
  · rw [hd]
    revert t
    cases s <;> simp_all [sessionTransitions, topTransitions, SessionState.dtlsPending]

/-- A session joins a queue only when its handshake is done, and gets a DTLS context only when it
    starts one. -/
structure Session.Handshaken (s : Session) : Prop where
  joined : s.subLinked = true → s.dtls = some true
  started : s.dtls ≠ none → s.fsm.dtlsPending = false

theorem Session.Handshaken.dispatch {s : Session} (h : s.Handshaken) (ev : SessionEvent)
    (ctx : Option FsmCtx) : (s.dispatch ev ctx).Handshaken :=
  ⟨h.joined, fun hd => fsmDispatch_pending (h.started hd) ev ctx⟩

/-- What the registry keeps of a source and of a session. -/
def Source.core (src : Source) : CoreSource := ⟨src.name, src.publishing, src.audioCtx⟩

def Session.core (s : Session) : CoreSession := ⟨s.source⟩

/-- The subscribers of the source at `a`. -/
def Worker.queueOf (w : Worker) (a : ℕ) : List ℕ :=
  ((w.sources.get a).map Source.subscribers).getD []

namespace Core

/-- The links of `c` spell out the lists of `w`, and the sessions of `w` know whether they are on
    one. -/
structure Models (c : Core) (w : Worker) : Prop where
  sources : c.sources = w.sources.map Source.core
  sessions : c.sessions = w.sessions.map Session.core
  ok : c.Ok w.queueOf
  member : ∀ a b s, b ∈ w.queueOf a → w.sessions.get b = some s →
    s.source = some a ∧ s.subLinked = true
  hand : ∀ b s, w.sessions.get b = some s → s.Handshaken

namespace Models

variable {c : Core} {w : Worker}

theorem source (h : c.Models w) (a : ℕ) : c.sources.get a = (w.sources.get a).map Source.core := by
  rw [h.sources, Pool.get_map]

theorem session (h : c.Models w) (b : ℕ) :
    c.sessions.get b = (w.sessions.get b).map Session.core := by
  rw [h.sessions, Pool.get_map]

theorem isSome_source (h : c.Models w) (a : ℕ) :
    (c.sources.get a).isSome = (w.sources.get a).isSome := by
  rw [h.source, Option.isSome_map]

theorem sourceLookup (h : c.Models w) (name : SourceName) :
    c.sourceLookup name = w.sourceLookup name := by
  simp only [Core.sourceLookup, Worker.sourceLookup, h.sources, Pool.find?_map]
  rfl

theorem hasHolder (h : c.Models w) (a : ℕ) : c.hasHolder a = w.hasHolder a := by
  simp only [Core.hasHolder, Worker.hasHolder, h.sessions, Pool.map, List.any_map]
  rfl

theorem empty (h : c.Models w) {a : ℕ} {src : Source} (hsrc : w.sources.get a = some src) :
    c.links.empty (.subscribers a) = src.subscribers.isEmpty := by
  have hq : w.queueOf a = src.subscribers := by
    rw [Worker.queueOf, hsrc]
    rfl
  have hiff := h.ok.empty_iff (a := a) (by rw [h.isSome_source, hsrc]; rfl)
  rw [hq] at hiff
  rw [Bool.eq_iff_iff, hiff, List.isEmpty_iff]

/-- A session that is on no list stands on no queue. -/
theorem offQueue (h : c.Models w) {b : ℕ} {s : Session} (hs : w.sessions.get b = some s)
    (hl : s.subLinked = false) : c.onQueue b = false := by
  refine (h.ok.onQueue_iff (s := s.core) ?_).2 fun a hm => ?_
  · rw [h.session, hs]
    rfl
  · exact nomatch hl.symm.trans (h.member a b s hm hs).2

/-! ### One operation on both sides -/

/-- Freeing a source that is idle on both sides. -/
theorem free (h : c.Models w) {a : ℕ} (ha : c.Idle a) :
    Models { c with sources := c.sources.free a } { w with sources := w.sources.free a } := by
  have hok := h.ok.free ha
  have hq : Worker.queueOf { w with sources := w.sources.free a } = w.queueOf := by
    funext b
    by_cases hb : b = a
    · subst hb
      obtain ⟨src, hsrc, -⟩ := ha.source
      have hempty := (h.ok.empty_iff (a := b) (by rw [hsrc]; rfl)).1 ha.emptyQueue
      rw [hempty, Worker.queueOf, Pool.get_free_self]
      rfl
    · rw [Worker.queueOf, Pool.get_free_of_ne hb]
      rfl
  refine ⟨?_, h.sessions, hq ▸ hok, fun b d s hm => h.member b d s (hq ▸ hm), h.hand⟩
  show c.sources.free a = (w.sources.free a).map Source.core
  rw [h.sources, Pool.map_free]

theorem sourceRemove (h : c.Models w) (name : SourceName) :
    (c.sourceRemove name).Models (w.sourceRemove name) := by
  simp only [Core.sourceRemove, Worker.sourceRemove, h.sourceLookup]
  cases w.sourceLookup name with
  | none => exact h
  | some a =>
    simp only [h.source]
    cases hsrc : w.sources.get a with
    | none => exact h
    | some src =>
      have hrem : c.removable a src.core = w.removable a src := by
        simp only [Core.removable, Worker.removable, h.empty hsrc, h.hasHolder, Source.core]
      simp only [Option.map_some, hrem]
      split_ifs with hr
      · refine h.free (idle_of_removable (s := src.core) ?_ (hrem.trans hr))
        rw [h.source, hsrc]
        rfl
      · exact h

theorem sourceCreate (h : c.Models w) (alloc : Bool) (name : SourceName) :
    (c.sourceCreate alloc name).Models (w.sourceCreate alloc name).1 := by
  have hok := h.ok.sourceCreate alloc name
  simp only [Core.sourceCreate, Worker.sourceCreate, h.sourceLookup] at hok ⊢
  cases hl : w.sourceLookup name with
  | some a => exact h
  | none =>
    cases alloc with
    | false => exact h
    | true =>
      rw [hl] at hok
      have hq : Worker.queueOf { w with sources := w.sources.alloc (Source.fresh name) } =
          w.queueOf := by
        funext b
        simp only [Worker.queueOf, Pool.get_alloc]
        split_ifs with hb
        · rw [hb, Pool.get_next]
          rfl
        · rfl
      refine ⟨?_, h.sessions, hq ▸ hok, fun b d s hm => h.member b d s (hq ▸ hm), h.hand⟩
      show c.sources.alloc ⟨name, false, false⟩ =
        (w.sources.alloc (Source.fresh name)).map Source.core
      rw [h.sources, Pool.map_alloc]
      rfl

/-- A session joins the registry with a live source, or with none. -/
theorem sessionAdd (h : c.Models w) {sess : Session}
    (hsrc : ∀ src, sess.source = some src → (w.sources.get src).isSome) (hs : sess.Handshaken) :
    (c.sessionAdd sess.source).Models (w.sessionAdd sess) := by
  have hok := h.ok.sessionAdd fun src he => (h.isSome_source src).trans (hsrc src he)
  refine ⟨h.sources, ?_, hok, fun b d s hm hd => ?_, fun b s hb => ?_⟩
  · show c.sessions.alloc _ = (w.sessions.alloc sess).map Session.core
    rw [h.sessions, Pool.map_alloc]
    rfl
  · obtain ⟨t, ht, -⟩ := h.ok.listed b d hm
    rw [h.session, Option.map_eq_some_iff] at ht
    obtain ⟨u, hu, -⟩ := ht
    obtain rfl := Option.some.inj (hd.symm.trans (Pool.get_alloc_of_some hu))
    exact h.member b d s hm hu
  · simp only [Worker.sessionAdd, Pool.get_alloc] at hb
    split_ifs at hb
    · exact Option.some.inj hb ▸ hs
    · exact h.hand b s hb

/-- A session that stands on no queue leaves the registry. -/
theorem sessionRemove (h : c.Models w) {a : ℕ}
    (hoff : (c.sessions.get a).isSome → c.onQueue a = false) :
    (c.sessionRemove a).Models (w.sessionRemove a) := by
  have hold : ∀ b s, (w.sessionRemove a).sessions.get b = some s → w.sessions.get b = some s := by
    intro b s hs
    simp only [Worker.sessionRemove, Pool.get_free] at hs
    split_ifs at hs
    exact hs
  refine ⟨h.sources, ?_, h.ok.sessionRemove hoff, fun b d s hm hd => ?_, fun b s hb => ?_⟩
  · show c.sessions.free a = (w.sessions.free a).map Session.core
    rw [h.sessions, Pool.map_free]
  · exact h.member b d s hm (hold d s hd)
  · exact h.hand b s (hold b s hb)

/-- A session is rewritten but for what the registry keeps of it. -/
theorem modifySession (h : c.Models w) {a : ℕ} {f : Session → Session}
    (hf : ∀ s, w.sessions.get a = some s → (f s).source = s.source ∧
      (f s).subLinked = s.subLinked ∧ (s.Handshaken → (f s).Handshaken)) :
    c.Models (w.modifySession a f) := by
  have hold : ∀ b t, (w.modifySession a f).sessions.get b = some t → ∃ s,
      w.sessions.get b = some s ∧ t.source = s.source ∧ t.subLinked = s.subLinked ∧
        (s.Handshaken → t.Handshaken) := by
    intro b t ht
    simp only [Worker.modifySession, Pool.get_modify] at ht
    split_ifs at ht with hb
    · subst hb
      obtain ⟨s, hs, rfl⟩ := Option.map_eq_some_iff.1 ht
      exact ⟨s, hs, hf s hs⟩
    · exact ⟨t, ht, rfl, rfl, id⟩
  refine ⟨h.sources, ?_, h.ok, fun b d t hm hd => ?_, fun b t hb => ?_⟩
  · rw [h.sessions]
    exact (Pool.map_modify_eq fun s hs => by rw [Session.core, (hf s hs).1, Session.core]).symm
  · obtain ⟨s, hs, hsrc, hl, -⟩ := hold d t hd
    rw [hsrc, hl]
    exact h.member b d s hm hs
  · obtain ⟨s, hs, -, -, hhand⟩ := hold b t hb
    exact hhand (h.hand b s hs)

/-- A source is rewritten: its name and its subscribers stay. -/
theorem modifySource (h : c.Models w) {a : ℕ} {src : Source} (hsrc : w.sources.get a = some src)
    {f : Source → Source} (hn : (f src).name = src.name)
    (hsub : (f src).subscribers = src.subscribers) :
    (c.setHolders a (f src).publishing (f src).audioCtx).Models (w.modifySource a f) := by
  have hq : (w.modifySource a f).queueOf = w.queueOf := by
    funext b
    simp only [Worker.queueOf, Worker.modifySource, Pool.get_modify]
    split_ifs with hb
    · rw [hb, hsrc]
      exact hsub
    · rfl
  have hok := h.ok.setHolders a (f src).publishing (f src).audioCtx
  refine ⟨?_, h.sessions, hq ▸ hok, fun b d s hm => h.member b d s (hq ▸ hm), h.hand⟩
  rw [Core.setHolders, h.sources]
  refine (Pool.map_modify fun v hv => ?_).symm
  obtain rfl := Option.some.inj (hsrc.symm.trans hv)
  rw [Source.core, hn, Source.core]

/-- The session leaves the list of its source. -/
theorem unlink (h : c.Models w) {src sess : ℕ} {s : Session} (hs : w.sessions.get sess = some s)
    (hsrc : s.source = some src) : (c.unlink sess).Models (w.unlink src sess) := by
  have hcs : c.sessions.get sess = some s.core := by
    rw [h.session, hs]
    rfl
  have hok := h.ok.unlink hcs
  have hq : (w.unlink src sess).queueOf = fun a => (w.queueOf a).erase sess := by
    funext a
    simp only [Worker.queueOf, Worker.unlink, Pool.get_modify]
    split_ifs with ha
    · cases w.sources.get a <;> rfl
    · refine (List.erase_of_not_mem fun hm => ha ?_).symm
      exact (Option.some.inj (hsrc.symm.trans (h.member a sess s hm hs).1)).symm
  have hold : ∀ b t, (w.unlink src sess).sessions.get b = some t →
      b ≠ sess ∧ w.sessions.get b = some t ∨
        b = sess ∧ t = { s with source := none, subLinked := false } := by
    intro b t ht
    simp only [Worker.unlink, Pool.get_modify] at ht
    split_ifs at ht with hb
    · rw [hb, hs, Option.map_some] at ht
      exact .inr ⟨hb, (Option.some.inj ht).symm⟩
    · exact .inl ⟨hb, ht⟩
  refine ⟨?_, ?_, hq ▸ hok, fun a b t hm ht => ?_, fun b t hb => ?_⟩
  · have hmap : (w.unlink src sess).sources.map Source.core = w.sources.map Source.core :=
      Pool.map_modify_eq fun _ _ => rfl
    exact h.sources.trans hmap.symm
  · have hmap : (w.unlink src sess).sessions.map Session.core =
        (w.sessions.map Session.core).modify sess fun s => { s with source := none } :=
      Pool.map_modify fun _ _ => rfl
    rw [hmap, ← h.sessions]
    rfl
  · rw [hq] at hm
    rcases hold b t ht with ⟨hne, ht⟩ | ⟨rfl, -⟩
    · exact h.member a b t (List.mem_of_mem_erase hm) ht
    · exact absurd rfl ((h.ok.nodup a).mem_erase_iff.1 hm).1
  · rcases hold b t hb with ⟨-, ht⟩ | ⟨-, rfl⟩
    · exact h.hand b t ht
    · exact ⟨(nomatch ·), (h.hand sess s hs).started⟩

theorem unsubscribe (h : c.Models w) (src sess : ℕ) :
    (c.unsubscribe src sess).Models (w.unsubscribe src sess) := by
  simp only [Core.unsubscribe, Worker.unsubscribe, h.session]
  cases hs : w.sessions.get sess with
  | none => exact h
  | some s =>
    simp only [Option.map_some, Session.core]
    by_cases hsrc : s.source = some src
    · have hu := h.unlink hs hsrc
      simp only [hsrc, ne_eq, not_true_eq_false, if_false, hu.source]
      cases hv : (w.unlink src sess).sources.get src with
      | none => exact hu
      | some v =>
        simp only [Option.map_some, Source.core, hu.empty hv, hu.hasHolder]
        split_ifs
        · exact hu.sourceRemove v.name
        · exact hu
    · simp only [ne_eq, hsrc, not_false_eq_true, if_true]
      exact h

/-- The end of a session's life. -/
theorem close (h : c.Models w) {a : ℕ} {s sess : Session} (hs : w.sessions.get a = some s)
    (hsrc : sess.source = s.source) : (c.close a).Models (w.leave a sess) := by
  have hcs : c.sessions.get a = some s.core := by
    rw [h.session, hs]
    rfl
  simp only [Core.close, Worker.leave, hcs, Session.core, hsrc]
  cases hss : s.source with
  | none =>
    refine h.sessionRemove fun _ => (h.ok.onQueue_iff hcs).2 fun b hm => ?_
    exact nomatch hss.symm.trans (h.member b a s hm hs).1
  | some src =>
    refine (h.unsubscribe src a).sessionRemove fun _ => ?_
    rcases unsubscribe_held hcs hss with he | ⟨b, -, he⟩ <;> rw [he]
    · exact c.onQueue_unlink a
    · exact c.onQueue_unlink a

/-- A session that is on no list joins the one of its source. -/
theorem subscribe (h : c.Models w) {src a : ℕ} {s : Session} (hs : w.sessions.get a = some s)
    (hsrc : s.source = some src) (hl : s.subLinked = false) (hd : s.dtls = some true) :
    CoreOp.Allowed c (.subscribe src a) ∧ (c.subscribe src a).Models (w.subscribe src a) := by
  have hcs : c.sessions.get a = some s.core := by
    rw [h.session, hs]
    rfl
  have hlive : (c.sources.get src).isSome := h.ok.holder a s.core src hcs hsrc
  have hoff := h.offQueue hs hl
  have hcsome : (c.sessions.get a).isSome := by
    rw [hcs]
    rfl
  have hok := h.ok.subscribe hlive hcsome hoff
  have hq : (w.subscribe src a).queueOf =
      Function.update w.queueOf src (a :: w.queueOf src) := by
    rw [h.isSome_source] at hlive
    obtain ⟨v, hv⟩ := Option.isSome_iff_exists.1 hlive
    funext b
    simp only [Worker.queueOf, Worker.subscribe, Pool.get_modify, Function.update_apply]
    split_ifs with hb
    · rw [hb, hv]
      rfl
    · rfl
  have hold : ∀ b t, (w.subscribe src a).sessions.get b = some t →
      b ≠ a ∧ w.sessions.get b = some t ∨
        b = a ∧ t = { s with source := some src, subLinked := true } := by
    intro b t ht
    simp only [Worker.subscribe, Pool.get_modify] at ht
    split_ifs at ht with hb
    · rw [hb, hs, Option.map_some] at ht
      exact .inr ⟨hb, (Option.some.inj ht).symm⟩
    · exact .inl ⟨hb, ht⟩
  refine ⟨⟨hlive, hcsome, hoff⟩, ?_, ?_, hq ▸ hok, fun b d t hm ht => ?_, fun b t hb => ?_⟩
  · have hmap : (w.subscribe src a).sources.map Source.core = w.sources.map Source.core :=
      Pool.map_modify_eq fun _ _ => rfl
    exact h.sources.trans hmap.symm
  · have hmap : (w.subscribe src a).sessions.map Session.core =
        (w.sessions.map Session.core).modify a fun t => { t with source := some src } :=
      Pool.map_modify fun _ _ => rfl
    rw [hmap, ← h.sessions]
    rfl
  · rw [hq, Function.update_apply] at hm
    split_ifs at hm with hb
    · subst hb
      rcases List.mem_cons.1 hm with rfl | hm <;> rcases hold _ t ht with ⟨hne, ht⟩ | ⟨he, rfl⟩
      · exact absurd rfl hne
      · exact ⟨rfl, rfl⟩
      · exact h.member b d t hm ht
      · exact ⟨rfl, rfl⟩
    · rcases hold d t ht with ⟨-, ht⟩ | ⟨rfl, rfl⟩
      · exact h.member b d t hm ht
      · exact absurd (h.member b d s hm hs).2 (by simp [hl])
  · rcases hold b t hb with ⟨-, ht⟩ | ⟨-, rfl⟩
    · exact h.hand b t ht
    · exact ⟨fun _ => hd, (h.hand a s hs).started⟩

end Models

end Core

namespace Worker

/-! ## Changes the registry can follow -/

/-- Whatever models `w`, some allowed operations lead from there to a model of `w'`. -/
def Traced (w w' : Worker) : Prop :=
  ∀ c : Core, c.Models w → ∃ ops, Lts.Along CoreOp.step CoreOp.Allowed c ops ∧
    (Lts.run CoreOp.step c ops).Models w'

variable {w w' : Worker}

theorem Traced.refl (w : Worker) : w.Traced w := fun _ h => ⟨[], trivial, h⟩

theorem Traced.trans {u v w : Worker} (h : u.Traced v) (h' : v.Traced w) : u.Traced w := by
  intro c hc
  obtain ⟨ops, ha, hm⟩ := h c hc
  obtain ⟨ops', ha', hm'⟩ := h' _ hm
  refine ⟨ops ++ ops', Lts.along_append.2 ⟨ha, ha'⟩, ?_⟩
  rwa [Lts.run_append]

/-- What the sessions of `w` know may be used for a step. -/
theorem Traced.of_hand (h : (∀ b s, w.sessions.get b = some s → s.Handshaken) → w.Traced w') :
    w.Traced w' := fun c hc => h hc.hand c hc

theorem Traced.of_op {o : CoreOp}
    (h : ∀ c : Core, c.Models w → o.Allowed c ∧ (o.step c).Models w') : w.Traced w' :=
  fun c hc => ⟨[o], ⟨(h c hc).1, trivial⟩, (h c hc).2⟩

theorem traced_of_eq (hs : w'.sources = w.sources) (ht : w'.sessions = w.sessions) :
    w.Traced w' := by
  intro c hc
  have hq : w'.queueOf = w.queueOf := by
    funext a
    rw [queueOf, queueOf, hs]
  refine ⟨[], trivial, hs ▸ hc.sources, ht ▸ hc.sessions, hq ▸ hc.ok, fun a b s hm hb => ?_,
    fun b s hb => hc.hand b s (ht ▸ hb)⟩
  exact hc.member a b s (hq ▸ hm) (ht ▸ hb)

theorem traced_modifySession (a : ℕ) {f : Session → Session}
    (hf : ∀ s, w.sessions.get a = some s → (f s).source = s.source ∧
      (f s).subLinked = s.subLinked ∧ (s.Handshaken → (f s).Handshaken)) :
    w.Traced (w.modifySession a f) := fun _ hc => ⟨[], trivial, hc.modifySession hf⟩

theorem traced_modifySource (a : ℕ) {f : Source → Source}
    (hf : ∀ src, w.sources.get a = some src → (f src).name = src.name ∧
      (f src).subscribers = src.subscribers) : w.Traced (w.modifySource a f) := by
  cases hsrc : w.sources.get a with
  | none =>
    exact traced_of_eq (Pool.modify_of_none hsrc f) rfl
  | some src =>
    refine .of_op (o := .setHolders a (f src).publishing (f src).audioCtx) fun c hc => ⟨trivial, ?_⟩
    exact hc.modifySource hsrc (hf src hsrc).1 (hf src hsrc).2

theorem traced_sourceCreate (w : Worker) (alloc : Bool) (name : SourceName) :
    w.Traced (w.sourceCreate alloc name).1 :=
  .of_op (o := .sourceCreate alloc name) fun _ hc => ⟨trivial, hc.sourceCreate alloc name⟩

theorem traced_sourceRemove (w : Worker) (name : SourceName) : w.Traced (w.sourceRemove name) :=
  .of_op (o := .sourceRemove name) fun _ hc => ⟨trivial, hc.sourceRemove name⟩

theorem traced_sessionAdd {sess : Session}
    (hsrc : ∀ src, sess.source = some src → (w.sources.get src).isSome) (hs : sess.Handshaken) :
    w.Traced (w.sessionAdd sess) :=
  .of_op (o := .sessionAdd sess.source) fun _ hc =>
    ⟨fun src he => (hc.isSome_source src).trans (hsrc src he), hc.sessionAdd hsrc hs⟩

/-- A session that is on no list is freed. -/
theorem traced_sessionRemove {a : ℕ} (hl : ∀ s, w.sessions.get a = some s → s.subLinked = false) :
    w.Traced (w.sessionRemove a) := by
  refine .of_op (o := .sessionRemove a) fun c hc => ?_
  have hoff : (c.sessions.get a).isSome → c.onQueue a = false := by
    intro hs
    rw [hc.session, Option.isSome_map] at hs
    obtain ⟨s, hs⟩ := Option.isSome_iff_exists.1 hs
    exact hc.offQueue hs (hl s hs)
  exact ⟨hoff, hc.sessionRemove hoff⟩

theorem traced_subscribe {src a : ℕ} {s : Session} (hs : w.sessions.get a = some s)
    (hsrc : s.source = some src) (hl : s.subLinked = false) (hd : s.dtls = some true) :
    w.Traced (w.subscribe src a) :=
  .of_op (o := .subscribe src a) fun _ hc => hc.subscribe hs hsrc hl hd

theorem traced_leave {a : ℕ} {s sess : Session} (hs : w.sessions.get a = some s)
    (hsrc : sess.source = s.source) : w.Traced (w.leave a sess) :=
  .of_op (o := .close a) fun _ hc => ⟨trivial, hc.close hs hsrc⟩

/-- A source that a create hands out is alive. -/
theorem isSome_sourceCreate {alloc created : Bool} {name : SourceName} {a : ℕ}
    (h : w.sourceCreate alloc name = (w', some a, created)) : (w'.sources.get a).isSome := by
  unfold Worker.sourceCreate at h
  split at h
  · next b hb =>
    obtain ⟨src, hsrc, -⟩ := sourceLookup_spec hb
    simp only [Prod.mk.injEq, Option.some.injEq] at h
    obtain ⟨rfl, rfl, -⟩ := h
    rw [hsrc]
    rfl
  · split_ifs at h
    · simp only [Prod.mk.injEq, Option.some.injEq] at h
      obtain ⟨rfl, rfl, -⟩ := h
      simp only [Pool.get_alloc_self, Option.isSome_some]
    · simp at h

end Worker

/-! ## What the publish calls do to a source -/

/-- The name and the subscribers stay. -/
def Source.Kin (src src' : Source) : Prop :=
  src'.name = src.name ∧ src'.subscribers = src.subscribers

theorem publishClaim_kin (sh : Option ShmCtx) (env : Env) (src : Source) (kind : PublisherKind) :
    src.Kin (publishClaim sh env src kind).2.1 := by
  cases sh with
  | none => exact ⟨rfl, rfl⟩
  | some c =>
    rcases publishClaimIn_cases c env src kind with
        ⟨-, h⟩ | ⟨_, _, _, -, -, -, -, h⟩ | ⟨_, _, -, -, -, -, h⟩ <;>
      simp only [publishClaim, h] <;> exact ⟨rfl, rfl⟩

theorem publishRelease_kin (sh : Option ShmCtx) (now : ℕ) (src : Source) :
    src.Kin (publishRelease sh now src).2 := by
  unfold publishRelease publishReleaseIn
  split
  · exact ⟨rfl, rfl⟩
  · exact ⟨rfl, rfl⟩
  · exact ⟨rfl, rfl⟩
  · split <;> exact ⟨rfl, rfl⟩

theorem streamShmSource_kin (sh : Option ShmCtx) (now : ℕ) (src : Source) :
    src.Kin (streamShmSource sh now src).2.1 := by
  cases sh with
  | none => exact ⟨rfl, rfl⟩
  | some c =>
    simp only [streamShmSource, streamShmSourceIn]
    split
    · exact ⟨rfl, rfl⟩
    · split_ifs
      · exact ⟨rfl, rfl⟩
      · split <;> exact ⟨rfl, rfl⟩

theorem syncFrom_kin (shm : Option ShmSource) (src : Source) : src.Kin (src.syncFrom shm) := by
  cases shm <;> exact ⟨rfl, rfl⟩

theorem rtmpSyncShm_kin (sh : Option ShmCtx) (slot : ℕ) (env : Env) (src : Source) :
    src.Kin (rtmpSyncShm sh slot env src).2.1 := by
  cases sh with
  | none => exact ⟨rfl, rfl⟩
  | some c =>
    have hc := publishClaim_kin (some c) env src .rtmp
    simp only [rtmpSyncShm, rtmpSyncShmIn]
    split
    · exact ⟨rfl, rfl⟩
    · simp only [publishClaim] at hc
      split
      · next he => rw [he] at hc; exact hc
      · next he =>
        rw [he] at hc
        unfold rtmpRecordIn
        split
        · exact hc
        · exact ⟨(syncFrom_kin _ _).1.trans hc.1, (syncFrom_kin _ _).2.trans hc.2⟩

theorem broadcastRtp_kin (c : ShmCtx) (w : Worker) (src : Source) (rtp : Bytes)
    (isVideo gop : Bool) : src.Kin (broadcastRtp c w src rtp isVideo gop).src := by
  have hr : src.Kin (src.refreshSnap c) := by
    unfold Source.refreshSnap
    split_ifs <;> exact ⟨rfl, rfl⟩
  unfold broadcastRtp
  split_ifs
  · exact ⟨rfl, rfl⟩
  · exact hr
  · exact hr

/-! ## Handlers -/

namespace Proc
variable {p p' : Proc}

/-- The registry of this worker can follow the handler. -/
def Traced (p p' : Proc) : Prop := p.w.Traced p'.w

theorem Traced.refl (p : Proc) : p.Traced p := Worker.Traced.refl p.w

theorem Traced.trans {q : Proc} (h : p.Traced q) (h' : q.Traced p') : p.Traced p' :=
  Worker.Traced.trans h h'

/-- The registry call of a handler. -/
theorem traced_of_w (h : p'.w = p.w) : p.Traced p' := Worker.traced_of_eq (h ▸ rfl) (h ▸ rfl)

theorem traced_atSource {β : Type} (p : Proc) (a : ℕ) (d : β)
    {f : Option ShmCtx → Source → Option ShmCtx × Source × β}
    (hf : ∀ sh (src : Source), src.Kin (f sh src).2.1) : p.Traced (p.atSource a d f).1 := by
  unfold Proc.atSource
  split
  · exact .refl p
  · next src hsrc =>
    refine Worker.traced_modifySource a fun v hv => ?_
    obtain rfl := Option.some.inj (hsrc.symm.trans hv)
    exact hf p.sh src

theorem traced_claim (p : Proc) (env : Env) (a : ℕ) (kind : PublisherKind) :
    p.Traced (p.claim env a kind).1 :=
  traced_atSource p a _ fun sh src => publishClaim_kin sh env src kind

theorem traced_release (p : Proc) (now a : ℕ) : p.Traced (p.release now a) :=
  traced_atSource p a _ fun sh src => publishRelease_kin sh now src

theorem traced_releaseOwned (p : Proc) (now : ℕ) (sess : Session) :
    p.Traced (p.releaseOwned now sess) := by
  unfold Proc.releaseOwned
  split
  · exact .refl p
  · split_ifs
    · exact traced_release p now _
    · exact .refl p

theorem traced_rollback (p : Proc) (created : Bool) (name : SourceName) :
    p.Traced (p.rollback created name) := by
  unfold Proc.rollback
  split_ifs
  · exact Worker.traced_sourceRemove p.w name
  · exact .refl p

/-- A session is rewritten but for its source, its place on a list and its handshake. -/
theorem traced_upd (p : Proc) (a : ℕ) {f : Session → Session}
    (hf : ∀ s, (f s).source = s.source ∧ (f s).subLinked = s.subLinked ∧
      (s.Handshaken → (f s).Handshaken)) : p.Traced (p.upd fun w => w.modifySession a f) :=
  Worker.traced_modifySession a fun s _ => hf s

theorem traced_touch (p : Proc) (now a : ℕ) :
    p.Traced (p.upd fun w => w.modifySession a fun s => { s with lastActive := now }) :=
  traced_upd p a fun _ => ⟨rfl, rfl, fun h => ⟨h.joined, h.started⟩⟩

/-! ### Closing -/

theorem atSource_sessions {β : Type} (p : Proc) (a : ℕ) (d : β)
    (f : Option ShmCtx → Source → Option ShmCtx × Source × β) :
    (p.atSource a d f).1.w.sessions = p.w.sessions := by
  unfold Proc.atSource
  split <;> rfl

theorem releaseOwned_sessions (p : Proc) (now : ℕ) (sess : Session) :
    (p.releaseOwned now sess).w.sessions = p.w.sessions := by
  unfold Proc.releaseOwned
  split
  · rfl
  · split_ifs
    · exact atSource_sessions p _ () _
    · rfl

theorem traced_detach (w : Worker) (closeEv : Bool) (a : ℕ) (sess : Session) :
    w.Traced (w.detach closeEv a sess) := by
  unfold Worker.detach
  split
  · exact .refl w
  · have hm : w.Traced (w.modifySession a fun s => { s with conn := none }) :=
      Worker.traced_modifySession a fun _ _ => ⟨rfl, rfl, fun h => ⟨h.joined, h.started⟩⟩
    exact hm.trans (Worker.traced_of_eq rfl rfl)

theorem get_detach {w : Worker} {a : ℕ} {sess : Session} (hs : w.sessions.get a = some sess)
    (closeEv : Bool) :
    ∃ s, (w.detach closeEv a sess).sessions.get a = some s ∧ s.source = sess.source := by
  unfold Worker.detach
  split
  · exact ⟨sess, hs, rfl⟩
  · refine ⟨{ sess with conn := none }, ?_, rfl⟩
    show (w.sessions.modify a _).get a = _
    rw [Pool.get_modify_self, hs]
    rfl

theorem traced_sessionClose (p : Proc) (now : ℕ) (heap : Heap) (ev : SessionEvent) (a : ℕ) :
    p.Traced (p.sessionClose now heap ev a) := by
  unfold Proc.sessionClose
  split
  · exact .refl p
  · next sess hs =>
    have hd : p.Traced (p.upd fun w =>
        (w.detach heap.closeEv a sess).modifySession a (Session.dispatch ev none)) :=
      (traced_detach p.w heap.closeEv a sess).trans
        (Worker.traced_modifySession a fun s _ => ⟨rfl, rfl, fun h => h.dispatch ev none⟩)
    have hr := hd.trans (traced_releaseOwned _ now sess)
    obtain ⟨t, ht, hts⟩ := get_detach hs heap.closeEv
    refine Traced.trans hr (Worker.traced_leave (s := t.dispatch ev none) ?_ hts.symm)
    rw [releaseOwned_sessions]
    show ((p.w.detach heap.closeEv a sess).sessions.modify a (Session.dispatch ev none)).get a = _
    rw [Pool.get_modify_self, ht]
    rfl

theorem traced_reapSession (p : Proc) (conf : StreamConf) (now : ℕ) (heap : Heap) (a : ℕ) :
    p.Traced (Proc.reapSession conf now heap p a) := by
  unfold Proc.reapSession
  split
  · exact .refl p
  · split_ifs
    · exact traced_sessionClose p now heap .close a
    · exact traced_sessionClose p now heap .timeout a
    · exact .refl p

theorem traced_onRtcp (p : Proc) (now : ℕ) (heap : Heap) (c : ℕ) (plain : Option Bool) :
    p.Traced (p.onRtcp now heap c plain) := by
  unfold Proc.onRtcp
  split
  · exact .refl p
  · next a _ =>
    split
    · exact .refl p
    · split_ifs
      · exact .refl p
      · exact (traced_touch p now a).trans (traced_sessionClose _ now heap .rtcpBye a)
      · exact traced_touch p now a

/-! ### Handshakes -/

/-- The end of a handshake: the session joins the list of its source, unless it publishes. -/
theorem traced_dtlsDone (p : Proc) (now a : ℕ) (keys : Bool)
    (hs : ∀ s, p.w.sessions.get a = some s → s.subLinked = false ∧ s.dtls = some true) :
    p.Traced (p.dtlsDone now a keys) := by
  unfold Proc.dtlsDone
  split_ifs
  · exact traced_upd p a fun _ => ⟨rfl, rfl, fun h => ⟨h.joined, h.started⟩⟩
  · split
    · exact .refl p
    · next sess hget =>
      obtain ⟨hl, hd⟩ := hs sess hget
      have hm : p.Traced (p.upd fun w => w.modifySession a fun s =>
          { (s.dispatch .dtlsHandshakeDone none) with lastActive := now }) :=
        traced_upd p a fun s =>
          ⟨rfl, rfl, fun h => ⟨h.joined, (h.dispatch .dtlsHandshakeDone none).started⟩⟩
      simp only [Proc.Traced, call, upd]
      split
      · next src hsrc hpub =>
        refine Worker.Traced.trans hm (Worker.traced_subscribe
          (s := { (sess.dispatch .dtlsHandshakeDone none) with lastActive := now }) ?_ hsrc hl hd)
        show (p.w.sessions.modify a _).get a = _
        rw [Pool.get_modify_self, hget]
        rfl
      · exact hm

theorem traced_dtlsFinish (p : Proc) (now : ℕ) (heap : Heap) (a : ℕ) {sess : Session}
    (hget : (p.w.sessions.get a).map Session.dtls = some sess.dtls) (v : DtlsVerdict) :
    p.Traced (p.dtlsFinish now heap a sess v) := by
  have hclose : ∀ q : Proc, q.Traced (Proc.dtlsFinish.closeIfPending now heap a q) := by
    intro q
    unfold Proc.dtlsFinish.closeIfPending
    split_ifs
    · exact traced_sessionClose q now heap .close a
    · exact .refl q
  unfold Proc.dtlsFinish
  split_ifs with hfin
  · obtain ⟨s, hs, hsd⟩ := Option.map_eq_some_iff.1 hget
    have hfalse : s.dtls = some false := hsd.trans hfin.1
    refine Worker.Traced.of_hand fun hand => ?_
    -- a session in its handshake has not joined a list
    have hl : s.subLinked = false := by
      cases hl : s.subLinked with
      | false => rfl
      | true => exact nomatch hfalse.symm.trans ((hand a s hs).joined hl)
    have hm : p.Traced (p.upd fun w => w.modifySession a fun s => { s with dtls := some true }) := by
      refine Worker.traced_modifySession a fun t ht => ⟨rfl, rfl, fun h => ⟨fun _ => rfl, fun _ => ?_⟩⟩
      obtain rfl := Option.some.inj (hs.symm.trans ht)
      exact h.started (by rw [hfalse]; exact Option.some_ne_none _)
    refine hm.trans (Traced.trans (traced_dtlsDone _ now a v.keys fun t ht => ?_) (hclose _))
    have ht' : ((p.w.sessions.modify a fun s => { s with dtls := some true }).get a) = some t := ht
    rw [Pool.get_modify_self, hs] at ht'
    obtain rfl := Option.some.inj ht'
    exact ⟨hl, rfl⟩
  · exact hclose p

theorem traced_dtlsFeed (p : Proc) (now : ℕ) (heap : Heap) (a : ℕ) (v : DtlsVerdict) :
    p.Traced (p.dtlsFeed now heap a v) := by
  unfold Proc.dtlsFeed
  split
  · exact .refl p
  · next sess hs =>
    split_ifs
    · exact (traced_touch p now a).trans (traced_sessionClose _ now heap .close a)
    · refine (traced_touch p now a).trans (traced_dtlsFinish _ now heap a ?_ v)
      show ((p.w.sessions.modify a _).get a).map Session.dtls = _
      rw [Pool.get_modify_self, hs]
      rfl

theorem traced_onDtls (p : Proc) (now : ℕ) (heap : Heap) (c : ℕ) (data : Bytes) (v : DtlsVerdict) :
    p.Traced (p.onDtls now heap c data v) := by
  unfold Proc.onDtls
  split
  · exact .refl p
  · next a _ =>
    split
    · exact .refl p
    · next sess hs =>
      have hm : p.Traced (p.upd fun w => w.modifySession a
          (Session.dispatch .dtlsPacket (some ⟨some c, some data⟩))) :=
        traced_upd p a fun s => ⟨rfl, rfl, fun h => h.dispatch _ _⟩
      have hd := hm.trans (traced_of_w (publishState_w _ a))
      have hget : ((p.upd fun w => w.modifySession a (Session.dispatch .dtlsPacket
          (some ⟨some c, some data⟩))).publishState a).w.sessions.get a =
            some (sess.dispatch .dtlsPacket (some ⟨some c, some data⟩)) := by
        rw [publishState_w]
        show (p.w.sessions.modify a _).get a = _
        rw [Pool.get_modify_self, hs]
        rfl
      generalize (p.upd fun w => w.modifySession a
        (Session.dispatch .dtlsPacket (some ⟨some c, some data⟩))).publishState a = q at hd hget ⊢
      split_ifs with hpend hhand
      · exact .refl p
      · rw [Bool.not_eq_true, Bool.not_eq_false'] at hhand
        refine Worker.Traced.of_hand fun hall => ?_
        have hdtls : sess.dtls = none := by
          by_contra hne
          exact nomatch hpend.symm.trans ((hall a sess hs).started hne)
        have hb : q.Traced (q.upd fun w => w.modifySession a fun s =>
            { s with conn := some c, dtls := some false }) := by
          refine Worker.traced_modifySession a fun t ht => ?_
          obtain rfl := Option.some.inj (hget.symm.trans ht)
          refine ⟨rfl, rfl, fun _ => ⟨fun hl => ?_, fun _ => fsmDispatch_record hpend hhand⟩⟩
          exact nomatch hdtls.symm.trans ((hall a sess hs).joined hl)
        exact hd.trans (hb.trans (traced_dtlsFeed _ now heap a v))
      · have hb : q.Traced (q.upd fun w => w.modifySession a fun s => { s with conn := some c }) :=
          traced_upd q a fun _ => ⟨rfl, rfl, fun h => ⟨h.joined, h.started⟩⟩
        exact hd.trans (hb.trans (traced_sessionClose _ now heap .close a))
      · exact traced_dtlsFeed p now heap a v

theorem traced_dtlsTimer (p : Proc) (now : ℕ) (heap : Heap) (a : ℕ) (v : DtlsVerdict) :
    p.Traced (p.dtlsTimer now heap a v) := by
  unfold Proc.dtlsTimer
  split
  · exact .refl p
  · next sess hs =>
    split_ifs
    · exact traced_dtlsFinish p now heap a (by rw [hs]; rfl) v
    · exact traced_sessionClose p now heap .timeout a
    · exact .refl p

/-! ### Bindings -/

theorem traced_attachSource (p : Proc) (env : Env) (heap : Heap) (snap : SessionSnapshot) :
    p.Traced (p.attachSource env heap snap).1 ∧ ∀ src, (p.attachSource env heap snap).2 = some src →
      ((p.attachSource env heap snap).1.w.sources.get src).isSome := by
  unfold Proc.attachSource
  split
  · exact ⟨.refl p, fun _ h => nomatch h⟩
  · next name _ _ _ _ _ =>
    have hc := Worker.traced_sourceCreate p.w heap.source name
    split
    · exact ⟨.refl p, fun _ h => nomatch h⟩
    · next w src _ hw =>
      rw [hw] at hc
      have hlive := Worker.isSome_sourceCreate hw
      refine ⟨Worker.Traced.trans hc (traced_atSource ⟨p.sh, w⟩ src () fun sh v => ?_),
        fun b hb => ?_⟩
      · split <;> exact ⟨rfl, rfl⟩
      · obtain rfl := Option.some.inj hb
        unfold Proc.atSource
        split
        · exact hlive
        · exact (Pool.isSome_modify _ _ _ _).trans hlive

theorem traced_attachFromShm (p : Proc) (env : Env) (heap : Heap) (ufrag : Ufrag) :
    p.Traced (p.attachFromShm env heap ufrag).1 := by
  unfold Proc.attachFromShm
  split
  · exact .refl p
  · split_ifs
    · exact .refl p
    · split
      · exact .refl p
      · next c' _ snap _ =>
        obtain ⟨ha, hlive⟩ := traced_attachSource ⟨some c', p.w⟩ env heap snap
        exact Worker.Traced.trans ha (Worker.traced_sessionAdd hlive ⟨(nomatch ·), (absurd rfl ·)⟩)

theorem traced_onStun (p : Proc) (env : Env) (heap : Heap) (c : ℕ) (ufrag : Ufrag)
    (verified : Pwd → Bool) : p.Traced (p.onStun env heap c ufrag verified) := by
  have hf : p.Traced (p.findOrAttach env heap ufrag).1 := by
    unfold Proc.findOrAttach
    split
    · exact .refl p
    · exact traced_attachFromShm p env heap ufrag
  unfold Proc.onStun
  split
  · next he => rw [he] at hf; exact hf
  · next q a he =>
    rw [he] at hf
    split
    · exact hf
    · split_ifs
      · have hb : q.Traced (q.upd fun w => w.modifySession a fun s =>
            { (s.dispatch .stunBinding (some ⟨some c, none⟩)) with
              conn := some c
              lastActive := env.now }) :=
          traced_upd q a fun s => ⟨rfl, rfl, fun h => ⟨h.joined, (h.dispatch _ _).started⟩⟩
        exact hf.trans (hb.trans (Traced.trans (traced_of_w (publishState_w _ a))
          (Worker.traced_of_eq rfl rfl)))
      · exact hf

/-! ### Media -/

theorem traced_broadcast (p : Proc) (a : ℕ) (rtp : Bytes) (isVideo gop : Bool) :
    p.Traced (p.broadcast a rtp isVideo gop) := by
  refine traced_atSource p a () fun sh src => ?_
  cases sh with
  | none => exact ⟨rfl, rfl⟩
  | some c => exact broadcastRtp_kin c p.w src rtp isVideo gop

theorem traced_forward (p : Proc) (now a : ℕ) (rtp : Bytes) (isVideo gop : Bool) :
    p.Traced (p.forward now a rtp isVideo gop).1 := by
  have hc : p.Traced (p.publishRtp a rtp isVideo gop) :=
    (traced_broadcast p a rtp isVideo gop).trans
      (Worker.traced_modifySource a fun _ _ => ⟨rfl, rfl⟩)
  exact (hc.trans (traced_atSource _ a none fun sh src => streamShmSource_kin sh now src)).trans
    (traced_of_w (shmStats_w _ a _))

theorem traced_whipEmit (now : ℕ) (slab : Bool) (a : ℕ) (p : Proc) (pkt : Bytes × Bool) :
    p.Traced (whipEmit now slab a p pkt) := by
  have hf := traced_forward p now a pkt.1 true pkt.2
  unfold Proc.whipEmit
  split <;> next he => rw [he] at hf; exact hf

theorem traced_learnSsrc (p : Proc) (a : ℕ) (isVideo : Bool) (ssrc : UInt32) :
    p.Traced (p.learnSsrc a isVideo ssrc) := by
  unfold Proc.learnSsrc
  split
  · split_ifs
    · exact Worker.traced_modifySource a fun _ _ => ⟨rfl, rfl⟩
    · exact Worker.traced_modifySource a fun _ _ => ⟨rfl, rfl⟩
    · exact .refl p
  · exact .refl p

theorem traced_onSrtp (p : Proc) (now : ℕ) (slab : Bool) (c : ℕ) (plain : Option Bytes)
    (emitted : List (Bytes × Bool)) : p.Traced (p.onSrtp now slab c plain emitted) := by
  have hemit : ∀ (pkts : List (Bytes × Bool)) (q : Proc) (a : ℕ), p.Traced q →
      p.Traced (pkts.foldl (whipEmit now slab a) q) := by
    intro pkts
    induction pkts with
    | nil => exact fun _ _ hq => hq
    | cons pkt pkts ih => exact fun q a hq => ih _ a (hq.trans (traced_whipEmit now slab a q pkt))
  unfold Proc.onSrtp
  split
  · exact .refl p
  · next a _ =>
    have ht := traced_touch p now a
    split
    · split
      · exact .refl p
      · split_ifs
        · exact .refl p
        · exact hemit _ _ _ (ht.trans (traced_learnSsrc _ _ true _))
        · exact (ht.trans (traced_learnSsrc _ _ false _)).trans
            (traced_forward _ now _ _ false false)
        · exact ht
    · exact .refl p

/-! ### Requests and RTMP -/

theorem traced_takeIdentity (p : Proc) (offer : Offer) (name : SourceName) (src : ℕ)
    (b : Option ℕ) : p.Traced (p.takeIdentity offer name src b) := by
  unfold Proc.takeIdentity
  split
  · split
    · exact .refl p
    · exact Worker.traced_modifySource src fun _ _ => ⟨rfl, rfl⟩
  · exact .refl p

theorem traced_openSession (p : Proc) (r : Request) (src : ℕ) (publishing : Bool) :
    p.Traced (p.openSession r src publishing) := by
  unfold Proc.openSession
  split
  · exact .refl p
  · next v hv =>
    refine Worker.traced_sessionAdd (fun b hb => ?_) ⟨(nomatch ·), (absurd rfl ·)⟩
    obtain rfl := Option.some.inj hb
    rw [hv]
    rfl

theorem traced_addSkeleton (p : Proc) (envAdd : Env) (name : SourceName) (a : ℕ) :
    p.Traced (p.addSkeleton envAdd name a) := by
  unfold Proc.addSkeleton
  split
  · refine Worker.Traced.trans (v := p.w) (.refl p.w) ?_
    dsimp only
    split
    · exact .refl p.w
    · exact Worker.traced_modifySession a fun _ _ => ⟨rfl, rfl, fun h => ⟨h.joined, h.started⟩⟩
  · exact .refl p

theorem traced_play (p : Proc) (r : Request) : p.Traced (p.play r) := by
  have hc := Worker.traced_sourceCreate p.w r.heap.source r.name
  unfold Proc.play
  split
  · exact .refl p
  · next w src created hw =>
    rw [hw] at hc
    have hg : p.Traced (Proc.shmSourceGet ⟨p.sh, w⟩ r.env r.name).1 :=
      Worker.Traced.trans hc (traced_of_w (p := ⟨p.sh, w⟩) (shmSourceGet_w _ _ _))
    have ht := hg.trans (traced_takeIdentity _ r.offer r.name src
      (Proc.shmSourceGet ⟨p.sh, w⟩ r.env r.name).2)
    unfold Proc.play.playOn
    split_ifs
    · exact (ht.trans (traced_openSession _ r src false)).trans
        (traced_addSkeleton _ r.envAdd r.name _)
    · exact ht.trans (traced_rollback _ created r.name)

/-- The session a request opens is on no list. -/
theorem openSession_off {p : Proc} {r : Request} {src : ℕ} {publishing : Bool} {s : Session}
    (h : (p.openSession r src publishing).w.sessions.get p.w.sessions.next = some s) :
    s.subLinked = false := by
  unfold Proc.openSession at h
  split at h
  · exact nomatch (Pool.get_next _).symm.trans h
  · simp only [upd, Worker.sessionAdd, Pool.get_alloc_self, Option.some.injEq] at h
    rw [← h]
    rfl

theorem addSkeleton_off {p : Proc} {envAdd : Env} {name : SourceName} {a b : ℕ}
    (h : ∀ s, p.w.sessions.get b = some s → s.subLinked = false) {s : Session}
    (hs : (p.addSkeleton envAdd name a).w.sessions.get b = some s) : s.subLinked = false := by
  unfold Proc.addSkeleton at hs
  split at hs
  · dsimp only at hs
    split at hs
    · exact h s hs
    · simp only [Worker.modifySession, Pool.get_modify] at hs
      split_ifs at hs
      · obtain ⟨t, ht, rfl⟩ := Option.map_eq_some_iff.1 hs
        exact h t ht
      · exact h s hs
  · exact h s hs

theorem takeIdentity_sessions (p : Proc) (offer : Offer) (name : SourceName) (src : ℕ)
    (b : Option ℕ) : (p.takeIdentity offer name src b).w.sessions = p.w.sessions := by
  unfold Proc.takeIdentity
  split
  · split <;> rfl
  · rfl

theorem traced_whipGranted (p : Proc) (r : Request) (src : ℕ) (created : Bool) :
    p.Traced (p.whipGranted r src created) := by
  have hi : p.Traced (Proc.whipGranted.identified p r src) := traced_takeIdentity p _ _ src _
  have hg := (hi.trans (traced_openSession _ r src true)).trans
    (traced_of_w (shmSourceGet_w ((Proc.whipGranted.identified p r src).openSession r src true)
      r.env r.name))
  have hnext : (Proc.whipGranted.identified p r src).w.sessions.next = p.w.sessions.next := by
    rw [Proc.whipGranted.identified, takeIdentity_sessions]
  -- the session of the request has not joined a list
  have hoff : ∀ s, (Proc.whipGranted.registered p r src).w.sessions.get p.w.sessions.next = some s →
      s.subLinked = false := by
    have hopen : ∀ s, (((Proc.whipGranted.identified p r src).openSession r src true).shmSourceGet
        r.env r.name).1.w.sessions.get p.w.sessions.next = some s → s.subLinked = false := by
      intro s hs
      rw [shmSourceGet_w, ← hnext] at hs
      exact openSession_off hs
    unfold Proc.whipGranted.registered
    split
    · next he => rw [he] at hopen; exact hopen
    · next he =>
      rw [he] at hopen
      exact fun s hs => addSkeleton_off hopen hs
  have hr : p.Traced (Proc.whipGranted.registered p r src) := by
    unfold Proc.whipGranted.registered
    split
    · next he => rw [he] at hg; exact hg
    · next he => rw [he] at hg; exact hg.trans (traced_addSkeleton _ r.envAdd r.name _)
  unfold Proc.whipGranted
  split_ifs
  · exact hr
  · have hrel := hr.trans (traced_release (Proc.whipGranted.registered p r src) r.env.now src)
    have hrem : ((Proc.whipGranted.registered p r src).release r.env.now src).Traced
        (((Proc.whipGranted.registered p r src).release r.env.now src).upd fun w =>
          w.sessionRemove p.w.sessions.next) := by
      refine Worker.traced_sessionRemove fun s hs => ?_
      rw [Proc.release, atSource_sessions] at hs
      exact hoff s hs
    exact (hrel.trans hrem).trans (traced_rollback _ created r.name)
  · exact (hi.trans (traced_release _ r.env.now src)).trans (traced_rollback _ created r.name)

theorem traced_whip (p : Proc) (r : Request) : p.Traced (p.whip r) := by
  have hc := Worker.traced_sourceCreate p.w r.heap.source r.name
  unfold Proc.whip
  split
  · exact .refl p
  · next w src created hw =>
    rw [hw] at hc
    have hc : p.Traced ⟨p.sh, w⟩ := hc
    have hcl := hc.trans (traced_claim ⟨p.sh, w⟩ r.env src .whip)
    split_ifs
    · exact hc.trans (traced_rollback ⟨p.sh, w⟩ created r.name)
    · split
      · next he => rw [he] at hcl; exact hcl.trans (traced_rollback _ created r.name)
      · next he => rw [he] at hcl; exact hcl.trans (traced_whipGranted _ r src created)

theorem traced_rtmpSync (p : Proc) (env : Env) (heap : Heap) (name : SourceName) :
    p.Traced (p.rtmpSync env heap name).1 := by
  have hc := Worker.traced_sourceCreate p.w heap.source name
  unfold Proc.rtmpSync
  split
  · exact .refl p
  · next w src created hw =>
    rw [hw] at hc
    have hc : p.Traced ⟨p.sh, w⟩ := hc
    have hs := hc.trans (traced_atSource ⟨p.sh, w⟩ src Rc.error
      fun sh v => rtmpSyncShm_kin sh p.w.slot env v)
    split <;> next he => rw [he] at hs; exact hs

theorem traced_rtmpAudio (p : Proc) (env : Env) (heap : Heap) (name : SourceName)
    (header : Option Bool) : p.Traced (p.rtmpAudio env heap name header) := by
  have hs := traced_rtmpSync p env heap name
  unfold Proc.rtmpAudio
  split
  · next he =>
    rw [he] at hs
    exact hs.trans (Worker.traced_modifySource _ fun _ _ => ⟨rfl, rfl⟩)
  · next he _ => rw [he] at hs; exact hs

theorem traced_rtmpRelease (p : Proc) (now : ℕ) (name : SourceName) :
    p.Traced (p.rtmpRelease now name) := by
  unfold Proc.rtmpRelease
  split
  · exact .refl p
  · next src _ =>
    have ha : p.Traced (p.upd fun w => w.modifySource src fun s => { s with audioCtx := false }) :=
      Worker.traced_modifySource src fun _ _ => ⟨rfl, rfl⟩
    split_ifs
    · exact (ha.trans (traced_release _ now src)).trans (Worker.traced_sourceRemove _ name)
    · exact ha

/-- **Every handler** is a run of allowed operations on the registry. -/
theorem traced_step (p : Proc) (e : ProcEvent) : p.Traced (p.step e) := by
  cases e with
  | play r => exact traced_play p r
  | whip r => exact traced_whip p r
  | accept => exact Worker.traced_of_eq rfl rfl
  | stun env heap c ufrag verified =>
    simp only [Proc.step]
    split_ifs
    · exact traced_onStun p env heap c ufrag verified
    · exact .refl p
  | dtls now heap c data v => exact traced_onDtls p now heap c data v
  | dtlsTimer now heap a v => exact traced_dtlsTimer p now heap a v
  | rtcp now heap c plain => exact traced_onRtcp p now heap c plain
  | srtp now slab c plain emitted => exact traced_onSrtp p now slab c plain emitted
  | reap conf now heap a => exact traced_reapSession p conf now heap a
  | finalize c =>
    simp only [Proc.step, Proc.finalize]
    split_ifs
    · exact Worker.traced_of_eq rfl rfl
    · exact .refl p
  | rtmpVideo env heap name => exact traced_rtmpSync p env heap name
  | rtmpAudio env heap name header => exact traced_rtmpAudio p env heap name header
  | rtmpRelease now name => exact traced_rtmpRelease p now name
  | others op => exact traced_of_w rfl

theorem traced_run (p : Proc) (es : List ProcEvent) : p.Traced (Lts.run step p es) := by
  induction es generalizing p with
  | nil => exact .refl p
  | cons e es ih => exact (traced_step p e).trans (ih (p.step e))

end Proc

namespace Core

theorem models_init (slot : ℕ) : Core.init.Models (Worker.init slot) :=
  ⟨rfl, rfl, ok_init, fun _ _ _ hm => (List.not_mem_nil hm).elim,
    fun b _ hs => nomatch (Pool.get_empty b).symm.trans hs⟩

end Core

/-- **The life of local sources.**  After any operations in any order, as far as their callers are
    allowed to make them, the registry keeps its promises; and every run of a worker's handlers
    makes only such operations, its sources, sessions and subscriber lists being those of the
    registry. -/
theorem source_lifetimes :
    (∀ ops, Lts.Along CoreOp.step CoreOp.Allowed Core.init ops →
      (Lts.run CoreOp.step Core.init ops).Lifetimes) ∧
    ∀ slot sh es, ∃ ops, Lts.Along CoreOp.step CoreOp.Allowed Core.init ops ∧
      (Lts.run CoreOp.step Core.init ops).Models (Lts.run Proc.step (Proc.init slot sh) es).w := by
  refine ⟨fun ops hops => ?_, fun slot sh es => ?_⟩
  · have hok : ∃ q, (Lts.run CoreOp.step Core.init ops).Ok q :=
      Lts.run_of_step (P := fun c => ∃ q, Core.Ok c q)
        (fun _ _ ⟨_, hq⟩ hop => CoreOp.ok_step hq hop) ⟨_, Core.ok_init⟩ hops
    obtain ⟨q, hq⟩ := hok
    exact Core.lifetimes hq
  · exact Proc.traced_run (Proc.init slot sh) es Core.init (Core.models_init slot)

end NginxRtc
