/-
  The handlers of a worker as sequences of elementary acts.

  An act is one call on the registry, one edit of a session or of a local source, one registration.
  A handler makes acts, and some handlers end by closing a session.  What every act keeps and a
  close keeps is kept by every handler, and by every run.

  `T` are the times at which calls may read the clock.  `kept` are names whose WHIP claim no act
  releases: for these no request fails after its claim.

  `handles_step`: every handler is such a sequence, and closes no other session than `closes` says.
-/
import Mathlib.Logic.Relation
import NginxRtc.Worker.Stream

namespace NginxRtc

/-! ## Acts -/

/-- The call reads the clock at times in `T`, and releases no name in `kept`. -/
structure ShmOp.Plain (T : ℕ → Prop) (kept : SourceName → Prop) (op : ShmOp) : Prop where
  beat : ∀ b, op.beat = some b → T b
  sweeps : ∀ c now, op.sweeps c = some now → T now
  releases : ∀ now name kind, op = .releasePublish now name kind → ¬ kept name

/-- Of a local source: its name, and what the claims, releases and renewals of it write. -/
structure SourceClaim where
  name : SourceName
  publishing : Bool
  kind : Option PublisherKind
  shmSrc : Option ℕ
  shmSyncMs : ℕ

def Source.claim (v : Source) : SourceClaim :=
  ⟨v.name, v.publishing, v.publisherKind, v.shmSrc, v.shmSyncMs⟩

theorem refreshSnap_claim (c : ShmCtx) (v : Source) : (v.refreshSnap c).claim = v.claim := by
  unfold Source.refreshSnap
  split_ifs <;> rfl

theorem broadcastRtp_claim (c : ShmCtx) (w : Worker) (v : Source) (rtp : Bytes)
    (isVideo gop : Bool) : (broadcastRtp c w v rtp isVideo gop).src.claim = v.claim := by
  unfold broadcastRtp
  split_ifs
  · rfl
  · exact refreshSnap_claim c v
  · exact refreshSnap_claim c v

/-- The stream of a session, and whether it publishes it. -/
def Session.stream (s : Session) : Option ℕ × Bool := (s.source, s.publishing)

/-! ## Closes -/

/-- Feeding a DTLS record to the session, or its retransmission timer, ends in a close. -/
def Session.spoils (v : DtlsVerdict) (s : Session) : Bool :=
  s.dtls.isNone || !v.accept || s.closePending || (s.dtls = some false && v.finishes && !v.keys)

/-- The DTLS record `data` from the connection `c` ends in a close of the session. -/
def Session.dtlsFails (c : ℕ) (data : Bytes) (v : DtlsVerdict) (s : Session) : Bool :=
  if s.fsm.dtlsPending then
    (fsmDispatch s.fsm .dtlsPacket (some ⟨some c, some data⟩)).2 &&
      (!v.create || Session.spoils v { s with dtls := some false })
  else s.spoils v

/-- The session an event closes. -/
def Proc.closes (p : Proc) : ProcEvent → Option ℕ
  | .dtls _ _ c data v =>
    (p.w.getCtx c).filter fun a => (p.w.sessions.get a).any (Session.dtlsFails c data v)
  | .dtlsTimer _ _ a v =>
    if (p.w.sessions.get a).any fun s => s.dtls = some false && s.spoils v then some a else none
  | .rtcp _ _ c plain =>
    (p.w.getCtx c).filter fun a =>
      plain = some true && (p.w.sessions.get a).any fun s => s.conn.isSome && s.fsm.isReady
  | .reap conf now _ a =>
    if (p.w.sessions.get a).any fun s => p.kicked s || s.idle conf now then some a else none
  | _ => none

namespace Proc

section Acts
variable (T : ℕ → Prop) (kept : SourceName → Prop)

/-- One elementary act. -/
inductive Act : Proc → Proc → Prop where
  | call (p : Proc) (op : ShmOp) (h : op.Plain T kept) : Act p (p.call op)
  | conns (p : Proc) (f : Worker → Worker) (hsources : (f p.w).sources = p.w.sources)
      (hsessions : (f p.w).sessions = p.w.sessions) : Act p (p.upd f)
  | session (p : Proc) (a : ℕ) (f : Session → Session) (h : ∀ s : Session, (f s).stream = s.stream) :
      Act p (p.upd fun w => w.modifySession a f)
  | source (p : Proc) (a : ℕ) (f : Source → Source) (h : ∀ v : Source, (f v).claim = v.claim) :
      Act p (p.upd fun w => w.modifySource a f)
  | subscribe (p : Proc) (x a : ℕ) (h : ∃ s, p.w.sessions.get a = some s ∧ s.source = some x) :
      Act p (p.upd fun w => w.subscribe x a)
  | enter (p : Proc) (sess : Session) : Act p (p.upd fun w => w.sessionAdd sess)
  | create (p : Proc) (alloc : Bool) (name : SourceName) :
      Act p ⟨p.sh, (p.w.sourceCreate alloc name).1⟩
  | remove (p : Proc) (name : SourceName) : Act p (p.upd fun w => w.sourceRemove name)
  | broadcast (p : Proc) (a : ℕ) (rtp : Bytes) (isVideo gop : Bool) :
      Act p (p.broadcast a rtp isVideo gop)
  | claim (p : Proc) (env : Env) (a : ℕ) (kind : PublisherKind) (h : T env.now) :
      Act p (p.claim env a kind).1
  | renew (p : Proc) (now a : ℕ) (h : T now) : Act p (p.renew now a).1
  | sync (p : Proc) (slot : ℕ) (env : Env) (a : ℕ) (h : T env.now) :
      Act p (p.atSource a .error fun sh v => rtmpSyncShm sh slot env v).1
  | attach (p : Proc) (env : Env) (heap : Heap) (ufrag : Ufrag) (h : T env.now) :
      Act p (p.attachFromShm env heap ufrag).1
  | release (p : Proc) (now a : ℕ) (h : ∀ v, p.w.sources.get a = some v → kept v.name →
      v.publisherKind = some .rtmp) : Act p (p.release now a)
  | drop (p : Proc) (a : ℕ) : Act p (p.upd fun w => w.sessionRemove a)

/-- Acts one after the other. -/
abbrev Acts : Proc → Proc → Prop := Relation.ReflTransGen (Act T kept)

/-- Acts that leave the claims of the sources and the streams of the sessions alone. -/
structure Calm (p q : Proc) : Prop where
  acts : Acts T kept p q
  claims : ∀ x, (q.w.sources.get x).map Source.claim = (p.w.sources.get x).map Source.claim
  streams : ∀ a, (q.w.sessions.get a).map Session.stream = (p.w.sessions.get a).map Session.stream

/-- Calm acts, and then perhaps the close of a session in `C`. -/
inductive Settles (C : ℕ → Prop) (p : Proc) : Proc → Prop where
  | calm {q : Proc} (h : Calm T kept p q) : Settles C p q
  | closes {q : Proc} (h : Calm T kept p q) (now : ℕ) (heap : Heap) (ev : SessionEvent) {a : ℕ}
      (ha : C a) : Settles C p (q.sessionClose now heap ev a)

/-- What a handler does. -/
inductive Handles (C : ℕ → Prop) (p : Proc) : Proc → Prop where
  | acts {q : Proc} (h : Acts T kept p q) : Handles C p q
  | settles {q : Proc} (h : Settles T kept C p q) : Handles C p q

end Acts

section Handlers
variable {T : ℕ → Prop} {kept : SourceName → Prop} {C : ℕ → Prop} {p q r : Proc}

theorem Act.acts (h : Act T kept p q) : Acts T kept p q := .single h

theorem Calm.refl (p : Proc) : Calm T kept p p := ⟨.refl, fun _ => rfl, fun _ => rfl⟩

theorem Calm.trans (h : Calm T kept p q) (h' : Calm T kept q r) : Calm T kept p r where
  acts := Relation.ReflTransGen.trans h.acts h'.acts
  claims x := (h'.claims x).trans (h.claims x)
  streams a := (h'.streams a).trans (h.streams a)

theorem Calm.settles (h : Calm T kept p q) (h' : Settles T kept C q r) : Settles T kept C p r := by
  cases h' with
  | calm h' => exact .calm (h.trans h')
  | closes h' now heap ev ha => exact .closes (h.trans h') now heap ev ha

/-- An act that touches neither sources nor sessions. -/
theorem Act.calm (h : Act T kept p q) (hsources : q.w.sources = p.w.sources)
    (hsessions : q.w.sessions = p.w.sessions) : Calm T kept p q :=
  ⟨h.acts, fun _ => by rw [hsources], fun _ => by rw [hsessions]⟩

/-- An edit of one entry of a pool, as far as `f` cannot see it. -/
theorem get_modify_map {α β : Type} (pool : Pool α) (a : ℕ) {f : α → α} {g : α → β}
    (h : ∀ v, pool.get a = some v → g (f v) = g v) (b : ℕ) :
    ((pool.modify a f).get b).map g = (pool.get b).map g := by
  rw [Pool.get_modify]
  split_ifs with hb
  · subst hb
    cases hv : pool.get b with
    | none => rfl
    | some v => exact congrArg some (h v hv)
  · rfl

/-! ### Single acts -/

/-- A call that neither reads the clock nor releases anything. -/
theorem ShmOp.plain_of_idle {op : ShmOp} (hb : op.beat = none) (hs : ∀ c, op.sweeps c = none)
    (hr : ∀ now name kind, op ≠ .releasePublish now name kind) : op.Plain T kept :=
  ⟨fun _ h => (nomatch hb.symm.trans h), fun c _ h => (nomatch (hs c).symm.trans h),
    fun now name kind h => absurd h (hr now name kind)⟩

theorem calm_call (p : Proc) {op : ShmOp} (h : op.Plain T kept) : Calm T kept p (p.call op) :=
  (Act.call p op h).calm rfl rfl

theorem calm_session (p : Proc) (a : ℕ) {f : Session → Session}
    (h : ∀ s, (f s).stream = s.stream) :
    Calm T kept p (p.upd fun w => w.modifySession a f) :=
  ⟨(Act.session p a f h).acts, fun _ => rfl, get_modify_map p.w.sessions a fun s _ => h s⟩

theorem calm_source (p : Proc) (a : ℕ) {f : Source → Source} (h : ∀ v, (f v).claim = v.claim) :
    Calm T kept p (p.upd fun w => w.modifySource a f) :=
  ⟨(Act.source p a f h).acts, get_modify_map p.w.sources a fun v _ => h v, fun _ => rfl⟩

theorem dispatch_stream (ev : SessionEvent) (ctx : Option FsmCtx) (s : Session) :
    (s.dispatch ev ctx).stream = s.stream := rfl

theorem calm_subscribe {p : Proc} {x a : ℕ} {s : Session} (hs : p.w.sessions.get a = some s)
    (hx : s.source = some x) : Calm T kept p (p.upd fun w => w.subscribe x a) := by
  refine ⟨(Act.subscribe p x a ⟨s, hs, hx⟩).acts, get_modify_map p.w.sources x fun _ _ => rfl,
    get_modify_map p.w.sessions a fun s' hs' => ?_⟩
  obtain rfl := Option.some.inj (hs'.symm.trans hs)
  simp only [Session.stream, hx]

theorem calm_conns (p : Proc) {f : Worker → Worker} (hsources : (f p.w).sources = p.w.sources)
    (hsessions : (f p.w).sessions = p.w.sessions) : Calm T kept p (p.upd f) :=
  (Act.conns p f hsources hsessions).calm hsources hsessions

theorem calm_publishState (p : Proc) (a : ℕ) : Calm T kept p (p.publishState a) := by
  unfold Proc.publishState
  split
  · exact .refl p
  · exact calm_call p (ShmOp.plain_of_idle rfl (fun _ => rfl) fun _ _ _ => (nomatch ·))

/-! ### Datagrams -/

/-- The session of a binding, once it is there. -/
theorem calm_bindConn (p : Proc) (now c a : ℕ) : Calm T kept p (p.bindConn now c a) := by
  have hb : Calm T kept p (p.upd fun w => w.modifySession a fun s =>
      { (s.dispatch .stunBinding (some ⟨some c, none⟩)) with conn := some c, lastActive := now }) :=
    calm_session p a fun _ => rfl
  exact (hb.trans (calm_publishState _ a)).trans (calm_conns _ rfl rfl)

/-- A binding: the session is there or attached, and then it may be bound. -/
theorem onStun_calm (p : Proc) (env : Env) (heap : Heap) (c : ℕ) (ufrag : Ufrag)
    (verified : Pwd → Bool) :
    Calm T kept (p.findOrAttach env heap ufrag).1 (p.onStun env heap c ufrag verified) := by
  unfold Proc.onStun
  split
  · next q he =>
    rw [he]
    exact .refl q
  · next q a he =>
    rw [he]
    split
    · exact .refl q
    · split_ifs
      · exact calm_bindConn q env.now c a
      · exact .refl q

theorem acts_onStun (p : Proc) {env : Env} (ht : T env.now) (heap : Heap) (c : ℕ) (ufrag : Ufrag)
    (verified : Pwd → Bool) : Acts T kept p (p.onStun env heap c ufrag verified) := by
  have hf : Acts T kept p (p.findOrAttach env heap ufrag).1 := by
    unfold Proc.findOrAttach
    split
    · exact .refl
    · exact (Act.attach p env heap ufrag ht).acts
  exact hf.trans (onStun_calm p env heap c ufrag verified).acts

theorem calm_dtlsDone (p : Proc) (now a : ℕ) (keys : Bool) :
    Calm T kept p (p.dtlsDone now a keys) := by
  unfold Proc.dtlsDone
  split_ifs
  · exact calm_session p a fun _ => rfl
  · split
    · exact .refl p
    · next sess hs =>
      have hm : Calm T kept p (p.upd fun w => w.modifySession a fun s =>
          { (s.dispatch .dtlsHandshakeDone none) with lastActive := now }) :=
        calm_session p a fun _ => rfl
      refine (hm.trans ?_).trans
        (calm_call _ (ShmOp.plain_of_idle rfl (fun _ => rfl) fun _ _ _ => (nomatch ·)))
      cases hx : sess.source with
      | none => exact .refl _
      | some x =>
        cases hp : sess.publishing with
        | true => exact .refl _
        | false =>
          refine calm_subscribe (s := { (sess.dispatch .dtlsHandshakeDone none) with
            lastActive := now }) ?_ hx
          simp only [upd, Worker.modifySession, Pool.get_modify_self, hs, Option.map_some]

theorem calm_touch (p : Proc) (now a : ℕ) : Calm T kept p
    (p.upd fun w => w.modifySession a fun s => { s with lastActive := now }) :=
  calm_session p a fun _ => rfl

/-- Completing a handshake asks for a close if the keys cannot be used. -/
theorem dtlsDone_pending {p : Proc} {a : ℕ} {s : Session} (hs : p.w.sessions.get a = some s)
    (now : ℕ) (keys : Bool) :
    ((p.dtlsDone now a keys).w.sessions.get a).any Session.closePending =
      (s.closePending || !keys) := by
  unfold Proc.dtlsDone
  cases keys with
  | false => simp [upd, Worker.modifySession, hs]
  | true =>
    simp only [Bool.not_true, Bool.false_eq_true, if_false, hs, call, upd, Bool.or_false]
    have hd : ∀ w : Worker, w.sessions.get a = some { (s.dispatch .dtlsHandshakeDone none) with
        lastActive := now } → (w.sessions.get a).any Session.closePending = s.closePending :=
      fun w hw => by rw [hw]; rfl
    split
    · next x _ _ => simp [Worker.modifySession, Worker.subscribe, hs, Session.dispatch]
    · exact hd _ (by simp [Worker.modifySession, hs])

theorem settles_closeIfPending (p : Proc) (now : ℕ) (heap : Heap) (a : ℕ)
    (hC : (p.w.sessions.get a).any Session.closePending = true → C a) :
    Settles T kept C p (Proc.dtlsFinish.closeIfPending now heap a p) := by
  unfold Proc.dtlsFinish.closeIfPending
  split_ifs with hp
  · exact .closes (.refl p) now heap .close (hC hp)
  · exact .calm (.refl _)

theorem settles_dtlsFinish {p : Proc} {a : ℕ} {s sess : Session}
    (hs : p.w.sessions.get a = some s) (now : ℕ) (heap : Heap) (v : DtlsVerdict)
    (hp : s.closePending = sess.closePending) (hC : sess.spoils v = true → C a) :
    Settles T kept C p (p.dtlsFinish now heap a sess v) := by
  unfold Proc.dtlsFinish
  split_ifs with hf
  · have hm : Calm T kept p (p.upd fun w => w.modifySession a fun s => { s with dtls := some true }) :=
      calm_session p a fun _ => rfl
    refine (hm.trans (calm_dtlsDone _ now a v.keys)).settles
      (settles_closeIfPending _ now heap a fun h => hC ?_)
    rw [dtlsDone_pending (s := { s with dtls := some true })
      (by simp only [upd, Worker.modifySession, Pool.get_modify_self, hs, Option.map_some])] at h
    simp only [hp, Bool.or_eq_true] at h
    rcases h with h | h
    · simp [Session.spoils, h]
    · simp [Session.spoils, hf.1, hf.2, h]
  · refine settles_closeIfPending p now heap a fun h => hC ?_
    rw [hs, Option.any_some, hp] at h
    simp [Session.spoils, h]

theorem settles_dtlsFeed (p : Proc) (now : ℕ) (heap : Heap) {a : ℕ} (v : DtlsVerdict)
    (hC : (p.w.sessions.get a).any (Session.spoils v) = true → C a) :
    Settles T kept C p (p.dtlsFeed now heap a v) := by
  unfold Proc.dtlsFeed
  split
  · exact .calm (.refl _)
  · next sess hs =>
    rw [hs, Option.any_some] at hC
    split_ifs with hf
    · refine .closes (calm_touch p now a) now heap .close (hC ?_)
      rcases hf with hf | hf
      · simp [Session.spoils, hf]
      · simp [Session.spoils, hf]
    · exact (calm_touch p now a).settles (settles_dtlsFinish (s := { sess with lastActive := now })
        (by simp only [upd, Worker.modifySession, Pool.get_modify_self, hs, Option.map_some])
        now heap v rfl hC)

theorem settles_onDtls (p : Proc) (now : ℕ) (heap : Heap) (c : ℕ) (data : Bytes) (v : DtlsVerdict)
    (hC : ∀ a, p.closes (.dtls now heap c data v) = some a → C a) :
    Settles T kept C p (p.onDtls now heap c data v) := by
  have hd : ∀ a, Calm T kept p ((p.upd fun w => w.modifySession a
      (Session.dispatch .dtlsPacket (some ⟨some c, some data⟩))).publishState a) := fun a =>
    Calm.trans (calm_session p a fun s => dispatch_stream _ _ s) (calm_publishState _ a)
  have hbound : ∀ (q : Proc) (a : ℕ), Calm T kept q
      (q.upd fun w => w.modifySession a fun s => { s with conn := some c }) := fun q a =>
    calm_session q a fun _ => rfl
  have hcreated : ∀ (q : Proc) (a : ℕ), Calm T kept q
      (q.upd fun w => w.modifySession a fun s => { s with conn := some c, dtls := some false }) :=
    fun q a => calm_session q a fun _ => rfl
  unfold Proc.onDtls
  split
  · exact .calm (.refl _)
  · next a hc =>
    split
    · exact .calm (.refl _)
    · next sess hs =>
      replace hC : sess.dtlsFails c data v = true → C a := fun h =>
        hC a (by simp only [closes, hc, Option.filter_some, hs, Option.any_some, h, if_true])
      split_ifs with hp hg hv
      · exact .calm (.refl _)
      · refine ((hd a).trans (hcreated _ a)).settles (settles_dtlsFeed _ now heap v fun h => hC ?_)
        simp only [upd, Worker.modifySession, Pool.get_modify_self, publishState_w, hs,
          Option.map_some, Option.any_some] at h
        have h' : Session.spoils v { sess with dtls := some false } = true := h
        simp only [Session.dtlsFails, hp, if_true, h', Bool.or_true, Bool.and_true]
        simpa using hg
      · refine .closes ((hd a).trans (hbound _ a)) now heap .close (hC ?_)
        simp only [Session.dtlsFails, hp, if_true, Bool.and_eq_true, Bool.or_eq_true]
        exact ⟨by simpa using hg, .inl (by simpa using hv)⟩
      · refine settles_dtlsFeed p now heap v fun h => hC ?_
        rw [hs, Option.any_some] at h
        simp only [Session.dtlsFails, if_neg hp, h]

theorem settles_dtlsTimer (p : Proc) (now : ℕ) (heap : Heap) (a : ℕ) (v : DtlsVerdict)
    (hC : ∀ b, p.closes (.dtlsTimer now heap a v) = some b → C b) :
    Settles T kept C p (p.dtlsTimer now heap a v) := by
  unfold Proc.dtlsTimer
  split
  · exact .calm (.refl _)
  · next sess hs =>
    split_ifs with hd hv
    · refine settles_dtlsFinish hs now heap v rfl fun h => hC a ?_
      simp only [closes, hs, Option.any_some, hd, decide_true, h, Bool.and_self, if_true]
    · refine .closes (.refl p) now heap .timeout (hC a ?_)
      simp [closes, hs, hd, Session.spoils, hv]
    · exact .calm (.refl _)

theorem settles_onRtcp (p : Proc) (now : ℕ) (heap : Heap) (c : ℕ) (plain : Option Bool)
    (hC : ∀ a, p.closes (.rtcp now heap c plain) = some a → C a) :
    Settles T kept C p (p.onRtcp now heap c plain) := by
  unfold Proc.onRtcp
  split
  · exact .calm (.refl _)
  · next a hc =>
    split
    · exact .calm (.refl _)
    · next sess hs =>
      split_ifs with hr hb
      · exact .calm (.refl _)
      · refine .closes (calm_touch p now _) now heap .rtcpBye (hC a ?_)
        simp only [not_or] at hr
        simp [closes, hc, hs, hb, Option.isSome_iff_ne_none, hr.1, by simpa using hr.2]
      · exact .calm (calm_touch p now _)

theorem settles_reapSession (conf : StreamConf) (now : ℕ) (heap : Heap) (p : Proc) (a : ℕ)
    (hC : ∀ b, p.closes (.reap conf now heap a) = some b → C b) :
    Settles T kept C p (reapSession conf now heap p a) := by
  unfold Proc.reapSession
  split
  · exact .calm (.refl _)
  · next sess hs =>
    split_ifs with hk hi
    · refine .closes (.refl p) now heap .close (hC a ?_)
      simp [closes, hs, hk]
    · refine .closes (.refl p) now heap .timeout (hC a ?_)
      simp [closes, hs, hi]
    · exact .calm (.refl _)

/-! ### Media -/

theorem calm_shmStats (p : Proc) (a : ℕ) (b : Option ℕ) : Calm T kept p (p.shmStats a b) := by
  unfold Proc.shmStats
  split
  · exact .refl p
  · split
    · exact .refl p
    · exact calm_call p (ShmOp.plain_of_idle rfl (fun _ => rfl) fun _ _ _ => (nomatch ·))

theorem calm_publishRtp (p : Proc) (a : ℕ) (rtp : Bytes) (isVideo gop : Bool) :
    Calm T kept p (p.publishRtp a rtp isVideo gop) := by
  refine Calm.trans ⟨(Act.broadcast p a rtp isVideo gop).acts, fun x => ?_, fun b => ?_⟩
    (calm_source _ a fun _ => rfl)
  · unfold Proc.broadcast Proc.atSource
    cases hv : p.w.sources.get a with
    | none => rfl
    | some v =>
      refine get_modify_map p.w.sources a (fun u hu => ?_) x
      obtain rfl := Option.some.inj (hu.symm.trans hv)
      cases p.sh with
      | none => rfl
      | some c => exact broadcastRtp_claim c p.w u rtp isVideo gop
  · unfold Proc.broadcast Proc.atSource
    split <;> rfl

theorem acts_forward (p : Proc) {now : ℕ} (ht : T now) (a : ℕ) (rtp : Bytes) (isVideo gop : Bool) :
    Acts T kept p (p.forward now a rtp isVideo gop).1 :=
  ((calm_publishRtp p a rtp isVideo gop).acts.tail (.renew _ now a ht)).trans
    (calm_shmStats _ a _).acts

/-- What follows the forwarding of a video packet. -/
theorem whipEmit_calm (now : ℕ) (slab : Bool) (a : ℕ) (p : Proc) (pkt : Bytes × Bool) :
    Calm T kept (p.forward now a pkt.1 true pkt.2).1 (whipEmit now slab a p pkt) := by
  unfold Proc.whipEmit
  split
  · next he =>
    rw [he]
    exact .refl _
  · next he =>
    rw [he]
    exact calm_call _ (ShmOp.plain_of_idle rfl (fun _ => rfl) fun _ _ _ => (nomatch ·))

theorem acts_whipEmit {now : ℕ} (ht : T now) (slab : Bool) (a : ℕ) (p : Proc) (pkt : Bytes × Bool) :
    Acts T kept p (whipEmit now slab a p pkt) :=
  (acts_forward p ht a pkt.1 true pkt.2).trans (whipEmit_calm now slab a p pkt).acts

theorem calm_learnSsrc (p : Proc) (a : ℕ) (isVideo : Bool) (ssrc : UInt32) :
    Calm T kept p (p.learnSsrc a isVideo ssrc) := by
  have hset : ∀ (f : Source → Source) (op : ShmOp), (∀ v : Source, (f v).claim = v.claim) →
      op.Plain T kept → Calm T kept p ((p.upd fun w => w.modifySource a f).call op) :=
    fun f op hf hop => (calm_source p a hf).trans (calm_call _ hop)
  unfold Proc.learnSsrc
  split
  · split_ifs
    · exact hset _ _ (fun _ => rfl) (ShmOp.plain_of_idle rfl (fun _ => rfl) fun _ _ _ => (nomatch ·))
    · exact hset _ _ (fun _ => rfl) (ShmOp.plain_of_idle rfl (fun _ => rfl) fun _ _ _ => (nomatch ·))
    · exact .refl p
  · exact .refl p

theorem acts_onSrtp (p : Proc) {now : ℕ} (ht : T now) (slab : Bool) (c : ℕ) (plain : Option Bytes)
    (emitted : List (Bytes × Bool)) : Acts T kept p (p.onSrtp now slab c plain emitted) := by
  have hemit : ∀ (pkts : List (Bytes × Bool)) (q : Proc) (a : ℕ),
      Acts T kept q (pkts.foldl (whipEmit now slab a) q) := by
    intro pkts
    induction pkts with
    | nil => exact fun _ _ => .refl
    | cons pkt pkts ih => exact fun q a => (acts_whipEmit ht slab a q pkt).trans (ih _ a)
  have hlearn : ∀ a x isVideo ssrc, Acts T kept p
      ((p.upd fun w => w.modifySession a fun s => { s with lastActive := now }).learnSsrc x isVideo
        ssrc) := fun a x isVideo ssrc =>
    ((calm_touch p now a).trans (calm_learnSsrc _ x isVideo ssrc)).acts
  unfold Proc.onSrtp
  split
  · exact .refl
  · split
    · split
      · exact .refl
      · split_ifs
        · exact .refl
        · exact (hlearn _ _ _ _).trans (hemit _ _ _)
        · exact (hlearn _ _ _ _).trans (acts_forward _ ht _ _ _ _)
        · exact (calm_touch p now _).acts
    · exact .refl

/-! ### Requests -/

theorem plain_sourceGet {env : Env} (ht : T env.now) (name : SourceName) :
    (ShmOp.sourceGet env name).Plain T kept := by
  refine ⟨fun _ h => (nomatch h), fun c now h => ?_, fun _ _ _ h => (nomatch h)⟩
  simp only [ShmOp.sweeps] at h
  split_ifs at h
  obtain rfl := Option.some.inj h
  exact ht

theorem plain_sessionAdd {env : Env} (ht : T env.now) (args : SessionArgs) :
    (ShmOp.sessionAdd env args).Plain T kept := by
  refine ⟨fun _ h => (nomatch h), fun c now h => ?_, fun _ _ _ h => (nomatch h)⟩
  simp only [ShmOp.sweeps] at h
  split_ifs at h
  obtain rfl := Option.some.inj h
  exact ht

theorem calm_takeIdentity (p : Proc) (offer : Offer) (name : SourceName) (src : ℕ) (b : Option ℕ) :
    Calm T kept p (p.takeIdentity offer name src b) := by
  unfold Proc.takeIdentity
  split
  · split
    · exact .refl p
    · next shm _ =>
      have hm : Calm T kept p (p.upd fun w => w.modifySource src (Source.adoptOffer offer shm)) :=
        calm_source p src fun _ => rfl
      exact hm.trans (calm_call _ (ShmOp.plain_of_idle rfl (fun _ => rfl) fun _ _ _ => (nomatch ·)))
  · exact .refl p

theorem acts_openSession (p : Proc) (r : Request) (src : ℕ) (publishing : Bool) :
    Acts T kept p (p.openSession r src publishing) := by
  unfold Proc.openSession
  split
  · exact .refl
  · exact (Act.enter p _).acts

theorem acts_shmSourceGet (p : Proc) (env : Env) (ht : T env.now) (name : SourceName) :
    Acts T kept p (p.shmSourceGet env name).1 := by
  have hcall : Acts T kept p (p.call (.sourceGet env name)) :=
    (calm_call p (plain_sourceGet ht name)).acts
  unfold Proc.shmSourceGet
  split
  · exact .refl
  · next c hc =>
    simp only [call, hc, Option.map_some] at hcall
    exact hcall

theorem acts_addSkeleton (p : Proc) {envAdd : Env} (ht : T envAdd.now) (name : SourceName) (a : ℕ) :
    Acts T kept p (p.addSkeleton envAdd name a) := by
  unfold Proc.addSkeleton
  split
  · next c sess hc hs =>
    have hcall : Acts T kept p (p.call (.sessionAdd envAdd (sess.args name))) :=
      (calm_call p (plain_sessionAdd ht (sess.args name))).acts
    simp only [call, hc, Option.map_some] at hcall
    split
    · exact hcall
    · refine hcall.trans (calm_session _ a fun _ => ?_).acts
      exact rfl
  · exact .refl

theorem acts_rollback (p : Proc) (created : Bool) (name : SourceName) :
    Acts T kept p (p.rollback created name) := by
  unfold Proc.rollback
  split_ifs
  · exact (Act.remove p name).acts
  · exact .refl

/-- The local source of a request. -/
theorem acts_create {p : Proc} {alloc : Bool} {name : SourceName} {w : Worker}
    {r : Option ℕ × Bool} (he : p.w.sourceCreate alloc name = (w, r)) :
    Acts T kept p ⟨p.sh, w⟩ := by
  have h : Acts T kept p ⟨p.sh, (p.w.sourceCreate alloc name).1⟩ := (Act.create p alloc name).acts
  rwa [he] at h

theorem acts_play (p : Proc) {r : Request} (ht : T r.env.now) (hta : T r.envAdd.now) :
    Acts T kept p (p.play r) := by
  unfold Proc.play
  split
  · exact .refl
  · next w src created he =>
    have hc : Acts T kept p ⟨p.sh, w⟩ := acts_create he
    have hg := hc.trans (acts_shmSourceGet ⟨p.sh, w⟩ r.env ht r.name)
    have hi := hg.trans (calm_takeIdentity _ r.offer r.name src
      (Proc.shmSourceGet ⟨p.sh, w⟩ r.env r.name).2).acts
    unfold Proc.play.playOn
    split_ifs
    · exact (hi.trans (acts_openSession _ r src false)).trans (acts_addSkeleton _ hta r.name _)
    · exact hi.trans (acts_rollback _ created r.name)

theorem calm_identified (p : Proc) (r : Request) (src : ℕ) :
    Calm T kept p (Proc.whipGranted.identified p r src) := calm_takeIdentity p _ _ src _

theorem acts_registered (p : Proc) {r : Request} (ht : T r.env.now) (hta : T r.envAdd.now)
    (src : ℕ) : Acts T kept p (Proc.whipGranted.registered p r src) := by
  have hi : Acts T kept p (Proc.whipGranted.identified p r src) := (calm_identified p r src).acts
  have hg := (hi.trans (acts_openSession _ r src true)).trans (acts_shmSourceGet _ r.env ht r.name)
  unfold Proc.whipGranted.registered
  split
  · next he =>
    rw [he] at hg
    exact hg
  · next he =>
    rw [he] at hg
    exact hg.trans (acts_addSkeleton _ hta r.name _)

/-- The request fails after its claim was granted. -/
def whipAborts (p : Proc) (r : Request) : Prop :=
  ∃ w src created, p.w.sourceCreate r.heap.source r.name = (w, some src, created) ∧
    Proc.kindAt ⟨p.sh, w⟩ src ≠ some .rtmp ∧ (Proc.claim ⟨p.sh, w⟩ r.env src .whip).2 ≠ .busy ∧
      ¬ (r.heap.session = true ∧ r.answer = true)

/-- The source of a granted request keeps the name it was created under. -/
theorem granted_name {p q : Proc} {r : Request} {w : Worker} {src : ℕ} {created : Bool} {rc : Rc}
    (he : p.w.sourceCreate r.heap.source r.name = (w, some src, created))
    (hq : Proc.claim ⟨p.sh, w⟩ r.env src .whip = (q, rc)) {v : Source}
    (hv : (Proc.whipGranted.identified q r src).w.sources.get src = some v) : v.name = r.name := by
  obtain ⟨u, hu, hn⟩ : ∃ u, w.sources.get src = some u ∧ u.name = r.name := by
    rcases Worker.sourceCreate_cases he with ⟨-, rfl, hl⟩ | ⟨-, rfl, -, rfl⟩
    · exact Worker.sourceLookup_spec hl
    · exact ⟨_, Pool.get_alloc_self _ _, rfl⟩
  have hclaim : q.w.sources.get src = some (publishClaim p.sh r.env u .whip).2.1 := by
    simp only [claim, atSource, hu, Prod.mk.injEq] at hq
    obtain ⟨rfl, -⟩ := hq
    simp only [Worker.modifySource, Pool.get_modify_self, hu, Option.map_some]
  have hcalm : Calm (fun _ => True) (fun _ => False) q (Proc.whipGranted.identified q r src) :=
    calm_identified q r src
  have hid := hcalm.claims src
  rw [hv, hclaim, Option.map_some, Option.map_some, Option.some.injEq] at hid
  rw [show v.name = v.claim.name from rfl, hid, ← hn]
  cases p.sh with
  | none => rfl
  | some c => exact publishClaimIn_name c r.env u .whip

theorem acts_whip (p : Proc) {r : Request} (ht : T r.env.now) (hta : T r.envAdd.now)
    (hs : kept r.name → ¬ p.whipAborts r) : Acts T kept p (p.whip r) := by
  unfold Proc.whip
  split
  · exact .refl
  · next w src created he =>
    have hc : Acts T kept p ⟨p.sh, w⟩ := acts_create he
    have hcl := hc.tail (.claim ⟨p.sh, w⟩ r.env src .whip ht)
    split_ifs with hk
    · exact hc.trans (acts_rollback _ created r.name)
    · split
      · next hb =>
        rw [hb] at hcl
        exact hcl.trans (acts_rollback _ created r.name)
      · next q rc hrc hq =>
        rw [hq] at hcl
        have hcl : Acts T kept p q := hcl
        have hfails : ¬ (r.heap.session = true ∧ r.answer = true) → ¬ kept r.name := fun hf hst =>
          hs hst ⟨w, src, created, he, hk, by rw [hq]; exact fun hb => hrc (hb ▸ rfl), hf⟩
        have hi := hcl.trans (calm_identified q r src).acts
        have hr := hcl.trans (acts_registered q ht hta src)
        unfold Proc.whipGranted
        split_ifs with hsess hans
        · exact hr
        · have hno := hfails fun h => hans h.2
          have hrel := hr.tail (.release _ r.env.now src fun v hv hkept =>
            absurd (granted_name he hq (registered_sources q r src ▸ hv) ▸ hkept) hno)
          exact (hrel.tail (.drop _ q.w.sessions.next)).trans (acts_rollback _ created r.name)
        · have hno := hfails fun h => hsess h.1
          exact (hi.tail (.release _ r.env.now src fun v hv hkept =>
            absurd (granted_name he hq hv ▸ hkept) hno)).trans (acts_rollback _ created r.name)

/-! ### RTMP -/

theorem acts_rtmpSync (p : Proc) {env : Env} (ht : T env.now) (heap : Heap) (name : SourceName) :
    Acts T kept p (p.rtmpSync env heap name).1 := by
  unfold Proc.rtmpSync
  split
  · exact .refl
  · next w src _ he =>
    have hc : Acts T kept p ⟨p.sh, w⟩ := acts_create he
    have hs := hc.tail (.sync ⟨p.sh, w⟩ p.w.slot env src ht)
    split <;> next hr => rw [hr] at hs; exact hs

theorem acts_rtmpAudio (p : Proc) {env : Env} (ht : T env.now) (heap : Heap) (name : SourceName)
    (header : Option Bool) : Acts T kept p (p.rtmpAudio env heap name header) := by
  have hs : Acts T kept p (p.rtmpSync env heap name).1 := acts_rtmpSync p ht heap name
  unfold Proc.rtmpAudio
  split
  · next he =>
    rw [he] at hs
    exact hs.tail (.source _ _ _ fun _ => rfl)
  · next he _ =>
    rw [he] at hs
    exact hs

theorem acts_rtmpRelease (p : Proc) (now : ℕ) (name : SourceName) :
    Acts T kept p (p.rtmpRelease now name) := by
  unfold Proc.rtmpRelease
  split
  · exact .refl
  · next src _ =>
    have ha : Acts T kept p
        (p.upd fun w => w.modifySource src fun s => { s with audioCtx := false }) :=
      Calm.acts (calm_source p src fun _ => rfl)
    split_ifs with hk
    · refine (ha.tail (.release _ now src fun v hv _ => ?_)).tail (.remove _ name)
      simp only [upd, Worker.modifySource, Pool.get_modify_self] at hv
      obtain ⟨u, hu, rfl⟩ := Option.map_eq_some_iff.1 hv
      simpa only [kindAt, hu, Option.bind_some] using hk
    · exact ha

end Handlers

end Proc

/-! ## Events -/

/-- All clocks the event reads are in `T`. -/
def ProcEvent.Timed (T : ℕ → Prop) : ProcEvent → Prop
  | .play r | .whip r => T r.env.now ∧ T r.envAdd.now
  | .stun env _ _ _ _ | .rtmpVideo env _ _ | .rtmpAudio env _ _ _ => T env.now
  | .srtp now _ _ _ _ => T now
  | .others op => op.Plain T fun _ => False
  | _ => True

theorem ProcEvent.timed_any (e : ProcEvent) : e.Timed fun _ => True := by
  cases e with
  | play r => exact ⟨trivial, trivial⟩
  | whip r => exact ⟨trivial, trivial⟩
  | others op => exact ⟨fun _ _ => trivial, fun _ _ _ => trivial, fun _ _ _ _ => id⟩
  | _ => trivial

namespace Proc

/-- The event is no request for a name in `kept` that fails after its claim, and no release of such
    a name by another worker. -/
def Steady (kept : SourceName → Prop) (p : Proc) : ProcEvent → Prop
  | .whip r => kept r.name → ¬ p.whipAborts r
  | .others op => ∀ now name kind, op = .releasePublish now name kind → ¬ kept name
  | _ => True

theorem steady_none (p : Proc) (e : ProcEvent) : p.Steady (fun _ => False) e := by
  cases e with
  | whip r => exact False.elim
  | others op => exact fun _ _ _ _ => id
  | _ => trivial

/-- **Every handler makes acts, and closes at most the session it is meant to.** -/
theorem handles_step {T : ℕ → Prop} {kept : SourceName → Prop} (p : Proc) {e : ProcEvent}
    (ht : e.Timed T) (hs : p.Steady kept e) :
    Handles T kept (fun a => p.closes e = some a) p (p.step e) := by
  cases e with
  | play r => exact .acts (acts_play p ht.1 ht.2)
  | whip r => exact .acts (acts_whip p ht.1 ht.2 hs)
  | accept => exact .settles (.calm (calm_conns p rfl rfl))
  | stun env heap c ufrag verified =>
    simp only [step]
    split_ifs
    · exact .acts (acts_onStun p ht heap c ufrag verified)
    · exact .acts .refl
  | dtls now heap c data v => exact .settles (settles_onDtls p now heap c data v fun _ => id)
  | dtlsTimer now heap a v => exact .settles (settles_dtlsTimer p now heap a v fun _ => id)
  | rtcp now heap c plain => exact .settles (settles_onRtcp p now heap c plain fun _ => id)
  | srtp now slab c plain emitted => exact .acts (acts_onSrtp p ht slab c plain emitted)
  | reap conf now heap a => exact .settles (settles_reapSession conf now heap p a fun _ => id)
  | finalize c =>
    simp only [step, finalize]
    split_ifs
    · exact .settles (.calm (calm_conns p rfl rfl))
    · exact .acts .refl
  | rtmpVideo env heap name => exact .acts (acts_rtmpSync p ht heap name)
  | rtmpAudio env heap name header => exact .acts (acts_rtmpAudio p ht heap name header)
  | rtmpRelease now name => exact .acts (acts_rtmpRelease p now name)
  | others op => exact .acts (Act.call p op ⟨ht.beat, ht.sweeps, hs⟩).acts

/-! ## What a handler closes -/

section Closes
variable {p : Proc}

theorem sessionClose_gone (p : Proc) (now : ℕ) (heap : Heap) (ev : SessionEvent) (a : ℕ) :
    (p.sessionClose now heap ev a).w.sessions.get a = none := by
  unfold Proc.sessionClose
  split
  · next h => exact h
  · simp only [call, upd, Worker.leave, Worker.sessionRemove, Pool.get_free, if_true]

theorem closeIfPending_gone {a : ℕ} (now : ℕ) (heap : Heap)
    (h : (p.w.sessions.get a).any Session.closePending = true) :
    (Proc.dtlsFinish.closeIfPending now heap a p).w.sessions.get a = none := by
  rw [Proc.dtlsFinish.closeIfPending, if_pos h]
  exact sessionClose_gone ..

theorem dtlsFinish_gone {a : ℕ} {s sess : Session} (hs : p.w.sessions.get a = some s) (now : ℕ)
    (heap : Heap) {v : DtlsVerdict} (hp : s.closePending = sess.closePending)
    (hd : sess.dtls ≠ none) (hv : v.accept = true) (h : sess.spoils v = true) :
    (p.dtlsFinish now heap a sess v).w.sessions.get a = none := by
  have hsp : sess.closePending = true ∨
      sess.dtls = some false ∧ v.finishes = true ∧ v.keys = false := by
    simpa [Session.spoils, hd, hv, and_assoc] using h
  unfold Proc.dtlsFinish
  split_ifs with hf
  · refine closeIfPending_gone now heap ?_
    rw [dtlsDone_pending (s := { s with dtls := some true })
      (by simp only [upd, Worker.modifySession, Pool.get_modify_self, hs, Option.map_some])]
    rcases hsp with hc | ⟨-, -, hk⟩
    · simp [hp, hc]
    · simp [hk]
  · refine closeIfPending_gone now heap ?_
    rcases hsp with hc | ⟨hd', hfin, -⟩
    · rw [hs, Option.any_some, hp, hc]
    · exact absurd ⟨hd', hfin⟩ hf

theorem dtlsFeed_gone {a : ℕ} (now : ℕ) (heap : Heap) {v : DtlsVerdict}
    (h : (p.w.sessions.get a).any (Session.spoils v) = true) :
    (p.dtlsFeed now heap a v).w.sessions.get a = none := by
  unfold Proc.dtlsFeed
  split
  · next hn => exact hn
  · next sess hs =>
    rw [hs, Option.any_some] at h
    split_ifs with hf
    · exact sessionClose_gone ..
    · rw [not_or] at hf
      exact dtlsFinish_gone (s := { sess with lastActive := now })
        (by simp only [upd, Worker.modifySession, Pool.get_modify_self, hs, Option.map_some])
        now heap rfl hf.1 (by simpa using hf.2) h

theorem onDtls_gone {a c : ℕ} {s : Session} (hc : p.w.getCtx c = some a)
    (hs : p.w.sessions.get a = some s) (now : ℕ) (heap : Heap) {data : Bytes} {v : DtlsVerdict}
    (h : s.dtlsFails c data v = true) :
    (p.onDtls now heap c data v).w.sessions.get a = none := by
  unfold Session.dtlsFails at h
  simp only [Proc.onDtls, hc, hs]
  split_ifs at h ⊢ with hp hg hv
  · simp only [Bool.and_eq_true] at h
    simp [h.1] at hg
  · refine dtlsFeed_gone now heap ?_
    have hsp : Session.spoils v { s with dtls := some false } = true := by
      simp only [hv, Bool.not_true, Bool.false_or, Bool.and_eq_true] at h
      exact h.2
    simp only [upd, Worker.modifySession, Pool.get_modify_self, publishState_w, hs,
      Option.map_some, Option.any_some]
    exact hsp
  · exact sessionClose_gone ..
  · exact dtlsFeed_gone now heap (by rw [hs, Option.any_some, h])

/-- **What `closes` names is closed.** -/
theorem closes_gone {e : ProcEvent} {a : ℕ} (h : p.closes e = some a) :
    (p.step e).w.sessions.get a = none := by
  cases e with
  | dtls now heap c data v =>
    obtain ⟨hc, hf⟩ := Option.filter_eq_some_iff.1 h
    obtain ⟨s, hs, hf⟩ := (Option.any_eq_true ..).1 hf
    exact onDtls_gone hc hs now heap hf
  | dtlsTimer now heap b v =>
    simp only [closes, Option.ite_none_right_eq_some, Option.some.injEq] at h
    obtain ⟨hf, rfl⟩ := h
    obtain ⟨s, hs, hf⟩ := (Option.any_eq_true ..).1 hf
    simp only [Bool.and_eq_true, decide_eq_true_eq] at hf
    simp only [step, Proc.dtlsTimer, hs, hf.1, if_true]
    split_ifs with hv
    · exact dtlsFinish_gone hs now heap rfl (by simp [hf.1]) hv hf.2
    · exact sessionClose_gone ..
  | rtcp now heap c plain =>
    obtain ⟨hc, hf⟩ := Option.filter_eq_some_iff.1 h
    simp only [Bool.and_eq_true, decide_eq_true_eq] at hf
    obtain ⟨hb, hf⟩ := hf
    obtain ⟨s, hs, hf⟩ := (Option.any_eq_true ..).1 hf
    simp only [Bool.and_eq_true] at hf
    have hno : ¬ (s.conn = none ∨ (!s.fsm.isReady) = true) := by
      rw [not_or]
      exact ⟨Option.isSome_iff_ne_none.1 hf.1, by simp [hf.2]⟩
    simp only [step, Proc.onRtcp, hc, hs, if_neg hno, hb, if_true]
    exact sessionClose_gone ..
  | reap conf now heap b =>
    simp only [closes, Option.ite_none_right_eq_some, Option.some.injEq] at h
    obtain ⟨hf, rfl⟩ := h
    obtain ⟨s, hs, hf⟩ := (Option.any_eq_true ..).1 hf
    simp only [step, Proc.reapSession, hs]
    split_ifs with hk hi
    · exact sessionClose_gone ..
    · exact sessionClose_gone ..
    · simp [hk, hi] at hf
  | _ => exact nomatch h

end Closes

end Proc

end NginxRtc
