/-
  STUN datagrams at the UDP module (`ngx_rtc_stream_on_stun`), with the jitter buffers of the local
  sources, which an attach resets.

  The handler looks the session up, attaches a process copy of a session of another worker, and only
  then checks the integrity of the datagram.

  `unverified_iff`: an unverified datagram changes nothing if and only if there is nothing to attach.
-/
import NginxRtc.Media.Jitter
import NginxRtc.Stun.Message
import NginxRtc.Worker.Stream

namespace NginxRtc

/-- A worker process and the jitter buffers of its local sources. -/
structure UdpWorker where
  proc : Proc
  jitter : ℕ → Jitter Bytes

/-- The session a datagram addresses by its user name, if it names one. -/
def Stun.Request.user (s : Stun.Request) : Option Ufrag :=
  if s.hasUsername then BStr.ofBytes shmUfragMax s.localUfrag else none

namespace Proc

/-- The local source whose jitter buffer `ngx_rtc_stream_attach_from_shm` resets. -/
def attachResets (p : Proc) (env : Env) (heap : Heap) (ufrag : Ufrag) : Option ℕ :=
  match p.w.sessionFind ufrag, p.attachFromShm env heap ufrag with
  | none, (p', some a) =>
    (p'.w.sessions.get a).bind fun sess => if sess.publishing then sess.source else none
  | _, _ => none

end Proc

namespace UdpWorker

/-- The buffers once that of a source was reset, with `timeout` for its policy. -/
def resetJitter (u : UdpWorker) (timeout : UInt32) : Option ℕ → ℕ → Jitter Bytes
  | none => u.jitter
  | some a => Function.update u.jitter a { (u.jitter a).reset with gapTimeoutMs := timeout }

/-- `ngx_rtc_stream_on_stun`, for a datagram on the connection `c`. -/
def onStun (hmac : Hmac) (u : UdpWorker) (env : Env) (heap : Heap) (timeout : UInt32) (c : ℕ)
    (data : Bytes) : UdpWorker :=
  match Stun.decode data with
  | none => u
  | some s =>
    match s.user with
    | none => u
    | some ufrag =>
      { proc := u.proc.onStun env heap c ufrag fun pwd => Stun.verifyRequest hmac s data pwd.bytes
        jitter := u.resetJitter timeout (u.proc.attachResets env heap ufrag) }

end UdpWorker

namespace Proc

/-! ## Who is addressed -/

/-- The skeleton of the session `ufrag` in the registry. -/
def skeleton (p : Proc) (ufrag : Ufrag) : Option ShmSession :=
  p.sh.bind fun c => (c.sessionLookup ufrag).bind c.sessions.get

/-- The ICE password of the session `ufrag`: one of this worker, or one of the registry. -/
def addressedPwd (p : Proc) (ufrag : Ufrag) : Option Pwd :=
  match p.w.sessionFind ufrag with
  | some a => (p.w.sessions.get a).map Session.icePwd
  | none => (p.skeleton ufrag).map ShmSession.icePwd

/-- The worker has no session `ufrag`, and the registry has one that it can own. -/
def Attaches (p : Proc) (heap : Heap) (ufrag : Ufrag) : Prop :=
  p.w.sessionFind ufrag = none ∧ heap.session = true ∧
    ∃ sess ∈ p.skeleton ufrag, sess.ownableBy p.w.slot = true

theorem sessionFind_some {p : Proc} {ufrag : Ufrag} {a : ℕ} (h : p.w.sessionFind ufrag = some a) :
    ∃ sess, p.w.sessions.get a = some sess ∧ p.addressedPwd ufrag = some sess.icePwd := by
  obtain ⟨sess, hget, -⟩ := Pool.find?_spec h
  refine ⟨sess, hget, ?_⟩
  simp only [addressedPwd, h, hget, Option.map_some]

/-- Nothing to attach: the attach leaves the process as it is. -/
theorem attachFromShm_of_not {p : Proc} (env : Env) {heap : Heap} {ufrag : Ufrag}
    (hf : p.w.sessionFind ufrag = none) (h : ¬ p.Attaches heap ufrag) :
    p.attachFromShm env heap ufrag = (p, none) := by
  unfold attachFromShm
  cases hsh : p.sh with
  | none => rfl
  | some c =>
    by_cases hh : heap.session = true
    · have hown : ∀ sess ∈ p.skeleton ufrag, sess.ownableBy p.w.slot ≠ true := fun sess hs ho =>
        h ⟨hf, hh, sess, hs, ho⟩
      simp only [skeleton, hsh, Option.bind_some] at hown
      have hbind : (c.sessionBind ufrag p.w.slot).2.2 = none := by
        unfold ShmCtx.sessionBind
        cases hl : c.sessionLookup ufrag with
        | none => rfl
        | some b =>
          cases hg : c.sessions.get b with
          | none => simp only [hg]
          | some sess =>
            simp only [hg]
            rw [if_neg (hown sess (by rw [hl, Option.bind_some, hg]; rfl))]
      simp only [hh, Bool.not_true, Bool.false_eq_true, if_false]
      split
      · rfl
      · next hb => rw [hb] at hbind; exact nomatch hbind
    · simp only [Bool.eq_false_iff.2 hh, Bool.not_false, if_true]

/-- An attach adds a session under the password of the skeleton. -/
theorem attachFromShm_of_attaches {p : Proc} (env : Env) {heap : Heap} {ufrag : Ufrag}
    (h : p.Attaches heap ufrag) :
    ∃ p' sess, p.attachFromShm env heap ufrag = (p', some p.w.sessions.next) ∧
      p'.w.sessions = p.w.sessions.alloc sess ∧ p.addressedPwd ufrag = some sess.icePwd := by
  obtain ⟨hf, hh, sk, hs, ho⟩ := h
  obtain ⟨c, hsh, hsk⟩ := Option.bind_eq_some_iff.1 hs
  obtain ⟨b, hl, hg⟩ := Option.bind_eq_some_iff.1 hsk
  obtain ⟨c', hbind⟩ : ∃ c', c.sessionBind ufrag p.w.slot = (c', .ok, some (c.snapshotOf sk)) := by
    simp only [ShmCtx.sessionBind, hl, hg]
    rw [if_pos ho]
    exact ⟨_, rfl⟩
  set q := Proc.attachSource ⟨some c', p.w⟩ env heap (c.snapshotOf sk) with hq
  set sess : Session := { Session.ofSnapshot env.now (c.snapshotOf sk) with source := q.2 } with hsess
  refine ⟨q.1.upd fun w => w.sessionAdd sess, sess, ?_, ?_, ?_⟩
  · simp only [attachFromShm, hsh, hh, hbind]
    rfl
  · exact congrArg (Pool.alloc · sess) (attachSource_sessions _ env heap _)
  · have hs' : p.skeleton ufrag = some sk := hs
    simp only [addressedPwd, hf, hs', Option.map_some]
    rfl

end Proc

/-! ## Datagrams that do not verify -/

namespace UdpWorker

/-- The integrity of the datagram does not verify under the password of the session it addresses. -/
def Unverified (hmac : Hmac) (u : UdpWorker) (data : Bytes) : Prop :=
  ∀ s ufrag pwd, Stun.decode data = some s → s.user = some ufrag →
    u.proc.addressedPwd ufrag = some pwd → Stun.verifyRequest hmac s data pwd.bytes = false

variable {hmac : Hmac} {u : UdpWorker} {env : Env} {heap : Heap} {timeout : UInt32} {c : ℕ}
  {data : Bytes} {s : Stun.Request} {ufrag : Ufrag}

theorem onStun_eq (hs : Stun.decode data = some s) (hu : s.user = some ufrag) :
    u.onStun hmac env heap timeout c data =
      { proc := u.proc.onStun env heap c ufrag fun pwd => Stun.verifyRequest hmac s data pwd.bytes
        jitter := u.resetJitter timeout (u.proc.attachResets env heap ufrag) } := by
  simp only [onStun, hs, hu]

/-- A session of this worker, or nothing to attach. -/
theorem onStun_of_not (h : u.Unverified hmac data) (hs : Stun.decode data = some s)
    (hu : s.user = some ufrag) (hn : ¬ u.proc.Attaches heap ufrag) :
    u.onStun hmac env heap timeout c data = u := by
  rw [onStun_eq hs hu]
  cases hf : u.proc.w.sessionFind ufrag with
  | some a =>
    obtain ⟨sess, hget, hpwd⟩ := Proc.sessionFind_some hf
    have hv := h s ufrag _ hs hu hpwd
    simp only [Proc.onStun, Proc.findOrAttach, Proc.attachResets, resetJitter, hf, hget, hv,
      Bool.false_eq_true, if_false]
  | none =>
    have ha := Proc.attachFromShm_of_not env hf hn
    simp only [Proc.onStun, Proc.findOrAttach, Proc.attachResets, resetJitter, hf, ha]

/-- An attach leaves a session behind. -/
theorem onStun_of_attaches (env : Env) (timeout : UInt32) (c : ℕ) (h : u.Unverified hmac data)
    (hs : Stun.decode data = some s) (hu : s.user = some ufrag)
    (ha : u.proc.Attaches heap ufrag) :
    (u.onStun hmac env heap timeout c data).proc.w.sessions.next =
      u.proc.w.sessions.next + 1 := by
  obtain ⟨p', sess, hatt, hsess, hpwd⟩ := Proc.attachFromShm_of_attaches env ha
  have hv := h s ufrag _ hs hu hpwd
  have hget : p'.w.sessions.get u.proc.w.sessions.next = some sess := by
    rw [hsess, Pool.get_alloc_self]
  rw [onStun_eq hs hu]
  simp only [Proc.onStun, Proc.findOrAttach, ha.1, hatt, hget, hv, Bool.false_eq_true, if_false]
  rw [hsess, Pool.next_alloc]

/-- **Unverified datagrams.**  A datagram that does not verify changes nothing, in the worker or in
    the registry, if and only if the session it addresses is one of this worker or there is none that
    it could attach. -/
theorem unverified_iff (env : Env) (heap : Heap) (timeout : UInt32) (c : ℕ)
    (h : u.Unverified hmac data) :
    u.onStun hmac env heap timeout c data = u ↔
      ∀ s ufrag, Stun.decode data = some s → s.user = some ufrag →
        ¬ u.proc.Attaches heap ufrag := by
  constructor
  · intro heq s ufrag hs hu ha
    have := onStun_of_attaches env timeout c h hs hu ha
    rw [heq] at this
    omega
  · intro hn
    cases hs : Stun.decode data with
    | none => simp only [onStun, hs]
    | some s =>
      cases hu : s.user with
      | none => simp only [onStun, hs, hu]
      | some ufrag => exact onStun_of_not h hs hu (hn s ufrag hs hu)

/-! ### Worked runs -/

/-- A binding request of `c:b` with a MESSAGE-INTEGRITY of zeroes. -/
def guess : Bytes :=
  Wire.wr16 Stun.bindingRequest ++ Wire.wr16 32 ++ Wire.wr32 Stun.magicCookie ++
    [1, 2, 3, 4, 5, 6, 7, 8, 9, 10, 11, 12] ++ [0, 6, 0, 3, 99, 58, 98, 0] ++ [0, 8, 0, 20] ++
    List.replicate 20 0

/-- Its HMAC-SHA1 under the password of the sample sessions. -/
def guessMac : Digest :=
  ⟨[255, 214, 32, 226, 248, 249, 198, 195, 101, 188, 225, 227, 107, 156, 214, 76, 81, 63, 48, 61],
    rfl⟩

def guessed : Stun.Request :=
  { type := Stun.bindingRequest, transactionId := [1, 2, 3, 4, 5, 6, 7, 8, 9, 10, 11, 12],
    hasUsername := true, localUfrag := [99], remoteUfrag := [98], messageIntegrity := some 32 }

theorem decode_guess : Stun.decode guess = some guessed := by decide +kernel

/-- No session of the sample password accepts it. -/
theorem guess_unverified {u : UdpWorker} (h : ∀ pwd ∈ u.proc.addressedPwd (sampleUfrag 99),
    pwd = samplePwd) : u.Unverified (fun _ _ => guessMac) guess := by
  intro s ufrag pwd hs hu hp
  obtain rfl := Option.some.inj (decode_guess.symm.trans hs)
  obtain rfl : sampleUfrag 99 = ufrag := Option.some.inj hu
  rw [h pwd hp]
  decide +kernel

/-- Worker 1 serves a WHIP publisher that worker 0 accepted; worker 0 accepts another one, which no
    worker has bound.  The jitter buffers have seen packets. -/
def samplePending : UdpWorker where
  proc := Lts.run Proc.step (Proc.init 1 (some (ShmCtx.init 2 [])))
    [.others (.sourceGet (Env.at 5) sampleName), .others (.tryPublish 5 sampleName .whip),
      .others (.sessionAdd (Env.at 5) (.sample 97 true)), .accept,
      .stun (Env.at 6) Heap.ample 0 (sampleUfrag 97) fun pwd => decide (pwd = samplePwd),
      .others (.sessionAdd (Env.at 7) (.sample 99 true))]
  jitter := fun _ =>
    { slots := fun _ => none, nextSeq := 1, pending := 0, initialized := true, gapTs := 0,
      gapTimeoutMs := 50, nCached := 0, nSkipped := 0, nStale := 0, nReanchor := 0 }

/-- A session of this worker. -/
theorem unverified_iff_local :
    ∃ u : UdpWorker, u.proc = Lts.run Proc.step (Proc.init 0 (some (ShmCtx.init 1 [])))
        [.play (Proc.sampleRequest 99)] ∧
      u.onStun (fun _ _ => guessMac) (Env.at 9) Heap.ample 50 0 guess = u := by
  refine ⟨⟨_, samplePending.jitter⟩, rfl, (unverified_iff (Env.at 9) Heap.ample 50 0
    (guess_unverified fun pwd hp => ?_)).2 fun s ufrag hs hu ha => ?_⟩
  · exact (Option.some.inj hp).symm
  · obtain rfl := Option.some.inj (decode_guess.symm.trans hs)
    obtain rfl : sampleUfrag 99 = ufrag := Option.some.inj hu
    exact nomatch ha.1

/-- A guessed user name binds the pending session to this worker, adds a session and resets the
    jitter buffer of the live publisher. -/
theorem guess_binds :
    samplePending.Unverified (fun _ _ => guessMac) guess ∧
    (samplePending.proc.skeleton (sampleUfrag 99)).map ShmSession.ownerSlot = some none ∧
    let u := samplePending.onStun (fun _ _ => guessMac) (Env.at 9) Heap.ample 50 0 guess
    (u.proc.skeleton (sampleUfrag 99)).map ShmSession.ownerSlot = some (some 1) ∧
      samplePending.proc.w.sessions.get 1 = none ∧ (u.proc.w.sessions.get 1).isSome = true ∧
      (samplePending.jitter 0).initialized = true ∧ (u.jitter 0).initialized = false ∧
      u ≠ samplePending := by
  have hinit : ((samplePending.onStun (fun _ _ => guessMac) (Env.at 9) Heap.ample 50 0
    guess).jitter 0).initialized = false := by decide +kernel
  refine ⟨guess_unverified fun pwd hp => ?_, by decide +kernel, by decide +kernel,
    by decide +kernel, by decide +kernel, rfl, hinit, fun h => ?_⟩
  · exact (Option.some.inj hp).symm
  · rw [h] at hinit
    exact nomatch hinit

end UdpWorker

end NginxRtc
