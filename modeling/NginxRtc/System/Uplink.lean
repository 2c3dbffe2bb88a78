/-
  The UDP side of a worker (`ngx_rtc_stream_handler`), from the bytes of a datagram on.

  OpenSSL and libsrtp are outside: a datagram comes with what they make of it.  What arrives on the
  connection of a publisher goes, with its RTP header normalised, through the reorder buffer of the
  source, and what this hands on is broadcast.  A `Relay` follows a worker with the datagrams it was
  handed, and for each source those that reached its buffer and what the buffer handed on, both since
  the buffer was last reset.

  `run_proc`: what the datagrams do to a worker is a run of its handlers.
  `uplink_in_order`: what is broadcast for a source.
-/
import NginxRtc.Egress.StripExt
import NginxRtc.Media.GopStart
import NginxRtc.Worker.Binding
import NginxRtc.Worker.Datagram
import NginxRtc.Worker.Lifetime

namespace NginxRtc

/-- A datagram on the connection `conn`, and what the libraries make of it: the verdicts on a DTLS
    record, whether an SRTCP packet unprotects and then holds a BYE, the RTP packet of an SRTP packet. -/
structure UdpDatagram where
  conn : ℕ
  data : Bytes
  env : Env
  heap : Heap
  dtls : DtlsVerdict
  bye : Option Bool
  plain : Option Bytes

/-- What `ngx_rtc_stream_on_srtp` makes of an unprotected packet: its first twelve bytes without
    CSRCs and extension, and the payload. -/
def normalised (plain : Bytes) : Option Bytes :=
  if plain.length < rtpHeaderSize then none
  else
    match stripHeaderExt plain plain.length with
    | (rc, buf, len) => if rc = rtpOk then some (buf.take len) else none

namespace Proc

/-- The source of a ready publisher whose video packet this is. -/
def videoSource (p : Proc) (c : ℕ) (rtp : Bytes) : Option ℕ := do
  let a ← p.w.getCtx c
  let sess ← p.w.sessions.get a
  if sess.publishing ∧ sess.fsm.isReady ∧ rtpPt rtp = sess.videoPt then sess.source else none

/-- The local source whose buffer the WHIP request resets, once its claim was granted. -/
def whipResets (p : Proc) (r : Request) : Option ℕ :=
  match p.w.sourceCreate r.heap.source r.name with
  | (_, none, _) => none
  | (w, some src, _) =>
    if Proc.kindAt ⟨p.sh, w⟩ src = some .rtmp then none
    else
      match Proc.claim ⟨p.sh, w⟩ r.env src .whip with
      | (_, .busy) => none
      | _ => some src

end Proc

/-- The handlers of a worker that no datagram starts. -/
def ProcEvent.isDatagram : ProcEvent → Bool
  | .stun .. | .dtls .. | .rtcp .. | .srtp .. => true
  | _ => false

inductive UdpEvent where
  | datagram (d : UdpDatagram)
  | other (e : ProcEvent) (h : e.isDatagram = false)

namespace UdpWorker

/-- A worker at its start; memory for a source is zeroed. -/
def init (slot : ℕ) (sh : Option ShmCtx) : UdpWorker :=
  ⟨.init slot sh, fun _ => ⟨fun _ => none, 0, 0, false, 0, 0, 0, 0, 0, 0⟩⟩

/-- The push of a packet into a reorder buffer. -/
def pushOf (now : ℕ) (rtp : Bytes) : JitterPush Bytes :=
  ⟨⟨rtp, rtp.length, srtpGopStart rtp⟩, Rtp.seq rtp, UInt32.ofNat now⟩

/-- The source a datagram has a packet for, and the packet. -/
def takes (u : UdpWorker) (d : UdpDatagram) : Option (ℕ × Bytes) := do
  let rtp ← d.plain.bind normalised
  let a ← u.proc.videoSource d.conn rtp
  pure (a, rtp)

/-- `ngx_rtc_stream_on_srtp`; `none` if the reorder buffer never returns. -/
def onSrtp (u : UdpWorker) (d : UdpDatagram) : Option UdpWorker :=
  match u.takes d with
  | none =>
    some { u with
      proc := u.proc.onSrtp d.env.now d.env.slab d.conn (d.plain.bind normalised) [] }
  | some (a, rtp) =>
    let push := pushOf d.env.now rtp
    ((u.jitter a).push push.pkt push.seq push.now).map fun r =>
      { proc := u.proc.onSrtp d.env.now d.env.slab d.conn (some rtp)
          (r.2.map fun p => (p.data, decide (p.isGopStart ≠ 0)))
        jitter := Function.update u.jitter a r.1 }

/-- The handler of a datagram; none if nobody has its connection. -/
def kindOf (u : UdpWorker) (d : UdpDatagram) : Option DatagramKind :=
  if (u.proc.w.conns.get d.conn).isSome then datagramKind d.data else none

/-- `ngx_rtc_stream_handler`. -/
def handler (hmac : Hmac) (timeout : UInt32) (u : UdpWorker) (d : UdpDatagram) : Option UdpWorker :=
  match u.kindOf d with
  | none => some u
  | some .stun => some (u.onStun hmac d.env d.heap timeout d.conn d.data)
  | some .dtls => some { u with proc := u.proc.onDtls d.env.now d.heap d.conn d.data d.dtls }
  | some .rtcp => some { u with proc := u.proc.onRtcp d.env.now d.heap d.conn d.bye }
  | some .srtp => u.onSrtp d

/-- The source whose reorder buffer an event resets. -/
def resets (u : UdpWorker) : UdpEvent → Option ℕ
  | .datagram d =>
    match u.kindOf d with
    | some .stun => do
      let s ← Stun.decode d.data
      let ufrag ← s.user
      u.proc.attachResets d.env d.heap ufrag
    | _ => none
  | .other (.whip r) _ => u.proc.whipResets r
  | .other _ _ => none

def step (hmac : Hmac) (timeout : UInt32) (u : UdpWorker) : UdpEvent → Option UdpWorker
  | .datagram d => u.handler hmac timeout d
  | .other e h => some ⟨u.proc.step e, u.resetJitter timeout (u.resets (.other e h))⟩

/-- The source, the datagram and the packet, if an event brings one. -/
def brings (u : UdpWorker) : UdpEvent → Option (ℕ × UdpDatagram × Bytes)
  | .datagram d =>
    match u.kindOf d with
    | some .srtp => (u.takes d).map fun t => (t.1, d, t.2)
    | _ => none
  | .other _ _ => none

/-- What the buffer of the source hands on for a packet. -/
def handsOn (u : UdpWorker) (a now : ℕ) (rtp : Bytes) : List (JitterPkt Bytes) :=
  ((u.jitter a).push (pushOf now rtp).pkt (pushOf now rtp).seq (pushOf now rtp).now).elim [] Prod.snd

/-! ### What an event does -/

variable {hmac : Hmac} {timeout : UInt32} {u u' : UdpWorker} {e : UdpEvent}

theorem brings_eq_some {a : ℕ} {d : UdpDatagram} {rtp : Bytes} (h : u.brings e = some (a, d, rtp)) :
    e = .datagram d ∧ u.kindOf d = some .srtp ∧ u.takes d = some (a, rtp) := by
  cases e with
  | other e he => cases h
  | datagram x =>
    rw [brings] at h
    split at h
    next hkind =>
      obtain ⟨t, ht, hp⟩ := Option.map_eq_some_iff.1 h
      cases hp
      exact ⟨rfl, hkind, ht⟩
    · cases h

/-- A packet for a source goes into its buffer. -/
theorem step_of_brings {a : ℕ} {d : UdpDatagram} {rtp : Bytes}
    (h : u.brings (.datagram d) = some (a, d, rtp)) :
    u.resets (.datagram d) = none ∧ u.step hmac timeout (.datagram d) =
      ((u.jitter a).push (pushOf d.env.now rtp).pkt (pushOf d.env.now rtp).seq
        (pushOf d.env.now rtp).now).map fun r =>
          { proc := u.proc.onSrtp d.env.now d.env.slab d.conn (some rtp)
              (r.2.map fun p => (p.data, decide (p.isGopStart ≠ 0)))
            jitter := Function.update u.jitter a r.1 } := by
  obtain ⟨-, hkind, ht⟩ := brings_eq_some h
  refine ⟨by rw [resets, hkind], ?_⟩
  rw [step, handler, hkind]
  show u.onSrtp d = _
  rw [onSrtp, ht]

/-- Otherwise at most one buffer changes, by a reset. -/
theorem step_of_not_brings (h : u.brings e = none) :
    ∃ u', u.step hmac timeout e = some u' ∧ u'.jitter = u.resetJitter timeout (u.resets e) := by
  cases e with
  | other e he => exact ⟨_, rfl, rfl⟩
  | datagram d =>
    simp only [step, handler, resets]
    simp only [brings] at h
    cases hkind : u.kindOf d with
    | none => exact ⟨_, rfl, rfl⟩
    | some k =>
      cases k with
      | stun =>
        refine ⟨_, rfl, ?_⟩
        simp only [onStun]
        cases Stun.decode d.data with
        | none => rfl
        | some s =>
          simp only [Option.bind_eq_bind, Option.bind_some]
          cases s.user <;> rfl
      | dtls => exact ⟨_, rfl, rfl⟩
      | rtcp => exact ⟨_, rfl, rfl⟩
      | srtp =>
        rw [hkind] at h
        have htakes : u.takes d = none := Option.map_eq_none_iff.1 h
        refine ⟨{ u with proc := u.proc.onSrtp d.env.now d.env.slab d.conn (d.plain.bind normalised) [] },
          ?_, rfl⟩
        show u.onSrtp d = _
        rw [onSrtp, htakes]

/-- A datagram is at most one event of the worker. -/
theorem step_proc (h : u.step hmac timeout e = some u') :
    ∃ es, u'.proc = Lts.run Proc.step u.proc es := by
  cases e with
  | other e he =>
    cases h
    exact ⟨[e], rfl⟩
  | datagram d =>
    simp only [step, handler] at h
    cases hkind : u.kindOf d with
    | none =>
      rw [hkind] at h
      cases h
      exact ⟨[], rfl⟩
    | some k =>
      rw [hkind] at h
      cases k with
      | stun =>
        cases h
        have hlive : (u.proc.w.conns.get d.conn).isSome := by
          rw [kindOf] at hkind
          split_ifs at hkind with hlive
          exact hlive
        simp only [onStun]
        cases Stun.decode d.data with
        | none => exact ⟨[], rfl⟩
        | some s =>
          dsimp only
          cases s.user with
          | none => exact ⟨[], rfl⟩
          | some ufrag =>
            refine ⟨[.stun d.env d.heap d.conn ufrag fun pwd =>
              Stun.verifyRequest hmac s d.data pwd.bytes], ?_⟩
            exact (if_pos hlive).symm
      | dtls =>
        cases h
        exact ⟨[.dtls d.env.now d.heap d.conn d.data d.dtls], rfl⟩
      | rtcp =>
        cases h
        exact ⟨[.rtcp d.env.now d.heap d.conn d.bye], rfl⟩
      | srtp =>
        simp only [onSrtp] at h
        split at h
        · cases h
          exact ⟨[.srtp d.env.now d.env.slab d.conn (d.plain.bind normalised) []], rfl⟩
        next a rtp ht =>
          obtain ⟨r, -, rfl⟩ := Option.map_eq_some_iff.1 h
          exact ⟨[.srtp d.env.now d.env.slab d.conn (some rtp)
            (r.2.map fun p => (p.data, decide (p.isGopStart ≠ 0)))], rfl⟩

end UdpWorker

/-! ## What is broadcast -/

/-- A worker with every datagram it was handed and the state it was in; for each source those that
    reached its buffer and what the buffer handed on, since it was last reset. -/
structure Relay where
  u : UdpWorker
  trace : List (UdpWorker × UdpDatagram)
  fed : ℕ → List (UdpWorker × UdpDatagram)
  sent : ℕ → List (JitterPkt Bytes)

namespace Relay

def init (slot : ℕ) (sh : Option ShmCtx) : Relay :=
  ⟨.init slot sh, [], fun _ => [], fun _ => []⟩

def record (r : Relay) : UdpEvent → List (UdpWorker × UdpDatagram)
  | .datagram d => r.trace ++ [(r.u, d)]
  | .other _ _ => r.trace

/-- The accounts after an event that led to `u`. -/
def after (r : Relay) (e : UdpEvent) (u : UdpWorker) : Relay :=
  match r.u.resets e, r.u.brings e with
  | some a, _ => ⟨u, r.record e, Function.update r.fed a [], Function.update r.sent a []⟩
  | none, some (a, d, rtp) =>
    ⟨u, r.record e, Function.update r.fed a (r.fed a ++ [(r.u, d)]),
      Function.update r.sent a (r.sent a ++ r.u.handsOn a d.env.now rtp)⟩
  | none, none => ⟨u, r.record e, r.fed, r.sent⟩

def step (hmac : Hmac) (timeout : UInt32) (r : Relay) (e : UdpEvent) : Option Relay :=
  (r.u.step hmac timeout e).map (r.after e)

def run (hmac : Hmac) (timeout : UInt32) (r : Relay) (es : List UdpEvent) : Option Relay :=
  es.foldlM (step hmac timeout) r

/-- The packet a datagram of the account is pushed with. -/
def push (x : UdpWorker × UdpDatagram) : JitterPush Bytes :=
  UdpWorker.pushOf x.2.env.now ((x.1.takes x.2).elim [] Prod.snd)

/-- The pushes a buffer got. -/
structure Kept (r : Relay) (a : ℕ) : Prop where
  sublist : (r.fed a).Sublist r.trace
  brought : ∀ x ∈ r.fed a, ∃ rtp, x.1.brings (.datagram x.2) = some (a, x.2, rtp)
  sound : ∃ up : Uplink (Stamped Bytes), up.Sound ((r.fed a).map push) ∧
    r.u.jitter a = up.jitter.map (fun x => x.2.pkt.data) ∧
    r.sent a = up.emitted.map fun p => p.2.map fun x => x.2.pkt.data

/-- A buffer that was just reset. -/
theorem sound_reset (timeout : UInt32) (j : Jitter Bytes) :
    ∃ up : Uplink (Stamped Bytes), up.Sound [] ∧
      { j.reset with gapTimeoutMs := timeout } = up.jitter.map (fun x => x.2.pkt.data) ∧
      up.emitted = [] :=
  ⟨_, .start ⟨fun _ => none, 0, 0, false, 0, timeout, 0, 0, 0, 0⟩, rfl, rfl⟩

theorem kept_init (slot : ℕ) (sh : Option ShmCtx) (a : ℕ) : (init slot sh).Kept a where
  sublist := List.Sublist.refl []
  brought := fun _ hx => absurd hx List.not_mem_nil
  sound := by
    obtain ⟨up, hs, hj, he⟩ := sound_reset 0 ⟨fun _ => none, 0, 0, false, 0, 0, 0, 0, 0, 0⟩
    exact ⟨up, hs, hj, by rw [he]; rfl⟩

variable {hmac : Hmac} {timeout : UInt32} {r : Relay} {e : UdpEvent} {a : ℕ}

theorem sublist_record (r : Relay) (e : UdpEvent) : r.trace.Sublist (r.record e) := by
  cases e with
  | datagram d => exact List.sublist_append_left _ _
  | other e h => exact List.Sublist.refl _

theorem after_reset (u : UdpWorker) (h : r.u.resets e = some a) :
    r.after e u = ⟨u, r.record e, Function.update r.fed a [], Function.update r.sent a []⟩ := by
  rw [after, h]

theorem after_brings {d : UdpDatagram} {rtp : Bytes} (u : UdpWorker) (h : r.u.resets e = none)
    (hb : r.u.brings e = some (a, d, rtp)) :
    r.after e u = ⟨u, r.record e, Function.update r.fed a (r.fed a ++ [(r.u, d)]),
      Function.update r.sent a (r.sent a ++ r.u.handsOn a d.env.now rtp)⟩ := by
  rw [after, h, hb]

theorem Kept.of_eq {r' : Relay} {fed : List (UdpWorker × UdpDatagram)} {sent : List (JitterPkt Bytes)}
    {up : Uplink (Stamped Bytes)} (hfed : r'.fed a = fed) (hsent : r'.sent a = sent)
    (hsub : fed.Sublist r'.trace)
    (hbrought : ∀ x ∈ fed, ∃ rtp, x.1.brings (.datagram x.2) = some (a, x.2, rtp))
    (hs : up.Sound (fed.map push)) (hj : r'.u.jitter a = up.jitter.map fun x => x.2.pkt.data)
    (hup : sent = up.emitted.map fun p => p.2.map fun x => x.2.pkt.data) : r'.Kept a := by
  subst hfed hsent
  exact ⟨hsub, hbrought, up, hs, hj, hup⟩

/-- An event that does not concern the buffer. -/
theorem Kept.unchanged (h : r.Kept a) {r' : Relay} (htrace : r'.trace = r.record e)
    (hj : r'.u.jitter a = r.u.jitter a) (hfed : r'.fed a = r.fed a) (hsent : r'.sent a = r.sent a) :
    r'.Kept a := by
  obtain ⟨up, hs, hup, hout⟩ := h.sound
  exact .of_eq hfed hsent (htrace ▸ h.sublist.trans (sublist_record r e)) h.brought hs (hj.trans hup) hout

/-- **Every handler returns**, and the accounts go on. -/
theorem Kept.step (hmac : Hmac) (timeout : UInt32) (h : ∀ a, r.Kept a) (e : UdpEvent) :
    ∃ r', r.step hmac timeout e = some r' ∧ ∀ a, r'.Kept a := by
  cases hb : r.u.brings e with
  | none =>
    obtain ⟨u', hu, hj⟩ := UdpWorker.step_of_not_brings hb
    refine ⟨r.after e u', by rw [Relay.step, hu]; rfl, fun a => ?_⟩
    cases hreset : r.u.resets e with
    | none =>
      rw [after, hreset, hb]
      refine (h a).unchanged rfl ?_ rfl rfl
      rw [hj, hreset]
      rfl
    | some b =>
      rw [after_reset u' hreset]
      rcases eq_or_ne a b with rfl | hne
      · obtain ⟨up, hs, hup, he⟩ := sound_reset timeout (r.u.jitter a)
        refine .of_eq (Function.update_self _ _ _) (Function.update_self _ _ _) (List.nil_sublist _)
          (fun x hx => absurd hx List.not_mem_nil) hs ?_ (by rw [he]; rfl)
        rw [hj, hreset, UdpWorker.resetJitter, Function.update_self, hup]
      · refine (h a).unchanged rfl ?_ (Function.update_of_ne hne _ _) (Function.update_of_ne hne _ _)
        rw [hj, hreset, UdpWorker.resetJitter, Function.update_of_ne hne]
  | some t =>
    obtain ⟨b, d, rtp⟩ := t
    obtain ⟨rfl, -, htakes⟩ := UdpWorker.brings_eq_some hb
    obtain ⟨hreset, hstep⟩ := UdpWorker.step_of_brings hb
    obtain ⟨up, hs, hj, hsent⟩ := (h b).sound
    have hpush : push (r.u, d) = UdpWorker.pushOf d.env.now rtp := by
      simp only [push, htakes]
      rfl
    obtain ⟨up', hup, hs'⟩ := hs.push (push (r.u, d))
    obtain ⟨out, hout, rfl⟩ := Option.map_eq_some_iff.1 hup
    -- the buffer of the source does the same to the packets without their stamps
    have hreal : (r.u.jitter b).push (UdpWorker.pushOf d.env.now rtp).pkt
        (UdpWorker.pushOf d.env.now rtp).seq (UdpWorker.pushOf d.env.now rtp).now =
          some (Jitter.mapOut (fun x => x.2.pkt.data) out) := by
      rw [hj, ← hpush]
      show (up.jitter.map _).push (((push (r.u, d)).stamp ((r.fed b).map push).length).pkt.map
        fun x => x.2.pkt.data) (push (r.u, d)).seq (push (r.u, d)).now = _
      rw [Jitter.push_map]
      exact congrArg (Option.map _) hout
    rw [hreal, Option.map_some] at hstep
    refine ⟨_, by rw [Relay.step, hstep]; rfl, fun a => ?_⟩
    rw [after_brings _ hreset hb]
    rcases eq_or_ne a b with rfl | hne
    · rw [← List.map_singleton, ← List.map_append] at hs'
      refine .of_eq (Function.update_self _ _ _) (Function.update_self _ _ _)
        ((h a).sublist.append (List.Sublist.refl _)) (fun x hx => ?_)
        hs' (Function.update_self _ _ _) ?_
      · rcases List.mem_append.1 hx with hx | hx
        · exact (h a).brought x hx
        · rw [List.mem_singleton.1 hx]
          exact ⟨rtp, hb⟩
      · rw [hsent, UdpWorker.handsOn, hreal]
        simp only [Option.elim_some, Jitter.mapOut, List.map_append, List.map_map]
        rfl
    · exact (h a).unchanged (e := .datagram d) rfl (Function.update_of_ne hne _ _)
        (Function.update_of_ne hne _ _) (Function.update_of_ne hne _ _)

theorem kept_run (hmac : Hmac) (timeout : UInt32) (es : List UdpEvent) {r : Relay} (h : ∀ a, r.Kept a) :
    ∃ r', r.run hmac timeout es = some r' ∧ ∀ a, r'.Kept a := by
  induction es generalizing r with
  | nil => exact ⟨r, rfl, h⟩
  | cons e es ih =>
    obtain ⟨r', hr, h'⟩ := Kept.step hmac timeout h e
    obtain ⟨r'', hr', h''⟩ := ih h'
    refine ⟨r'', ?_, h''⟩
    rw [run, List.foldlM_cons, hr]
    exact hr'

/-! ### The worker under the accounts -/

/-- The worker, and what it was when it was handed a datagram, are in runs of its handlers. -/
structure Ran (p : Proc) (r : Relay) : Prop where
  proc : ∃ es, r.u.proc = Lts.run Proc.step p es
  trace : ∀ x ∈ r.trace, ∃ es, x.1.proc = Lts.run Proc.step p es

theorem Ran.step {p : Proc} {r' : Relay} (h : r.Ran p) (hr : r.step hmac timeout e = some r') :
    r'.Ran p := by
  obtain ⟨u', hu, rfl⟩ := Option.map_eq_some_iff.1 hr
  have hafter : (r.after e u').u = u' ∧ (r.after e u').trace = r.record e := by
    unfold after
    split <;> exact ⟨rfl, rfl⟩
  refine ⟨?_, fun x hx => ?_⟩
  · obtain ⟨es, hes⟩ := h.proc
    obtain ⟨es', hes'⟩ := UdpWorker.step_proc hu
    exact ⟨es ++ es', by rw [hafter.1, hes', hes, Lts.run_append]⟩
  · rw [hafter.2] at hx
    cases e with
    | other e he => exact h.trace x hx
    | datagram d =>
      rcases List.mem_append.1 hx with hx | hx
      · exact h.trace x hx
      · rw [List.mem_singleton.1 hx]
        exact h.proc

theorem run_proc {p : Proc} {es : List UdpEvent} {r' : Relay} (h : r.Ran p)
    (hr : r.run hmac timeout es = some r') : r'.Ran p := by
  induction es generalizing r with
  | nil =>
    cases hr
    exact h
  | cons e es ih =>
    rw [run, List.foldlM_cons] at hr
    obtain ⟨r₁, h₁, hr⟩ := Option.bind_eq_some_iff.1 hr
    exact ih (h.step h₁) hr

end Relay

/-! ### Where a packet comes from -/

theorem normalised_eq_some {plain rtp : Bytes} (h : normalised plain = some rtp) :
    ∃ p : Rtp.Packet, p.bytes = plain ∧ p.plain.bytes = rtp := by
  rw [normalised] at h
  split_ifs at h
  have hn := normalises plain []
  rw [List.append_nil] at hn
  rcases hn with ⟨-, hs⟩ | ⟨p, buf, hp, hs, htake, -⟩
  · rw [hs] at h
    cases h
  · rw [hs] at h
    rw [List.take_length] at hp
    exact ⟨p, hp, htake.symm.trans (Option.some.inj h)⟩

/-- The datagram came over SRTP on the connection of a ready publisher of the live source, and is an
    RTP packet whose payload type is that of its video. -/
structure Authentic (a : ℕ) (x : UdpWorker × UdpDatagram) : Prop where
  kind : datagramKind x.2.data = some .srtp
  packet : ∃ p : Rtp.Packet, x.2.plain = some p.bytes ∧ x.1.takes x.2 = some (a, p.plain.bytes)
  publisher : ∃ b sess, x.1.proc.w.getCtx x.2.conn = some b ∧ x.1.proc.w.sessions.get b = some sess ∧
    sess.publishing = true ∧ sess.fsm = .srtpReady ∧ sess.source = some a ∧
      (x.1.proc.w.sources.get a).isSome

/-- No push is handed on twice. -/
theorem Uplink.Sound.places {ps : List (JitterPush Bytes)} {up : Uplink (Stamped Bytes)}
    (h : up.Sound ps) : (up.emitted.map (·.2.data.1)).Nodup := by
  have hmap : up.emitted.map (·.2.data.1) = (up.emitted.map (·.2.data)).map Prod.fst := by
    rw [List.map_map]
    rfl
  rw [hmap]
  refine h.once.map_on fun x hx y hy hxy => ?_
  obtain ⟨e, he, rfl⟩ := List.mem_map.1 hx
  obtain ⟨e', he', rfl⟩ := List.mem_map.1 hy
  exact (h.emitted e he).eq_of_place (h.emitted e' he') hxy

theorem videoSource_eq_some {p : Proc} {c a : ℕ} {rtp : Bytes} (h : p.videoSource c rtp = some a) :
    ∃ b sess, p.w.getCtx c = some b ∧ p.w.sessions.get b = some sess ∧ sess.publishing = true ∧
      sess.fsm = .srtpReady ∧ sess.source = some a := by
  simp only [Proc.videoSource, Option.bind_eq_bind, Option.bind_eq_some_iff] at h
  obtain ⟨b, hb, sess, hsess, hs⟩ := h
  split_ifs at hs with hgate
  exact ⟨b, sess, hb, hsess, hgate.1, of_decide_eq_true hgate.2.1, hs⟩

/-- A session of a worker has no source but a live one. -/
theorem source_live {slot : ℕ} {sh : Option ShmCtx} {p : Proc}
    (hp : ∃ es, p = Lts.run Proc.step (Proc.init slot sh) es) {a b : ℕ} {sess : Session}
    (hsess : p.w.sessions.get b = some sess) (hs : sess.source = some a) :
    (p.w.sources.get a).isSome := by
  obtain ⟨es, rfl⟩ := hp
  obtain ⟨ops, -, h⟩ := Proc.traced_run (Proc.init slot sh) es Core.init (Core.models_init slot)
  rw [← h.isSome_source]
  exact h.ok.holder b sess.core a (by rw [h.session, hsess]; rfl) hs

theorem authentic_of_brings {slot : ℕ} {sh : Option ShmCtx} {a : ℕ} {x : UdpWorker × UdpDatagram}
    (hp : ∃ es, x.1.proc = Lts.run Proc.step (Proc.init slot sh) es) {rtp : Bytes}
    (h : x.1.brings (.datagram x.2) = some (a, x.2, rtp)) : Authentic a x := by
  obtain ⟨-, hkind, htakes⟩ := UdpWorker.brings_eq_some h
  have hkind' : datagramKind x.2.data = some .srtp := by
    rw [UdpWorker.kindOf] at hkind
    split_ifs at hkind
    exact hkind
  have ht := htakes
  simp only [UdpWorker.takes, Option.bind_eq_bind, Option.bind_eq_some_iff] at ht
  obtain ⟨rtp', ⟨plain, hplain, hnorm⟩, a', hsource, he⟩ := ht
  cases he
  obtain ⟨p, rfl, rfl⟩ := normalised_eq_some hnorm
  obtain ⟨b, sess, hb, hsess, hpub, hready, hs⟩ := videoSource_eq_some hsource
  exact ⟨hkind', ⟨p, hplain, htakes⟩, b, sess, hb, hsess, hpub, hready, hs, source_live hp hsess hs⟩

/-- **What is broadcast came from a publisher, once and in order.**  A worker handles whatever
    datagrams and other events reach it, and at any time: each packet handed on for a source since its
    buffer was last reset is one of the datagrams that came for it, authentic and with its header
    normalised; none is handed on twice, and their sequence numbers climb except where the buffer
    starts over. -/
theorem uplink_in_order (hmac : Hmac) (timeout : UInt32) (slot : ℕ) (sh : Option ShmCtx)
    (es : List UdpEvent) :
    ∃ r, Relay.run hmac timeout (.init slot sh) es = some r ∧ ∀ a,
      (r.fed a).Sublist r.trace ∧ (∀ x ∈ r.fed a, Authentic a x) ∧
      ∃ up : Uplink (Stamped Bytes),
        r.sent a = up.emitted.map (fun e => e.2.map fun x => x.2.pkt.data) ∧
        up.emitted.IsChain Follows ∧
        (∀ e ∈ up.emitted, Intact ((r.fed a).map Relay.push) e.2) ∧
        (up.emitted.map (·.2.data.1)).Nodup := by
  obtain ⟨r, hr, h⟩ := Relay.kept_run hmac timeout es (Relay.kept_init slot sh)
  have hran := Relay.run_proc (r := .init slot sh) (p := .init slot sh)
    ⟨⟨[], rfl⟩, fun _ hx => absurd hx List.not_mem_nil⟩ hr
  refine ⟨r, hr, fun a => ⟨(h a).sublist, fun x hx => ?_, ?_⟩⟩
  · obtain ⟨rtp, hb⟩ := (h a).brought x hx
    exact authentic_of_brings (hran.trace x ((h a).sublist.subset hx)) hb
  · obtain ⟨up, hs, -, hsent⟩ := (h a).sound
    exact ⟨up, hsent, hs.chain, hs.emitted, hs.places⟩

end NginxRtc
