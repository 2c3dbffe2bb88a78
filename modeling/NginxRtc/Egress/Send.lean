/-
  Sending RTP to the peer of a session (`ngx_rtc_session_send_rtp`), and the operations that share
  its state: retransmissions, the NACK window, the pacer.

  A packet is refused before it is protected (session not ready, video gated until the next GOP
  start, pacer), fails (SRTP, socket) or is accepted by the socket in full.  A datagram may carry a
  transport-wide sequence number; it is drawn before the packet is protected and given back when
  the packet does not get out.

  `sendRtp_cases`: what a send does, one case an outcome.  `transportSeq_plaintext`: the number on
  a datagram is the one that was drawn.
-/
import NginxRtc.Egress.Pacer
import NginxRtc.Worker.Stream

namespace NginxRtc

def srtpTagLen : ℕ := 10
def cipherCap : ℕ := maxRtpPkt + srtpTagLen + 32
def eagainStreakIdleMs : ℕ := 1000
def keyframeMaxPkts : ℕ := 256
def nackBudget : ℕ := 128

/-- The tunables the send path reads. -/
structure SendTunables where
  nackWindowMs : ℕ
  nackWindowMaxMs : ℕ
  eagainStreakMax : ℕ

/-- What a session was set up with: its connection and the state of its FSM, the video and the audio
    SSRC of its source, and the payload types and extension ids it negotiated. -/
structure Setup where
  conn : Bool
  ready : Bool
  source : Option (UInt32 × UInt32)
  videoPt : UInt8
  audioPt : UInt8
  twccVideoExt : UInt8
  twccAudioExt : UInt8
deriving DecidableEq

/-- What the send path reads and writes of `ngx_rtc_session_t`. -/
structure Egress where
  setup : Setup
  twccSeq : UInt16
  sendFailed : ℕ
  sendEagain : ℕ
  srtpFailed : ℕ
  dropGop : ℕ
  dropPacer : ℕ
  dropUntilGop : Bool
  eagainStreak : ℕ
  eagainMs : UInt64
  keyframeOpen : Bool
  keyframePkts : ℕ
  nackWindowStart : UInt64
  nackWindowMs : ℕ
  nackRetransmitted : ℕ
  nackSeen : List UInt16
  pacer : Pacer
  twcc : TwccStats
deriving DecidableEq

/-- A session before its first send. -/
def Egress.fresh (setup : Setup) : Egress where
  setup := setup
  twccSeq := 0
  sendFailed := 0
  sendEagain := 0
  srtpFailed := 0
  dropGop := 0
  dropPacer := 0
  dropUntilGop := false
  eagainStreak := 0
  eagainMs := 0
  keyframeOpen := false
  keyframePkts := 0
  nackWindowStart := 0
  nackWindowMs := 0
  nackRetransmitted := 0
  nackSeen := []
  pacer := .off
  twcc := .zero

/-- A call of `ngx_rtc_session_send_rtp` at the time `now`: what SRTP makes of the packet, and what
    `send` returns. -/
structure Attempt where
  rtp : Bytes
  gopStart : Bool
  now : UInt64
  protect : Bytes → Option Bytes
  sent : ℤ

/-- A datagram the socket accepted in full: the extension id it was stamped under (0 if it was not)
    and its bytes before and after SRTP. -/
structure Datagram where
  ext : UInt8
  plain : Bytes
  cipher : Bytes
deriving DecidableEq

inductive Outcome where
  | unready
  | gated
  | paced
  | srtpFailed
  | failed
  | again
  | short
  | sent (d : Datagram)
deriving DecidableEq

/-! ## The bytes on the wire -/

def hasMarker (rtp : Bytes) : Bool := rtp.getD 1 0 &&& 0x80 ≠ 0

namespace Setup

/-- The packet belongs to the video track of the source. -/
def isVideo (s : Setup) (rtp : Bytes) : Bool :=
  match s.source with
  | none => false
  | some (video, _) => rtpHeaderSize ≤ rtp.length && rtpSsrc rtp = video

/-- The payload type and the transport-cc extension id for the packet; 0 for none. -/
def resolve (s : Setup) (rtp : Bytes) : UInt8 × UInt8 :=
  match s.source with
  | none => (0, 0)
  | some (video, audio) =>
    if rtp.length < rtpHeaderSize then (0, 0)
    else if rtpSsrc rtp = video then (s.videoPt, s.twccVideoExt)
    else if rtpSsrc rtp = audio then (s.audioPt, s.twccAudioExt)
    else (0, 0)

/-- The extension id the packet is stamped under; 0 also when the output buffer has no room. -/
def stampExt (s : Setup) (rtp : Bytes) : UInt8 :=
  let ext := (s.resolve rtp).2
  if ext ≠ 0 ∧ cipherCap < rtp.length + 8 + srtpTagLen then 0 else ext

end Setup

/-- The transport-wide-cc header extension. -/
def twccExtension (ext : UInt8) (seq : UInt16) : Bytes :=
  [0xBE, 0xDE, 0x00, 0x01, (ext <<< 4) ||| 0x01, (seq >>> 8).toUInt8, seq.toUInt8, 0x00]

/-- The packet with the extension behind its fixed header. -/
def withTwcc (ext : UInt8) (seq : UInt16) (rtp : Bytes) : Bytes :=
  (rtp.take rtpHeaderSize).modifyHead (· ||| 0x10) ++ twccExtension ext seq ++
    rtp.drop rtpHeaderSize

/-- The payload type byte rewritten, unless the payload type is 0. -/
def rewritePt (pt : UInt8) (buf : Bytes) : Bytes :=
  if pt = 0 then buf else buf.set 1 ((buf.getD 1 0 &&& 0x80) ||| (pt &&& 0x7f))

/-- What is handed to SRTP. -/
def Setup.plaintext (s : Setup) (seq : UInt16) (rtp : Bytes) : Bytes :=
  rewritePt (s.resolve rtp).1
    (if s.stampExt rtp ≠ 0 then withTwcc (s.stampExt rtp) seq rtp else rtp)

/-- The transport-wide sequence number on a datagram. -/
def Datagram.transportSeq (d : Datagram) : Option UInt16 :=
  if d.ext = 0 then none else some (Wire.word16 (d.plain.getD 17 0) (d.plain.getD 18 0))

/-! ## A send -/

/-- The results of `c->send` that are no byte counts. -/
def ngxError : ℤ := -1
def ngxAgain : ℤ := -2

namespace Egress

/-- The session can send, and the packet fits its output buffer. -/
def sendable (e : Egress) (a : Attempt) : Bool :=
  e.setup.conn && e.setup.ready && a.rtp.length ≠ 0 && a.rtp.length ≤ maxRtpPkt

/-- The packet starts a GOP, or belongs to the keyframe that is being sent. -/
def exempt (e : Egress) (a : Attempt) : Bool :=
  e.setup.isVideo a.rtp &&
    (a.gopStart || e.keyframeOpen && e.keyframePkts < keyframeMaxPkts)

/-- The gate lets only a GOP start through. -/
def gates (e : Egress) (a : Attempt) : Bool :=
  e.setup.isVideo a.rtp && e.dropUntilGop && !a.gopStart

/-- The pacer, if it was initialised, has the tokens for the packet. -/
def covers (e : Egress) (a : Attempt) : Bool :=
  e.pacer.targetBps = 0 || e.pacer.covers a.rtp.length a.now.toNat

def charge (e : Egress) (a : Attempt) : Egress :=
  if e.pacer.targetBps = 0 then e
  else { e with pacer := e.pacer.pacerAdmit a.rtp.length a.now.toNat }

/-- `tseq = sess->twcc_seq++`, for a packet that is stamped. -/
def drawSeq (e : Egress) (ext : UInt8) : Egress :=
  if ext ≠ 0 then { e with twccSeq := e.twccSeq + 1 } else e

/-- `sess->twcc_seq--`. -/
def giveBack (e : Egress) (ext : UInt8) : Egress :=
  if ext ≠ 0 then { e with twccSeq := e.twccSeq - 1 } else e

/-- A hard failure of the socket. -/
def failSend (e : Egress) (video : Bool) : Egress :=
  { e with sendFailed := e.sendFailed + 1, dropUntilGop := video || e.dropUntilGop }

/-- The streak a further EAGAIN at `now` counts on from. -/
def streakBefore (e : Egress) (now : UInt64) : ℕ :=
  if 0 < e.eagainStreak ∧ eagainStreakIdleMs ≤ (now - e.eagainMs).toNat then 0 else e.eagainStreak

/-- The socket would block. -/
def blockSend (t : SendTunables) (e : Egress) (video : Bool) (now : UInt64) : Egress :=
  let e := { e with sendEagain := e.sendEagain + 1 }
  if !video then e
  else if t.eagainStreakMax ≤ e.streakBefore now + 1 then
    { e with eagainMs := now, eagainStreak := 0, dropUntilGop := true }
  else { e with eagainMs := now, eagainStreak := e.streakBefore now + 1 }

/-- A GOP start got out: delivery resumes and its keyframe opens. -/
def openKeyframe (e : Egress) (gop : Bool) : Egress :=
  if gop then { e with dropUntilGop := false, keyframeOpen := true, keyframePkts := 0 } else e

/-- The packet counts for the open keyframe, and its marker closes it. -/
def countKeyframe (e : Egress) (marker : Bool) : Egress :=
  if e.keyframeOpen then
    { e with keyframePkts := e.keyframePkts + 1, keyframeOpen := !marker }
  else e

/-- The socket accepted the packet. -/
def acceptSend (e : Egress) (video gop marker : Bool) : Egress :=
  if video then (({ e with eagainStreak := 0 }).openKeyframe gop).countKeyframe marker else e

/-- From `c->send` on. -/
def finish (t : SendTunables) (e : Egress) (a : Attempt) (d : Datagram) : Egress × Outcome :=
  let video := e.setup.isVideo a.rtp
  let e := if a.sent ≠ d.cipher.length then e.giveBack d.ext else e
  if a.sent = ngxError then (e.failSend video, .failed)
  else if a.sent = ngxAgain then (e.blockSend t video a.now, .again)
  else if a.sent ≠ d.cipher.length then (e.failSend video, .short)
  else
    (e.acceptSend video a.gopStart (rtpHeaderSize ≤ d.plain.length && hasMarker a.rtp), .sent d)

/-- From the stamping of the packet on. -/
def transmit (t : SendTunables) (e : Egress) (a : Attempt) : Egress × Outcome :=
  let ext := e.setup.stampExt a.rtp
  let plain := e.setup.plaintext e.twccSeq a.rtp
  let e := e.drawSeq ext
  match a.protect plain with
  | none => ({ e with srtpFailed := e.srtpFailed + 1 }.giveBack ext, .srtpFailed)
  | some cipher => e.finish t a ⟨ext, plain, cipher⟩

/-- `ngx_rtc_session_send_rtp`. -/
def sendRtp (t : SendTunables) (e : Egress) (a : Attempt) : Egress × Outcome :=
  if !e.sendable a then (e, .unready)
  else if e.gates a then ({ e with dropGop := e.dropGop + 1 }, .gated)
  else if !e.covers a && !e.exempt a then
    ({ e.charge a with dropPacer := e.dropPacer + 1 }, .paced)
  else (e.charge a).transmit t a

/-! ### What the parts of a send do -/

theorem charge_eq (e : Egress) (a : Attempt) : ∃ p, e.charge a = { e with pacer := p } := by
  unfold charge
  split_ifs
  · exact ⟨e.pacer, rfl⟩
  · exact ⟨_, rfl⟩

/-- A number that was drawn and given back leaves no trace. -/
theorem giveBack_drawSeq (e : Egress) (ext : UInt8) : (e.drawSeq ext).giveBack ext = e := by
  unfold drawSeq giveBack
  split_ifs
  · simp only [UInt16.add_sub_cancel]
  · rfl

theorem giveBack_srtpFailed (e : Egress) (ext : UInt8) :
    ({ e.drawSeq ext with srtpFailed := (e.drawSeq ext).srtpFailed + 1 }.giveBack ext) =
      { e with srtpFailed := e.srtpFailed + 1 } := by
  unfold drawSeq giveBack
  split_ifs
  · simp only [UInt16.add_sub_cancel]
  · rfl

theorem drawSeq_eq (e : Egress) (ext : UInt8) :
    e.drawSeq ext = { e with twccSeq := if ext ≠ 0 then e.twccSeq + 1 else e.twccSeq } := by
  unfold drawSeq
  split_ifs <;> rfl

/-- An EAGAIN touches the streak and, at its end, the gate. -/
theorem blockSend_eq (t : SendTunables) (e : Egress) (video : Bool) (now : UInt64) :
    e.blockSend t video now =
      { e with
        sendEagain := e.sendEagain + 1
        eagainMs := if video then now else e.eagainMs
        eagainStreak :=
          if video then
            if t.eagainStreakMax ≤ e.streakBefore now + 1 then 0 else e.streakBefore now + 1
          else e.eagainStreak
        dropUntilGop :=
          video && decide (t.eagainStreakMax ≤ e.streakBefore now + 1) || e.dropUntilGop } := by
  have hb : ({ e with sendEagain := e.sendEagain + 1 } : Egress).streakBefore now =
      e.streakBefore now := rfl
  unfold blockSend
  dsimp only
  rw [hb]
  cases video with
  | false => simp
  | true => by_cases h : t.eagainStreakMax ≤ e.streakBefore now + 1 <;> simp [h]

/-- An accepted video packet ends the streak; a GOP start opens the gate and its keyframe. -/
theorem acceptSend_eq (e : Egress) (video gop marker : Bool) :
    e.acceptSend video gop marker =
      { e with
        eagainStreak := if video then 0 else e.eagainStreak
        dropUntilGop := e.dropUntilGop && !(video && gop)
        keyframeOpen :=
          if video then (gop || e.keyframeOpen) && !marker else e.keyframeOpen
        keyframePkts :=
          if video && (gop || e.keyframeOpen) then
            (if gop then 0 else e.keyframePkts) + 1
          else e.keyframePkts } := by
  cases video with
  | false => simp [acceptSend]
  | true =>
    unfold acceptSend openKeyframe countKeyframe
    obtain ⟨_, _, _, _, _, _, _, _, _, _, ko, _, _, _, _, _, _, _⟩ := e
    cases gop <;> cases ko <;> simp

end Egress

/-! ### The bytes of a datagram -/

theorem Setup.stampExt_length {s : Setup} {rtp : Bytes} (h : s.stampExt rtp ≠ 0) :
    rtpHeaderSize ≤ rtp.length := by
  by_contra hlt
  refine h ?_
  have hres : (s.resolve rtp).2 = 0 := by
    unfold Setup.resolve
    split
    · rfl
    · rw [if_pos (not_le.1 hlt)]
  simp [Setup.stampExt, hres]

theorem length_withTwcc (ext : UInt8) (seq : UInt16) {rtp : Bytes}
    (h : rtpHeaderSize ≤ rtp.length) : (withTwcc ext seq rtp).length = rtp.length + 8 := by
  simp only [withTwcc, twccExtension, List.length_append, List.length_modifyHead, List.length_take,
    List.length_cons, List.length_nil, List.length_drop]
  omega

theorem length_rewritePt (pt : UInt8) (buf : Bytes) : (rewritePt pt buf).length = buf.length := by
  unfold rewritePt
  split_ifs
  · rfl
  · exact List.length_set

/-- What is handed to SRTP is no shorter than the packet. -/
theorem Setup.length_plaintext (s : Setup) (seq : UInt16) (rtp : Bytes) :
    rtp.length ≤ (s.plaintext seq rtp).length := by
  rw [Setup.plaintext, length_rewritePt]
  split_ifs with h
  · rw [length_withTwcc _ _ (Setup.stampExt_length h)]
    exact Nat.le_add_right ..
  · exact le_refl _

/-- The payload type is rewritten in the second byte only. -/
theorem getD_rewritePt (pt : UInt8) (buf : Bytes) {i : ℕ} (hi : i ≠ 1) :
    (rewritePt pt buf).getD i 0 = buf.getD i 0 := by
  unfold rewritePt
  split_ifs
  · rfl
  · rw [List.getD_eq_getElem?_getD, List.getElem?_set_ne (Ne.symm hi), ← List.getD_eq_getElem?_getD]

theorem getD_withTwcc (ext : UInt8) (seq : UInt16) {rtp : Bytes} (h : rtpHeaderSize ≤ rtp.length)
    {i : ℕ} (hi : i < 8) :
    (withTwcc ext seq rtp).getD (12 + i) 0 = (twccExtension ext seq).getD i 0 := by
  have hhead : ((rtp.take rtpHeaderSize).modifyHead (· ||| 0x10)).length = 12 := by
    rw [List.length_modifyHead, List.length_take, Nat.min_eq_left h]
    rfl
  have hext : (twccExtension ext seq).length = 8 := rfl
  rw [withTwcc, List.append_assoc, List.getD_eq_getElem?_getD,
    List.getElem?_append_right (by omega), hhead, Nat.add_sub_cancel_left,
    List.getElem?_append_left (by omega), ← List.getD_eq_getElem?_getD]

/-- **The number on a datagram** is the one drawn for it. -/
theorem transportSeq_plaintext (s : Setup) (seq : UInt16) (rtp : Bytes) (cipher : Bytes) :
    Datagram.transportSeq ⟨s.stampExt rtp, s.plaintext seq rtp, cipher⟩ =
      if s.stampExt rtp = 0 then none else some seq := by
  unfold Datagram.transportSeq
  dsimp only
  split_ifs with h
  · rfl
  · have hlen := Setup.stampExt_length h
    rw [Setup.plaintext, if_pos h, getD_rewritePt _ _ (by decide), getD_rewritePt _ _ (by decide),
      getD_withTwcc _ _ hlen (by decide : 5 < 8), getD_withTwcc _ _ hlen (by decide : 6 < 8)]
    exact congrArg some (Wire.word16_bytes seq)

/-! ### What a send does -/

namespace Egress

/-- The packet is neither gated nor refused by the pacer. -/
structure Passes (e : Egress) (a : Attempt) : Prop where
  sendable : e.sendable a = true
  ungated : e.gates a = false
  admitted : e.covers a = true ∨ e.exempt a = true

/-- The outcomes of a send, and the state each leaves behind. -/
inductive Sends (t : SendTunables) (e : Egress) (a : Attempt) : Egress → Outcome → Prop
  | unready : e.sendable a = false → Sends t e a e .unready
  | gated : e.sendable a = true → e.gates a = true →
      Sends t e a { e with dropGop := e.dropGop + 1 } .gated
  | paced : e.sendable a = true → e.gates a = false → e.covers a = false → e.exempt a = false →
      Sends t e a { e.charge a with dropPacer := e.dropPacer + 1 } .paced
  | srtpFailed : e.Passes a → a.protect (e.setup.plaintext e.twccSeq a.rtp) = none →
      Sends t e a { e.charge a with srtpFailed := (e.charge a).srtpFailed + 1 } .srtpFailed
  | failed : e.Passes a → a.sent = ngxError →
      Sends t e a ((e.charge a).failSend (e.setup.isVideo a.rtp)) .failed
  | again : e.Passes a → a.sent = ngxAgain →
      Sends t e a ((e.charge a).blockSend t (e.setup.isVideo a.rtp) a.now) .again
  | short (cipher : Bytes) : e.Passes a →
      a.protect (e.setup.plaintext e.twccSeq a.rtp) = some cipher → a.sent ≠ cipher.length →
      Sends t e a ((e.charge a).failSend (e.setup.isVideo a.rtp)) .short
  | sent (cipher : Bytes) : e.Passes a →
      a.protect (e.setup.plaintext e.twccSeq a.rtp) = some cipher → a.sent = cipher.length →
      Sends t e a
        (((e.charge a).drawSeq (e.setup.stampExt a.rtp)).acceptSend (e.setup.isVideo a.rtp)
          a.gopStart (hasMarker a.rtp))
        (.sent ⟨e.setup.stampExt a.rtp, e.setup.plaintext e.twccSeq a.rtp, cipher⟩)

/-- A video packet has a marker byte. -/
theorem acceptSend_marker (e : Egress) {s : Setup} {rtp : Bytes} (gop : Bool) {n : ℕ}
    (hn : rtp.length ≤ n) :
    e.acceptSend (s.isVideo rtp) gop (rtpHeaderSize ≤ n && hasMarker rtp) =
      e.acceptSend (s.isVideo rtp) gop (hasMarker rtp) := by
  cases hv : s.isVideo rtp with
  | false => rfl
  | true =>
    have hlen : rtpHeaderSize ≤ rtp.length := by
      unfold Setup.isVideo at hv
      split at hv
      · exact nomatch hv
      · exact of_decide_eq_true (Bool.and_eq_true_iff.1 hv).1
    rw [decide_eq_true (hlen.trans hn), Bool.true_and]

/-- What is left of a drawn number once the socket was asked. -/
theorem finish_drawSeq (t : SendTunables) (e : Egress) (a : Attempt) (ext : UInt8)
    (plain cipher : Bytes) :
    (e.drawSeq ext).finish t a ⟨ext, plain, cipher⟩ =
      let video := e.setup.isVideo a.rtp
      if a.sent = ngxError ∧ a.sent ≠ cipher.length then (e.failSend video, .failed)
      else if a.sent = ngxAgain ∧ a.sent ≠ cipher.length then (e.blockSend t video a.now, .again)
      else if a.sent ≠ cipher.length then (e.failSend video, .short)
      else
        ((e.drawSeq ext).acceptSend video a.gopStart
            (rtpHeaderSize ≤ plain.length && hasMarker a.rtp),
          .sent ⟨ext, plain, cipher⟩) := by
  have hsetup : (e.drawSeq ext).setup = e.setup := by rw [drawSeq_eq]
  have hne : a.sent = ngxError ∨ a.sent = ngxAgain → a.sent ≠ cipher.length := by
    unfold ngxError ngxAgain
    omega
  unfold finish
  dsimp only
  rw [hsetup]
  by_cases hlen : a.sent = cipher.length
  · have h1 : a.sent ≠ ngxError := fun h => hne (.inl h) hlen
    have h2 : a.sent ≠ ngxAgain := fun h => hne (.inr h) hlen
    simp only [hlen, ne_eq, not_true_eq_false, if_false, and_false]
    rw [if_neg (hlen ▸ h1), if_neg (hlen ▸ h2)]
  · simp only [ne_eq, hlen, not_false_eq_true, if_true, and_true, giveBack_drawSeq]

/-- **What a send does.** -/
theorem sendRtp_cases (t : SendTunables) (e : Egress) (a : Attempt) :
    Sends t e a (e.sendRtp t a).1 (e.sendRtp t a).2 := by
  unfold sendRtp
  split_ifs with hready hgate hpace
  · exact .unready (by simpa using hready)
  · exact .gated (by simpa using hready) hgate
  · obtain ⟨hc, he⟩ : e.covers a = false ∧ e.exempt a = false := by simpa using hpace
    exact .paced (by simpa using hready) (by simpa using hgate) hc he
  · have hpass : e.Passes a := by
      refine ⟨by simpa using hready, by simpa using hgate, ?_⟩
      cases hc : e.covers a <;> cases he : e.exempt a <;> simp_all
    obtain ⟨p, hp⟩ := e.charge_eq a
    have hsetup : (e.charge a).setup = e.setup := by rw [hp]
    have hseq : (e.charge a).twccSeq = e.twccSeq := by rw [hp]
    unfold transmit
    rw [hsetup, hseq]
    dsimp only
    split
    · next hnone =>
      rw [giveBack_srtpFailed]
      exact .srtpFailed hpass hnone
    · next cipher hcipher =>
      rw [finish_drawSeq, hsetup]
      dsimp only
      split_ifs with herr hagain hshort
      · exact .failed hpass herr.1
      · exact .again hpass hagain.1
      · exact .short cipher hpass hcipher hshort
      · rw [acceptSend_marker _ _ (e.setup.length_plaintext e.twccSeq a.rtp)]
        exact .sent cipher hpass hcipher (not_not.1 hshort)

end Egress

/-! ### Samples -/

def SendTunables.sample : SendTunables := ⟨100, 800, 3⟩

/-- A session that is ready; SSRC 1 is the video track of its source and SSRC 2 the audio track. -/
def Egress.sample : Egress := .fresh ⟨true, true, some (1, 2), 102, 111, 3, 3⟩

/-- A packet of one payload byte at time 0; the socket accepts its datagram in full or fails. -/
def Attempt.sample (ssrc : UInt8) (gop marker ok : Bool) : Attempt where
  rtp := [0x80, if marker then 0xe6 else 0x66, 0, 1, 0, 0, 0, 0, 0, 0, 0, ssrc, 0x65]
  gopStart := gop
  now := 0
  protect := some
  sent := if ok then 21 else ngxError

end NginxRtc
