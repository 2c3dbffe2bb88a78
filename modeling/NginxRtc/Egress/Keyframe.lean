/-
  The pacer and the keyframe in flight (`keyframe_open`, `keyframe_pkts`).

  A GOP start that gets out opens its access unit.  The live video packets that follow it, up to the
  first one with the marker bit, belong to the unit; the first 256 packets of a unit are to pass
  the pacer even when its bucket is empty.

  `KeyUnit` follows the unit from outside.  The session closes it at the first marker it sends, also
  one of a retransmission or of the GOP start itself, and counts retransmissions with the rest.
  `keyframe_untorn_iff`: in a run, no packet of a unit is refused by the pacer exactly when each of
  them that the bucket does not cover comes before any of this has happened.
-/
import NginxRtc.Egress.Gate

namespace NginxRtc

/-- What has become of the unit of the GOP start accepted last: the live video packets offered
    since, whether one of them had the marker, the video packets accepted from the GOP start on, and
    whether one of those had the marker. -/
structure KeyUnit where
  offered : ℕ
  ended : Bool
  accepted : ℕ
  marked : Bool
deriving DecidableEq

namespace KeyUnit

/-- The next live video packet belongs to the unit, and to its first 256 packets. -/
def Open (u : KeyUnit) : Prop := u.ended = false ∧ u.offered + 1 < keyframeMaxPkts

instance (u : KeyUnit) : Decidable u.Open := inferInstanceAs (Decidable (_ ∧ _))

/-- Nothing accepted since the GOP start closes the unit for the session. -/
def Fresh (u : KeyUnit) : Prop := u.marked = false ∧ u.accepted < keyframeMaxPkts

instance (u : KeyUnit) : Decidable u.Fresh := inferInstanceAs (Decidable (_ ∧ _))

/-- A video packet is offered, live or not. -/
def offer (live : Bool) (rtp : Bytes) (u : KeyUnit) : KeyUnit :=
  if live then { u with offered := u.offered + 1, ended := u.ended || hasMarker rtp } else u

/-- A video packet is accepted. -/
def accept (rtp : Bytes) (u : KeyUnit) : KeyUnit :=
  { u with accepted := u.accepted + 1, marked := u.marked || hasMarker rtp }

end KeyUnit

/-- The packet of a `send` is live, that of a `retransmit` is not. -/
def SendOp.live : SendOp → Bool
  | .send _ => true
  | _ => false

/-- The unit after a video send. -/
def nextUnit (live : Bool) (u : Option KeyUnit) : Option (Attempt × Outcome) → Option KeyUnit
  | some (a, .sent _) =>
    if a.gopStart then some ⟨0, false, 1, hasMarker a.rtp⟩
    else (u.map (.offer live a.rtp)).map (.accept a.rtp)
  | some (a, _) => u.map (.offer live a.rtp)
  | none => u

namespace Egress

def unitStep (t : SendTunables) (s : Egress × Option KeyUnit) (op : SendOp) :
    Egress × Option KeyUnit :=
  (s.1.step t op, nextUnit op.live s.2 (s.1.videoSend t op))

/-- The pacer refuses no live packet of the unit. -/
def Untorn (t : SendTunables) (s : Egress × Option KeyUnit) (op : SendOp) : Prop :=
  ∀ a u, op.live = true → s.2 = some u → u.Open → s.1.videoSend t op ≠ some (a, .paced)

/-- A live packet of the unit that comes to the pacer is a GOP start, is covered by the bucket, or
    comes while the unit is fresh. -/
def Guarded (s : Egress × Option KeyUnit) (op : SendOp) : Prop :=
  ∀ a u, op = .send a → s.2 = some u → u.Open → s.1.setup.isVideo a.rtp = true →
    s.1.sendable a = true → s.1.gates a = false →
      a.gopStart = true ∨ s.1.covers a = true ∨ u.Fresh

/-- The session's view of the unit. -/
def Tracks (e : Egress) : Option KeyUnit → Prop
  | none => e.keyframeOpen = false
  | some u => e.keyframeOpen = !u.marked ∧ (u.marked = false → e.keyframePkts = u.accepted)

/-- What an accepted video packet does to the keyframe in flight, and that nothing else touches
    it. -/
theorem Sends.keyframe {t : SendTunables} {e e' : Egress} {a : Attempt} {o : Outcome}
    (h : Sends t e a e' o) :
    (∃ d, o = .sent d) ∧ e.setup.isVideo a.rtp = true ∧
        e'.keyframeOpen = ((a.gopStart || e.keyframeOpen) && !hasMarker a.rtp) ∧
        ((a.gopStart || e.keyframeOpen) = true →
          e'.keyframePkts = (if a.gopStart then 0 else e.keyframePkts) + 1) ∨
      ((∃ d, o = .sent d) → e.setup.isVideo a.rtp = false) ∧
        e'.keyframeOpen = e.keyframeOpen ∧ e'.keyframePkts = e.keyframePkts := by
  obtain ⟨p, hp⟩ := e.charge_eq a
  cases h with
  | unready | gated => exact .inr ⟨fun ⟨d, hd⟩ => (nomatch hd), rfl, rfl⟩
  | paced | srtpFailed | failed | short =>
    rw [hp]
    exact .inr ⟨fun ⟨d, hd⟩ => (nomatch hd), rfl, rfl⟩
  | again =>
    rw [hp, blockSend_eq]
    exact .inr ⟨fun ⟨d, hd⟩ => (nomatch hd), rfl, rfl⟩
  | sent cipher =>
    rw [hp, drawSeq_eq, acceptSend_eq]
    cases hv : e.setup.isVideo a.rtp with
    | false => exact .inr ⟨fun _ => rfl, rfl, rfl⟩
    | true =>
      refine .inl ⟨⟨_, rfl⟩, rfl, rfl, fun hopen => ?_⟩
      simp only [Bool.true_and] at hopen ⊢
      rw [if_pos hopen]

theorem Tracks.congr {e e' : Egress} {u : Option KeyUnit} (h : e.Tracks u)
    (ho : e'.keyframeOpen = e.keyframeOpen) (hp : e'.keyframePkts = e.keyframePkts) :
    e'.Tracks u := by
  unfold Tracks at *
  rw [ho, hp]
  exact h

theorem Tracks.offer {e : Egress} {u : Option KeyUnit} (h : e.Tracks u) (live : Bool)
    (rtp : Bytes) : e.Tracks (u.map (.offer live rtp)) := by
  cases u with
  | none => exact h
  | some u => cases live <;> exact h

theorem Tracks.accept {e e' : Egress} {u : Option KeyUnit} {rtp : Bytes} (h : e.Tracks u)
    (ho : e'.keyframeOpen = (e.keyframeOpen && !hasMarker rtp))
    (hp : e.keyframeOpen = true → e'.keyframePkts = e.keyframePkts + 1) :
    e'.Tracks (u.map (.accept rtp)) := by
  cases u with
  | none =>
    have hclosed : e.keyframeOpen = false := h
    exact ho.trans (by rw [hclosed, Bool.false_and])
  | some u =>
    obtain ⟨hopen, hpkts⟩ := h
    rw [hopen] at ho hp
    refine ⟨ho.trans (by rw [KeyUnit.accept, Bool.not_or]), fun hm => ?_⟩
    have hmark : u.marked = false := (Bool.or_eq_false_iff.1 hm).1
    rw [hp (by rw [hmark]; rfl), hpkts hmark]
    rfl

/-- **The session follows the unit.** -/
theorem Tracks.step {t : SendTunables} {s : Egress × Option KeyUnit} (h : s.1.Tracks s.2)
    (op : SendOp) : (unitStep t s op).1.Tracks (unitStep t s op).2 := by
  obtain ⟨e, u⟩ := s
  unfold unitStep
  dsimp only
  rcases e.video_cases t op with ⟨hv, hq⟩ | ⟨a, o, e', -, hs, hq, hv⟩
  · rw [hv]
    exact h.congr hq.keyframeOpen hq.keyframePkts
  refine Tracks.congr ?_ hq.keyframeOpen hq.keyframePkts
  rw [hv]
  rcases hs.keyframe with ⟨⟨d, rfl⟩, hvideo, hopen, hpkts⟩ | ⟨hsent, hopen, hpkts⟩
  · rw [if_pos hvideo]
    unfold nextUnit
    dsimp only
    split_ifs with hgop
    · rw [hgop] at hopen hpkts
      exact ⟨hopen, fun _ => hpkts rfl⟩
    · rw [Bool.not_eq_true] at hgop
      rw [hgop] at hopen hpkts
      exact (h.offer op.live a.rtp).accept hopen hpkts
  · split_ifs with hvideo
    · unfold nextUnit
      split
      · next b d hb =>
        obtain ⟨rfl, rfl⟩ := Prod.mk.inj (Option.some.inj hb)
        exact nomatch hvideo.symm.trans (hsent ⟨d, rfl⟩)
      · next b o' hno hb =>
        obtain ⟨rfl, rfl⟩ := Prod.mk.inj (Option.some.inj hb)
        exact (h.offer op.live a.rtp).congr hopen hpkts
      · next hb => exact nomatch hb
    · exact h.congr hopen hpkts

theorem videoSend_send (t : SendTunables) (e : Egress) (a : Attempt) :
    e.videoSend t (.send a) =
      if e.setup.isVideo a.rtp then some (a, (e.sendRtp t a).2) else none := rfl

/-- When the pacer refuses a packet. -/
theorem sendRtp_paced_iff (t : SendTunables) (e : Egress) (a : Attempt) :
    (e.sendRtp t a).2 = .paced ↔
      e.sendable a = true ∧ e.gates a = false ∧ e.covers a = false ∧ e.exempt a = false := by
  constructor
  · intro h
    have hs := e.sendRtp_cases t a
    rw [h] at hs
    generalize (e.sendRtp t a).1 = e' at hs
    cases hs with
    | paced hsend hgate hcover hexempt => exact ⟨hsend, hgate, hcover, hexempt⟩
  · rintro ⟨hsend, hgate, hcover, hexempt⟩
    simp [sendRtp, hsend, hgate, hcover, hexempt]

/-- What the session exempts, seen from outside. -/
theorem Tracks.exempt_iff {e : Egress} {u : KeyUnit} {a : Attempt} (h : e.Tracks (some u))
    (hvideo : e.setup.isVideo a.rtp = true) :
    e.exempt a = true ↔ a.gopStart = true ∨ u.Fresh := by
  obtain ⟨hopen, hpkts⟩ := h
  unfold exempt KeyUnit.Fresh
  rw [hvideo, hopen]
  cases hm : u.marked with
  | true => simp
  | false => simp [hpkts hm]

/-- **One live packet** of the unit passes the pacer exactly if the unit, or the bucket, guards
    it. -/
theorem untorn_iff_guarded {t : SendTunables} {s : Egress × Option KeyUnit} (h : s.1.Tracks s.2)
    (op : SendOp) : Untorn t s op ↔ Guarded s op := by
  obtain ⟨e, u⟩ := s
  constructor
  · rintro hun a u rfl rfl hopen hvideo hsend hgate
    by_contra hno
    obtain ⟨hgop, hrest⟩ := not_or.1 hno
    obtain ⟨hcover, hfresh⟩ := not_or.1 hrest
    have hexempt : ¬ e.exempt a = true := fun hx =>
      ((h.exempt_iff hvideo).1 hx).elim hgop hfresh
    have hpaced := (e.sendRtp_paced_iff t a).2
      ⟨hsend, hgate, Bool.not_eq_true _ ▸ hcover, Bool.not_eq_true _ ▸ hexempt⟩
    refine hun a u rfl rfl hopen ?_
    rw [videoSend_send, if_pos hvideo, hpaced]
  · rintro hg a u hlive rfl hopen hv
    cases op with
    | send b =>
      rw [videoSend_send] at hv
      split_ifs at hv with hb
      obtain ⟨rfl, hpaced⟩ := Prod.mk.inj (Option.some.inj hv)
      obtain ⟨hsend, hgate, hcover, hexempt⟩ := (e.sendRtp_paced_iff t b).1 hpaced
      have hno : ¬ (b.gopStart = true ∨ u.Fresh) := fun hx =>
        nomatch hexempt.symm.trans ((h.exempt_iff hb).2 hx)
      rcases hg b u rfl rfl hopen hb hsend hgate with hgop | hc | hfresh
      · exact hno (.inl hgop)
      · exact nomatch hcover.symm.trans hc
      · exact hno (.inr hfresh)
    | _ => exact nomatch hlive

/-- **A keyframe is not torn** in a run exactly if each live packet of its unit that comes to the
    pacer is a GOP start, is covered by the bucket, or comes before any accepted video packet since
    the GOP start, that one included, had the marker and before 256 of them were accepted. -/
theorem keyframe_untorn_iff (t : SendTunables) (setup : Setup) (ops : List SendOp) :
    Lts.Along (unitStep t) (Untorn t) (.fresh setup, none) ops ↔
      Lts.Along (unitStep t) Guarded (.fresh setup, none) ops := by
  have hstart : (Egress.fresh setup).Tracks none := rfl
  exact Lts.along_iff_of_step (P := fun s => s.1.Tracks s.2) (fun _ op h _ => h.step op)
    (fun _ op h _ => untorn_iff_guarded h op) hstart (Lts.along_true _ _)

/-! ### A torn keyframe -/

/-- A video packet of the largest size. -/
def largeVideo : Attempt :=
  { Attempt.sample 1 false false true with
    rtp := [0x80, 0x66, 0, 1, 0, 0, 0, 0, 0, 0, 0, 1] ++ List.replicate 1202 0 }

/-- The keyframe opens at the lowest rate, and a retransmission with the marker comes between. -/
def tornRun : List SendOp :=
  [.pacerInit pacerMinBps, .video true false true, .retransmit 7 (.sample 1 false true true)]

/-- **A retransmission tears a keyframe**: its marker closes the unit that is being sent, and the
    next packet of the unit, for which the bucket has no tokens left, is refused. -/
theorem keyframe_torn :
    ¬ Lts.Along (unitStep .sample) (Untorn .sample) (.sample, none)
      (tornRun ++ [.send largeVideo]) := by
  intro h
  have hlast := (Lts.along_append.1 h).2.1
  set s := Lts.run (unitStep .sample) (.sample, none) tornRun with hs
  have hpaced : (s.1.sendRtp .sample largeVideo).2 = .paced :=
    (sendRtp_paced_iff ..).2 ⟨by decide +kernel, by decide +kernel, by decide +kernel,
      by decide +kernel⟩
  have hvideo : s.1.setup.isVideo largeVideo.rtp = true := by decide +kernel
  have hunit : s.2 = some ⟨0, false, 2, true⟩ := by decide +kernel
  refine hlast largeVideo _ rfl hunit (by decide) ?_
  rw [videoSend_send, if_pos hvideo, hpaced]

end Egress

end NginxRtc
