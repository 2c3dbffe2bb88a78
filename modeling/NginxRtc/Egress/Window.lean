/-
  The response window to NACKs: its budget, the packets it has answered, and its width.

  `NackWindow.roll` and `NackWindow.attempted` are the window as a machine of its own;
  `rtcpCb_window` says that a callback drives it, and nothing else.

  `nack_window_safe`: in every run, a window sees at most as many attempts as its budget and answers
  no packet twice, and its width stays between the bounds and grows only after a window that used
  all its budget.

  `backoff_recovers_iff`: after a quiet spell the width is back at its base exactly if it never left
  it, because no window has used all its budget.
-/
import NginxRtc.Egress.Nack

namespace NginxRtc

/-! ## The window as a machine -/

namespace NackWindow

/-- The width that counts when a NACK comes. -/
def current (t : SendTunables) (w : NackWindow) : ℕ := if w.width = 0 then t.nackWindowMs else w.width

def nextWidth (t : SendTunables) (w : NackWindow) : ℕ :=
  if nackBudget ≤ w.used then min (w.current t * 2) t.nackWindowMaxMs
  else if w.used = 0 then t.nackWindowMs
  else w.current t

/-- The window is over at `now`. -/
def elapsed (t : SendTunables) (w : NackWindow) (now : UInt64) : Bool :=
  w.current t ≤ (now - w.start).toNat

/-- The window a NACK at `now` is answered in. -/
def roll (t : SendTunables) (w : NackWindow) (now : UInt64) : NackWindow :=
  if w.elapsed t now then ⟨now, w.nextWidth t, 0, []⟩ else { w with width := w.current t }

/-- The attempts stay within the budget, and none of them repeats a packet that got out. -/
def Legal : NackWindow → List (UInt16 × Bool) → Prop
  | _, [] => True
  | w, p :: ps =>
    w.used < nackBudget ∧ (p.2 = true → p.1 ∉ w.seen) ∧ Legal (w.attempted p) ps

/-- The set of answered packets keeps up with the budget. -/
structure Ok (w : NackWindow) : Prop where
  nodup : w.seen.Nodup
  le : w.seen.length ≤ w.used
  budget : w.used ≤ nackBudget

end NackWindow

/-- The packets that got out. -/
def delivered (ps : List (UInt16 × Bool)) : List UInt16 := (ps.filter (·.2)).map Prod.fst

theorem delivered_append (ps qs : List (UInt16 × Bool)) :
    delivered (ps ++ qs) = delivered ps ++ delivered qs := by
  rw [delivered, List.filter_append, List.map_append]
  rfl

namespace NackWindow

/-- **Legal attempts** add up in the window. -/
theorem Legal.answered {w : NackWindow} {ps : List (UInt16 × Bool)} (h : w.Legal ps) (hw : w.Ok) :
    ps.foldl attempted w =
        { w with used := w.used + ps.length, seen := w.seen ++ delivered ps } ∧
      (ps.foldl attempted w).Ok := by
  induction ps generalizing w with
  | nil => exact ⟨by simp [delivered], hw⟩
  | cons p ps ih =>
    obtain ⟨hbudget, hnew, hrest⟩ := h
    have hroom : w.seen.length < nackBudget := lt_of_le_of_lt hw.le hbudget
    have hstep : w.attempted p =
        { w with used := w.used + 1, seen := w.seen ++ delivered [p] } := by
      obtain ⟨seq, ok⟩ := p
      cases ok with
      | true => simp [attempted, delivered, hroom]
      | false => simp [attempted, delivered]
    have hok : (w.attempted p).Ok := by
      rw [hstep]
      obtain ⟨seq, ok⟩ := p
      cases ok with
      | true =>
        refine ⟨?_, ?_, hbudget⟩
        · have hd : delivered [(seq, true)] = [seq] := rfl
          rw [hd, List.nodup_append_comm, List.singleton_append, List.nodup_cons]
          exact ⟨hnew rfl, hw.nodup⟩
        · have hle := hw.le
          simp only [delivered, List.filter_cons_of_pos, List.filter_nil, List.map_cons,
            List.map_nil, List.length_append, List.length_singleton]
          omega
      | false =>
        refine ⟨?_, ?_, hbudget⟩
        · simpa [delivered] using hw.nodup
        · have hle := hw.le
          simp only [delivered, List.length_append]
          simp
          omega
    obtain ⟨heq, hend⟩ := ih hrest hok
    rw [List.foldl_cons]
    refine ⟨?_, hend⟩
    rw [heq, hstep]
    have hcons : delivered (p :: ps) = delivered [p] ++ delivered ps := delivered_append [p] ps
    simp only [List.length_cons, hcons, List.append_assoc, Nat.add_assoc, Nat.add_comm 1]

theorem Ok.roll {w : NackWindow} (h : w.Ok) (t : SendTunables) (now : UInt64) :
    (w.roll t now).Ok := by
  unfold NackWindow.roll
  split_ifs
  · exact ⟨List.nodup_nil, le_refl _, Nat.zero_le _⟩
  · exact ⟨h.nodup, h.le, h.budget⟩

end NackWindow

/-! ## The callback drives the window -/

namespace Egress

theorem window_nackRoll (t : SendTunables) (e : Egress) (now : UInt64) :
    (e.nackRoll t now).window = e.window.roll t now := by
  unfold nackRoll nackWindowStep NackWindow.roll NackWindow.elapsed
  by_cases h : (now - e.nackWindowStart).toNat < e.nackWidth t
  · have hn : ¬ e.window.current t ≤ (now - e.window.start).toNat := not_le.2 h
    simp only [if_pos h, decide_eq_true_eq, if_neg hn, Bool.false_eq_true, if_false]
    rfl
  · have hp : e.window.current t ≤ (now - e.window.start).toNat := not_lt.1 h
    simp only [if_neg h, decide_eq_true_eq, if_pos hp, if_true]
    rfl

theorem retransmitAll_window (t : SendTunables) (f : FeedbackEnv) (i : ℕ) (seqs : List UInt16)
    (e : Egress) :
    e.window.Legal (retransmitAll t f i seqs e).2 ∧
      (retransmitAll t f i seqs e).1.window =
        (retransmitAll t f i seqs e).2.foldl NackWindow.attempted e.window := by
  induction seqs generalizing i e with
  | nil => exact ⟨trivial, rfl⟩
  | cons seq seqs ih =>
    unfold retransmitAll nackBudgetTake
    split_ifs with hfull
    · exact ⟨trivial, rfl⟩
    · obtain ⟨hw, hnew⟩ := attempt_window t f i e seq
      dsimp only at hw hnew ⊢
      obtain ⟨hlegal, heq⟩ := ih (i + 1)
        (streamRetransmit t f i { e with nackRetransmitted := e.nackRetransmitted + 1 } seq).1
      rw [hw] at hlegal heq
      exact ⟨⟨not_le.1 hfull, hnew, hlegal⟩, heq⟩

theorem window_replayAll (t : SendTunables) (f : FeedbackEnv) (i : ℕ) (slots : List RetransmitSlot)
    (e : Egress) : (replayAll t f i slots e).window = e.window := by
  induction slots generalizing i e with
  | nil => rfl
  | cons slot slots ih =>
    have hsend := (e.sendRtp_cases t (f.attempt i slot.data slot.isGopStart)).window
    unfold replayAll
    dsimp only
    split_ifs
    · exact hsend
    · exact (ih _ _).trans hsend

/-- The feedback is a generic NACK for the video track. -/
def nackFor (e : Egress) (pkt : Rtcp.Pkt) : Bool :=
  match e.setup.source with
  | none => false
  | some (video, _) =>
    pkt.type = Rtcp.typeRtpfb && pkt.fmt = Rtcp.fmtNack && pkt.mediaSsrc = video

/-- The feedback is such a NACK and asks for no more packets than the callback has room for. -/
def handles (e : Egress) (pkt : Rtcp.Pkt) : Bool :=
  e.nackFor pkt && (Rtcp.requested pkt.nack).length ≤ nackSeqsCap

theorem rtcpCb_nack (t : SendTunables) (f : FeedbackEnv) {e : Egress} {pkt : Rtcp.Pkt}
    (h : e.nackFor pkt = true) :
    rtcpCb t f e pkt = ((onNack t f e pkt).1, .nack (onNack t f e pkt).2) := by
  unfold nackFor at h
  unfold rtcpCb
  cases hs : e.setup.source with
  | none =>
    rw [hs] at h
    exact nomatch h
  | some ssrcs =>
    rw [hs] at h
    simp only [Bool.and_eq_true, decide_eq_true_eq] at h
    obtain ⟨⟨htype, hfmt⟩, hssrc⟩ := h
    simp only [htype, hfmt, hssrc, and_self, if_true]

/-- Other feedback leaves the window alone. -/
theorem rtcpCb_other (t : SendTunables) (f : FeedbackEnv) {e : Egress} {pkt : Rtcp.Pkt}
    (h : e.nackFor pkt = false) :
    (rtcpCb t f e pkt).1.window = e.window ∧ (rtcpCb t f e pkt).2.attempts = [] := by
  unfold nackFor at h
  unfold rtcpCb
  cases hs : e.setup.source with
  | none => exact ⟨rfl, rfl⟩
  | some ssrcs =>
    rw [hs] at h
    dsimp only at h ⊢
    split_ifs with hnack hssrc
    · exact absurd h (by simp [hnack.1, hnack.2, hssrc])
    · exact ⟨rfl, rfl⟩
    · split
      · exact ⟨rfl, rfl⟩
      · exact ⟨window_replayAll t f 0 _ e, rfl⟩
    · exact ⟨rfl, rfl⟩
    · exact ⟨rfl, rfl⟩
    all_goals
      split
      · exact ⟨rfl, rfl⟩
      · exact ⟨rfl, rfl⟩

/-- **What a callback does to the window.** -/
theorem rtcpCb_window (t : SendTunables) (f : FeedbackEnv) (e : Egress) (pkt : Rtcp.Pkt) :
    (e.handles pkt = true ∧
        (e.window.roll t f.now).Legal (rtcpCb t f e pkt).2.attempts ∧
        (rtcpCb t f e pkt).1.window =
          (rtcpCb t f e pkt).2.attempts.foldl NackWindow.attempted (e.window.roll t f.now) ∧
        (rtcpCb t f e pkt).2.attempts.map Prod.fst =
          (Rtcp.requested pkt.nack).take (nackBudget - (e.window.roll t f.now).used)) ∨
      (e.handles pkt = false ∧ (rtcpCb t f e pkt).1.window = e.window ∧
        (rtcpCb t f e pkt).2.attempts = []) := by
  unfold handles
  cases hfor : e.nackFor pkt with
  | false => exact .inr ⟨rfl, rtcpCb_other t f hfor⟩
  | true =>
    rw [rtcpCb_nack t f hfor, onNack, Rtcp.nackExpand_eq]
    split_ifs with hfits
    · obtain ⟨hlegal, heq⟩ := retransmitAll_window t f 0 (Rtcp.requested pkt.nack)
        (e.nackRoll t f.now)
      have hmap := retransmitAll_attempts t f 0 (Rtcp.requested pkt.nack) (e.nackRoll t f.now)
      have hused : (e.nackRoll t f.now).nackRetransmitted = (e.window.roll t f.now).used :=
        congrArg NackWindow.used (window_nackRoll t e f.now)
      rw [window_nackRoll] at hlegal heq
      rw [hused] at hmap
      exact .inl ⟨by simp [hfits], hlegal, heq, hmap⟩
    · exact .inr ⟨by simp [hfits], rfl, rfl⟩

end Egress

/-! ## The log of attempts -/

/-- What a viewer and its stream do to the session between two looks at it. -/
inductive ViewerEvent where
  | feedback (f : FeedbackEnv) (pkt : Rtcp.Pkt)
  | send (a : Attempt)
  | pacerInit (startBps : ℕ)
  | setup (s : Setup)

/-- A session with its history: the number of windows that were opened, each attempt with the window
    it was made in, and the time of the last NACK. -/
structure Ledger where
  e : Egress
  opened : ℕ
  log : List (ℕ × UInt16 × Bool)
  heard : UInt64

namespace Ledger

def start (setup : Setup) : Ledger := ⟨.fresh setup, 0, [], 0⟩

/-- A NACK that comes after the end of the window opens the next. -/
def opens (t : SendTunables) (l : Ledger) (now : UInt64) (pkt : Rtcp.Pkt) : Bool :=
  l.e.handles pkt && l.e.window.elapsed t now

def step (t : SendTunables) (l : Ledger) : ViewerEvent → Ledger
  | .feedback f pkt =>
    let r := Egress.rtcpCb t f l.e pkt
    let k := if l.opens t f.now pkt then l.opened + 1 else l.opened
    ⟨r.1, k, l.log ++ r.2.attempts.map (Prod.mk k),
      if l.e.nackFor pkt then f.now else l.heard⟩
  | .send a => { l with e := (l.e.sendRtp t a).1 }
  | .pacerInit startBps => { l with e := { l.e with pacer := .init startBps } }
  | .setup s => { l with e := { l.e with setup := s } }

/-- The attempts of the `k`-th window. -/
def inWindow (l : Ledger) (k : ℕ) : List (UInt16 × Bool) :=
  (l.log.filter (·.1 = k)).map Prod.snd

/-- The window that is open accounts for its own attempts, and all others kept to the budget. -/
structure Sound (t : SendTunables) (l : Ledger) : Prop where
  ok : l.e.window.Ok
  used : (l.inWindow l.opened).length = l.e.window.used
  seen : delivered (l.inWindow l.opened) = l.e.window.seen
  budget : ∀ k, (l.inWindow k).length ≤ nackBudget
  once : ∀ k, (delivered (l.inWindow k)).Nodup
  past : ∀ p ∈ l.log, p.1 ≤ l.opened
  unset : l.e.window.width = 0 → l.e.window.used = 0
  width : l.e.window.width = 0 ∨
    t.nackWindowMs ≤ l.e.window.width ∧ l.e.window.width ≤ t.nackWindowMaxMs

end Ledger

/-- What a step is to the window and to the log. -/
inductive Logged (t : SendTunables) (l : Ledger) (ev : ViewerEvent) (l' : Ledger) : Prop where
  | idle (ignored : ∀ f pkt, ev = .feedback f pkt → l.e.handles pkt = false)
    (window : l'.e.window = l.e.window) (opened : l'.opened = l.opened) (log : l'.log = l.log)
  | nack (f : FeedbackEnv) (pkt : Rtcp.Pkt) (ps : List (UInt16 × Bool))
    (event : ev = .feedback f pkt) (handled : l.e.handles pkt = true)
    (attempts : ps.map Prod.fst =
      (Rtcp.requested pkt.nack).take (nackBudget - (l.e.window.roll t f.now).used))
    (legal : (l.e.window.roll t f.now).Legal ps)
    (window : l'.e.window = ps.foldl NackWindow.attempted (l.e.window.roll t f.now))
    (opened : l'.opened = if l.e.window.elapsed t f.now then l.opened + 1 else l.opened)
    (log : l'.log = l.log ++ ps.map (Prod.mk l'.opened))

namespace Ledger

theorem logged (t : SendTunables) (l : Ledger) (ev : ViewerEvent) :
    Logged t l ev (l.step t ev) := by
  cases ev with
  | feedback f pkt =>
    rcases l.e.rtcpCb_window t f pkt with ⟨hh, hlegal, hw, hseqs⟩ | ⟨hh, hw, hno⟩
    · refine .nack f pkt _ rfl hh hseqs hlegal hw ?_ rfl
      simp only [step, opens, hh, Bool.true_and]
    · refine .idle ?_ hw ?_ ?_
      · rintro f' pkt' ⟨⟩
        exact hh
      · simp only [step, opens, hh, Bool.false_and, Bool.false_eq_true, if_false]
      · simp only [step, hno, List.map_nil, List.append_nil]
  | send a => exact .idle (fun _ _ h => nomatch h) (l.e.sendRtp_cases t a).window rfl rfl
  | pacerInit startBps => exact .idle (fun _ _ h => nomatch h) rfl rfl rfl
  | setup s => exact .idle (fun _ _ h => nomatch h) rfl rfl rfl

/-- New attempts belong to one window. -/
theorem inWindow_append {l l' : Ledger} {n : ℕ} {ps : List (UInt16 × Bool)}
    (h : l'.log = l.log ++ ps.map (Prod.mk n)) (k : ℕ) :
    l'.inWindow k = if k = n then l.inWindow k ++ ps else l.inWindow k := by
  unfold inWindow
  rw [h, List.filter_append, List.map_append]
  split_ifs with hk
  · subst hk
    have hall : (ps.map (Prod.mk k)).filter (·.1 = k) = ps.map (Prod.mk k) := by
      refine List.filter_eq_self.2 fun p hp => ?_
      obtain ⟨q, -, rfl⟩ := List.mem_map.1 hp
      exact decide_eq_true rfl
    rw [hall, List.map_map]
    exact congrArg (_ ++ ·) (List.map_id ps)
  · have hnone : (ps.map (Prod.mk n)).filter (·.1 = k) = [] := by
      refine List.filter_eq_nil_iff.2 fun p hp => ?_
      obtain ⟨q, -, rfl⟩ := List.mem_map.1 hp
      simpa using Ne.symm hk
    rw [hnone, List.map_nil, List.append_nil]

/-- Nothing is logged yet for a window to come. -/
theorem Sound.inWindow_next {t : SendTunables} {l : Ledger} (h : l.Sound t) :
    l.inWindow (l.opened + 1) = [] := by
  have hnone : l.log.filter (·.1 = l.opened + 1) = [] := by
    refine List.filter_eq_nil_iff.2 fun p hp => ?_
    have hle := h.past p hp
    simp only [decide_eq_true_eq]
    omega
  rw [inWindow, hnone, List.map_nil]

theorem Sound.mem_current {t : SendTunables} (hmax : t.nackWindowMs ≤ t.nackWindowMaxMs)
    {l : Ledger} (h : l.Sound t) :
    t.nackWindowMs ≤ l.e.window.current t ∧ l.e.window.current t ≤ t.nackWindowMaxMs := by
  unfold NackWindow.current
  split_ifs with hunset
  · exact ⟨le_refl _, hmax⟩
  · exact h.width.resolve_left hunset

/-- The window after the attempts at one NACK. -/
theorem Sound.window_eq {t : SendTunables} {l l' : Ledger} (h : l.Sound t) {now : UInt64}
    {ps : List (UInt16 × Bool)} (hlegal : (l.e.window.roll t now).Legal ps)
    (hwindow : l'.e.window = ps.foldl NackWindow.attempted (l.e.window.roll t now)) :
    l'.e.window = ⟨(l.e.window.roll t now).start, (l.e.window.roll t now).width,
        (l.e.window.roll t now).used + ps.length,
        (l.e.window.roll t now).seen ++ delivered ps⟩ ∧ l'.e.window.Ok := by
  obtain ⟨heq, hok⟩ := hlegal.answered (h.ok.roll t now)
  exact ⟨hwindow.trans heq, hwindow ▸ hok⟩

/-- The window after the roll accounts for what is logged for it so far. -/
theorem Sound.rolled {t : SendTunables} {l : Ledger} (h : l.Sound t) (now : UInt64) {n : ℕ}
    (hn : n = if l.e.window.elapsed t now then l.opened + 1 else l.opened) :
    (l.inWindow n).length = (l.e.window.roll t now).used ∧
      delivered (l.inWindow n) = (l.e.window.roll t now).seen ∧ l.opened ≤ n := by
  unfold NackWindow.roll
  cases hel : l.e.window.elapsed t now with
  | true =>
    rw [hel, if_pos rfl] at hn
    rw [hn, h.inWindow_next]
    exact ⟨rfl, rfl, Nat.le_succ _⟩
  | false =>
    rw [hel] at hn
    obtain rfl : n = l.opened := hn
    exact ⟨h.used, h.seen, le_refl _⟩

end Ledger

namespace NackWindow

/-- The bounds on the width survive a roll. -/
theorem width_roll {t : SendTunables} {w : NackWindow} (now : UInt64)
    (hmax : t.nackWindowMs ≤ t.nackWindowMaxMs)
    (hmem : t.nackWindowMs ≤ w.current t ∧ w.current t ≤ t.nackWindowMaxMs) :
    t.nackWindowMs ≤ (w.roll t now).width ∧ (w.roll t now).width ≤ t.nackWindowMaxMs := by
  unfold roll nextWidth
  split_ifs with hel hfull hnone
  · exact ⟨le_min (by omega) hmax, min_le_right ..⟩
  · exact ⟨le_refl _, hmax⟩
  · exact hmem
  · exact hmem

/-- The window a NACK is answered in is not over. -/
theorem roll_covers {t : SendTunables} {w : NackWindow} (now : UInt64) (hbase : 0 < t.nackWindowMs)
    (hmax : t.nackWindowMs ≤ t.nackWindowMaxMs)
    (hmem : t.nackWindowMs ≤ w.current t ∧ w.current t ≤ t.nackWindowMaxMs) :
    (now - (w.roll t now).start).toNat < (w.roll t now).width := by
  have hpos := (width_roll now hmax hmem).1
  revert hpos
  unfold roll elapsed
  by_cases hel : w.current t ≤ (now - w.start).toNat
  · simp only [hel, decide_true, if_true, UInt64.sub_self]
    intro hpos
    exact lt_of_lt_of_le hbase hpos
  · simp only [hel, decide_false, Bool.false_eq_true, if_false]
    exact fun _ => Nat.not_le.1 hel

/-- **Only a full window widens the next.** -/
theorem width_roll_lt {t : SendTunables} {w : NackWindow} {now : UInt64}
    (hmem : t.nackWindowMs ≤ w.current t) (h : w.current t < (w.roll t now).width) :
    w.elapsed t now = true ∧ nackBudget ≤ w.used ∧
      (w.roll t now).width = min (w.current t * 2) t.nackWindowMaxMs := by
  revert h
  unfold roll nextWidth
  split_ifs with hel hfull hnone
  · exact fun _ => ⟨hel, hfull, rfl⟩
  · exact fun h => absurd h (Nat.not_lt.2 hmem)
  · exact fun h => absurd h (lt_irrefl _)
  · exact fun h => absurd h (lt_irrefl _)

end NackWindow

namespace Ledger

/-- **A step keeps the account.** -/
theorem Sound.step {t : SendTunables} (hbase : 0 < t.nackWindowMs)
    (hmax : t.nackWindowMs ≤ t.nackWindowMaxMs) {l : Ledger} (h : l.Sound t) (ev : ViewerEvent) :
    (l.step t ev).Sound t := by
  have hl := l.logged t ev
  generalize l.step t ev = l' at hl ⊢
  cases hl with
  | idle _ hwindow hopened hlog =>
    have hin : l'.inWindow = l.inWindow := by
      unfold inWindow
      rw [hlog]
    rcases h with ⟨hok, hused, hseen, hbudget, honce, hpast, hunset, hwidth⟩
    constructor <;> simpa only [hwindow, hopened, hlog, hin]
  | nack f pkt ps _ _ _ hlegal hwindow hopened hlog =>
    obtain ⟨hwindow, hend⟩ := h.window_eq hlegal hwindow
    obtain ⟨hlen, hdel, hle⟩ := h.rolled f.now hopened
    have hin := inWindow_append hlog
    have hused : (l'.inWindow l'.opened).length = l'.e.window.used := by
      rw [hin, if_pos rfl, List.length_append, hlen, hwindow]
    have hseen : delivered (l'.inWindow l'.opened) = l'.e.window.seen := by
      rw [hin, if_pos rfl, delivered_append, hdel, hwindow]
    have hwidth : t.nackWindowMs ≤ l'.e.window.width ∧
        l'.e.window.width ≤ t.nackWindowMaxMs := by
      rw [hwindow]
      exact NackWindow.width_roll f.now hmax (h.mem_current hmax)
    refine ⟨hend, hused, hseen, fun k => ?_, fun k => ?_, fun p hp => ?_, fun hz => ?_,
      .inr hwidth⟩
    · by_cases hk : k = l'.opened
      · rw [hk, hused]
        exact hend.budget
      · rw [hin, if_neg hk]
        exact h.budget k
    · by_cases hk : k = l'.opened
      · rw [hk, hseen]
        exact hend.nodup
      · rw [hin, if_neg hk]
        exact h.once k
    · rw [hlog] at hp
      rcases List.mem_append.1 hp with hp | hp
      · exact (h.past p hp).trans hle
      · obtain ⟨q, -, rfl⟩ := List.mem_map.1 hp
        exact le_refl _
    · omega

theorem sound_start {t : SendTunables} (setup : Setup) : (start setup).Sound t :=
  ⟨⟨List.nodup_nil, le_refl _, Nat.zero_le _⟩, rfl, rfl, fun _ => Nat.zero_le _,
    fun _ => List.nodup_nil, fun _ hp => (nomatch hp), fun _ => rfl, .inl rfl⟩

/-- What holds at any time: no window of the run has seen more attempts than its budget or answered
    a packet twice, and the counters and the width are in their bounds. -/
structure Safe (t : SendTunables) (l : Ledger) : Prop where
  budget : ∀ k, (l.inWindow k).length ≤ nackBudget
  once : ∀ k, (delivered (l.inWindow k)).Nodup
  seen_le : l.e.nackSeen.length ≤ l.e.nackRetransmitted
  used_le : l.e.nackRetransmitted ≤ nackBudget
  width : l.e.nackWindowMs = 0 ∨
    t.nackWindowMs ≤ l.e.nackWindowMs ∧ l.e.nackWindowMs ≤ t.nackWindowMaxMs

/-- What holds of each step: a width that is set stays set, a NACK is answered before the end of the
    window, and the width grows only where a window opens after one that used all its budget. -/
structure Steady (t : SendTunables) (l : Ledger) (ev : ViewerEvent) : Prop where
  kept : l.e.nackWindowMs ≠ 0 → (l.step t ev).e.nackWindowMs ≠ 0
  within : ∀ f pkt, ev = .feedback f pkt → l.e.handles pkt = true →
    (f.now - (l.step t ev).e.nackWindowStart).toNat < (l.step t ev).e.nackWindowMs
  widened : l.e.nackWidth t < (l.step t ev).e.nackWidth t →
    (l.step t ev).opened = l.opened + 1 ∧ (l.inWindow l.opened).length = nackBudget ∧
      (l.step t ev).e.nackWindowMs = min (l.e.nackWidth t * 2) t.nackWindowMaxMs

theorem Sound.safe {t : SendTunables} {l : Ledger} (h : l.Sound t) : l.Safe t :=
  ⟨h.budget, h.once, h.ok.le, h.ok.budget, h.width⟩

theorem Sound.steady {t : SendTunables} (hbase : 0 < t.nackWindowMs)
    (hmax : t.nackWindowMs ≤ t.nackWindowMaxMs) {l : Ledger} (h : l.Sound t) (ev : ViewerEvent) :
    l.Steady t ev := by
  have hmem := h.mem_current hmax
  have hl := l.logged t ev
  generalize hl' : l.step t ev = l' at hl
  cases hl with
  | idle hno hwindow _ _ =>
    have hwidth : l'.e.nackWindowMs = l.e.nackWindowMs := congrArg NackWindow.width hwindow
    have hsame : l'.e.nackWidth t = l.e.nackWidth t := congrArg (NackWindow.current t) hwindow
    constructor
    · rw [hl', hwidth]
      exact id
    · rintro f pkt rfl hh
      exact nomatch (hno f pkt rfl).symm.trans hh
    · rw [hl', hsame]
      exact fun hlt => absurd hlt (lt_irrefl _)
  | nack f pkt ps hev _ _ hlegal hwindow hopened _ =>
    obtain ⟨hwindow, -⟩ := h.window_eq hlegal hwindow
    have hstart : l'.e.nackWindowStart = (l.e.window.roll t f.now).start :=
      congrArg NackWindow.start hwindow
    have hwidth : l'.e.nackWindowMs = (l.e.window.roll t f.now).width :=
      congrArg NackWindow.width hwindow
    have hpos := (NackWindow.width_roll f.now hmax hmem).1
    have hset : l'.e.nackWidth t = (l.e.window.roll t f.now).width := by
      rw [Egress.nackWidth, hwidth, if_neg (by omega)]
    constructor
    · rw [hl', hwidth]
      omega
    · rintro f' pkt' rfl -
      obtain ⟨rfl, rfl⟩ := ViewerEvent.feedback.inj hev
      rw [hl', hstart, hwidth]
      exact NackWindow.roll_covers f'.now hbase hmax hmem
    · rw [hl', hset]
      intro hlt
      obtain ⟨hel, hfull, heq⟩ := NackWindow.width_roll_lt hmem.1 hlt
      rw [if_pos hel] at hopened
      exact ⟨hopened, le_antisymm (h.budget _) (h.used ▸ hfull), hwidth.trans heq⟩

/-- **A response window is safe**: in every run each window sees at most `nackBudget` attempts and
    answers no packet twice, its counters stay ordered, and its width stays between the bounds and is
    doubled only after a window that used all its budget. -/
theorem nack_window_safe (t : SendTunables) (hbase : 0 < t.nackWindowMs)
    (hmax : t.nackWindowMs ≤ t.nackWindowMaxMs) (setup : Setup) (evs : List ViewerEvent) :
    Lts.Visits (step t) (Safe t) (start setup) evs ∧
      Lts.Along (step t) (Steady t) (start setup) evs := by
  have hstep : ∀ l ev, Sound t l → True → Sound t (step t l ev) := fun l ev h _ =>
    h.step hbase hmax ev
  have hany := @Lts.along_true _ _ (step t) (start setup) evs
  exact ⟨(Lts.visits_of_step hstep (sound_start setup) hany).mono fun _ => Sound.safe,
    Lts.along_of_step hstep (fun _ ev h _ => h.steady hbase hmax ev) (sound_start setup) hany⟩

/-! ## After a storm -/

/-- A NACK names at least one packet and comes no earlier than the one before. -/
def Timely (l : Ledger) : ViewerEvent → Prop
  | .feedback f pkt => l.e.nackFor pkt = true → l.heard ≤ f.now ∧ pkt.nack ≠ []
  | _ => True

/-- The packet is a NACK that is answered, and at least a full width has passed since the end of the
    window without a NACK. -/
def AfterQuiet (t : SendTunables) (l : Ledger) (f : FeedbackEnv) (pkt : Rtcp.Pkt) : Prop :=
  l.e.handles pkt = true ∧ l.heard.toNat + l.e.nackWidth t ≤ f.now.toNat ∧
    l.e.nackWindowStart.toNat + 2 * l.e.nackWidth t ≤ f.now.toNat

/-- The window that opens after a quiet spell has the base width. -/
def BaseAgain (t : SendTunables) (l : Ledger) (ev : ViewerEvent) : Prop :=
  ∀ f pkt, ev = .feedback f pkt → l.AfterQuiet t f pkt →
    (l.step t ev).e.nackWindowMs = t.nackWindowMs

/-- No window has used all its budget. -/
def Modest (l : Ledger) : Prop := ∀ k, (l.inWindow k).length < nackBudget

/-- When a quiet spell ends, no window of the run has used all its budget; or windows do not
    widen. -/
def QuietModest (t : SendTunables) (l : Ledger) (ev : ViewerEvent) : Prop :=
  ∀ f pkt, ev = .feedback f pkt → l.AfterQuiet t f pkt →
    t.nackWindowMs = t.nackWindowMaxMs ∨ l.Modest

/-- The width remembers for good whether a window has used all its budget. -/
structure Recalls (t : SendTunables) (l : Ledger) : Prop where
  sound : l.Sound t
  unused : l.e.window.used = 0 → l.e.window.width = 0
  modest : t.nackWindowMs < t.nackWindowMaxMs →
    (l.e.window.current t = t.nackWindowMs ∧ l.e.window.used < nackBudget ↔ l.Modest)

end Ledger

/-- The next width is the base exactly if the width is, and the window has budget left. -/
theorem NackWindow.nextWidth_eq_iff {t : SendTunables} {w : NackWindow}
    (hbase : 0 < t.nackWindowMs) (hlt : t.nackWindowMs < t.nackWindowMaxMs)
    (hmem : t.nackWindowMs ≤ w.current t) (hunused : w.used = 0 → w.width = 0) :
    w.nextWidth t = t.nackWindowMs ↔ w.current t = t.nackWindowMs ∧ w.used < nackBudget := by
  unfold nextWidth
  split_ifs with hfull hnone
  · have hwide : t.nackWindowMs < min (w.current t * 2) t.nackWindowMaxMs :=
      lt_min (by omega) hlt
    exact ⟨fun h => absurd h hwide.ne', fun h => absurd h.2 (Nat.not_lt.2 hfull)⟩
  · refine ⟨fun _ => ⟨?_, Nat.not_le.1 hfull⟩, fun _ => rfl⟩
    rw [current, if_pos (hunused hnone)]
  · exact ⟨fun h => ⟨h, Nat.not_le.1 hfull⟩, fun h => h.1⟩

namespace Ledger

theorem modest_append {l l' : Ledger} {n : ℕ} {ps : List (UInt16 × Bool)}
    (h : l'.log = l.log ++ ps.map (Prod.mk n)) :
    l'.Modest ↔ l.Modest ∧ (l'.inWindow n).length < nackBudget := by
  have hin := inWindow_append h
  have hn : l'.inWindow n = l.inWindow n ++ ps := by rw [hin, if_pos rfl]
  constructor
  · intro hm
    refine ⟨fun k => lt_of_le_of_lt ?_ (hm k), hm n⟩
    rw [hin k]
    split_ifs
    · exact (List.length_append ..).symm ▸ Nat.le_add_right ..
    · exact le_refl _
  · rintro ⟨hm, hlast⟩ k
    by_cases hk : k = n
    · rw [hk]
      exact hlast
    · rw [hin k, if_neg hk]
      exact hm k

/-- While the window has budget left, its width is the base exactly if no window has used all its
    budget. -/
theorem Recalls.width_roll {t : SendTunables} (hbase : 0 < t.nackWindowMs)
    (hlt : t.nackWindowMs < t.nackWindowMaxMs) {l : Ledger} (h : l.Recalls t) {now : UInt64}
    (hroom : (l.e.window.roll t now).used < nackBudget) :
    (l.e.window.roll t now).width = t.nackWindowMs ↔ l.Modest := by
  have hmem := (h.sound.mem_current hlt.le).1
  have hrecall := h.modest hlt
  unfold NackWindow.roll at hroom ⊢
  cases hel : l.e.window.elapsed t now with
  | true => exact (NackWindow.nextWidth_eq_iff hbase hlt hmem h.unused).trans hrecall
  | false =>
    rw [hel] at hroom
    exact (and_iff_left hroom).symm.trans hrecall

/-- A NACK that names a packet makes at least one attempt in a new window. -/
theorem attempts_pos {t : SendTunables} {w : NackWindow} {now : UInt64} {pkt : Rtcp.Pkt}
    {ps : List (UInt16 × Bool)} (hnack : pkt.nack ≠ [])
    (hseqs : ps.map Prod.fst = (Rtcp.requested pkt.nack).take (nackBudget - (w.roll t now).used)) :
    0 < (w.roll t now).used + ps.length := by
  have hlen := congrArg List.length hseqs
  have hpos := (List.length_pos_of_ne_nil hnack).trans_le (Rtcp.length_le_requested pkt.nack)
  rw [List.length_map, List.length_take, nackBudget] at hlen
  omega

/-- **A timely step keeps the memory.** -/
theorem Recalls.step {t : SendTunables} (hbase : 0 < t.nackWindowMs)
    (hmax : t.nackWindowMs ≤ t.nackWindowMaxMs) {l : Ledger} (h : l.Recalls t) {ev : ViewerEvent}
    (htimely : l.Timely ev) : (l.step t ev).Recalls t := by
  have hsound := h.sound.step hbase hmax ev
  have hl := l.logged t ev
  generalize l.step t ev = l' at hl hsound ⊢
  cases hl with
  | idle _ hwindow hopened hlog =>
    have hin : l'.Modest ↔ l.Modest := by
      unfold Modest inWindow
      rw [hlog]
    refine ⟨hsound, ?_, ?_⟩
    · rw [hwindow]
      exact h.unused
    · rw [hwindow, hin]
      exact h.modest
  | nack f pkt ps hev hh hseqs hlegal hwindow hopened hlog =>
    subst hev
    have hfor : l.e.nackFor pkt = true := (Bool.and_eq_true _ _ ▸ hh).1
    obtain ⟨hwindow, -⟩ := h.sound.window_eq hlegal hwindow
    have hpos := attempts_pos (htimely hfor).2 hseqs
    have hwidth := (NackWindow.width_roll f.now hmax (h.sound.mem_current hmax)).1
    refine ⟨hsound, ?_, fun hlt => ?_⟩
    · rw [hwindow]
      exact fun hz => absurd hz hpos.ne'
    · have hcurrent : l'.e.window.current t = (l.e.window.roll t f.now).width := by
        rw [hwindow, NackWindow.current, if_neg (by dsimp only; omega)]
      have hlast : (l'.inWindow l'.opened).length = l'.e.window.used := hsound.used
      rw [modest_append hlog, hlast, hcurrent]
      refine and_congr_left fun hroom => h.width_roll hbase hlt ?_
      rw [hwindow] at hroom
      exact lt_of_le_of_lt (Nat.le_add_right ..) hroom

theorem recalls_start {t : SendTunables} (setup : Setup) : (start setup).Recalls t :=
  ⟨sound_start setup, fun _ => rfl,
    fun _ => ⟨fun _ _ => Nat.zero_lt_succ _, fun _ => ⟨rfl, Nat.zero_lt_succ _⟩⟩⟩

/-- After a quiet spell the window is over. -/
theorem AfterQuiet.elapsed {t : SendTunables} {l : Ledger} {f : FeedbackEnv}
    {pkt : Rtcp.Pkt} (hq : l.AfterQuiet t f pkt) : l.e.window.elapsed t f.now = true := by
  obtain ⟨-, -, hend⟩ := hq
  have hstart : l.e.nackWindowStart ≤ f.now := UInt64.le_iff_toNat_le.2 (by omega)
  refine decide_eq_true ?_
  change l.e.nackWidth t ≤ (f.now - l.e.nackWindowStart).toNat
  rw [UInt64.toNat_sub_of_le _ _ hstart]
  omega

/-- **One NACK after a quiet spell.** -/
theorem Recalls.baseAgain_iff {t : SendTunables} (hbase : 0 < t.nackWindowMs)
    (hmax : t.nackWindowMs ≤ t.nackWindowMaxMs) {l : Ledger} (h : l.Recalls t)
    (ev : ViewerEvent) : l.BaseAgain t ev ↔ l.QuietModest t ev := by
  refine forall_congr' fun f => forall_congr' fun pkt => forall_congr' ?_
  rintro rfl
  refine forall_congr' fun hq => ?_
  have hel := hq.elapsed
  rcases l.e.rtcpCb_window t f pkt with ⟨-, hlegal, hwindow, -⟩ | ⟨hno, -, -⟩
  · have hwindow : (l.step t (.feedback f pkt)).e.window = _ := hwindow
    have hwidth : (l.step t (.feedback f pkt)).e.nackWindowMs = (l.e.window.roll t f.now).width :=
      congrArg NackWindow.width (h.sound.window_eq hlegal hwindow).1
    have hroom : (l.e.window.roll t f.now).used < nackBudget := by
      rw [NackWindow.roll, if_pos hel]
      exact Nat.zero_lt_succ _
    obtain ⟨hlow, hhigh⟩ := NackWindow.width_roll f.now hmax (h.sound.mem_current hmax)
    rw [hwidth]
    rcases hmax.lt_or_eq with hlt | heq
    · rw [h.width_roll hbase hlt hroom, or_iff_right hlt.ne]
    · exact iff_of_true (by omega) (.inl heq)
  · exact nomatch hno.symm.trans hq.1

/-- **The width is back at its base after a quiet spell** exactly when it never left it: in a run of
    timely NACKs each window that opens after a full width without a NACK has the base width, if and
    only if at each such moment no window of the run has used all its budget, or the base is also
    the upper bound. -/
theorem backoff_recovers_iff (t : SendTunables) (hbase : 0 < t.nackWindowMs)
    (hmax : t.nackWindowMs ≤ t.nackWindowMaxMs) (setup : Setup) (evs : List ViewerEvent)
    (htimely : Lts.Along (step t) Timely (start setup) evs) :
    Lts.Along (step t) (BaseAgain t) (start setup) evs ↔
      Lts.Along (step t) (QuietModest t) (start setup) evs :=
  Lts.along_iff_of_step (P := Recalls t) (fun _ _ h => h.step hbase hmax)
    (fun _ ev h _ => h.baseAgain_iff hbase hmax ev) (recalls_start setup) htimely

/-! ### Worked runs -/

/-- A NACK that comes at `now` and finds nothing in the caches. -/
def nackAt (now : UInt64) (pkt : Rtcp.Pkt) : ViewerEvent :=
  .feedback { Egress.sampleEnv with now := now } pkt

/-- A NACK for more than the budget, one that finds the window over, and one after a quiet spell. -/
def stormRun (storm one : Rtcp.Pkt) : List ViewerEvent :=
  [nackAt 1000 storm, nackAt 1100 one, nackAt 10000 one]

instance (l : Ledger) : ∀ ev, Decidable (l.Timely ev)
  | .feedback f pkt =>
    inferInstanceAs (Decidable (l.e.nackFor pkt = true → l.heard ≤ f.now ∧ pkt.nack ≠ []))
  | .send _ | .pacerInit _ | .setup _ => instDecidableTrue

theorem nack_window_safe_storm :
    ∃ storm one, Rtcp.parse (Egress.nackBytes 8 0xff) = some (.ok (storm, 44)) ∧
      Rtcp.parse (Egress.nackBytes 1 0) = some (.ok (one, 16)) ∧
      Lts.Visits (step .sample) (Safe .sample) (start Egress.sample.setup) (stormRun storm one) ∧
      Lts.Along (step .sample) (Steady .sample) (start Egress.sample.setup)
        (stormRun storm one) :=
  ⟨_, _, rfl, rfl, nack_window_safe .sample (by decide) (by decide) _ _⟩

theorem backoff_recovers_iff_storm :
    ∃ storm one, Rtcp.parse (Egress.nackBytes 8 0xff) = some (.ok (storm, 44)) ∧
      Rtcp.parse (Egress.nackBytes 1 0) = some (.ok (one, 16)) ∧
      (Lts.Along (step .sample) (BaseAgain .sample) (start Egress.sample.setup)
          (stormRun storm one) ↔
        Lts.Along (step .sample) (QuietModest .sample) (start Egress.sample.setup)
          (stormRun storm one)) :=
  ⟨_, _, rfl, rfl, backoff_recovers_iff .sample (by decide) (by decide) _ _ (by decide +kernel)⟩

/-- **The width outlives the storm**: the last NACK comes nine seconds after the one before, and its
    window is twice as wide as the base. -/
theorem backoff_stays :
    ∃ storm one, Rtcp.parse (Egress.nackBytes 8 0xff) = some (.ok (storm, 44)) ∧
      Rtcp.parse (Egress.nackBytes 1 0) = some (.ok (one, 16)) ∧
      Lts.Along (step .sample) Timely (start Egress.sample.setup) (stormRun storm one) ∧
      ¬ Lts.Along (step .sample) (BaseAgain .sample) (start Egress.sample.setup)
        (stormRun storm one) := by
  refine ⟨_, _, rfl, rfl, by decide +kernel, fun h => ?_⟩
  have hwidth := h.2.2.1 _ _ rfl ⟨by decide +kernel, by decide +kernel, by decide +kernel⟩
  revert hwidth
  decide +kernel

end Ledger

end NginxRtc
