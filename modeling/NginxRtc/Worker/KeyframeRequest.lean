/-
  Asking a publisher for a keyframe (`ngx_rtc_stream_request_keyframe`).

  A viewer that has nothing to start from makes its worker send a picture loss indication to the
  publisher of the source, unless one went out for the source less than a second ago.

  `keyframes_throttled`: over any run of the worker, the indications for a source are a second apart,
  no request waits for longer than that while the publisher can be reached, and what goes out asks the
  publisher for its own stream.
-/
import NginxRtc.Lib.Throttle
import NginxRtc.Rtcp.Encode
import NginxRtc.Worker.Stream

namespace NginxRtc

/-- `NGX_RTC_PLI_MIN_INTERVAL_MS`. -/
def pliMinIntervalMs : UInt64 := 1000

/-- `NGX_RTC_PLI_SENDER_SSRC`. -/
def pliSenderSsrc : UInt32 := 1

/-- `pli_sent_ms` and `pli_requests` of a source. -/
structure Pli where
  sentMs : UInt64
  requests : UInt32

/-- The session that publishes the source at `a`: the newest, if there are several. -/
def Worker.publisherOf (w : Worker) (a : ℕ) : Option Session :=
  (w.sessions.find? fun s => decide (s.source = some a) && s.publishing).bind w.sessions.get

/-- `ngx_rtc_stream_request_keyframe`, with what libsrtp makes of a packet: the connection and the
    packet sent over it. -/
def requestKeyframe (w : Worker) (pli : Pli) (a : ℕ) (now : UInt64) (protect : Bytes → Option Bytes) :
    Pli × Option (ℕ × Bytes) :=
  match w.sources.get a with
  | none => (pli, none)
  | some src =>
    if !src.publishing then (pli, none)
    else if pli.sentMs ≠ 0 ∧ now - pli.sentMs < pliMinIntervalMs then (pli, none)
    else
      match w.publisherOf a with
      | none => (pli, none)
      | some sess =>
        match Rtcp.encodePli pliSenderSsrc src.videoSsrc 16 with
        | .error _ => (pli, none)
        | .ok pkt =>
          match protect pkt, sess.conn with
          | some out, some c => (⟨now, pli.requests + 1⟩, some (c, out))
          | _, _ => (pli, none)

/-! ## A worker and what it asked for -/

/-- A request for a keyframe of the source at `a`. -/
structure KeyAsk where
  a : ℕ
  time : ℕ
  protect : Bytes → Option Bytes

inductive KeyEvent where
  | handler (e : ProcEvent)
  | ask (k : KeyAsk)

/-- An indication: the request that made it go out, in which state of the worker, over which connection,
    and its bytes. -/
structure PliSent where
  w : Worker
  ask : KeyAsk
  conn : ℕ
  out : Bytes

/-- A worker, the requests for each source and whether its publisher could be reached, and the
    indications that went out for it. -/
structure KeyWorker where
  proc : Proc
  pli : ℕ → Pli
  asks : ℕ → List (ℕ × Bool)
  sent : ℕ → List PliSent

/-- The way to the publisher: the connection an indication would go over, and its bytes. -/
def Worker.keyframePath (w : Worker) (k : KeyAsk) : Option (ℕ × Bytes) := do
  let src ← w.sources.get k.a
  if src.publishing then
    let sess ← w.publisherOf k.a
    let pkt ← (Rtcp.encodePli pliSenderSsrc src.videoSsrc 16).toOption
    let out ← k.protect pkt
    let c ← sess.conn
    pure (c, out)
  else none

namespace KeyWorker

def init (slot : ℕ) (sh : Option ShmCtx) : KeyWorker :=
  ⟨.init slot sh, fun _ => ⟨0, 0⟩, fun _ => [], fun _ => []⟩

/-- The outcome of a request. -/
def outcome (k : KeyWorker) (x : KeyAsk) : Pli × Option (ℕ × Bytes) :=
  requestKeyframe k.proc.w (k.pli x.a) x.a (UInt64.ofNat x.time) x.protect

def step (k : KeyWorker) : KeyEvent → KeyWorker
  | .handler e => { k with proc := k.proc.step e }
  | .ask x =>
    { k with
      pli := Function.update k.pli x.a (k.outcome x).1
      asks := Function.update k.asks x.a (k.asks x.a ++ [(x.time, (k.proc.w.keyframePath x).isSome)])
      sent := Function.update k.sent x.a (k.sent x.a ++
        (k.outcome x).2.toList.map fun r => ⟨k.proc.w, x, r.1, r.2⟩) }

/-- The times of the indications for the source at `a`. -/
def times (k : KeyWorker) (a : ℕ) : List ℕ := (k.sent a).map fun x => x.ask.time

end KeyWorker

/-! ## One request -/

theorem requestKeyframe_eq (w : Worker) (pli : Pli) (x : KeyAsk) (now : UInt64) :
    requestKeyframe w pli x.a now x.protect =
      if pli.sentMs ≠ 0 ∧ now - pli.sentMs < pliMinIntervalMs then (pli, none)
      else
        match w.keyframePath x with
        | none => (pli, none)
        | some r => (⟨now, pli.requests + 1⟩, some r) := by
  unfold requestKeyframe Worker.keyframePath
  cases w.sources.get x.a with
  | none => exact (ite_self _).symm
  | some src =>
    simp only [Option.bind_eq_bind, Option.bind_some]
    cases src.publishing with
    | false => exact (ite_self _).symm
    | true =>
      simp only [Bool.not_true, Bool.false_eq_true, if_false, if_true]
      refine if_congr Iff.rfl rfl ?_
      cases w.publisherOf x.a with
      | none => rfl
      | some sess =>
        simp only [Option.bind_some]
        cases Rtcp.encodePli pliSenderSsrc src.videoSsrc 16 with
        | error e => rfl
        | ok pkt =>
          simp only [Except.toOption, Option.bind_some]
          cases x.protect pkt with
          | none => rfl
          | some out => cases sess.conn <;> rfl

/-- The indication asks the publisher of the source at `a` for its video. -/
def PliSent.Asks (x : PliSent) (a : ℕ) : Prop :=
  ∃ src b sess pkt, x.w.sources.get a = some src ∧ src.publishing = true ∧
    x.w.sessions.get b = some sess ∧ sess.source = some a ∧ sess.publishing = true ∧
    sess.conn = some x.conn ∧ x.ask.protect pkt = some x.out ∧
    Rtcp.parse pkt = some (.ok ((Rtcp.Item.pli pliSenderSsrc src.videoSsrc).pkt, pkt.length))

theorem publisherOf_eq_some {w : Worker} {a : ℕ} {sess : Session} (h : w.publisherOf a = some sess) :
    ∃ b, w.sessions.get b = some sess ∧ sess.source = some a ∧ sess.publishing = true := by
  obtain ⟨b, hb, hsess⟩ := Option.bind_eq_some_iff.1 h
  obtain ⟨s, hs, hq⟩ := Pool.find?_spec hb
  obtain rfl := Option.some.inj (hs.symm.trans hsess)
  rw [Bool.and_eq_true, decide_eq_true_eq] at hq
  exact ⟨b, hs, hq⟩

theorem asks_of_keyframePath {w : Worker} {k : KeyAsk} {c : ℕ} {out : Bytes}
    (h : w.keyframePath k = some (c, out)) : (PliSent.mk w k c out).Asks k.a := by
  simp only [Worker.keyframePath, Option.bind_eq_bind, Option.bind_eq_some_iff] at h
  obtain ⟨src, hsrc, h⟩ := h
  split_ifs at h with hpub
  simp only [Option.bind_eq_some_iff] at h
  obtain ⟨sess, hsess, pkt, hpkt, out', hout, c', hc, he⟩ := h
  cases he
  obtain ⟨b, hb, hs, hp⟩ := publisherOf_eq_some hsess
  have henc : (Rtcp.Item.pli pliSenderSsrc src.videoSsrc).Encodable := trivial
  have hcap : (Rtcp.Item.pli pliSenderSsrc src.videoSsrc).size ≤ 16 := show 12 ≤ 16 by decide
  obtain ⟨enc, hpli, hlen, -, hparse⟩ := Rtcp.parse_encode 0 henc hcap
  have henc' : Rtcp.encodePli pliSenderSsrc src.videoSsrc 16 = .ok enc := hpli
  rw [henc'] at hpkt
  obtain rfl := Option.some.inj hpkt
  have hread := hparse []
  rw [List.append_nil, ← hlen] at hread
  exact ⟨src, b, sess, enc, hsrc, hpub, hb, hs, hp, hc, hout, hread⟩

/-! ## Runs -/

def KeyEvent.time : KeyEvent → Option ℕ
  | .handler _ => none
  | .ask k => some k.time

/-- The clock of the requests neither goes back nor leaves its range. -/
structure Clocked (m : ℕ) (es : List KeyEvent) : Prop where
  sorted : (es.filterMap KeyEvent.time).Pairwise (· ≤ ·)
  range : ∀ t ∈ es.filterMap KeyEvent.time, 0 < t ∧ m ≤ t ∧ t < 2 ^ 64

theorem Clocked.tail {m : ℕ} {e : KeyEvent} {es : List KeyEvent} (h : Clocked m (e :: es)) :
    Clocked (e.time.getD m) es := by
  cases he : e.time with
  | none =>
    have hes : (e :: es).filterMap KeyEvent.time = es.filterMap KeyEvent.time :=
      List.filterMap_cons_none he
    exact ⟨hes ▸ h.sorted, hes ▸ h.range⟩
  | some t =>
    have hes : (e :: es).filterMap KeyEvent.time = t :: es.filterMap KeyEvent.time :=
      List.filterMap_cons_some he
    obtain ⟨hle, hsorted⟩ := List.pairwise_cons.1 (hes ▸ h.sorted)
    refine ⟨hsorted, fun u hu => ?_⟩
    obtain ⟨hpos, -, hlt⟩ := h.range u (hes ▸ List.mem_cons_of_mem t hu)
    exact ⟨hpos, hle u hu, hlt⟩

theorem Clocked.head {m : ℕ} {x : KeyAsk} {es : List KeyEvent} (h : Clocked m (.ask x :: es)) :
    0 < x.time ∧ m ≤ x.time ∧ x.time < 2 ^ 64 :=
  h.range x.time List.mem_cons_self

/-- The test of the source's last indication, at a clock of 64 bits. -/
theorem pliHeld_iff {log : List ℕ} {t : ℕ} (hlog : ∀ s ∈ log, 0 < s ∧ s ≤ t) (ht : t < 2 ^ 64) :
    (UInt64.ofNat (log.getLast?.getD 0) ≠ 0 ∧
        UInt64.ofNat t - UInt64.ofNat (log.getLast?.getD 0) < pliMinIntervalMs) ↔
      ¬ ∀ l ∈ log.getLast?, l + 1000 ≤ t := by
  cases hl : log.getLast? with
  | none => simp
  | some l =>
    obtain ⟨hpos, hle⟩ := hlog l (List.mem_of_getLast? hl)
    have hl64 : (UInt64.ofNat l).toNat = l := UInt64.toNat_ofNat_of_lt' (hle.trans_lt ht)
    have ht64 : (UInt64.ofNat t).toNat = t := UInt64.toNat_ofNat_of_lt' ht
    have hne : UInt64.ofNat l ≠ 0 := fun h0 => by
      rw [h0] at hl64
      exact absurd hl64.symm (by simpa using hpos.ne')
    have hsub : (UInt64.ofNat t - UInt64.ofNat l).toNat = t - l := by
      rw [UInt64.toNat_sub_of_le _ _ (UInt64.le_iff_toNat_le.2 (by omega)), ht64, hl64]
    rw [Option.getD_some, UInt64.lt_iff_toNat_lt, hsub, show pliMinIntervalMs.toNat = 1000 from rfl]
    constructor
    · rintro ⟨-, hlt⟩ hall
      have := hall l rfl
      omega
    · intro hall
      refine ⟨hne, not_le.1 fun hge => hall fun u hu => ?_⟩
      cases hu
      omega

namespace KeyWorker

/-- The times of the indications for the source at `a` go up to `m`; they are throttled, and the source
    remembers the last one. -/
structure Kept (k : KeyWorker) (m a : ℕ) : Prop where
  throttle : Throttle.Kept 1000 (k.asks a) (k.times a)
  upTo : ∀ s ∈ k.times a, 0 < s ∧ s ≤ m
  last : (k.pli a).sentMs = UInt64.ofNat ((k.times a).getLast?.getD 0)
  asks : ∀ x ∈ k.sent a, x.Asks a

theorem kept_init (slot : ℕ) (sh : Option ShmCtx) (a : ℕ) : (init slot sh).Kept 0 a :=
  ⟨.nil, fun _ h => absurd h List.not_mem_nil, rfl, fun _ h => absurd h List.not_mem_nil⟩

theorem Kept.mono {k : KeyWorker} {m n a : ℕ} (h : k.Kept m a) (hmn : m ≤ n) : k.Kept n a :=
  ⟨h.throttle, fun s hs => ⟨(h.upTo s hs).1, (h.upTo s hs).2.trans hmn⟩, h.last, h.asks⟩

/-- A request for another source. -/
theorem Kept.frame {k k' : KeyWorker} {m a : ℕ} (h : k.Kept m a) (hpli : k'.pli a = k.pli a)
    (hasks : k'.asks a = k.asks a) (hsent : k'.sent a = k.sent a) : k'.Kept m a := by
  have htimes : k'.times a = k.times a := congrArg (List.map _) hsent
  exact ⟨by rw [hasks, htimes]; exact h.throttle, by rw [htimes]; exact h.upTo,
    by rw [hpli, htimes]; exact h.last, by rw [hsent]; exact h.asks⟩

/-- What a request does to its own source. -/
theorem step_ask (k : KeyWorker) (x : KeyAsk) :
    (k.step (.ask x)).pli x.a = (k.outcome x).1 ∧
    (k.step (.ask x)).asks x.a =
      k.asks x.a ++ [(x.time, (k.proc.w.keyframePath x).isSome)] ∧
    (k.step (.ask x)).sent x.a =
      k.sent x.a ++ (k.outcome x).2.toList.map fun r => ⟨k.proc.w, x, r.1, r.2⟩ := by
  simp only [step, Function.update_self, and_self]

/-- A request that nothing comes of. -/
theorem Kept.quiet {k : KeyWorker} {m : ℕ} {x : KeyAsk} (h : k.Kept m x.a)
    (hout : k.outcome x = (k.pli x.a, none))
    (hthrottle : Throttle.Kept 1000 (k.asks x.a ++ [(x.time, (k.proc.w.keyframePath x).isSome)])
      (k.times x.a)) : (k.step (.ask x)).Kept m x.a := by
  obtain ⟨hpli, hasks, hsent⟩ := k.step_ask x
  rw [hout] at hpli hsent
  have hsent' : (k.step (.ask x)).sent x.a = k.sent x.a := hsent.trans (List.append_nil _)
  have htimes : (k.step (.ask x)).times x.a = k.times x.a := congrArg (List.map _) hsent'
  exact ⟨by rw [hasks, htimes]; exact hthrottle, by rw [htimes]; exact h.upTo,
    by rw [hpli, htimes]; exact h.last, by rw [hsent']; exact h.asks⟩

/-- A request that makes an indication go out. -/
theorem Kept.send {k : KeyWorker} {m : ℕ} {x : KeyAsk} {r : ℕ × Bytes} (h : k.Kept m x.a)
    (hpos : 0 < x.time) (hm : m ≤ x.time)
    (hout : k.outcome x = (⟨UInt64.ofNat x.time, (k.pli x.a).requests + 1⟩, some r))
    (hpath : k.proc.w.keyframePath x = some r)
    (hthrottle : Throttle.Kept 1000 (k.asks x.a ++ [(x.time, (k.proc.w.keyframePath x).isSome)])
      (k.times x.a ++ [x.time])) : (k.step (.ask x)).Kept x.time x.a := by
  obtain ⟨hpli, hasks, hsent⟩ := k.step_ask x
  rw [hout] at hpli hsent
  have htimes : (k.step (.ask x)).times x.a = k.times x.a ++ [x.time] := by
    rw [times, hsent, List.map_append]
    rfl
  refine ⟨by rw [hasks, htimes]; exact hthrottle, fun s hs => ?_, ?_, fun y hy => ?_⟩
  · rcases List.mem_append.1 (htimes ▸ hs) with hs | hs
    · exact (h.mono hm).upTo s hs
    · rw [List.mem_singleton.1 hs]
      exact ⟨hpos, le_refl _⟩
  · rw [hpli, htimes, List.getLast?_concat, Option.getD_some]
  · rcases List.mem_append.1 (hsent ▸ hy) with hy | hy
    · exact h.asks y hy
    · rw [List.mem_singleton.1 hy]
      exact asks_of_keyframePath hpath

/-- **One request** for the source. -/
theorem Kept.ask {k : KeyWorker} {m : ℕ} {x : KeyAsk} (h : k.Kept m x.a) (hpos : 0 < x.time)
    (hm : m ≤ x.time) (hlt : x.time < 2 ^ 64) : (k.step (.ask x)).Kept x.time x.a := by
  have hupTo : ∀ s ∈ k.times x.a, 0 < s ∧ s ≤ x.time := (h.mono hm).upTo
  have hthrottle := h.throttle.ask (by decide) (fun s hs => (hupTo s hs).2)
    (k.proc.w.keyframePath x).isSome
  have hheld := pliHeld_iff hupTo hlt
  rw [← h.last] at hheld
  have hout : k.outcome x = _ := requestKeyframe_eq k.proc.w (k.pli x.a) x (UInt64.ofNat x.time)
  by_cases hpass : ∀ l ∈ (k.times x.a).getLast?, l + 1000 ≤ x.time
  · rw [if_neg fun hh => hheld.1 hh hpass] at hout
    cases hpath : k.proc.w.keyframePath x with
    | none =>
      rw [hpath] at hout
      refine (h.mono hm).quiet hout ?_
      rwa [Throttle.ask, if_neg fun hh => absurd hh.1 (by rw [hpath]; exact Bool.false_ne_true)]
        at hthrottle
    | some r =>
      rw [hpath] at hout
      refine h.send hpos hm hout hpath ?_
      rwa [Throttle.ask, if_pos ⟨by rw [hpath]; rfl, hpass⟩] at hthrottle
  · rw [if_pos (hheld.2 hpass)] at hout
    refine (h.mono hm).quiet hout ?_
    rwa [Throttle.ask, if_neg fun hh => hpass hh.2] at hthrottle

/-- **One event**, whatever source it is about. -/
theorem Kept.step {k : KeyWorker} {m a : ℕ} {e : KeyEvent} {es : List KeyEvent} (h : k.Kept m a)
    (he : Clocked m (e :: es)) : (k.step e).Kept (e.time.getD m) a := by
  cases e with
  | handler e => exact h.frame rfl rfl rfl
  | ask x =>
    obtain ⟨hpos, hm, hlt⟩ := he.head
    by_cases hx : a = x.a
    · subst hx
      exact h.ask hpos hm hlt
    · exact (h.mono hm).frame (Function.update_of_ne hx _ _) (Function.update_of_ne hx _ _)
        (Function.update_of_ne hx _ _)

/-- **A run**. -/
theorem Kept.run {a : ℕ} (es : List KeyEvent) :
    ∀ {k : KeyWorker} {m : ℕ}, k.Kept m a → Clocked m es →
      ∃ n, (es.foldl KeyWorker.step k).Kept n a := by
  induction es with
  | nil => exact fun h _ => ⟨_, h⟩
  | cons e es ih => exact fun h hes => ih (h.step hes) hes.tail

end KeyWorker

end NginxRtc
