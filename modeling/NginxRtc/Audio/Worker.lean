/-
  The audio worker (`ngx_rtc_audio_worker.c`): a transcoder on a thread of its own.

  The nginx worker pushes AAC frames into one byte ring and drains Opus frames from another; the
  thread takes the frames of the first one after the other, transcodes them, and puts what comes out
  into the second.  A mutex is held over every use of the rings, so a step is one section between a lock
  and its unlock.  In `pthread_cond_wait` the thread is `asleep` until it is signalled, or wakes for
  no reason.  A pop that fails leaves the thread with no frame length; that, and a copy that leaves a
  ring, has no result.

  `audio_worker_exact`: in every interleaving what comes out are the Opus frames of the accepted AAC
  frames in order, but for the ones that are counted, and no wakeup is lost.
  `audio_worker_settles`: left alone, the thread transcodes all it was given, or ends after a stop.
  `audio_sound_exact`: with the transcoder on the thread, the packets are those of the samples.
-/
import NginxRtc.Audio.Transcode
import NginxRtc.Media.ByteRing

namespace NginxRtc

/-- `NGX_RTC_AUDIO_AAC_MAX`, the buffer of the thread, and `NGX_RTC_AUDIO_OPUS_MAX_PACKET`, the buffer
    of a drain. -/
def aacMax : UInt32 := 8192
def opusMaxPacket : UInt32 := 4000

/-- Where the thread is: at the head of its loop, in `pthread_cond_wait`, in the transcoder with the
    Opus frames it has yet to hand over, or at its end. -/
inductive Thread where
  | running
  | asleep
  | transcoding (todo : List Bytes)
  | exited
deriving DecidableEq

/-- The Opus frames the thread has yet to hand over. -/
def Thread.todo : Thread → List Bytes
  | .transcoding todo => todo
  | _ => []

/-- `ngx_rtc_audio_worker_t`. -/
structure AudioWorker (α : Type) where
  thread : Thread
  stop : Bool
  a : α
  input : Vring
  output : Vring
  inDropped : UInt32
  outDropped : UInt32

namespace AudioWorker

variable {α : Type}

/-! ## The sections -/

/-- `ngx_rtc_audio_worker_create`: the answers of `ngx_rtc_audio_create`, of `calloc` for the rings, and
    of the calls of `pthread`. -/
def create (a : Option α) (callocIn callocOut pthreads : Bool) : Option (AudioWorker α) :=
  a.bind fun a =>
  (Vring.init Vring.audioInArenaBytes callocIn).bind fun input =>
  (Vring.init Vring.audioOutArenaBytes callocOut).bind fun output =>
  if pthreads then some ⟨.running, false, a, input, output, 0, 0⟩ else none

/-- `pthread_cond_signal` and `pthread_cond_broadcast`; only the thread waits. -/
def signal (w : AudioWorker α) : AudioWorker α :=
  { w with thread := if w.thread = .asleep then .running else w.thread }

/-- The arguments `ngx_rtc_audio_worker_push` takes. -/
def pushable (aac : Bytes) : Bool := 0 < aac.length && aac.length ≤ aacMax.toNat

/-- `ngx_rtc_audio_worker_push`: whether it succeeds. -/
def push (host : HostWord) (w : AudioWorker α) (aac : Bytes) : Option (Bool × AudioWorker α) :=
  if pushable aac then
    (w.input.push host aac).map fun p =>
      if p.1 then (true, ({ w with input := p.2 }).signal)
      else (false, { w with input := p.2, inDropped := w.inDropped + 1 })
  else some (false, w)

/-- One turn of `ngx_rtc_audio_worker_drain`: the Opus frame, if there is one. -/
def drain (host : HostWord) (w : AudioWorker α) : Option (Option Bytes × AudioWorker α) :=
  (w.output.pop host opusMaxPacket).map fun p => (p.1, { w with output := p.2 })

/-- The first section of `ngx_rtc_audio_worker_destroy`, before it joins the thread. -/
def requestStop (w : AudioWorker α) : AudioWorker α := ({ w with stop := true }).signal

/-- What `ngx_rtc_audio_worker_emit` takes. -/
def emittable (opus : Bytes) : Bool := 0 < opus.length && opus.length ≤ opusMaxPacket.toNat

/-- `ngx_rtc_audio_worker_emit`: whether the output ring has the frame. -/
def emit (host : HostWord) (w : AudioWorker α) (opus : Bytes) : Option (Bool × AudioWorker α) :=
  if emittable opus then
    (w.output.push host opus).map fun p =>
      (p.1, { w with
        output := p.2
        outDropped := if p.1 then w.outDropped else w.outDropped + 1 })
  else some (false, w)

/-- What a section of the thread did. -/
inductive Did where
  | moved
  | took (aac : Bytes)
  | handed (opus : Bytes) (queued : Bool)

/-- The next section of `ngx_rtc_audio_worker_main`; `transcode` gives the Opus frames that
    `ngx_rtc_audio_transcode` hands over. -/
def main (host : HostWord) (transcode : α → Bytes → α × List Bytes) (w : AudioWorker α) :
    Option (Did × AudioWorker α) :=
  match w.thread with
  | .asleep | .exited => some (.moved, w)
  | .transcoding (opus :: todo) =>
    (w.emit host opus).map fun p => (.handed opus p.1, { p.2 with thread := .transcoding todo })
  | .transcoding [] => some (.moved, { w with thread := .running })
  | .running =>
    if w.stop then some (.moved, { w with thread := .exited })
    else if w.input.isEmpty then some (.moved, { w with thread := .asleep })
    else
      (w.input.pop host aacMax).bind fun p =>
        p.1.map fun aac =>
          (.took aac, { w with
            input := p.2
            a := (transcode w.a aac).1
            thread := .transcoding (transcode w.a aac).2 })

end AudioWorker

/-! ## Runs -/

/-- A worker and what has gone through it: the AAC frames its input ring took, the number of those it
    refused, the ones the thread took out, the Opus frames the thread handed over, those the output
    ring took, the number of those it refused, and the ones drained. -/
structure AudioRun (α : Type) where
  w : AudioWorker α
  accepted : List Bytes
  refused : ℕ
  taken : List Bytes
  handed : List Bytes
  queued : List Bytes
  lost : ℕ
  drained : List Bytes

/-- What happens next: a push, a turn of a drain, a section of the thread, a wakeup of no cause, the
    request to stop. -/
inductive AudioEvent where
  | push (aac : Bytes)
  | drain
  | thread
  | wake
  | stop

namespace AudioRun

variable {α : Type}

def start (w : AudioWorker α) : AudioRun α := ⟨w, [], 0, [], [], [], 0, []⟩

/-- What a push of `aac` adds. -/
def pushed (r : AudioRun α) (aac : Bytes) (ok : Bool) (w : AudioWorker α) : AudioRun α :=
  if ok then { r with w, accepted := r.accepted ++ [aac] }
  else if AudioWorker.pushable aac then { r with w, refused := r.refused + 1 }
  else { r with w }

/-- What a section of the thread adds. -/
def did (r : AudioRun α) (w : AudioWorker α) : AudioWorker.Did → AudioRun α
  | .moved => { r with w }
  | .took aac => { r with w, taken := r.taken ++ [aac] }
  | .handed opus queued =>
    if queued then { r with w, handed := r.handed ++ [opus], queued := r.queued ++ [opus] }
    else if AudioWorker.emittable opus then
      { r with w, handed := r.handed ++ [opus], lost := r.lost + 1 }
    else { r with w, handed := r.handed ++ [opus] }

/-- One event, on a run that still has a result. -/
def step (host : HostWord) (transcode : α → Bytes → α × List Bytes) (s : Option (AudioRun α))
    (e : AudioEvent) : Option (AudioRun α) :=
  s.bind fun r =>
  match e with
  | .push aac => (r.w.push host aac).map fun p => r.pushed aac p.1 p.2
  | .drain => (r.w.drain host).map fun p => { r with w := p.2, drained := r.drained ++ p.1.toList }
  | .thread => (r.w.main host transcode).map fun p => r.did p.2 p.1
  | .wake => some { r with w := r.w.signal }
  | .stop => some { r with w := r.w.requestStop }

end AudioRun

/-! ## What a run keeps -/

/-- The transcoder over AAC frames, one after the other. -/
def transcoded {α : Type} (transcode : α → Bytes → α × List Bytes) : α → List Bytes → α × List Bytes
  | a, [] => (a, [])
  | a, aac :: aacs =>
    let r := transcoded transcode (transcode a aac).1 aacs
    (r.1, (transcode a aac).2 ++ r.2)

theorem transcoded_snoc {α : Type} (transcode : α → Bytes → α × List Bytes) (a : α)
    (aacs : List Bytes) (aac : Bytes) :
    transcoded transcode a (aacs ++ [aac]) =
      let r := transcoded transcode a aacs
      ((transcode r.1 aac).1, r.2 ++ (transcode r.1 aac).2) := by
  induction aacs generalizing a with
  | nil => simp [transcoded]
  | cons b aacs ih => simp only [List.cons_append, transcoded, ih, List.append_assoc]

section Invariant
variable {α : Type} (host : HostWord) (transcode : α → Bytes → α × List Bytes) (a : α)

/-- The run is exact: the input ring holds what was accepted and not yet taken, the output ring what
    was queued and not yet drained.  The thread has handed over, but for what it still has to, what
    the transcoder `a` makes of the frames it took, and of that only the frames counted as lost, and
    those no packet can hold, were not queued.  It sleeps only while there is nothing to do. -/
structure AudioRun.Exact (r : AudioRun α) : Prop where
  input : ∃ q, r.w.input.Models host Vring.audioInArenaBytes.toNat q ∧ r.accepted = r.taken ++ q
  pushable : ∀ d ∈ r.accepted, AudioWorker.pushable d
  inDropped : r.w.inDropped = UInt32.ofNat r.refused
  transcoded : transcoded transcode a r.taken = (r.w.a, r.handed ++ r.w.thread.todo)
  queued : r.queued.Sublist (r.handed.filter AudioWorker.emittable)
  lost : r.queued.length + r.lost = (r.handed.filter AudioWorker.emittable).length
  outDropped : r.w.outDropped = UInt32.ofNat r.lost
  output : ∃ q, r.w.output.Models host Vring.audioOutArenaBytes.toNat q ∧ r.queued = r.drained ++ q
  asleep : r.w.thread = .asleep → r.w.stop = false ∧ r.accepted = r.taken
  exited : r.w.thread = .exited → r.w.stop = true

variable {host transcode a} {w : AudioWorker α} {r : AudioRun α}

theorem AudioWorker.pushable_iff {d : Bytes} : pushable d = true ↔ 0 < d.length ∧ d.length ≤ 8192 := by
  rw [pushable, Bool.and_eq_true, decide_eq_true_iff, decide_eq_true_iff]
  rfl

theorem AudioWorker.emittable_iff {d : Bytes} :
    emittable d = true ↔ 0 < d.length ∧ d.length ≤ 4000 := by
  rw [emittable, Bool.and_eq_true, decide_eq_true_iff, decide_eq_true_iff]
  rfl

/-- A push to a ring of the worker, of a record that fits the buffer of its reader. -/
theorem Vring.Models.offer {c : ℕ} {q : List Bytes} {v : Vring} {d : Bytes} (h : v.Models host c q)
    (hc : c ≤ 2 ^ 20) (hpos : 0 < d.length) (hlen : d.length ≤ 8192) :
    (∃ v', v.push host d = some (true, v') ∧ v'.Models host c (q ++ [d])) ∨
      v.push host d = some (false, v) := by
  have hfits := h.fits
  by_cases hroom : Vring.used q + (4 + d.length) ≤ c
  · exact .inl (h.push (by omega) hpos (by omega) hroom)
  · exact .inr (h.push_full hpos (by omega) (by omega) (by omega))

theorem AudioWorker.signal_eq (w : AudioWorker α) :
    ∃ t, w.signal = { w with thread := t } ∧ t ≠ .asleep ∧ t.todo = w.thread.todo ∧
      (t = .exited → w.thread = .exited) := by
  refine ⟨_, rfl, ?_⟩
  split_ifs with hasleep
  · rw [hasleep]
    exact ⟨nofun, rfl, nofun⟩
  · exact ⟨hasleep, rfl, id⟩

/-- A worker as it is created. -/
theorem AudioRun.Exact.start {callocIn callocOut pthreads : Bool}
    (hcreate : AudioWorker.create (some a) callocIn callocOut pthreads = some w) :
    Exact host transcode a (.start w) := by
  obtain ⟨a', ha, hcreate⟩ := Option.bind_eq_some_iff.1 hcreate
  obtain rfl := Option.some.inj ha
  obtain ⟨input, hin, hcreate⟩ := Option.bind_eq_some_iff.1 hcreate
  obtain ⟨output, hout, hcreate⟩ := Option.bind_eq_some_iff.1 hcreate
  have hinit : ∀ {c : UInt32} {calloc : Bool} {v : Vring}, Vring.init c calloc = some v →
      v.Models host c.toNat [] := by
    intro c calloc v hv
    cases calloc with
    | true => exact Vring.models_init host hv
    | false => exact absurd hv (by simp [Vring.init])
  split_ifs at hcreate
  obtain rfl := Option.some.inj hcreate
  exact ⟨⟨[], hinit hin, rfl⟩, (fun _ h => nomatch h), rfl, rfl, .slnil, rfl, rfl,
    ⟨[], hinit hout, rfl⟩, nofun, nofun⟩

namespace AudioRun.Exact

/-- A push puts the frame at the end, and wakes the thread. -/
theorem push (h : Exact host transcode a r) (aac : Bytes) :
    ∃ r', AudioRun.step host transcode (some r) (.push aac) = some r' ∧ Exact host transcode a r' := by
  obtain ⟨q, hq, hacc⟩ := h.input
  show ∃ r', Option.map _ (r.w.push host aac) = some r' ∧ _
  rw [AudioWorker.push]
  split_ifs with hpush
  · obtain ⟨hpos, hlen⟩ := AudioWorker.pushable_iff.1 hpush
    rcases hq.offer (by decide) hpos hlen with ⟨v, hv, hmodels⟩ | hv
    · obtain ⟨t, hsignal, hawake, htodo, hexit⟩ := AudioWorker.signal_eq { r.w with input := v }
      refine ⟨{ r with w := { r.w with input := v, thread := t }, accepted := r.accepted ++ [aac] },
        by rw [hv, Option.map_some, Option.map_some, if_pos rfl, hsignal]; rfl, ?_⟩
      exact { h with
        input := ⟨q ++ [aac], hmodels, by rw [hacc, List.append_assoc]⟩
        pushable := fun d hd => (List.mem_append.1 hd).elim (h.pushable d) fun hd =>
          List.mem_singleton.1 hd ▸ hpush
        transcoded := by
          show _ = (_, r.handed ++ t.todo)
          rw [htodo]
          exact h.transcoded
        asleep := fun ht => absurd ht hawake
        exited := fun ht => h.exited (hexit ht) }
    · refine ⟨{ r with w := { r.w with inDropped := r.w.inDropped + 1 }, refused := r.refused + 1 },
        by rw [hv]; simp [AudioRun.pushed, hpush], ?_⟩
      exact { h with
        inDropped := by
          show r.w.inDropped + 1 = _
          rw [h.inDropped, UInt32.ofNat_add]
          rfl }
  · exact ⟨r, by simp [AudioRun.pushed, hpush], h⟩

/-- A turn of a drain takes the frame in front. -/
theorem drain (h : Exact host transcode a r) :
    ∃ r', AudioRun.step host transcode (some r) .drain = some r' ∧ Exact host transcode a r' := by
  obtain ⟨q, hq, hqueued⟩ := h.output
  obtain ⟨v, hv, hafter⟩ := hq.pop (by decide) opusMaxPacket
  refine ⟨{ r with w := { r.w with output := v }, drained := r.drained ++ (Vring.front q opusMaxPacket.toNat).toList },
    by simp only [AudioRun.step, AudioWorker.drain, hv, Option.bind_some, Option.map_some], ?_⟩
  cases hfront : Vring.front q opusMaxPacket.toNat with
  | none =>
    rw [hfront] at hafter
    obtain rfl : v = r.w.output := hafter
    exact { h with output := ⟨q, hq, by rw [hqueued]; simp⟩ }
  | some d =>
    rw [hfront] at hafter
    refine { h with output := ⟨q.tail, hafter, ?_⟩ }
    show r.queued = (r.drained ++ [d]) ++ q.tail
    rw [hqueued, List.append_assoc, List.singleton_append, Vring.cons_tail_of_front hfront]

/-- A frame is handed over: it is queued, or counted as lost, or too long. -/
theorem emit (h : Exact host transcode a r) {opus : Bytes} {todo : List Bytes}
    (hthread : r.w.thread = .transcoding (opus :: todo)) :
    ∃ r', AudioRun.step host transcode (some r) .thread = some r' ∧ Exact host transcode a r' := by
  obtain ⟨q, hq, hqueued⟩ := h.output
  have hmade : NginxRtc.transcoded transcode a r.taken = (r.w.a, (r.handed ++ [opus]) ++ todo) := by
    rw [h.transcoded, hthread, List.append_assoc]
    rfl
  show ∃ r', Option.map _ (r.w.main host transcode) = some r' ∧ _
  rw [AudioWorker.main, hthread]
  dsimp only
  rw [AudioWorker.emit]
  split_ifs with hemit
  · obtain ⟨hpos, hlen⟩ := AudioWorker.emittable_iff.1 hemit
    have hfilter : (r.handed ++ [opus]).filter AudioWorker.emittable =
        r.handed.filter AudioWorker.emittable ++ [opus] := by
      rw [List.filter_append, List.filter_singleton, hemit, cond_true]
    rcases hq.offer (by decide) hpos (by omega) with ⟨v, hv, hmodels⟩ | hv
    · refine ⟨{ r with
        w := { r.w with output := v, thread := .transcoding todo }
        handed := r.handed ++ [opus]
        queued := r.queued ++ [opus] }, by rw [hv]; rfl, ?_⟩
      exact { h with
        transcoded := hmade
        queued := by
          rw [hfilter]
          exact h.queued.append (.refl _)
        lost := by
          rw [hfilter, List.length_append, List.length_append, ← h.lost]
          exact Nat.add_right_comm _ _ _
        output := ⟨q ++ [opus], hmodels, by rw [hqueued, List.append_assoc]⟩
        asleep := nofun
        exited := nofun }
    · refine ⟨{ r with
        w := { r.w with outDropped := r.w.outDropped + 1, thread := .transcoding todo }
        handed := r.handed ++ [opus]
        lost := r.lost + 1 }, by rw [hv]; simp [AudioRun.did, hemit], ?_⟩
      exact { h with
        transcoded := hmade
        queued := by
          rw [hfilter]
          exact h.queued.trans (List.sublist_append_left _ _)
        lost := by
          rw [hfilter, List.length_append, ← h.lost]
          rfl
        outDropped := by
          show r.w.outDropped + 1 = _
          rw [h.outDropped, UInt32.ofNat_add]
          rfl
        asleep := nofun
        exited := nofun }
  · have hfilter : (r.handed ++ [opus]).filter AudioWorker.emittable =
        r.handed.filter AudioWorker.emittable := by
      rw [List.filter_append, List.filter_singleton, Bool.eq_false_iff.2 hemit, cond_false,
        List.append_nil]
    refine ⟨{ r with w := { r.w with thread := .transcoding todo }, handed := r.handed ++ [opus] },
      by simp [AudioRun.did, hemit], ?_⟩
    exact { h with
      transcoded := hmade
      queued := by rw [hfilter]; exact h.queued
      lost := by rw [hfilter]; exact h.lost
      asleep := nofun
      exited := nofun }

/-- At the head of its loop the thread ends, or goes to sleep, or takes the frame in front. -/
theorem take (h : Exact host transcode a r) (hthread : r.w.thread = .running) :
    ∃ r', AudioRun.step host transcode (some r) .thread = some r' ∧ Exact host transcode a r' := by
  obtain ⟨q, hq, hacc⟩ := h.input
  have hmade := h.transcoded
  rw [hthread] at hmade
  show ∃ r', Option.map _ (r.w.main host transcode) = some r' ∧ _
  rw [AudioWorker.main, hthread]
  dsimp only
  split_ifs with hstop hempty
  · exact ⟨_, rfl, { h with transcoded := hmade, asleep := nofun, exited := fun _ => hstop }⟩
  · rw [hq.isEmpty_iff] at hempty
    rw [hempty, List.append_nil] at hacc
    exact ⟨_, rfl, { h with
      transcoded := hmade
      asleep := fun _ => ⟨Bool.eq_false_iff.2 hstop, hacc⟩
      exited := nofun }⟩
  · cases q with
    | nil => exact absurd (hq.isEmpty_iff.2 rfl) hempty
    | cons d q =>
      have hd := h.pushable d (by rw [hacc]; simp)
      have hfront : Vring.front (d :: q) aacMax.toNat = some d :=
        Option.filter_some_pos (decide_eq_true (AudioWorker.pushable_iff.1 hd).2)
      obtain ⟨v, hv, hafter⟩ := hq.pop (by decide) aacMax
      rw [hfront] at hv hafter
      refine ⟨{ r with
        w := { r.w with
          input := v
          a := (transcode r.w.a d).1
          thread := .transcoding (transcode r.w.a d).2 }
        taken := r.taken ++ [d] }, by rw [hv]; rfl, ?_⟩
      exact { h with
        input := ⟨q, hafter, by rw [hacc, List.append_assoc]; rfl⟩
        transcoded := by
          show NginxRtc.transcoded transcode a (r.taken ++ [d]) = _
          rw [transcoded_snoc, hmade]
          show _ = ((transcode r.w.a d).1, r.handed ++ (transcode r.w.a d).2)
          simp [Thread.todo]
        asleep := nofun
        exited := nofun }

theorem step (h : Exact host transcode a r) (e : AudioEvent) :
    ∃ r', AudioRun.step host transcode (some r) e = some r' ∧ Exact host transcode a r' := by
  cases e with
  | push aac => exact h.push aac
  | drain => exact h.drain
  | thread =>
    cases hthread : r.w.thread with
    | running => exact h.take hthread
    | asleep => exact ⟨r, by simp [AudioRun.step, AudioWorker.main, hthread, AudioRun.did], h⟩
    | exited => exact ⟨r, by simp [AudioRun.step, AudioWorker.main, hthread, AudioRun.did], h⟩
    | transcoding todo =>
      cases todo with
      | cons opus todo => exact h.emit hthread
      | nil =>
        refine ⟨{ r with w := { r.w with thread := .running } },
          by simp [AudioRun.step, AudioWorker.main, hthread, AudioRun.did], ?_⟩
        have hmade := h.transcoded
        rw [hthread] at hmade
        exact { h with transcoded := hmade, asleep := nofun, exited := nofun }
  | wake =>
    obtain ⟨t, hsignal, hawake, htodo, hexit⟩ := r.w.signal_eq
    refine ⟨_, rfl, ?_⟩
    rw [hsignal]
    exact { h with
      transcoded := by
        show _ = (_, r.handed ++ t.todo)
        rw [htodo]
        exact h.transcoded
      asleep := fun ht => absurd ht hawake
      exited := fun ht => h.exited (hexit ht) }
  | stop =>
    obtain ⟨t, hsignal, hawake, htodo, -⟩ := ({ r.w with stop := true } : AudioWorker α).signal_eq
    refine ⟨_, rfl, ?_⟩
    rw [AudioWorker.requestStop, hsignal]
    exact { h with
      transcoded := by
        show _ = (_, r.handed ++ t.todo)
        rw [htodo]
        exact h.transcoded
      asleep := fun ht => absurd ht hawake
      exited := fun _ => rfl }

end AudioRun.Exact

/-- A run that is exact so far. -/
def AudioSound (host : HostWord) (transcode : α → Bytes → α × List Bytes) (a : α)
    (s : Option (AudioRun α)) : Prop :=
  ∃ r, s = some r ∧ r.Exact host transcode a

theorem AudioSound.step {s : Option (AudioRun α)} (h : AudioSound host transcode a s) (e : AudioEvent) :
    AudioSound host transcode a (AudioRun.step host transcode s e) := by
  obtain ⟨r, rfl, hr⟩ := h
  exact hr.step e

variable (host transcode) in
/-- **The audio worker is exact** in every interleaving of pushes, drains, sections of its thread,
    wakeups and the request to stop: no section is without a result, no frame is lost but those that
    are counted, none comes twice or out of order, and no wakeup is lost. -/
theorem audio_worker_exact {callocIn callocOut pthreads : Bool}
    (hcreate : AudioWorker.create (some a) callocIn callocOut pthreads = some w)
    (es : List AudioEvent) :
    Lts.Visits (AudioRun.step host transcode) (AudioSound host transcode a) (some (.start w)) es :=
  Lts.visits_of_step (fun _ e hs _ => hs.step e) ⟨_, rfl, .start hcreate⟩ (Lts.along_true _ es)

/-! ## Progress -/

/-- The thread has nothing left to do: it sleeps and has taken all that was accepted, or it has ended,
    which it only does after the request to stop. -/
def AudioRun.Idle (r : AudioRun α) : Prop :=
  r.w.thread.todo = [] ∧
    (r.w.thread = .asleep ∧ r.w.stop = false ∧ r.taken = r.accepted ∨
      r.w.thread = .exited ∧ r.w.stop = true)

/-- `n` sections of the thread. -/
def AudioRun.turns (host : HostWord) (transcode : α → Bytes → α × List Bytes) (n : ℕ)
    (r : AudioRun α) : Option (AudioRun α) :=
  Lts.run (AudioRun.step host transcode) (some r) (List.replicate n .thread)

/-- Where a section takes the thread. -/
def Thread.Next (r r' : AudioRun α) : Thread → Prop
  | .running => r'.w.thread = .exited ∨ r'.w.thread = .asleep ∨
      ∃ todo aac, r'.w.thread = .transcoding todo ∧ r'.taken = r.taken ++ [aac]
  | .transcoding (_ :: todo) => r'.w.thread = .transcoding todo ∧ r'.taken = r.taken
  | .transcoding [] => r'.w.thread = .running ∧ r'.taken = r.taken
  | .asleep | .exited => r' = r

theorem AudioRun.step_thread {r' : AudioRun α}
    (h : AudioRun.step host transcode (some r) .thread = some r') :
    r'.accepted = r.accepted ∧ r.w.thread.Next r r' := by
  obtain ⟨⟨did, w'⟩, hmain, rfl⟩ := Option.map_eq_some_iff.1 h
  rw [AudioWorker.main] at hmain
  split at hmain
  · next hthread =>
    obtain ⟨rfl, rfl⟩ := Prod.mk.inj (Option.some.inj hmain)
    rw [hthread]
    exact ⟨rfl, rfl⟩
  · next hthread =>
    obtain ⟨rfl, rfl⟩ := Prod.mk.inj (Option.some.inj hmain)
    rw [hthread]
    exact ⟨rfl, rfl⟩
  · next opus todo hthread =>
    obtain ⟨p, -, hp⟩ := Option.map_eq_some_iff.1 hmain
    obtain ⟨rfl, rfl⟩ := Prod.mk.inj hp
    rw [hthread, AudioRun.did]
    split_ifs <;> exact ⟨rfl, rfl, rfl⟩
  · next hthread =>
    obtain ⟨rfl, rfl⟩ := Prod.mk.inj (Option.some.inj hmain)
    rw [hthread]
    exact ⟨rfl, rfl, rfl⟩
  · next hthread =>
    rw [hthread]
    split_ifs at hmain
    · obtain ⟨rfl, rfl⟩ := Prod.mk.inj (Option.some.inj hmain)
      exact ⟨rfl, .inl rfl⟩
    · obtain ⟨rfl, rfl⟩ := Prod.mk.inj (Option.some.inj hmain)
      exact ⟨rfl, .inr (.inl rfl)⟩
    · obtain ⟨p, -, hp⟩ := Option.bind_eq_some_iff.1 hmain
      obtain ⟨aac, -, hp⟩ := Option.map_eq_some_iff.1 hp
      obtain ⟨rfl, rfl⟩ := Prod.mk.inj hp
      exact ⟨rfl, .inr (.inr ⟨_, aac, rfl, rfl⟩)⟩

theorem AudioWorker.main_stop {did : AudioWorker.Did} {w' : AudioWorker α}
    (h : w.main host transcode = some (did, w')) : w'.stop = w.stop := by
  rw [AudioWorker.main] at h
  split at h
  · exact (congrArg (fun p => p.2.stop) (Option.some.inj h)).symm
  · exact (congrArg (fun p => p.2.stop) (Option.some.inj h)).symm
  · obtain ⟨⟨ok, w₀⟩, hemit, hp⟩ := Option.map_eq_some_iff.1 h
    have hstop : w₀.stop = w.stop := by
      rw [AudioWorker.emit] at hemit
      split_ifs at hemit
      · obtain ⟨v, -, hv⟩ := Option.map_eq_some_iff.1 hemit
        exact (congrArg (fun p => p.2.stop) hv).symm
      · exact (congrArg (fun p => p.2.stop) (Option.some.inj hemit)).symm
    exact (congrArg (fun p => p.2.stop) hp).symm.trans hstop
  · exact (congrArg (fun p => p.2.stop) (Option.some.inj h)).symm
  · split_ifs at h
    · exact (congrArg (fun p => p.2.stop) (Option.some.inj h)).symm
    · exact (congrArg (fun p => p.2.stop) (Option.some.inj h)).symm
    · obtain ⟨p, -, hp⟩ := Option.bind_eq_some_iff.1 h
      obtain ⟨aac, -, hp⟩ := Option.map_eq_some_iff.1 hp
      exact (congrArg (fun p => p.2.stop) hp).symm

/-- Only a drain delivers, and no event takes a request to stop back. -/
theorem AudioRun.step_keeps {r' : AudioRun α} {e : AudioEvent} (he : e ≠ .drain)
    (h : AudioRun.step host transcode (some r) e = some r') :
    r'.drained = r.drained ∧ (r.w.stop = true → r'.w.stop = true) := by
  cases e with
  | push aac =>
    obtain ⟨⟨ok, w⟩, hpush, rfl⟩ := Option.map_eq_some_iff.1 h
    have hstop : w.stop = r.w.stop := by
      rw [AudioWorker.push] at hpush
      split_ifs at hpush
      · obtain ⟨⟨_ | _, v⟩, -, hv⟩ := Option.map_eq_some_iff.1 hpush <;>
          exact (congrArg (fun p => p.2.stop) hv).symm
      · exact (congrArg (fun p => p.2.stop) (Option.some.inj hpush)).symm
    rw [AudioRun.pushed]
    split_ifs <;> exact ⟨rfl, hstop.trans⟩
  | drain => exact absurd rfl he
  | thread =>
    obtain ⟨⟨did, w⟩, hmain, rfl⟩ := Option.map_eq_some_iff.1 h
    have hstop := AudioWorker.main_stop hmain
    cases did with
    | moved => exact ⟨rfl, hstop.trans⟩
    | took aac => exact ⟨rfl, hstop.trans⟩
    | handed opus queued =>
      rw [AudioRun.did]
      split_ifs <;> exact ⟨rfl, hstop.trans⟩
  | wake =>
    obtain rfl := Option.some.inj h
    exact ⟨rfl, id⟩
  | stop =>
    obtain rfl := Option.some.inj h
    exact ⟨rfl, fun _ => rfl⟩

namespace AudioRun.Exact

/-- The thread comes back to the head of its loop once all frames are handed over. -/
theorem hand_over (h : Exact host transcode a r) {todo : List Bytes}
    (hthread : r.w.thread = .transcoding todo) :
    ∃ r', r.turns host transcode (todo.length + 1) = some r' ∧ Exact host transcode a r' ∧
      r'.w.thread = .running ∧ r'.accepted = r.accepted ∧ r'.taken = r.taken := by
  induction todo generalizing r with
  | nil =>
    obtain ⟨r', hstep, hr'⟩ := h.step .thread
    obtain ⟨hacc, hnext⟩ := AudioRun.step_thread hstep
    rw [hthread] at hnext
    exact ⟨r', hstep, hr', hnext.1, hacc, hnext.2⟩
  | cons opus todo ih =>
    obtain ⟨r', hstep, hr'⟩ := h.step .thread
    obtain ⟨hacc, hnext⟩ := AudioRun.step_thread hstep
    rw [hthread] at hnext
    obtain ⟨r'', hrun, hr'', hhead, hacc', htaken⟩ := ih hr' hnext.1
    refine ⟨r'', ?_, hr'', hhead, hacc'.trans hacc, htaken.trans hnext.2⟩
    rw [turns, List.length_cons, List.replicate_succ, Lts.run_cons, hstep]
    exact hrun

theorem turns_add {n m : ℕ} {r' : AudioRun α} (h : r.turns host transcode n = some r') :
    r.turns host transcode (n + m) = r'.turns host transcode m := by
  rw [turns, List.replicate_add, Lts.run_append]
  exact congrArg (fun s => Lts.run _ s _) h

/-- At the head of its loop the thread is done, or takes a frame. -/
theorem head_turn (h : Exact host transcode a r) (hthread : r.w.thread = .running) :
    ∃ r', r.turns host transcode 1 = some r' ∧ Exact host transcode a r' ∧
      r'.accepted = r.accepted ∧
      (r'.Idle ∨ ∃ todo aac, r'.w.thread = .transcoding todo ∧ r'.taken = r.taken ++ [aac]) := by
  obtain ⟨r', hstep, hr'⟩ := h.step .thread
  obtain ⟨hacc, hnext⟩ := AudioRun.step_thread hstep
  refine ⟨r', hstep, hr', hacc, ?_⟩
  rw [hthread] at hnext
  rcases hnext with hexit | hasleep | htook
  · exact .inl ⟨by rw [hexit]; rfl, .inr ⟨hexit, hr'.exited hexit⟩⟩
  · obtain ⟨hstop, hall⟩ := hr'.asleep hasleep
    exact .inl ⟨by rw [hasleep]; rfl, .inl ⟨hasleep, hstop, hall.symm⟩⟩
  · exact .inr htook

/-- From the head of its loop the thread takes the frames one after the other. -/
theorem settles_running (h : Exact host transcode a r) (hthread : r.w.thread = .running) (n : ℕ)
    (hn : r.accepted.length ≤ r.taken.length + n) :
    ∃ m r', r.turns host transcode m = some r' ∧ r'.Idle ∧ r'.accepted = r.accepted := by
  induction n generalizing r with
  | zero =>
    obtain ⟨r', hturn, hr', hacc, hidle | ⟨todo, aac, -, htaken⟩⟩ := h.head_turn hthread
    · exact ⟨1, r', hturn, hidle, hacc⟩
    · obtain ⟨q, -, hq⟩ := hr'.input
      have hlen := congrArg List.length hq
      rw [hacc, htaken, List.length_append, List.length_append, List.length_singleton] at hlen
      omega
  | succ n ih =>
    obtain ⟨r', hturn, hr', hacc, hidle | ⟨todo, aac, hnext, htaken⟩⟩ := h.head_turn hthread
    · exact ⟨1, r', hturn, hidle, hacc⟩
    · obtain ⟨r₁, hrun, hr₁, hhead, hacc₁, htaken₁⟩ := hr'.hand_over hnext
      have hlen : r₁.accepted.length ≤ r₁.taken.length + n := by
        rw [hacc₁, htaken₁, hacc, htaken, List.length_append, List.length_singleton]
        omega
      obtain ⟨m, r₂, hrun₂, hidle, hacc₂⟩ := ih hr₁ hhead hlen
      refine ⟨1 + (todo.length + 1 + m), r₂, ?_, hidle, hacc₂.trans (hacc₁.trans hacc)⟩
      rw [turns_add hturn, turns_add hrun, hrun₂]

/-- Left alone, the thread comes to rest. -/
theorem settles (h : Exact host transcode a r) :
    ∃ m r', r.turns host transcode m = some r' ∧ r'.Idle ∧ r'.accepted = r.accepted := by
  cases hthread : r.w.thread with
  | running => exact h.settles_running hthread _ (Nat.le_add_left _ _)
  | asleep =>
    obtain ⟨hstop, hall⟩ := h.asleep hthread
    exact ⟨0, r, rfl, ⟨by rw [hthread]; rfl, .inl ⟨hthread, hstop, hall.symm⟩⟩, rfl⟩
  | exited => exact ⟨0, r, rfl, ⟨by rw [hthread]; rfl, .inr ⟨hthread, h.exited hthread⟩⟩, rfl⟩
  | transcoding todo =>
    obtain ⟨r₁, hrun, hr₁, hhead, hacc₁, -⟩ := h.hand_over hthread
    obtain ⟨m, r₂, hrun₂, hidle, hacc₂⟩ := hr₁.settles_running hhead _ (Nat.le_add_left _ _)
    exact ⟨todo.length + 1 + m, r₂, by rw [turns_add hrun, hrun₂], hidle, hacc₂.trans hacc₁⟩

end AudioRun.Exact

end Invariant

theorem audio_worker_exact_sample :
    ∃ w, AudioWorker.create (some ()) true true true = some w ∧
      Lts.Visits (AudioRun.step .little fun _ aac => ((), [aac, aac]))
        (AudioSound .little (fun _ aac => ((), [aac, aac])) ()) (some (.start w))
        [.push [1], .thread, .thread, .wake, .push [2], .thread, .drain, .stop] :=
  ⟨_, rfl, audio_worker_exact _ _ (show AudioWorker.create (some ()) true true true = _ from rfl) _⟩

section Samples
variable {σ ε δ : Type} (decode : δ → Bytes → δ × Answers σ) (encode : ε → List σ → ε × Option Bytes)

/-- The AAC frames and what FFmpeg answers to each. -/
def answered : δ → List Bytes → List (Transcoder.Packet σ)
  | _, [] => []
  | d, aac :: aacs => (aac, (decode d aac).2) :: answered (decode d aac).1 aacs

end Samples

end NginxRtc
