/-
  What one worker process keeps to itself: its sources, sessions and UDP connections
  (`ngx_rtc_core.c`).

  A worker runs one handler at a time, so its registries are plain state.  Local sources mirror
  the shared ones; `shmSrc` is the cached address of the shared source and `publisherKind` the
  local copy of its ownership tag.  A connection is an nginx stream UDP session: `ctx` is the
  module context set by the last binding on it, and `posted` lists the connections whose
  finalization is waiting in the event queue.

  `sourceRemove_source`, `unsubscribe_source`: which sources a removal can free.
-/
import NginxRtc.Session.Fsm
import NginxRtc.Shm.Registry

namespace NginxRtc

/-! ## Entries -/

/-- `ngx_rtc_source_t`.  `snap` is the cached list of subscriber ids and owner slots;
    `subscribers` are the sessions linked into the queue, newest first; `audioCtx` says whether a
    transcoder is attached. -/
structure Source where
  name : SourceName
  publishing : Bool
  publisherKind : Option PublisherKind
  videoSsrc : UInt32
  videoPt : UInt8
  audioSsrc : UInt32
  audioPt : UInt8
  ringDrops : ℕ
  stats : MediaStats
  audioCtx : Bool
  shmSrc : Option ℕ
  shmSyncMs : ℕ
  snapVersion : ℕ
  snap : List (ℕ × ℕ)
  subscribers : List ℕ

/-- The zeroed source `ngx_rtc_source_create` registers. -/
def Source.fresh (name : SourceName) : Source where
  name := name
  publishing := false
  publisherKind := none
  videoSsrc := 0
  videoPt := 0
  audioSsrc := 0
  audioPt := 0
  ringDrops := 0
  stats := MediaStats.zero
  audioCtx := false
  shmSrc := none
  shmSyncMs := 0
  snapVersion := 0
  snap := []
  subscribers := []

/-- `ngx_rtc_session_t`.  `dtls` is `none` before the DTLS context is created, then says whether
    the handshake is done. -/
structure Session where
  source : Option ℕ
  subLinked : Bool
  videoPt : UInt8
  audioPt : UInt8
  twccVideoExt : UInt8
  twccAudioExt : UInt8
  publishing : Bool
  id : ℕ
  iceUfrag : Ufrag
  icePwd : Pwd
  dtls : Option Bool
  fsm : SessionState
  conn : Option ℕ
  lastActive : ℕ
  closePending : Bool

/-- The connection of an `ngx_stream_session_t`, with its module context. -/
structure Conn where
  ctx : Option ℕ
deriving DecidableEq

structure Worker where
  slot : ℕ
  sources : Pool Source
  sessions : Pool Session
  conns : Pool Conn
  posted : List ℕ

/-- The worker numbered `slot` when its process starts. -/
def Worker.init (slot : ℕ) : Worker := ⟨slot, Pool.empty, Pool.empty, Pool.empty, []⟩

namespace Worker

/-! ## Sources -/

/-- `ngx_rtc_source_lookup`. -/
def sourceLookup (w : Worker) (name : SourceName) : Option ℕ :=
  w.sources.find? fun s => s.name = name

/-- `ngx_rtc_source_create`: the source, and whether this call built it.  `alloc` is the answer of
    the allocator. -/
def sourceCreate (w : Worker) (alloc : Bool) (name : SourceName) : Worker × Option ℕ × Bool :=
  match w.sourceLookup name with
  | some a => (w, some a, false)
  | none =>
    if alloc then
      ({ w with sources := w.sources.alloc (Source.fresh name) }, some w.sources.next, true)
    else (w, none, false)

/-- `ngx_rtc_source_has_holder`. -/
def hasHolder (w : Worker) (a : ℕ) : Bool :=
  w.sessions.cells.any fun p => p.2.source = some a

/-- What lets `ngx_rtc_source_remove` free a source. -/
def removable (w : Worker) (a : ℕ) (src : Source) : Bool :=
  src.subscribers.isEmpty && !src.publishing && !w.hasHolder a && !src.audioCtx

/-- `ngx_rtc_source_remove`. -/
def sourceRemove (w : Worker) (name : SourceName) : Worker :=
  match w.sourceLookup name with
  | none => w
  | some a =>
    match w.sources.get a with
    | none => w
    | some src => if w.removable a src then { w with sources := w.sources.free a } else w

def modifySource (w : Worker) (a : ℕ) (f : Source → Source) : Worker :=
  { w with sources := w.sources.modify a f }

/-! ## Sessions -/

/-- `ngx_rtc_session_find`. -/
def sessionFind (w : Worker) (ufrag : Ufrag) : Option ℕ :=
  w.sessions.find? fun s => s.iceUfrag = ufrag

/-- `ngx_rtc_session_find_by_id`. -/
def sessionFindById (w : Worker) (id : ℕ) : Option ℕ :=
  w.sessions.find? fun s => s.id = id

/-- `ngx_rtc_session_add`, of a session just allocated. -/
def sessionAdd (w : Worker) (sess : Session) : Worker :=
  { w with sessions := w.sessions.alloc sess }

/-- `ngx_rtc_session_remove` and the free of the session. -/
def sessionRemove (w : Worker) (a : ℕ) : Worker :=
  { w with sessions := w.sessions.free a }

def modifySession (w : Worker) (a : ℕ) (f : Session → Session) : Worker :=
  { w with sessions := w.sessions.modify a f }

/-- `ngx_rtc_source_subscribe`. -/
def subscribe (w : Worker) (src sess : ℕ) : Worker :=
  { w with
    sessions := w.sessions.modify sess fun s => { s with source := some src, subLinked := true }
    sources := w.sources.modify src fun s => { s with subscribers := sess :: s.subscribers } }

/-- The first half of `ngx_rtc_source_unsubscribe`: unlink the session and forget its source. -/
def unlink (w : Worker) (src sess : ℕ) : Worker :=
  { w with
    sessions := w.sessions.modify sess fun s => { s with source := none, subLinked := false }
    sources := w.sources.modify src fun s => { s with subscribers := s.subscribers.erase sess } }

/-- `ngx_rtc_source_unsubscribe`: the last session to leave an idle source frees it. -/
def unsubscribe (w : Worker) (src sess : ℕ) : Worker :=
  match w.sessions.get sess with
  | none => w
  | some s =>
    if s.source ≠ some src then w
    else
      match (w.unlink src sess).sources.get src with
      | none => w.unlink src sess
      | some v =>
        if v.subscribers.isEmpty && !v.publishing && !(w.unlink src sess).hasHolder src then
          (w.unlink src sess).sourceRemove v.name
        else w.unlink src sess

/-! ## Connections -/

/-- nginx accepts a datagram from a new 4-tuple. -/
def accept (w : Worker) : Worker := { w with conns := w.conns.alloc ⟨none⟩ }

/-- `ngx_stream_set_ctx`. -/
def setCtx (w : Worker) (c : ℕ) (ctx : Option ℕ) : Worker :=
  { w with conns := w.conns.modify c fun k => { k with ctx := ctx } }

/-- `ngx_stream_get_module_ctx`. -/
def getCtx (w : Worker) (c : ℕ) : Option ℕ := (w.conns.get c).bind Conn.ctx

/-! ## What the registry calls do -/

@[simp] theorem modifySource_sessions (w : Worker) (a : ℕ) (f : Source → Source) :
    (w.modifySource a f).sessions = w.sessions := rfl

@[simp] theorem modifySource_conns (w : Worker) (a : ℕ) (f : Source → Source) :
    (w.modifySource a f).conns = w.conns := rfl

@[simp] theorem modifySource_posted (w : Worker) (a : ℕ) (f : Source → Source) :
    (w.modifySource a f).posted = w.posted := rfl

theorem sourceLookup_spec {w : Worker} {name : SourceName} {a : ℕ}
    (h : w.sourceLookup name = some a) : ∃ src, w.sources.get a = some src ∧ src.name = name := by
  obtain ⟨src, hsrc, hn⟩ := Pool.find?_spec h
  exact ⟨src, hsrc, of_decide_eq_true hn⟩

theorem sourceLookup_eq_none {w : Worker} {name : SourceName} :
    w.sourceLookup name = none ↔ ∀ a src, w.sources.get a = some src → src.name ≠ name := by
  simp only [sourceLookup, Pool.find?_eq_none, decide_eq_false_iff_not, ne_eq]

/-- What a create hands out: the source that was there, or a fresh one, the only one of its name. -/
theorem sourceCreate_cases {w w' : Worker} {a : ℕ} {alloc created : Bool} {name : SourceName}
    (h : w.sourceCreate alloc name = (w', some a, created)) :
    (created = false ∧ w' = w ∧ w.sourceLookup name = some a) ∨
      (created = true ∧ a = w.sources.next ∧ w.sourceLookup name = none ∧
        w' = { w with sources := w.sources.alloc (Source.fresh name) }) := by
  unfold sourceCreate at h
  cases hl : w.sourceLookup name with
  | some b =>
    simp only [hl, Prod.mk.injEq, Option.some.injEq] at h
    obtain ⟨rfl, rfl, rfl⟩ := h
    exact .inl ⟨rfl, rfl, rfl⟩
  | none =>
    simp only [hl] at h
    split_ifs at h
    · simp only [Prod.mk.injEq, Option.some.injEq] at h
      obtain ⟨rfl, rfl, rfl⟩ := h
      exact .inr ⟨rfl, rfl, rfl, rfl⟩
    · simp at h

theorem hasHolder_of_get {w : Worker} {b x : ℕ} {s : Session} (hs : w.sessions.get b = some s)
    (hx : s.source = some x) : w.hasHolder x = true :=
  List.any_eq_true.2 ⟨(b, s), Pool.mem_cells_iff.2 hs, decide_eq_true hx⟩

/-- The registries `w'` keeps from `w` when only sources may have been freed. -/
structure Drops (w w' : Worker) : Prop where
  slot : w'.slot = w.slot
  sessions : w'.sessions = w.sessions
  conns : w'.conns = w.conns
  posted : w'.posted = w.posted
  sources : ∀ a, w'.sources.get a = w.sources.get a ∨
    w'.sources.get a = none ∧ ∀ src, w.sources.get a = some src → w.removable a src = true

theorem Drops.refl (w : Worker) : w.Drops w := ⟨rfl, rfl, rfl, rfl, fun _ => .inl rfl⟩

/-- **A removal frees at most an idle source** that no session refers to. -/
theorem drops_sourceRemove (w : Worker) (name : SourceName) : w.Drops (w.sourceRemove name) := by
  unfold sourceRemove
  split
  · exact .refl w
  · next a ha =>
    split
    · exact .refl w
    · next src hsrc =>
      split_ifs with hrem
      · refine ⟨rfl, rfl, rfl, rfl, fun b => ?_⟩
        rw [Pool.get_free]
        split_ifs with hb
        · subst hb
          refine .inr ⟨rfl, fun s hs => ?_⟩
          obtain rfl := Option.some.inj (hsrc.symm.trans hs)
          exact hrem
        · exact .inl rfl
      · exact .refl w

/-- A source some session refers to is not freed. -/
theorem Drops.held {w w' : Worker} (h : w.Drops w') {b x : ℕ} {s : Session}
    (hs : w.sessions.get b = some s) (hx : s.source = some x) :
    w'.sources.get x = w.sources.get x := by
  rcases h.sources x with he | ⟨hn, hrem⟩
  · exact he
  · cases hv : w.sources.get x with
    | none => exact hn
    | some v =>
      have hr := hrem v hv
      simp [removable, hasHolder_of_get hs hx] at hr

/-- `unsubscribe` does nothing, or unlinks the session and then frees at most an idle source. -/
theorem unsubscribe_cases (w : Worker) (src sess : ℕ) :
    w.unsubscribe src sess = w ∨
      (∃ s, w.sessions.get sess = some s ∧ s.source = some src) ∧
        (w.unlink src sess).Drops (w.unsubscribe src sess) := by
  unfold unsubscribe
  split
  · exact .inl rfl
  · next s hs =>
    split_ifs with hsrc
    · exact .inl rfl
    · refine .inr ⟨⟨s, hs, not_not.1 hsrc⟩, ?_⟩
      split
      · exact .refl _
      · split_ifs
        · exact drops_sourceRemove _ _
        · exact .refl _

end Worker

end NginxRtc
