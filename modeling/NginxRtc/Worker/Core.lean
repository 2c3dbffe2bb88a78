/-
  The registry of one worker down to its links (`ngx_rtc_core.c`): how long a source lives.

  A source holds the head of its subscriber queue, a session the link it stands on a queue with.
  `Core` keeps of both what decides when a source is freed, and the memory of all links; a link to
  itself says that the session stands on no queue.

  `Core.Ok` is the invariant of the registry.  `CoreOp.ok_step`: every operation keeps it, as long
  as a session is subscribed only while it stands on no queue and sources are handed out alive.
  `Core.lifetimes`: from it, what frees a source, and what an unsubscription does to the other
  subscribers.
-/
import NginxRtc.Lib.Queue
import NginxRtc.Lib.Run
import NginxRtc.Worker.State

namespace NginxRtc

/-- A node of a subscriber queue: `subscribers` of a source or `sub_queue` of a session. -/
inductive SubNode where
  | subscribers (src : ℕ)
  | subQueue (sess : ℕ)
deriving DecidableEq

/-- Of an `ngx_rtc_source_t`, what its removal looks at. -/
structure CoreSource where
  name : SourceName
  publishing : Bool
  audioCtx : Bool

/-- Of an `ngx_rtc_session_t`, the source it points to. -/
structure CoreSession where
  source : Option ℕ

structure Core where
  sources : Pool CoreSource
  sessions : Pool CoreSession
  links : QueueMem SubNode

namespace Core

/-- The registry when the worker starts. -/
def init : Core := ⟨Pool.empty, Pool.empty, QueueMem.zeroed⟩

/-! ## Operations -/

/-- `ngx_rtc_source_lookup`. -/
def sourceLookup (c : Core) (name : SourceName) : Option ℕ :=
  c.sources.find? fun s => s.name = name

/-- `ngx_rtc_source_create`; `alloc` is the answer of the allocator. -/
def sourceCreate (c : Core) (alloc : Bool) (name : SourceName) : Core :=
  match c.sourceLookup name with
  | some _ => c
  | none =>
    if alloc then
      { c with
        sources := c.sources.alloc ⟨name, false, false⟩
        links := c.links.init (.subscribers c.sources.next) }
    else c

/-- `ngx_rtc_source_has_holder`. -/
def hasHolder (c : Core) (a : ℕ) : Bool := c.sessions.cells.any fun p => p.2.source = some a

/-- What lets `ngx_rtc_source_remove` free a source. -/
def removable (c : Core) (a : ℕ) (src : CoreSource) : Bool :=
  c.links.empty (.subscribers a) && !src.publishing && !c.hasHolder a && !src.audioCtx

/-- `ngx_rtc_source_remove`. -/
def sourceRemove (c : Core) (name : SourceName) : Core :=
  match c.sourceLookup name with
  | none => c
  | some a =>
    match c.sources.get a with
    | none => c
    | some src => if c.removable a src then { c with sources := c.sources.free a } else c

/-- The publish of a source is claimed or released, its transcoder started or stopped. -/
def setHolders (c : Core) (src : ℕ) (publishing audioCtx : Bool) : Core :=
  { c with sources := c.sources.modify src fun s => { s with publishing, audioCtx } }

/-- A session just allocated with its link initialised, assigned a source or none, and then
    `ngx_rtc_session_add`. -/
def sessionAdd (c : Core) (source : Option ℕ) : Core :=
  { c with
    sessions := c.sessions.alloc ⟨source⟩
    links := c.links.init (.subQueue c.sessions.next) }

/-- `sess->source = src`. -/
def assign (c : Core) (sess src : ℕ) : Core :=
  { c with sessions := c.sessions.modify sess fun s => { s with source := some src } }

/-- `ngx_rtc_session_remove` and the free of the session. -/
def sessionRemove (c : Core) (sess : ℕ) : Core := { c with sessions := c.sessions.free sess }

/-- `ngx_rtc_source_subscribe`. -/
def subscribe (c : Core) (src sess : ℕ) : Core :=
  { c with
    sessions := c.sessions.modify sess fun s => { s with source := some src }
    links := c.links.insertHead (.subscribers src) (.subQueue sess) }

/-- The session stands on some queue: its link is neither null nor to itself. -/
def onQueue (c : Core) (sess : ℕ) : Bool :=
  (c.links.next (.subQueue sess)).isSome && !c.links.empty (.subQueue sess)

/-- The first half of `ngx_rtc_source_unsubscribe`: the unlink that can be repeated. -/
def unlink (c : Core) (sess : ℕ) : Core :=
  { c with
    sessions := c.sessions.modify sess fun s => { s with source := none }
    links := (if c.onQueue sess then c.links.remove (.subQueue sess) else c.links).init
      (.subQueue sess) }

/-- `ngx_rtc_source_unsubscribe`. -/
def unsubscribe (c : Core) (src sess : ℕ) : Core :=
  match c.sessions.get sess with
  | none => c
  | some s =>
    if s.source ≠ some src then c
    else
      match (c.unlink sess).sources.get src with
      | none => c.unlink sess
      | some v =>
        if (c.unlink sess).links.empty (.subscribers src) && !v.publishing &&
            !(c.unlink sess).hasHolder src then
          (c.unlink sess).sourceRemove v.name
        else c.unlink sess

/-- The end of `ngx_rtc_stream_session_close`: unsubscribe, unlink and free the session. -/
def close (c : Core) (sess : ℕ) : Core :=
  match c.sessions.get sess with
  | none => c
  | some s =>
    (match s.source with
      | none => c
      | some src => c.unsubscribe src sess).sessionRemove sess

end Core

/-- The operations on a worker's registry.  `setHolders` is what claims and releases of the publish,
    and a transcoder that comes or goes, do to a source. -/
inductive CoreOp where
  | sourceCreate (alloc : Bool) (name : SourceName)
  | sourceRemove (name : SourceName)
  | setHolders (src : ℕ) (publishing audioCtx : Bool)
  | sessionAdd (source : Option ℕ)
  | assign (sess src : ℕ)
  | subscribe (src sess : ℕ)
  | unsubscribe (src sess : ℕ)
  | close (sess : ℕ)
  | sessionRemove (sess : ℕ)

namespace CoreOp

def step (c : Core) : CoreOp → Core
  | .sourceCreate alloc name => c.sourceCreate alloc name
  | .sourceRemove name => c.sourceRemove name
  | .setHolders src publishing audioCtx => c.setHolders src publishing audioCtx
  | .sessionAdd source => c.sessionAdd source
  | .assign sess src => c.assign sess src
  | .subscribe src sess => c.subscribe src sess
  | .unsubscribe src sess => c.unsubscribe src sess
  | .close sess => c.close sess
  | .sessionRemove sess => c.sessionRemove sess

/-- What the callers of the registry keep to: a source is handed to a session while it is alive, and
    a session is subscribed, or freed without being closed, while it stands on no queue. -/
def Allowed (c : Core) : CoreOp → Prop
  | .sessionAdd source => ∀ src, source = some src → (c.sources.get src).isSome
  | .assign _ src => (c.sources.get src).isSome
  | .subscribe src sess =>
    (c.sources.get src).isSome ∧ (c.sessions.get sess).isSome ∧ c.onQueue sess = false
  | .sessionRemove sess => (c.sessions.get sess).isSome → c.onQueue sess = false
  | _ => True

/-- The state in which the operation comes to remove a source, if it removes one. -/
def atRemoval (c : Core) : CoreOp → Core
  | .unsubscribe _ sess => c.unlink sess
  | .close sess => c.unlink sess
  | _ => c

end CoreOp

namespace Core

/-! ## The invariant -/

/-- The registry holds together: `q a` are the sessions on the queue of the source at `a`. -/
structure Ok (c : Core) (q : ℕ → List ℕ) : Prop where
  queue : ∀ a, (c.sources.get a).isSome →
    c.links.IsQueue (.subscribers a) ((q a).map SubNode.subQueue)
  alive : ∀ a b, b ∈ q a → (c.sources.get a).isSome
  listed : ∀ a b, b ∈ q a → ∃ s, c.sessions.get b = some s ∧ s.source.isSome
  one : ∀ a a' b, b ∈ q a → b ∈ q a' → a = a'
  alone : ∀ b s, c.sessions.get b = some s → (∀ a, b ∉ q a) →
    c.links.next (.subQueue b) = some (.subQueue b)
  holder : ∀ b s a, c.sessions.get b = some s → s.source = some a → (c.sources.get a).isSome

/-- The session `b` is on the subscriber queue of the live source at `a`. -/
def Subscribed (c : Core) (a b : ℕ) : Prop :=
  (c.sources.get a).isSome ∧
    ∃ xs, c.links.IsQueue (.subscribers a) xs ∧ SubNode.subQueue b ∈ xs

theorem subQueue_injective : Function.Injective SubNode.subQueue := fun _ _ h => SubNode.subQueue.inj h

theorem subQueue_mem {b : ℕ} {l : List ℕ} : SubNode.subQueue b ∈ l.map SubNode.subQueue ↔ b ∈ l :=
  List.mem_map_of_injective subQueue_injective

theorem ok_init : Core.init.Ok fun _ => [] where
  queue _ h := nomatch h
  alive _ _ h := nomatch h
  listed _ _ h := nomatch h
  one _ _ _ h := nomatch h
  alone _ _ h := nomatch h
  holder _ _ _ h := nomatch h

namespace Ok

variable {c : Core} {q : ℕ → List ℕ}

theorem subscribed_iff (h : c.Ok q) {a b : ℕ} : c.Subscribed a b ↔ b ∈ q a := by
  constructor
  · rintro ⟨ha, xs, hxs, hb⟩
    rw [hxs.unique (h.queue a ha)] at hb
    exact subQueue_mem.1 hb
  · intro hb
    have ha := h.alive a b hb
    exact ⟨ha, _, h.queue a ha, subQueue_mem.2 hb⟩

/-- A node on a queue points to another one. -/
theorem onQueue_of_mem (h : c.Ok q) {a b : ℕ} (hb : b ∈ q a) : c.onQueue b = true := by
  obtain ⟨⟨n, -, hn, hne⟩, -⟩ := (h.queue a (h.alive a b hb)).neighbours (subQueue_mem.2 hb)
  simp only [onQueue, hn, Option.isSome_some, QueueMem.empty, Option.some.injEq, hne,
    decide_false, Bool.not_false, Bool.and_self]

theorem onQueue_iff (h : c.Ok q) {b : ℕ} {s : CoreSession} (hs : c.sessions.get b = some s) :
    c.onQueue b = false ↔ ∀ a, b ∉ q a := by
  constructor
  · intro hoff a hb
    exact absurd (h.onQueue_of_mem hb) (by simp [hoff])
  · intro hno
    simp [onQueue, h.alone b s hs hno, QueueMem.empty]

theorem empty_iff (h : c.Ok q) {a : ℕ} (ha : (c.sources.get a).isSome) :
    c.links.empty (.subscribers a) = true ↔ q a = [] := by
  rw [(h.queue a ha).empty_iff, List.map_eq_nil_iff]

theorem nodup (h : c.Ok q) (a : ℕ) : (q a).Nodup := by
  by_cases ha : (c.sources.get a).isSome
  · exact List.Nodup.of_map _ (List.nodup_cons.1 (h.queue a ha).nodup).2
  · rw [List.eq_nil_iff_forall_not_mem.2 fun b hb => ha (h.alive a b hb)]
    exact List.nodup_nil

/-- A session that is not there, or just comes, stands on no queue. -/
theorem notMem_of_none (h : c.Ok q) {b : ℕ} (hb : c.sessions.get b = none) (a : ℕ) : b ∉ q a := by
  intro hm
  obtain ⟨s, hs, -⟩ := h.listed a b hm
  exact nomatch hb.symm.trans hs

theorem setHolders (h : c.Ok q) (src : ℕ) (publishing audioCtx : Bool) :
    (c.setHolders src publishing audioCtx).Ok q := by
  have hsome : ∀ a, ((c.setHolders src publishing audioCtx).sources.get a).isSome =
      (c.sources.get a).isSome := Pool.isSome_modify _ _ _
  refine ⟨fun a ha => h.queue a (hsome a ▸ ha), fun a b hb => ?_, h.listed, h.one, h.alone,
    fun b s a hs hsa => ?_⟩
  · rw [hsome a]
    exact h.alive a b hb
  · rw [hsome a]
    exact h.holder b s a hs hsa

theorem sourceCreate (h : c.Ok q) (alloc : Bool) (name : SourceName) :
    (c.sourceCreate alloc name).Ok q := by
  unfold Core.sourceCreate
  split
  · exact h
  · split_ifs with halloc
    · have hother : ∀ n, n ≠ .subscribers c.sources.next →
          (c.links.init (.subscribers c.sources.next)).next n = c.links.next n ∧
            (c.links.init (.subscribers c.sources.next)).prev n = c.links.prev n :=
        fun n hn => QueueMem.links_init hn
      have hnil : q c.sources.next = [] := by
        refine List.eq_nil_iff_forall_not_mem.2 fun b hb => ?_
        have halive := h.alive _ b hb
        rw [Pool.get_next] at halive
        exact nomatch halive
      have hget : ∀ a, (c.sources.get a).isSome →
          ((c.sources.alloc ⟨name, false, false⟩).get a).isSome := by
        intro a ha
        rw [Pool.get_alloc]
        split_ifs
        · rfl
        · exact ha
      refine ⟨fun a ha => ?_, fun a b hb => hget a (h.alive a b hb), h.listed, h.one, ?_,
        fun b s a hs hsa => hget a (h.holder b s a hs hsa)⟩
      · by_cases hnew : a = c.sources.next
        · subst hnew
          rw [hnil]
          exact QueueMem.isQueue_init _ _
        · have hold : (c.sources.get a).isSome := by
            rw [Pool.get_alloc, if_neg hnew] at ha
            exact ha
          refine (h.queue a hold).congr fun n hn => hother n ?_
          rintro rfl
          rcases List.mem_cons.1 hn with he | hm
          · exact hnew (SubNode.subscribers.inj he).symm
          · obtain ⟨b, -, he⟩ := List.mem_map.1 hm
            exact nomatch he
      · intro b s hs hno
        rw [(hother (.subQueue b) (by simp)).1]
        exact h.alone b s hs hno
    · exact h

end Ok

theorem hasHolder_eq_false {c : Core} {a : ℕ} :
    c.hasHolder a = false ↔ ∀ b s, c.sessions.get b = some s → s.source ≠ some a := by
  simp only [hasHolder, List.any_eq_false, Prod.forall, Pool.mem_cells_iff, decide_eq_true_eq, ne_eq]

/-- The state in which a source may be freed: nobody is on its queue, no session points to it, it is
    not published and has no transcoder. -/
structure Idle (c : Core) (a : ℕ) : Prop where
  source : ∃ src, c.sources.get a = some src ∧ src.publishing = false ∧ src.audioCtx = false
  unheld : ∀ b s, c.sessions.get b = some s → s.source ≠ some a
  emptyQueue : c.links.empty (.subscribers a) = true

theorem idle_of_removable {c : Core} {a : ℕ} {s : CoreSource} (hsrc : c.sources.get a = some s)
    (h : c.removable a s = true) : c.Idle a := by
  simp only [removable, Bool.and_eq_true, Bool.not_eq_true'] at h
  obtain ⟨⟨⟨hempty, hpub⟩, hheld⟩, haudio⟩ := h
  exact ⟨⟨s, hsrc, hpub, haudio⟩, hasHolder_eq_false.1 hheld, hempty⟩

/-- **A removal** does nothing, or frees an idle source. -/
theorem sourceRemove_cases (c : Core) (name : SourceName) :
    c.sourceRemove name = c ∨
      ∃ a, c.Idle a ∧ c.sourceRemove name = { c with sources := c.sources.free a } := by
  unfold sourceRemove
  split
  · exact .inl rfl
  · next a _ =>
    split
    · exact .inl rfl
    · next src hsrc =>
      split_ifs with hrem
      · exact .inr ⟨a, idle_of_removable hsrc hrem, rfl⟩
      · exact .inl rfl

/-- Unsubscribing a session from a source it does not point to. -/
theorem unsubscribe_other {c : Core} {src sess : ℕ}
    (h : ∀ s, c.sessions.get sess = some s → s.source ≠ some src) : c.unsubscribe src sess = c := by
  unfold unsubscribe
  split
  · rfl
  · next s hs => rw [if_pos (h s hs)]

/-- **An unsubscription** unlinks the session and then frees at most an idle source. -/
theorem unsubscribe_held {c : Core} {src sess : ℕ} {s : CoreSession}
    (hs : c.sessions.get sess = some s) (hsrc : s.source = some src) :
    c.unsubscribe src sess = c.unlink sess ∨
      ∃ a, (c.unlink sess).Idle a ∧
        c.unsubscribe src sess =
          { c.unlink sess with sources := (c.unlink sess).sources.free a } := by
  simp only [unsubscribe, hs, hsrc, ne_eq, not_true_eq_false, if_false]
  split
  · exact .inl rfl
  · split_ifs
    · exact sourceRemove_cases _ _
    · exact .inl rfl

theorem unsubscribe_cases (c : Core) (src sess : ℕ) :
    c.unsubscribe src sess = c ∨
      (∃ s, c.sessions.get sess = some s) ∧
        (c.unsubscribe src sess = c.unlink sess ∨
          ∃ a, (c.unlink sess).Idle a ∧
            c.unsubscribe src sess =
              { c.unlink sess with sources := (c.unlink sess).sources.free a }) := by
  by_cases h : ∃ s, c.sessions.get sess = some s ∧ s.source = some src
  · obtain ⟨s, hs, hsrc⟩ := h
    exact .inr ⟨⟨s, hs⟩, unsubscribe_held hs hsrc⟩
  · exact .inl (unsubscribe_other fun s hs hsrc => h ⟨s, hs, hsrc⟩)

theorem onQueue_unlink (c : Core) (sess : ℕ) : (c.unlink sess).onQueue sess = false := by
  simp only [onQueue, unlink, QueueMem.empty, QueueMem.init_next, if_true, decide_true,
    Bool.not_true, Bool.and_false]

namespace Ok

variable {c : Core} {q : ℕ → List ℕ}

/-- Freeing an idle source. -/
theorem free (h : c.Ok q) {a : ℕ} (ha : c.Idle a) :
    Ok { c with sources := c.sources.free a } q := by
  have hsome : (c.sources.get a).isSome := by
    obtain ⟨src, hsrc, -⟩ := ha.source
    rw [hsrc]
    rfl
  have hget : ∀ a', a' ≠ a → (c.sources.free a).get a' = c.sources.get a' :=
    fun a' hne => Pool.get_free_of_ne hne
  refine ⟨fun a' ha' => ?_, fun a' b hb => ?_, h.listed, h.one, h.alone, fun b s a' hs hsa => ?_⟩
  · refine h.queue a' ?_
    by_cases hne : a' = a
    · exact hne ▸ hsome
    · rwa [hget a' hne] at ha'
  · have hne : a' ≠ a := by
      rintro rfl
      rw [(h.empty_iff hsome).1 ha.emptyQueue] at hb
      exact absurd hb List.not_mem_nil
    show ((c.sources.free a).get a').isSome
    rw [hget a' hne]
    exact h.alive a' b hb
  · have hne : a' ≠ a := by
      rintro rfl
      exact ha.unheld b s hs hsa
    show ((c.sources.free a).get a').isSome
    rw [hget a' hne]
    exact h.holder b s a' hs hsa

theorem sourceRemove (h : c.Ok q) (name : SourceName) : (c.sourceRemove name).Ok q := by
  rcases c.sourceRemove_cases name with he | ⟨a, ha, he⟩ <;> rw [he]
  · exact h
  · exact h.free ha

theorem sessionAdd (h : c.Ok q) {source : Option ℕ}
    (hsrc : ∀ src, source = some src → (c.sources.get src).isSome) : (c.sessionAdd source).Ok q := by
  have hfresh : ∀ a, c.sessions.next ∉ q a := h.notMem_of_none (Pool.get_next _)
  have hother : ∀ n, n ≠ .subQueue c.sessions.next →
      (c.sessionAdd source).links.next n = c.links.next n ∧
        (c.sessionAdd source).links.prev n = c.links.prev n := fun n hn => QueueMem.links_init hn
  refine ⟨fun a ha => (h.queue a ha).congr fun n hn => hother n ?_, h.alive, fun a b hb => ?_, h.one,
    fun b s hs hno => ?_, fun b s a hs hsa => ?_⟩
  · rintro rfl
    rcases List.mem_cons.1 hn with he | hm
    · exact nomatch he
    · exact hfresh a (subQueue_mem.1 hm)
  · obtain ⟨s, hs, hss⟩ := h.listed a b hb
    exact ⟨s, Pool.get_alloc_of_some hs, hss⟩
  · by_cases hb : b = c.sessions.next
    · subst hb
      exact (QueueMem.isQueue_init c.links _).path.1
    · rw [(hother (.subQueue b) fun he => hb (SubNode.subQueue.inj he)).1]
      have hold : c.sessions.get b = some s := by
        rwa [Core.sessionAdd, Pool.get_alloc, if_neg hb] at hs
      exact h.alone b s hold hno
  · rw [Core.sessionAdd, Pool.get_alloc] at hs
    split_ifs at hs with hb
    · obtain rfl := Option.some.inj hs
      exact hsrc a hsa
    · exact h.holder b s a hs hsa

theorem assign (h : c.Ok q) {sess src : ℕ} (hsrc : (c.sources.get src).isSome) :
    (c.assign sess src).Ok q := by
  have hold : ∀ b s', (c.assign sess src).sessions.get b = some s' →
      ∃ s, c.sessions.get b = some s ∧ (s' = s ∨ s'.source = some src) := by
    intro b s' hs'
    rw [Core.assign, Pool.get_modify] at hs'
    split_ifs at hs'
    · obtain ⟨s, hs, rfl⟩ := Option.map_eq_some_iff.1 hs'
      exact ⟨s, hs, .inr rfl⟩
    · exact ⟨s', hs', .inl rfl⟩
  refine ⟨h.queue, h.alive, fun a b hb => ?_, h.one, fun b s' hs' hno => ?_, fun b s' a hs' hsa => ?_⟩
  · obtain ⟨s, hs, hss⟩ := h.listed a b hb
    rw [Core.assign, Pool.get_modify]
    split_ifs
    · exact ⟨⟨some src⟩, by rw [hs]; rfl, rfl⟩
    · exact ⟨s, hs, hss⟩
  · obtain ⟨s, hs, -⟩ := hold b s' hs'
    exact h.alone b s hs hno
  · obtain ⟨s, hs, rfl | hs'a⟩ := hold b s' hs'
    · exact h.holder b s' a hs hsa
    · obtain rfl := Option.some.inj (hs'a.symm.trans hsa)
      exact hsrc

theorem sessionRemove (h : c.Ok q) {sess : ℕ}
    (hoff : (c.sessions.get sess).isSome → c.onQueue sess = false) : (c.sessionRemove sess).Ok q := by
  have hold : ∀ b s, (c.sessionRemove sess).sessions.get b = some s → c.sessions.get b = some s := by
    intro b s hs
    rw [Core.sessionRemove, Pool.get_free] at hs
    split_ifs at hs
    exact hs
  refine ⟨h.queue, h.alive, fun a b hb => ?_, h.one, fun b s hs => h.alone b s (hold b s hs),
    fun b s a hs => h.holder b s a (hold b s hs)⟩
  obtain ⟨s, hs, hss⟩ := h.listed a b hb
  have hne : b ≠ sess := by
    rintro rfl
    have hoff := hoff (by rw [hs]; rfl)
    exact absurd (h.onQueue_of_mem hb) (by simp [hoff])
  exact ⟨s, by rwa [Core.sessionRemove, Pool.get_free_of_ne hne], hss⟩

/-- **Subscribing** puts a session that stands on no queue in front of the source's. -/
theorem subscribe (h : c.Ok q) {src sess : ℕ} (hsrc : (c.sources.get src).isSome)
    (hsess : (c.sessions.get sess).isSome) (hoff : c.onQueue sess = false) :
    (c.subscribe src sess).Ok (Function.update q src (sess :: q src)) := by
  obtain ⟨s, hs⟩ := Option.isSome_iff_exists.1 hsess
  have hno := (h.onQueue_iff hs).1 hoff
  have hmem : ∀ a b, b ∈ Function.update q src (sess :: q src) a ↔
      b ∈ q a ∨ a = src ∧ b = sess := by
    intro a b
    by_cases ha : a = src
    · subst ha
      simp [or_comm]
    · simp [ha]
  have hother : ∀ n, n ≠ .subQueue sess → n ∉ .subscribers src :: (q src).map SubNode.subQueue →
      (c.subscribe src sess).links.next n = c.links.next n ∧
        (c.subscribe src sess).links.prev n = c.links.prev n :=
    fun n hne hn => QueueMem.links_insertHead (h.queue src hsrc) hne hn
  have hold : ∀ b t, (c.subscribe src sess).sessions.get b = some t →
      ∃ s, c.sessions.get b = some s ∧ (t = s ∨ b = sess ∧ t.source = some src) := by
    intro b t ht
    rw [Core.subscribe, Pool.get_modify] at ht
    split_ifs at ht with hb
    · obtain ⟨s, hs, rfl⟩ := Option.map_eq_some_iff.1 ht
      exact ⟨s, hs, .inr ⟨hb, rfl⟩⟩
    · exact ⟨t, ht, .inl rfl⟩
  refine ⟨fun a ha => ?_, fun a b hb => ?_, fun a b hb => ?_, fun a a' b hb hb' => ?_,
    fun b t ht hnot => ?_, fun b t a ht hta => ?_⟩
  · by_cases hsa : a = src
    · subst hsa
      rw [Function.update_self]
      refine QueueMem.isQueue_insertHead (h.queue a hsrc) ?_
      rw [List.mem_cons, not_or, subQueue_mem]
      exact ⟨by simp, hno a⟩
    · rw [Function.update_of_ne hsa]
      refine (h.queue a ha).congr fun n hn => hother n ?_ ?_
      · rintro rfl
        rcases List.mem_cons.1 hn with he | hm
        · exact nomatch he
        · exact hno a (subQueue_mem.1 hm)
      · intro hn'
        rcases List.mem_cons.1 hn with rfl | hm
        · rcases List.mem_cons.1 hn' with he | hm'
          · exact hsa (SubNode.subscribers.inj he)
          · obtain ⟨b, -, he⟩ := List.mem_map.1 hm'
            exact nomatch he
        · obtain ⟨b, hb, rfl⟩ := List.mem_map.1 hm
          rcases List.mem_cons.1 hn' with he | hm'
          · exact nomatch he
          · exact hsa (h.one a src b hb (subQueue_mem.1 hm'))
  · rcases (hmem a b).1 hb with hb | ⟨rfl, -⟩
    · exact h.alive a b hb
    · exact hsrc
  · rw [Core.subscribe, Pool.get_modify]
    split_ifs with hbs
    · exact ⟨⟨some src⟩, by rw [hbs, hs]; rfl, rfl⟩
    · rcases (hmem a b).1 hb with hb | ⟨-, he⟩
      · exact h.listed a b hb
      · exact absurd he hbs
  · rcases (hmem a b).1 hb with hm | ⟨ha, hbs⟩ <;>
      rcases (hmem a' b).1 hb' with hm' | ⟨ha', hbs'⟩
    · exact h.one a a' b hm hm'
    · exact absurd (hbs' ▸ hm) (hno a)
    · exact absurd (hbs ▸ hm') (hno a')
    · exact ha.trans ha'.symm
  · have hbs : b ≠ sess := by
      rintro rfl
      exact hnot src ((hmem src b).2 (.inr ⟨rfl, rfl⟩))
    have hnob : ∀ a, b ∉ q a := fun a hb => hnot a ((hmem a b).2 (.inl hb))
    obtain ⟨s', hs', -⟩ := hold b t ht
    rw [(hother (.subQueue b) (fun he => hbs (SubNode.subQueue.inj he)) ?_).1]
    · exact h.alone b s' hs' hnob
    · rw [List.mem_cons, not_or, subQueue_mem]
      exact ⟨by simp, hnob src⟩
  · obtain ⟨s', hs', rfl | ⟨-, hts⟩⟩ := hold b t ht
    · exact h.holder b t a hs' hta
    · obtain rfl := Option.some.inj (hts.symm.trans hta)
      exact hsrc

/-- Unlinking touches only the session's own link and the queue it stands on. -/
theorem links_unlink (h : c.Ok q) {sess : ℕ} {s : CoreSession} (hs : c.sessions.get sess = some s)
    {n : SubNode} (hn : n ≠ .subQueue sess)
    (hq : ∀ a, sess ∈ q a → n ∉ .subscribers a :: (q a).map SubNode.subQueue) :
    (c.unlink sess).links.next n = c.links.next n ∧
      (c.unlink sess).links.prev n = c.links.prev n := by
  simp only [Core.unlink, QueueMem.links_init hn]
  by_cases hon : ∃ a, sess ∈ q a
  · obtain ⟨a, ha⟩ := hon
    rw [if_pos (h.onQueue_of_mem ha)]
    exact QueueMem.links_remove (h.queue a (h.alive a sess ha)) (subQueue_mem.2 ha) (hq a ha)
  · rw [if_neg]
    · exact ⟨rfl, rfl⟩
    · rw [Bool.not_eq_true]
      exact (h.onQueue_iff hs).2 fun a ha => hon ⟨a, ha⟩

/-- **Unlinking** takes the session off every queue. -/
theorem unlink (h : c.Ok q) {sess : ℕ} {s : CoreSession} (hs : c.sessions.get sess = some s) :
    (c.unlink sess).Ok fun a => (q a).erase sess := by
  have hmem : ∀ a b, b ∈ (q a).erase sess → b ≠ sess ∧ b ∈ q a :=
    fun a b hb => (h.nodup a).mem_erase_iff.1 hb
  have hold : ∀ b t, (c.unlink sess).sessions.get b = some t → b ≠ sess ∧ c.sessions.get b = some t ∨
      b = sess ∧ t.source = none := by
    intro b t ht
    rw [Core.unlink, Pool.get_modify] at ht
    split_ifs at ht with hb
    · obtain ⟨u, -, rfl⟩ := Option.map_eq_some_iff.1 ht
      exact .inr ⟨hb, rfl⟩
    · exact .inl ⟨hb, ht⟩
  refine ⟨fun a ha => ?_, fun a b hb => h.alive a b (hmem a b hb).2, fun a b hb => ?_,
    fun a a' b hb hb' => h.one a a' b (hmem a b hb).2 (hmem a' b hb').2, fun b t ht hno => ?_,
    fun b t a ht hta => ?_⟩
  · by_cases hsa : sess ∈ q a
    · have hrem := QueueMem.isQueue_remove (h.queue a ha) (subQueue_mem.2 hsa)
      rw [← List.map_erase subQueue_injective] at hrem
      simp only [Core.unlink, if_pos (h.onQueue_of_mem hsa)]
      refine hrem.congr fun n hn => QueueMem.links_init ?_
      rintro rfl
      rcases List.mem_cons.1 hn with he | hm
      · exact nomatch he
      · exact (hmem a sess (subQueue_mem.1 hm)).1 rfl
    · rw [List.erase_of_not_mem hsa]
      refine (h.queue a ha).congr fun n hn => h.links_unlink hs ?_ fun a' ha' hn' => ?_
      · rintro rfl
        rcases List.mem_cons.1 hn with he | hm
        · exact nomatch he
        · exact hsa (subQueue_mem.1 hm)
      · rcases List.mem_cons.1 hn with rfl | hm
        · rcases List.mem_cons.1 hn' with he | hm'
          · exact hsa (SubNode.subscribers.inj he ▸ ha')
          · obtain ⟨b, -, he⟩ := List.mem_map.1 hm'
            exact nomatch he
        · obtain ⟨b, hb, rfl⟩ := List.mem_map.1 hm
          rcases List.mem_cons.1 hn' with he | hm'
          · exact nomatch he
          · exact hsa (h.one a a' b hb (subQueue_mem.1 hm') ▸ ha')
  · obtain ⟨hne, hb⟩ := hmem a b hb
    obtain ⟨t, ht, hts⟩ := h.listed a b hb
    exact ⟨t, by rwa [Core.unlink, Pool.get_modify_of_ne hne], hts⟩
  · rcases hold b t ht with ⟨hne, ht⟩ | ⟨rfl, -⟩
    · have hnob : ∀ a, b ∉ q a := fun a hb => hno a ((h.nodup a).mem_erase_iff.2 ⟨hne, hb⟩)
      rw [(h.links_unlink hs (fun he => hne (SubNode.subQueue.inj he)) fun a _ hn => ?_).1]
      · exact h.alone b t ht hnob
      · rcases List.mem_cons.1 hn with he | hm
        · exact nomatch he
        · exact hnob a (subQueue_mem.1 hm)
    · exact (QueueMem.isQueue_init _ _).path.1
  · rcases hold b t ht with ⟨-, ht⟩ | ⟨-, hnone⟩
    · exact h.holder b t a ht hta
    · exact nomatch hnone.symm.trans hta

theorem unsubscribe (h : c.Ok q) (src sess : ℕ) :
    ∃ q', (c.unsubscribe src sess).Ok q' ∧ ∀ a b, b ≠ sess → (b ∈ q' a ↔ b ∈ q a) := by
  rcases c.unsubscribe_cases src sess with he | ⟨⟨s, hs⟩, he⟩
  · exact ⟨q, he.symm ▸ h, fun _ _ _ => Iff.rfl⟩
  · refine ⟨fun a => (q a).erase sess, ?_, fun a b hb => List.mem_erase_of_ne hb⟩
    rcases he with he | ⟨a, ha, he⟩
    · exact he ▸ h.unlink hs
    · exact he ▸ (h.unlink hs).free ha

theorem close (h : c.Ok q) (sess : ℕ) : ∃ q', (c.close sess).Ok q' := by
  unfold Core.close
  split
  · exact ⟨q, h⟩
  · next s hs =>
    cases hsrc : s.source with
    | none =>
      refine ⟨q, h.sessionRemove fun _ => (h.onQueue_iff hs).2 fun a hm => ?_⟩
      obtain ⟨t, ht, hts⟩ := h.listed a sess hm
      obtain rfl := Option.some.inj (hs.symm.trans ht)
      exact nomatch hsrc ▸ hts
    | some src =>
      have hoff := c.onQueue_unlink sess
      rcases unsubscribe_held hs hsrc with he | ⟨a, ha, he⟩
      · exact ⟨_, (he ▸ h.unlink hs).sessionRemove fun _ => he ▸ hoff⟩
      · exact ⟨_, (he ▸ (h.unlink hs).free ha).sessionRemove fun _ => he ▸ hoff⟩

end Ok

end Core

/-- **Every allowed operation keeps the registry together.** -/
theorem CoreOp.ok_step {c : Core} {q : ℕ → List ℕ} (h : c.Ok q) {op : CoreOp} (hop : op.Allowed c) :
    ∃ q', (op.step c).Ok q' := by
  cases op with
  | sourceCreate alloc name => exact ⟨q, h.sourceCreate alloc name⟩
  | sourceRemove name => exact ⟨q, h.sourceRemove name⟩
  | setHolders src publishing audioCtx => exact ⟨q, h.setHolders src publishing audioCtx⟩
  | sessionAdd source => exact ⟨q, h.sessionAdd hop⟩
  | assign sess src => exact ⟨q, h.assign hop⟩
  | subscribe src sess => exact ⟨_, h.subscribe hop.1 hop.2.1 hop.2.2⟩
  | unsubscribe src sess =>
    obtain ⟨q', hq', -⟩ := h.unsubscribe src sess
    exact ⟨q', hq'⟩
  | close sess => exact h.close sess
  | sessionRemove sess => exact ⟨q, h.sessionRemove hop⟩

/-- **A source is freed only idle**, in the state in which the operation comes to remove it. -/
theorem CoreOp.freed_idle {c : Core} {op : CoreOp} {a : ℕ} (ha : (c.sources.get a).isSome)
    (hfree : (op.step c).sources.get a = none) : (op.atRemoval c).Idle a := by
  have hkept : ∀ c' : Core, (∀ b, (c'.sources.get b).isSome = (c.sources.get b).isSome) →
      c'.sources.get a ≠ none := by
    intro c' hc' hnone
    have hsome := hc' a
    rw [hnone, ha] at hsome
    exact nomatch hsome
  have hfreed : ∀ {c₀ c' : Core}, (∀ b, (c₀.sources.get b).isSome = (c.sources.get b).isSome) →
      c' = c₀ ∨ (∃ b, c₀.Idle b ∧ c' = { c₀ with sources := c₀.sources.free b }) →
        c'.sources.get a = none → c₀.Idle a := by
    rintro c₀ c' hc₀ (rfl | ⟨b, hb, rfl⟩) hnone
    · exact absurd hnone (hkept _ hc₀)
    · by_cases hab : a = b
      · exact hab ▸ hb
      · exact absurd ((Pool.get_free_of_ne hab).symm.trans hnone) (hkept _ hc₀)
  have hsame : ∀ b, (c.sources.get b).isSome = (c.sources.get b).isSome := fun _ => rfl
  cases op with
  | sourceCreate alloc name =>
    simp only [CoreOp.step, Core.sourceCreate] at hfree
    split at hfree
    · exact absurd hfree (hkept _ hsame)
    · split_ifs at hfree
      · obtain ⟨src, hsrc⟩ := Option.isSome_iff_exists.1 ha
        exact nomatch (Pool.get_alloc_of_some hsrc).symm.trans hfree
      · exact absurd hfree (hkept _ hsame)
  | sourceRemove name => exact hfreed hsame (c.sourceRemove_cases name) hfree
  | setHolders src publishing audioCtx => exact absurd hfree (hkept _ (Pool.isSome_modify _ _ _))
  | sessionAdd source => exact absurd hfree (hkept _ hsame)
  | assign sess src => exact absurd hfree (hkept _ hsame)
  | subscribe src sess => exact absurd hfree (hkept _ hsame)
  | unsubscribe src sess =>
    rcases c.unsubscribe_cases src sess with he | ⟨-, he⟩
    · exact absurd (he ▸ hfree) (hkept _ hsame)
    · exact hfreed hsame he hfree
  | close sess =>
    simp only [CoreOp.step, Core.close] at hfree
    split at hfree
    · exact absurd hfree (hkept _ hsame)
    · next s hs =>
      cases hsrc : s.source with
      | none =>
        rw [hsrc] at hfree
        exact absurd hfree (hkept _ hsame)
      | some src =>
        rw [hsrc] at hfree
        exact hfreed hsame (Core.unsubscribe_held hs hsrc) hfree
  | sessionRemove sess => exact absurd hfree (hkept _ hsame)

/-- What a registry promises about the life of its sources: every operation frees only idle sources,
    no session points to a freed source, and an unsubscription changes nobody else's subscription,
    whether or not the session was on a queue. -/
structure Core.Lifetimes (c : Core) : Prop where
  freed : ∀ (op : CoreOp) a, (c.sources.get a).isSome → (op.step c).sources.get a = none →
    (op.atRemoval c).Idle a
  held : ∀ b s a, c.sessions.get b = some s → s.source = some a → (c.sources.get a).isSome
  others : ∀ src sess a b, b ≠ sess →
    ((c.unsubscribe src sess).Subscribed a b ↔ c.Subscribed a b)
  left : ∀ sess s src a, c.sessions.get sess = some s → s.source = some src →
    ¬ (c.unsubscribe src sess).Subscribed a sess

theorem Core.lifetimes {c : Core} {q : ℕ → List ℕ} (h : c.Ok q) : c.Lifetimes where
  freed _ _ ha hfree := CoreOp.freed_idle ha hfree
  held := h.holder
  others src sess a b hb := by
    obtain ⟨q', hq', hsame⟩ := h.unsubscribe src sess
    rw [hq'.subscribed_iff, h.subscribed_iff]
    exact hsame a b hb
  left sess s src a hs hsrc := by
    have hq' : (c.unsubscribe src sess).Ok fun a => (q a).erase sess := by
      rcases Core.unsubscribe_held hs hsrc with he | ⟨b, hb, he⟩
      · exact he ▸ h.unlink hs
      · exact he ▸ (h.unlink hs).free hb
    rw [hq'.subscribed_iff]
    exact fun hm => ((h.nodup a).mem_erase_iff.1 hm).1 rfl

end NginxRtc
