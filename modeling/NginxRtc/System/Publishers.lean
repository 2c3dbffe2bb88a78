/-
  The publishers of one stream: any number of workers, each with its own local source, over the
  shared registry.

  An event is one call of a worker on its local source, or any other call on the registry.  A
  release is two events, because the claim is released and the shared source handed back in two
  critical sections.

  `Publishers.sane_run`: the registry keeps its shape and the local sources their name.
  `still_event`: a publish goes on through every event that is not one of its `ends`.
  `claim_held_iff`: a successful claim holds the shared source exactly if there was one, and two
  kinds are never granted one after the other without an end of the first publish between them.
-/
import Mathlib.Logic.Function.Basic
import NginxRtc.Worker.Publish

namespace NginxRtc

/-- The call, made at time `now`. -/
def ShmOp.retime (now : ℕ) : ShmOp → ShmOp
  | .sourceGet env name => .sourceGet { env with now := now } name
  | .tryPublish _ name kind => .tryPublish now name kind
  | .releasePublish _ name kind => .releasePublish now name kind
  | .sessionAdd env args => .sessionAdd { env with now := now } args
  | .removeIfOwner _ ufrag slot => .removeIfOwner now ufrag slot
  | .expire _ forced => .expire now forced
  | .setStatsSeen a stats _ => .setStatsSeen a stats now
  | op => op

theorem ShmOp.retime_beat (now : ℕ) (op : ShmOp) :
    ∀ b, (op.retime now).beat = some b → b = now := by
  cases op <;> simp [retime, beat, eq_comm]

structure Publishers where
  sh : ShmCtx
  now : ℕ
  src : ℕ → Source

/-- The steps of worker `w` on its source: a claim, the release of a claim, the attach of a
    publishing session, a packet on the WHIP or on the RTMP media path, and the source being freed
    and built anew.  `registry` is any other registry call of any worker. -/
inductive PubEvent where
  | claim (w : ℕ) (kind : PublisherKind) (env : Env)
  | release (w : ℕ)
  | attach (w : ℕ) (env : Env)
  | renew (w : ℕ)
  | sync (w : ℕ) (env : Env)
  | reset (w : ℕ)
  | registry (op : ShmOp)
  | tick (d : ℕ)

namespace Publishers

/-- No source shared yet, and none claimed. -/
def init (nworkers : ℕ) (rings : List (Option MediaRing)) (now : ℕ) (name : SourceName) :
    Publishers :=
  ⟨ShmCtx.init nworkers rings, now, fun _ => Source.fresh name⟩

/-- What the allocator answers a call made now. -/
def env (s : Publishers) (e : Env) : Env := { e with now := s.now }

/-- The state after worker `w` called into the registry. -/
def put (s : Publishers) (w : ℕ) (sh : ShmCtx) (src : Source) : Publishers :=
  { s with sh := sh, src := Function.update s.src w src }

def step (s : Publishers) : PubEvent → Publishers
  | .claim w kind e =>
    s.put w (publishClaimIn s.sh (s.env e) (s.src w) kind).1
      (publishClaimIn s.sh (s.env e) (s.src w) kind).2.1
  | .release w =>
    s.put w (publishReleaseIn s.sh s.now (s.src w)).1 (publishReleaseIn s.sh s.now (s.src w)).2
  | .attach w e =>
    s.put w (adoptIn s.sh (s.env e) (s.src w)).1 (adoptIn s.sh (s.env e) (s.src w)).2
  | .renew w =>
    s.put w (streamShmSourceIn s.sh s.now (s.src w)).1 (streamShmSourceIn s.sh s.now (s.src w)).2.1
  | .sync w e =>
    s.put w (rtmpSyncShmIn s.sh w (s.env e) (s.src w)).1
      (rtmpSyncShmIn s.sh w (s.env e) (s.src w)).2.1
  | .reset w => s.put w s.sh (Source.fresh (s.src w).name)
  | .registry op => { s with sh := (op.retime s.now).step s.sh }
  | .tick d => { s with now := s.now + d }

@[simp] theorem put_src_self (s : Publishers) (w : ℕ) (sh : ShmCtx) (src : Source) :
    (s.put w sh src).src w = src := Function.update_self ..

theorem put_src_of_ne {s : Publishers} {w v : ℕ} (h : v ≠ w) (sh : ShmCtx) (src : Source) :
    (s.put w sh src).src v = s.src v := Function.update_of_ne h ..

@[simp] theorem put_sh (s : Publishers) (w : ℕ) (sh : ShmCtx) (src : Source) :
    (s.put w sh src).sh = sh := rfl

@[simp] theorem put_now (s : Publishers) (w : ℕ) (sh : ShmCtx) (src : Source) :
    (s.put w sh src).now = s.now := rfl

/-- Release and hand-back, one after the other, are `ngx_rtc_publish_release`. -/
theorem release_remove (s : Publishers) (w : ℕ) {kind : PublisherKind}
    (h : (s.src w).publisherKind = some kind) :
    (((s.step (.release w)).step (.registry (.sourceRemove (s.src w).name))).sh,
        ((s.step (.release w)).step (.registry (.sourceRemove (s.src w).name))).src w) =
      ((publishRelease (some s.sh) s.now (s.src w)).1.getD s.sh,
        (publishRelease (some s.sh) s.now (s.src w)).2) := by
  simp only [publishRelease, h, step, ShmOp.retime, ShmOp.step, put_sh, put_src_self,
    Option.getD_some]

/-! ## Every state is sane -/

structure Sane (name : SourceName) (s : Publishers) : Prop where
  shape : s.sh.Shape
  name : ∀ w, (s.src w).name = name
  mirrored : ∀ w, (s.src w).Mirrored

variable {name : SourceName}

theorem sane_init (nworkers : ℕ) (rings : List (Option MediaRing)) (now : ℕ) :
    (init nworkers rings now name).Sane name :=
  ⟨ShmCtx.shape_init nworkers rings, fun _ => rfl, fun _ => Source.fresh_mirrored name⟩

theorem Sane.put {s : Publishers} (h : s.Sane name) {w : ℕ} {sh : ShmCtx} {src : Source}
    (hsh : sh.Shape) (hsrc : src.name = (s.src w).name) (hm : src.Mirrored) :
    (s.put w sh src).Sane name := by
  refine ⟨hsh, fun v => ?_, fun v => ?_⟩
  all_goals by_cases hv : v = w
  · subst hv; rw [put_src_self, hsrc, h.name]
  · rw [put_src_of_ne hv, h.name]
  · subst hv; rwa [put_src_self]
  · rw [put_src_of_ne hv]; exact h.mirrored v

theorem sane_step {s : Publishers} (e : PubEvent) (h : s.Sane name) : (s.step e).Sane name := by
  have hm := h.mirrored
  cases e with
  | claim w kind e =>
    exact h.put (publishClaimIn_shape h.shape ..) (publishClaimIn_name ..)
      (publishClaimIn_mirrored ..)
  | release w =>
    exact h.put (publishReleaseIn_shape h.shape ..) (publishReleaseIn_name ..)
      (publishReleaseIn_mirrored _ _ (hm w))
  | attach w e => exact h.put (adoptIn_shape h.shape ..) rfl (adoptIn_mirrored ..)
  | renew w =>
    exact h.put (streamShmSourceIn_shape h.shape ..) (streamShmSourceIn_name ..)
      (streamShmSourceIn_mirrored _ _ (hm w))
  | sync w e =>
    exact h.put (rtmpSyncShmIn_shape h.shape ..) (rtmpSyncShmIn_name ..)
      (rtmpSyncShmIn_mirrored _ _ _ (hm w))
  | reset w => exact h.put h.shape rfl (Source.fresh_mirrored _)
  | registry op => exact ⟨(op.retime s.now).shape_step h.shape, h.name, h.mirrored⟩
  | tick d => exact ⟨h.shape, h.name, h.mirrored⟩

theorem sane_run {s : Publishers} (h : s.Sane name) (es : List PubEvent) :
    (Lts.run step s es).Sane name := by
  induction es generalizing s with
  | nil => exact h
  | cons e es ih => exact ih (sane_step e h)

/-! ## Ends of a publish -/

/-- The event releases the publish of the source at `a`, or reaps its dead publisher. -/
def ends (s : Publishers) (a : ℕ) : PubEvent → Bool
  | .release w =>
    match (s.src w).publisherKind with
    | none => false
    | some kind => (ShmOp.releasePublish s.now (s.src w).name kind).releases s.sh a
  | .registry op =>
    (op.retime s.now).releases s.sh a || (op.retime s.now).reaps s.sh a
  | _ => false

section Still
variable {s : Publishers} {a : ℕ} {src : ShmSource} {k : PublisherKind}

/-- **A publish goes on** through every event that is not one of its ends. -/
theorem still_event (hs : s.Sane name) (h : s.sh.sources.get a = some src) (hk : src.Held name k)
    {e : PubEvent} (he : s.ends a e = false) : (s.step e).sh.StillAt a s.now src := by
  have hl : ∀ w, s.sh.sourceLookup (s.src w).name = some a := fun w => by
    rw [hs.name w, ← hk.name]
    exact hs.shape.lookup_of_get h
  cases e with
  | claim w kind e => exact publishClaimIn_still h hk (s.env e) (s.src w) kind
  | release w =>
    cases hn : (s.src w).publisherKind with
    | none =>
      simp only [step, put_sh, publishReleaseIn, hn]
      exact ShmCtx.stillAt_of_get h
    | some kind =>
      simp only [step, put_sh, publishReleaseIn, hn]
      simp only [ends, hn] at he
      exact ShmCtx.stillAt_releasePublish h he
  | attach w e =>
    refine ⟨src, ?_, .refl _ src⟩
    simp only [step, put_sh, adoptIn, ShmCtx.sourceGet_of_lookup (hl w), h]
  | renew w =>
    simp only [step, put_sh]
    rcases streamShmSourceIn_sh s.sh s.now (s.src w) with hr | hr <;> rw [hr]
    · exact ShmCtx.stillAt_of_get h
    · exact ShmCtx.stillAt_tryPublish s.now (s.src w).name h hk.publishing hk.kind
  | sync w e => exact rtmpSyncShmIn_still h hk w (s.env e) (s.src w)
  | reset w => exact ShmCtx.stillAt_of_get h
  | registry op =>
    simp only [ends, Bool.or_eq_false_iff] at he
    exact ShmCtx.still_step _ (op.retime_beat s.now) h hk.publishing hk.kind he.1 he.2
  | tick d => exact ShmCtx.stillAt_of_get h

end Still

/-- A publish is held through any run without an end of it. -/
theorem held_run {s : Publishers} {a : ℕ} {k : PublisherKind} (hs : s.Sane name)
    (h : s.sh.HeldAt a name k) {es : List PubEvent}
    (ha : Lts.Along step (fun s e => s.ends a e = false) s es) :
    (Lts.run step s es).sh.HeldAt a name k := by
  refine (Lts.run_of_step (P := fun s => s.Sane name ∧ s.sh.HeldAt a name k)
    (fun s e hs he => ?_) ⟨hs, h⟩ ha).2
  obtain ⟨hsane, src, hsrc, hk⟩ := hs
  obtain ⟨src', hsrc', hstill⟩ := still_event hsane hsrc hk he
  exact ⟨sane_step e hsane, src', hsrc', hk.still hstill⟩

/-! ## Claims -/

/-- The claim an event makes.  An RTMP packet claims unless its cached pointer is fresh. -/
def claims (s : Publishers) : PubEvent → Option (ℕ × PublisherKind × Env)
  | .claim w kind e => some (w, kind, s.env e)
  | .sync w e =>
    if (s.src w).publisherKind = some .rtmp ∧ (s.src w).shmSrc ≠ none ∧
        (s.src w).inWindow s.now = true then none
    else some (w, .rtmp, s.env e)
  | _ => none

/-- The kind an event claims successfully. -/
def grants (s : Publishers) (e : PubEvent) : Option PublisherKind :=
  (s.claims e).bind fun c =>
    if (publishClaimIn s.sh c.2.2 (s.src c.1) c.2.1).2.2 = .ok then some c.2.1 else none

theorem grants_spec {s : Publishers} {e : PubEvent} {k : PublisherKind} (h : s.grants e = some k) :
    ∃ w env, s.claims e = some (w, k, env) ∧ (publishClaimIn s.sh env (s.src w) k).2.2 = .ok := by
  obtain ⟨⟨w, kind, env⟩, hc, hg⟩ := Option.bind_eq_some_iff.1 h
  split_ifs at hg with hok
  obtain rfl := Option.some.inj hg
  exact ⟨w, env, hc, hok⟩

/-- While a kind holds the source, no claim of another kind succeeds. -/
theorem grants_of_held {s : Publishers} (hs : s.Sane name) {a : ℕ} {k k' : PublisherKind}
    (h : s.sh.HeldAt a name k) {e : PubEvent} (hg : s.grants e = some k') : k' = k := by
  obtain ⟨w, env, -, hok⟩ := grants_spec hg
  obtain ⟨src, hsrc, hk⟩ := h
  have hl : s.sh.sourceLookup (s.src w).name = some a := by
    rw [hs.name w, ← hk.name]
    exact hs.shape.lookup_of_get hsrc
  rcases publishClaimIn_cases s.sh env (s.src w) k' with
    ⟨hn, -⟩ | ⟨b, t, j, -, -, -, -, he⟩ | ⟨b, t, hb, ht, -, hfree, -⟩
  · exact nomatch hn.symm.trans hl
  · rw [he] at hok
    exact nomatch hok
  · obtain rfl := Option.some.inj (hb.symm.trans hl)
    obtain rfl := Option.some.inj (ht.symm.trans hsrc)
    rcases hfree with hn | hn
    · exact nomatch hk.kind.symm.trans hn
    · exact Option.some.inj (hn.symm.trans hk.kind)

/-- A granted claim that found the shared source leaves it held. -/
theorem held_of_grants {s : Publishers} (hs : s.Sane name) {a : ℕ}
    (hl : s.sh.sourceLookup name = some a) {e : PubEvent} {k : PublisherKind}
    (hg : s.grants e = some k) : (s.step e).sh.HeldAt a name k := by
  obtain ⟨w, env, hc, hok⟩ := grants_spec hg
  -- the claim itself takes the source at `a`
  have hheld : (publishClaimIn s.sh env (s.src w) k).1.HeldAt a name k := by
    have h := publishClaimIn_held (by rw [hs.name w, hl]) hok
    rwa [hs.name w] at h
  cases e with
  | claim v kind e =>
    obtain ⟨rfl, rfl, rfl⟩ : v = w ∧ kind = k ∧ s.env e = env := by simpa [claims] using hc
    exact hheld
  | sync v e =>
    -- an RTMP packet that claims goes on to record itself in the source
    by_cases hf : (s.src v).publisherKind = some .rtmp ∧ (s.src v).shmSrc ≠ none ∧
        (s.src v).inWindow s.now = true
    · rw [claims, if_pos hf] at hc
      exact nomatch hc
    · rw [claims, if_neg hf] at hc
      obtain ⟨rfl, rfl, rfl⟩ : v = w ∧ .rtmp = k ∧ s.env e = env := by simpa using hc
      simp only [step, put_sh, @rtmpSyncShmIn_slow _ _ (s.env e) _ hf]
      rw [if_neg (by rw [hok]; decide)]
      obtain ⟨src, hsrc, hk⟩ := hheld
      obtain ⟨src', hsrc', hst⟩ := rtmpRecordIn_still (ShmCtx.stillAt_of_get (t := s.now) hsrc) v
        (publishClaimIn s.sh (s.env e) (s.src v) .rtmp).2.1
      exact ⟨src', hsrc', hk.still hst⟩
  | _ => simp [claims] at hc

/-- **Two kinds are never granted one after the other** without an end of the first publish, when
    the first claim found the shared source. -/
theorem grants_exclude {s : Publishers} (hs : s.Sane name) {a : ℕ}
    (hl : s.sh.sourceLookup name = some a) {e e' : PubEvent} {k k' : PublisherKind}
    (hg : s.grants e = some k) {es : List PubEvent}
    (hg' : (Lts.run step (s.step e) es).grants e' = some k') (hne : k ≠ k') :
    ¬ Lts.Along step (fun s e => s.ends a e = false) (s.step e) es := by
  intro ha
  have hsane := sane_step e hs
  have hheld := held_run hsane (held_of_grants hs hl hg) ha
  exact hne (grants_of_held (sane_run hsane es) hheld hg').symm

/-- What an accepted claim of worker `w` promises: the shared source is there, and published by
    `kind`. -/
def ClaimHeld (s : Publishers) (w : ℕ) (kind : PublisherKind) (env : Env) : Prop :=
  (publishClaimIn s.sh env (s.src w) kind).2.2 = .ok →
    ∃ a, (publishClaimIn s.sh env (s.src w) kind).1.sourceLookup (s.src w).name = some a ∧
      (publishClaimIn s.sh env (s.src w) kind).1.HeldAt a (s.src w).name kind

/-- **An accepted claim holds the shared source exactly if there was one** when it was made; and
    from such a claim on, no claim of another kind is accepted before the publish ends. -/
theorem claim_held_iff {nworkers : ℕ} {rings : List (Option MediaRing)} {now : ℕ}
    {name : SourceName} {s : Publishers}
    (h : Lts.Reachable step (init nworkers rings now name) s) :
    (∀ (w : ℕ) (kind : PublisherKind) (env : Env),
      s.ClaimHeld w kind env ↔ (s.sh.sourceLookup name).isSome) ∧
    ∀ (a : ℕ) (e e' : PubEvent) (k k' : PublisherKind) (es : List PubEvent),
      s.sh.sourceLookup name = some a → s.grants e = some k →
      (Lts.run step (s.step e) es).grants e' = some k' → k ≠ k' →
      ¬ Lts.Along step (fun s e => s.ends a e = false) (s.step e) es := by
  obtain ⟨es₀, rfl⟩ := h
  have hs := sane_run (@sane_init name nworkers rings now) es₀
  refine ⟨fun w kind env => ?_, fun a e e' k k' es hl hg hg' hne => ?_⟩
  · rw [ClaimHeld, publishClaimIn_held_iff, hs.name w]
  · exact grants_exclude hs hl hg hg' hne

/-- A claim on a stream whose shared source was created before. -/
theorem claim_held_after_create :
    ((init 2 [] 5 sampleName).step (.registry (.sourceGet (Env.at 5) sampleName))).ClaimHeld
      0 .rtmp (Env.at 5) :=
  ((@claim_held_iff 2 [] 5 sampleName _
    ⟨[.registry (.sourceGet (Env.at 5) sampleName)], rfl⟩).1 0 .rtmp (Env.at 5)).2 rfl

/-- With no shared source yet, an RTMP claim on worker 0 and a WHIP claim on worker 1 both succeed,
    one right after the other, and nothing is published. -/
theorem claim_unheld :
    (init 2 [] 5 sampleName).grants (.claim 0 .rtmp (Env.at 5)) = some .rtmp ∧
      ((init 2 [] 5 sampleName).step (.claim 0 .rtmp (Env.at 5))).grants
        (.claim 1 .whip (Env.at 5)) = some .whip ∧
      ¬ (init 2 [] 5 sampleName).ClaimHeld 0 .rtmp (Env.at 5) := by
  refine ⟨rfl, rfl, fun h => ?_⟩
  obtain ⟨a, ha, -⟩ := h rfl
  exact nomatch ha

end Publishers

end NginxRtc
