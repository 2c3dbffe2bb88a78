/-
  Who publishes a source, and which calls can end that.

  A publish ends when the kind that holds it is released, or when a sweep finds its heartbeat too
  old.  `still_step`: no other call takes a published source away, changes its owner or moves its
  heartbeat anywhere but to the time of the call.
-/
import NginxRtc.Shm.Names

namespace NginxRtc

/-- The source is published by `kind`. -/
structure ShmSource.Held (name : SourceName) (kind : PublisherKind) (src : ShmSource) : Prop where
  name : src.name = name
  publishing : src.publishing = true
  kind : src.publisherKind = some kind

/-- `src'` is published as `src` is; its heartbeat is that of `src`, or the time `t`. -/
structure ShmSource.Still (t : ℕ) (src src' : ShmSource) : Prop where
  name : src'.name = src.name
  publishing : src'.publishing = src.publishing
  kind : src'.publisherKind = src.publisherKind
  seen : src'.publisherSeenMs = src.publisherSeenMs ∨ src'.publisherSeenMs = t

theorem ShmSource.Still.refl (t : ℕ) (src : ShmSource) : src.Still t src :=
  ⟨rfl, rfl, rfl, .inl rfl⟩

theorem ShmSource.Still.trans {t : ℕ} {a b c : ShmSource} (h : a.Still t b) (h' : b.Still t c) :
    a.Still t c where
  name := h'.name.trans h.name
  publishing := h'.publishing.trans h.publishing
  kind := h'.kind.trans h.kind
  seen := by
    rcases h'.seen with hs | hs
    · rw [hs]; exact h.seen
    · exact .inr hs

theorem ShmSource.Held.still {name : SourceName} {kind : PublisherKind} {t : ℕ}
    {src src' : ShmSource} (h : src.Held name kind) (hs : src.Still t src') :
    src'.Held name kind :=
  ⟨hs.name.trans h.name, hs.publishing.trans h.publishing, hs.kind.trans h.kind⟩

theorem ShmSource.Shed.still {src src' : ShmSource} (h : src.Shed src') (t : ℕ) :
    src.Still t src' := ⟨h.name, h.publishing, h.kind, .inl h.seen⟩

namespace ShmCtx

/-- The source at `a` is called `name` and published by `kind`. -/
def HeldAt (c : ShmCtx) (a : ℕ) (name : SourceName) (kind : PublisherKind) : Prop :=
  ∃ src, c.sources.get a = some src ∧ src.Held name kind

theorem HeldAt.lookup {c : ShmCtx} (hc : c.Shape) {a : ℕ} {name : SourceName}
    {kind : PublisherKind} (h : c.HeldAt a name kind) : c.sourceLookup name = some a := by
  obtain ⟨src, hsrc, hheld⟩ := h
  exact hheld.name ▸ hc.lookup_of_get hsrc

/-! ## Claims -/

/-- The registry after the source called `name` was claimed. -/
def claimSource (c : ShmCtx) (now : ℕ) (name : SourceName) (kind : PublisherKind) : ShmCtx :=
  c.modifySource name fun src =>
    { src with
      publisherKind := some kind
      publishing := true
      expires := 0
      publisherSeenMs := now }

theorem sourceLookup_claimSource (c : ShmCtx) (now : ℕ) (name n : SourceName)
    (kind : PublisherKind) : (c.claimSource now name kind).sourceLookup n = c.sourceLookup n :=
  sourceLookup_modifySource c name n fun _ => rfl

theorem claimSource_get {c : ShmCtx} {name : SourceName} {a : ℕ} {src : ShmSource}
    (hl : c.sourceLookup name = some a) (h : c.sources.get a = some src) (now : ℕ)
    (kind : PublisherKind) :
    (c.claimSource now name kind).sources.get a =
      some { src with
        publisherKind := some kind, publishing := true, expires := 0, publisherSeenMs := now } := by
  rw [claimSource, modifySource_get, if_pos hl, h, Option.map_some]

theorem Shape.claimSource {c : ShmCtx} (hc : c.Shape) (now : ℕ) (name : SourceName)
    (kind : PublisherKind) : (c.claimSource now name kind).Shape :=
  hc.moves (moves_modifySource fun _ _ =>
    ⟨rfl, rfl, rfl, rfl, rfl, fun _ => ⟨rfl, fun _ => rfl, (nomatch ·)⟩⟩)

/-- What a claim does: find nothing, be refused, or take the source. -/
theorem sourceTryPublish_cases (c : ShmCtx) (now : ℕ) (name : SourceName) (kind : PublisherKind) :
    (c.sourceLookup name = none ∧ c.sourceTryPublish now name kind = (c, .error)) ∨
      (∃ a src k, c.sourceLookup name = some a ∧ c.sources.get a = some src ∧
        src.publisherKind = some k ∧ k ≠ kind ∧ c.sourceTryPublish now name kind = (c, .busy)) ∨
      ∃ a src, c.sourceLookup name = some a ∧ c.sources.get a = some src ∧ src.name = name ∧
        (src.publisherKind = none ∨ src.publisherKind = some kind) ∧
        c.sourceTryPublish now name kind = (c.claimSource now name kind, .ok) := by
  unfold sourceTryPublish
  cases h : c.source? name with
  | none => exact .inl ⟨source?_eq_none.1 h, rfl⟩
  | some src =>
    obtain ⟨a, ha, hsrc, hn⟩ := source?_eq_some h
    dsimp only
    split_ifs with hb
    · obtain ⟨k, hk⟩ := Option.ne_none_iff_exists'.1 hb.1
      exact .inr (.inl ⟨a, src, k, ha, hsrc, hk, fun he => hb.2 (he ▸ hk), rfl⟩)
    · exact .inr (.inr ⟨a, src, ha, hsrc, hn, by tauto, rfl⟩)

end ShmCtx

/-! ## Ends of a publish -/

namespace ShmOp

/-- The time of the sweep this call runs, if it runs one. -/
def sweeps (c : ShmCtx) : ShmOp → Option ℕ
  | expire now _ => some now
  | sourceGet env name => if (c.sourceLookup name).isNone && !env.slab then some env.now else none
  | sessionAdd env args =>
    if (c.sourceLookup args.name).isSome && !env.slab then some env.now else none
  | _ => none

/-- The call releases the name from the kind that holds the source at `a`. -/
def releases (c : ShmCtx) (a : ℕ) : ShmOp → Bool
  | releasePublish _ name kind =>
    (c.sources.get a).any fun src => src.name = name && src.publisherKind = some kind
  | _ => false

/-- The call sweeps while the publisher of the source at `a` is dead. -/
def reaps (c : ShmCtx) (a : ℕ) (op : ShmOp) : Bool :=
  (op.sweeps c).any fun now => (c.sources.get a).any fun src => !src.alive now

/-- The time a call writes into a heartbeat, if it writes one. -/
def beat : ShmOp → Option ℕ
  | tryPublish now _ _ => some now
  | setStatsSeen _ _ now => some now
  | _ => none

end ShmOp

namespace ShmCtx

section Still
variable {c : ShmCtx} {a : ℕ} {src : ShmSource}

/-- The source at `a` after a step. -/
def StillAt (c' : ShmCtx) (a t : ℕ) (src : ShmSource) : Prop :=
  ∃ src', c'.sources.get a = some src' ∧ src.Still t src'

theorem stillAt_of_get {t : ℕ} (h : c.sources.get a = some src) : c.StillAt a t src :=
  ⟨src, h, .refl t src⟩

theorem stillAt_modify {t b : ℕ} {f : ShmSource → ShmSource} (h : c.sources.get a = some src)
    (hf : a = b → src.Still t (f src)) :
    StillAt { c with sources := c.sources.modify b f } a t src := by
  rw [StillAt, Pool.get_modify, h]
  split_ifs with hb
  · exact ⟨f src, rfl, hf hb⟩
  · exact ⟨src, rfl, .refl t src⟩

theorem stillAt_modifySource {t : ℕ} {name : SourceName} {f : ShmSource → ShmSource}
    (h : c.sources.get a = some src) (hf : c.sourceLookup name = some a → src.Still t (f src)) :
    (c.modifySource name f).StillAt a t src := by
  rw [StillAt, modifySource_get, h]
  split_ifs with hb
  · exact ⟨f src, rfl, hf hb⟩
  · exact ⟨src, rfl, .refl t src⟩

theorem stillAt_expire {t now : ℕ} {forced : Bool} (h : c.sources.get a = some src)
    (hp : src.publishing = true) (ha : src.alive now = true) :
    (c.expire now forced).StillAt a t src := by
  obtain ⟨src', hsrc', hs⟩ := @expire_source_of_alive _ now forced _ _ h hp ha
  obtain ⟨h1, h2, -⟩ := hs.alive hp ha
  exact ⟨src', hsrc', hs.name, h1.trans hp.symm, h2, .inl hs.seen⟩

theorem stillAt_slabAlloc {t : ℕ} {env : Env} (h : c.sources.get a = some src)
    (hp : src.publishing = true) (ha : env.slab = false → src.alive env.now = true) :
    (c.slabAlloc env).1.StillAt a t src := by
  unfold slabAlloc
  split_ifs with hs
  · exact stillAt_of_get h
  · exact stillAt_expire h hp (ha (Bool.eq_false_iff.2 hs))

theorem stillAt_sourceGet {t : ℕ} {env : Env} {name : SourceName} (h : c.sources.get a = some src)
    (hp : src.publishing = true) (he : (ShmOp.sourceGet env name).reaps c a = false) :
    (c.sourceGet env name).1.StillAt a t src := by
  unfold sourceGet
  split
  · exact stillAt_of_get h
  · next hl =>
    have halive : env.slab = false → src.alive env.now = true := fun hs => by
      simpa [ShmOp.reaps, ShmOp.sweeps, hl, hs, h] using he
    obtain ⟨src', hsrc', hs⟩ := stillAt_slabAlloc (t := t) h hp halive
    split_ifs
    · exact ⟨src', Pool.get_alloc_of_some hsrc', hs⟩
    · exact ⟨src', hsrc', hs⟩

theorem stillAt_sourceRemove {t : ℕ} (name : SourceName) (h : c.sources.get a = some src)
    (hp : src.publishing = true) : (c.sourceRemove name).StillAt a t src := by
  unfold sourceRemove
  split
  · exact stillAt_of_get h
  · next b _ =>
    split
    · exact stillAt_of_get h
    · next s hs =>
      split_ifs with hsubs hpub href
      · exact stillAt_of_get h
      · exact stillAt_of_get h
      · exact stillAt_of_get h
      · refine ⟨src, ?_, .refl t src⟩
        rw [Pool.get_free, if_neg, h]
        rintro rfl
        exact hpub (Option.some.inj (h.symm.trans hs) ▸ hp)

theorem stillAt_tryPublish (now : ℕ) (name : SourceName) {kind k : PublisherKind}
    (h : c.sources.get a = some src) (hp : src.publishing = true)
    (hk : src.publisherKind = some k) :
    (c.sourceTryPublish now name kind).1.StillAt a now src := by
  rcases sourceTryPublish_cases c now name kind with
    ⟨-, he⟩ | ⟨b, s, j, -, -, -, -, he⟩ | ⟨b, s, hb, hs, -, hfree, he⟩ <;> rw [he]
  · exact stillAt_of_get h
  · exact stillAt_of_get h
  · refine stillAt_modifySource h fun hl => ?_
    obtain rfl := Option.some.inj (hb.symm.trans hl)
    obtain rfl := Option.some.inj (h.symm.trans hs)
    rcases hfree with hn | hn
    · exact nomatch hk.symm.trans hn
    · exact ⟨rfl, hp.symm, hn.symm, .inr rfl⟩

theorem stillAt_releasePublish {t now : ℕ} {name : SourceName} {kind : PublisherKind}
    (h : c.sources.get a = some src)
    (he : (ShmOp.releasePublish now name kind).releases c a = false) :
    (c.sourceReleasePublish now name kind).StillAt a t src := by
  unfold sourceReleasePublish
  split
  · exact stillAt_of_get h
  · next s hs =>
    split_ifs with hk
    · exact stillAt_of_get h
    · refine stillAt_modifySource h fun hl => ?_
      rw [source?_of_lookup hl, h] at hs
      obtain rfl := Option.some.inj hs
      obtain ⟨s, hs', hn⟩ := sourceLookup_spec hl
      obtain rfl := Option.some.inj (h.symm.trans hs')
      simp [ShmOp.releases, h, hn, not_not.1 hk] at he

theorem stillAt_sessionFree {t : ℕ} (now d : ℕ) (h : c.sources.get a = some src) :
    (c.sessionFree now d).StillAt a t src := by
  have hs := sheds_sessionFree c now d a
  rw [h] at hs
  generalize hd : (c.sessionFree now d).sources.get a = o at hs
  cases hs with
  | some hshed => exact ⟨_, hd, hshed.still t⟩

theorem stillAt_sessionAdd {t : ℕ} {env : Env} {args : SessionArgs}
    (h : c.sources.get a = some src) (hp : src.publishing = true)
    (he : (ShmOp.sessionAdd env args).reaps c a = false) :
    (c.sessionAdd env args).1.StillAt a t src := by
  unfold sessionAdd
  split
  · exact stillAt_of_get h
  · next b hl =>
    have halive : env.slab = false → src.alive env.now = true := fun hs => by
      simpa [ShmOp.reaps, ShmOp.sweeps, hl, hs, h] using he
    split_ifs <;> exact stillAt_slabAlloc h hp halive

end Still

/-- **Only a release or a late heartbeat ends a publish**: any other call leaves a published
    source where it is, with its owner. -/
theorem still_step {c : ShmCtx} {a t : ℕ} {src : ShmSource} {k : PublisherKind} (op : ShmOp)
    (ht : ∀ b, op.beat = some b → b = t) (h : c.sources.get a = some src)
    (hp : src.publishing = true) (hk : src.publisherKind = some k)
    (hrel : op.releases c a = false) (hreap : op.reaps c a = false) :
    (op.step c).StillAt a t src := by
  cases op with
  | sourceGet env name => exact stillAt_sourceGet h hp hreap
  | sourceRemove name => exact stillAt_sourceRemove name h hp
  | tryPublish now name kind => exact ht now rfl ▸ stillAt_tryPublish now name h hp hk
  | releasePublish now name kind => exact stillAt_releasePublish h hrel
  | setPt name videoPt audioPt => exact stillAt_modifySource h fun _ => ⟨rfl, rfl, rfl, .inl rfl⟩
  | setSsrc name videoSsrc audioSsrc =>
    exact stillAt_modifySource h fun _ => ⟨rfl, rfl, rfl, .inl rfl⟩
  | sessionAdd env args => exact stillAt_sessionAdd h hp hreap
  | bind ufrag slot =>
    refine ⟨src, ?_, .refl t src⟩
    simp only [ShmOp.step, sessionBind]
    split
    · exact h
    · split
      · exact h
      · split_ifs <;> exact h
  | activate ufrag slot =>
    simp only [ShmOp.step, sessionActivate]
    split
    · exact stillAt_of_get h
    · split
      · exact stillAt_of_get h
      · split_ifs
        · exact stillAt_of_get h
        · exact stillAt_of_get h
        · exact stillAt_modify h fun _ => ⟨rfl, rfl, rfl, .inl rfl⟩
  | removeIfOwner now ufrag slot =>
    simp only [ShmOp.step, sessionRemoveIfOwner]
    split
    · exact stillAt_of_get h
    · split
      · exact stillAt_of_get h
      · split_ifs
        · exact stillAt_sessionFree now _ h
        · exact stillAt_of_get h
  | requestClose id =>
    simp only [ShmOp.step, sessionRequestClose]
    split <;> exact stillAt_of_get h
  | setState ufrag slot state =>
    simp only [ShmOp.step, sessionSetState]
    split <;> exact stillAt_of_get h
  | expire now forced =>
    refine stillAt_expire h hp ?_
    simpa [ShmOp.reaps, ShmOp.sweeps, h] using hreap
  | setPublisherSlot b slot => exact stillAt_modify h fun _ => ⟨rfl, rfl, rfl, .inl rfl⟩
  | setStats b stats => exact stillAt_modify h fun _ => ⟨rfl, rfl, rfl, .inl rfl⟩
  | setStatsSeen b stats now => exact stillAt_modify h fun _ => ⟨rfl, rfl, rfl, .inr (ht now rfl)⟩
  | retransmitAppend b slab rtp gop =>
    simp only [ShmOp.step, retransmitAppend]
    split_ifs
    · exact stillAt_of_get h
    · split
      · exact stillAt_of_get h
      · split_ifs
        · exact stillAt_of_get h
        · refine stillAt_modify h fun _ => ?_
          unfold ShmSource.appendLocked
          dsimp only
          split_ifs
          · exact ⟨rfl, rfl, rfl, .inl rfl⟩
          · split <;> exact ⟨rfl, rfl, rfl, .inl rfl⟩

end ShmCtx

end NginxRtc
