/-
  Who publishes a name, and what a registry call does to the publishers of the others.

  `Publishes c name kind seen`: the shared source of the name is published by `kind` and its
  heartbeat is `seen`.  `Fades`: a call adds no publisher; `Lasts`: it takes none away.  A sweep
  fades every name, and lasts for those whose heartbeat is still good.
-/
import NginxRtc.Shm.Publish

namespace NginxRtc

/-- A heartbeat that a sweep at time `now` takes for alive. -/
def beating (now seen : ℕ) : Bool := seen ≠ 0 && now - seen < shmPublishGraceMs

namespace ShmCtx

/-- The source called `name` is published by `kind`, with the heartbeat `seen`. -/
def Publishes (c : ShmCtx) (name : SourceName) (kind : PublisherKind) (seen : ℕ) : Prop :=
  ∃ a src, c.sources.get a = some src ∧ src.name = name ∧ src.publisherKind = some kind ∧
    src.publisherSeenMs = seen

/-- Who publishes the name in `c'` did so in `c`. -/
def Fades (c c' : ShmCtx) (name : SourceName) : Prop :=
  ∀ kind seen, c'.Publishes name kind seen → c.Publishes name kind seen

/-- Who publishes the name in `c` still does in `c'`. -/
def Lasts (c c' : ShmCtx) (name : SourceName) : Prop :=
  ∀ kind seen, c.Publishes name kind seen → c'.Publishes name kind seen

/-- A sweep at time `now` finds the publisher of the name alive, if there is one. -/
def Spared (c : ShmCtx) (now : ℕ) (name : SourceName) : Prop :=
  ∀ kind seen, c.Publishes name kind seen → beating now seen = true

/-- The publisher of the name, as `publisher_kind` and `publishing` have it; a name without a source
    has none. -/
def publisherOf (c : ShmCtx) (name : SourceName) : Option PublisherKind × Bool :=
  ((c.source? name).map fun src => (src.publisherKind, src.publishing)).getD (none, false)

variable {c c' d : ShmCtx} {name : SourceName}

theorem Fades.refl (c : ShmCtx) (name : SourceName) : c.Fades c name := fun _ _ h => h

theorem Fades.trans (h : c.Fades c' name) (h' : c'.Fades d name) : c.Fades d name :=
  fun kind seen hp => h kind seen (h' kind seen hp)

theorem Lasts.refl (c : ShmCtx) (name : SourceName) : c.Lasts c name := fun _ _ h => h

theorem Lasts.trans (h : c.Lasts c' name) (h' : c'.Lasts d name) : c.Lasts d name :=
  fun kind seen hp => h' kind seen (h kind seen hp)

theorem Spared.fades {now : ℕ} (h : c.Spared now name) (hf : c.Fades c' name) :
    c'.Spared now name := fun kind seen hp => h kind seen (hf kind seen hp)

/-- In a registry of good shape the publisher of a name is read off its source. -/
theorem Shape.publisherOf_eq (hc : c.Shape) {kind : PublisherKind} {seen : ℕ}
    (h : c.Publishes name kind seen) : c.publisherOf name = (some kind, true) := by
  obtain ⟨a, src, hsrc, rfl, hk, -⟩ := h
  have hpub : src.publishing = true := by rw [(hc.ok a src hsrc).kind, hk]; rfl
  rw [publisherOf, source?_of_lookup (hc.lookup_of_get hsrc), hsrc, Option.map_some, hk, hpub]
  rfl

theorem Shape.publisherOf_none (hc : c.Shape) (h : ∀ kind seen, ¬ c.Publishes name kind seen) :
    c.publisherOf name = (none, false) := by
  rw [publisherOf]
  cases hs : c.source? name with
  | none => rfl
  | some src =>
    obtain ⟨a, -, hsrc, hn⟩ := source?_eq_some hs
    have hk : src.publisherKind = none := by
      rw [Option.eq_none_iff_forall_ne_some]
      exact fun kind hk => h kind _ ⟨a, src, hsrc, hn, hk, rfl⟩
    have hpub : src.publishing = false := by rw [(hc.ok a src hsrc).kind, hk]; rfl
    rw [Option.map_some, hk, hpub]
    rfl

/-- **The publisher of a name is the same** when nobody came and nobody went. -/
theorem Shape.publisherOf_congr (hc : c.Shape) (hc' : c'.Shape) (hf : c.Fades c' name)
    (hl : c.Lasts c' name) : c'.publisherOf name = c.publisherOf name := by
  by_cases h : ∃ kind seen, c.Publishes name kind seen
  · obtain ⟨kind, seen, hp⟩ := h
    rw [hc.publisherOf_eq hp, hc'.publisherOf_eq (hl kind seen hp)]
  · have hno : ∀ kind seen, ¬ c.Publishes name kind seen := fun kind seen hp => h ⟨kind, seen, hp⟩
    rw [hc.publisherOf_none hno, hc'.publisherOf_none fun kind seen hp => hno kind seen
      (hf kind seen hp)]

/-! ## One call -/

theorem publishes_of_sources (h : c'.sources = c.sources) : c.Fades c' name ∧ c.Lasts c' name := by
  refine ⟨fun kind seen hp => ?_, fun kind seen hp => ?_⟩
  · obtain ⟨a, src, hsrc, hrest⟩ := hp
    exact ⟨a, src, h ▸ hsrc, hrest⟩
  · obtain ⟨a, src, hsrc, hrest⟩ := hp
    exact ⟨a, src, h ▸ hsrc, hrest⟩

/-- A rewrite of one source, for the other names and for those whose publisher it leaves alone. -/
theorem publishes_modifySource {target : SourceName} {f : ShmSource → ShmSource}
    (hn : ∀ src, (f src).name = src.name)
    (hf : target = name → ∀ src, (f src).publisherKind = src.publisherKind ∧
      (f src).publisherSeenMs = src.publisherSeenMs) :
    c.Fades (c.modifySource target f) name ∧ c.Lasts (c.modifySource target f) name := by
  have hkeep : ∀ a src, c.sources.get a = some src → c.sourceLookup target = some a →
      src.name = name → (f src).publisherKind = src.publisherKind ∧
        (f src).publisherSeenMs = src.publisherSeenMs := by
    intro a src hsrc hl hname
    obtain ⟨t, ht, hnt⟩ := sourceLookup_spec hl
    obtain rfl := Option.some.inj (hsrc.symm.trans ht)
    exact hf (hnt.symm.trans hname) src
  refine ⟨fun kind seen hp => ?_, fun kind seen hp => ?_⟩
  · obtain ⟨a, src', hsrc', hname, hk, hs⟩ := hp
    rw [modifySource_get] at hsrc'
    split_ifs at hsrc' with hl
    · obtain ⟨src, hsrc, rfl⟩ := Option.map_eq_some_iff.1 hsrc'
      rw [hn] at hname
      obtain ⟨hk', hs'⟩ := hkeep a src hsrc hl hname
      exact ⟨a, src, hsrc, hname, hk'.symm.trans hk, hs'.symm.trans hs⟩
    · exact ⟨a, src', hsrc', hname, hk, hs⟩
  · obtain ⟨a, src, hsrc, hname, hk, hs⟩ := hp
    by_cases hl : c.sourceLookup target = some a
    · obtain ⟨hk', hs'⟩ := hkeep a src hsrc hl hname
      refine ⟨a, f src, ?_, (hn src).trans hname, hk'.trans hk, hs'.trans hs⟩
      rw [modifySource_get, if_pos hl, hsrc, Option.map_some]
    · exact ⟨a, src, by rw [modifySource_get, if_neg hl, hsrc], hname, hk, hs⟩

/-- **A sweep** brings nobody back, and keeps the publishers whose heartbeat is good. -/
theorem fades_expire (c : ShmCtx) (name : SourceName) (now : ℕ) (forced : Bool) :
    c.Fades (c.expire now forced) name := by
  rintro kind seen ⟨a, src', hsrc', hname, hk, hs⟩
  obtain ⟨src, hsrc, hswept⟩ := expire_source_some hsrc'
  refine ⟨a, src, hsrc, hswept.name.symm.trans hname, ?_, hswept.seen.symm.trans hs⟩
  cases hp : src.publishing with
  | false => exact (hswept.idle hp).2.symm.trans hk
  | true =>
    cases ha : src.alive now with
    | true => exact (hswept.alive hp ha).2.1.symm.trans hk
    | false => exact nomatch (hswept.dead hp ha).2.symm.trans hk

theorem Shape.lasts_expire (hc : c.Shape) {now : ℕ} (hs : c.Spared now name) (forced : Bool) :
    c.Lasts (c.expire now forced) name := by
  rintro kind seen ⟨a, src, hsrc, hname, hk, hseen⟩
  have hpub : src.publishing = true := by rw [(hc.ok a src hsrc).kind, hk]; rfl
  have halive : src.alive now = true := by
    change beating now src.publisherSeenMs = true
    rw [hseen]
    exact hs kind seen ⟨a, src, hsrc, hname, hk, hseen⟩
  obtain ⟨src', hsrc', hswept⟩ := @expire_source_of_alive _ now forced _ _ hsrc hpub halive
  exact ⟨a, src', hsrc', hswept.name.trans hname, (hswept.alive hpub halive).2.1.trans hk,
    hswept.seen.trans hseen⟩

theorem fades_slabAlloc (c : ShmCtx) (name : SourceName) (env : Env) :
    c.Fades (c.slabAlloc env).1 name := by
  unfold slabAlloc
  split_ifs
  · exact .refl c name
  · exact fades_expire c name env.now true

theorem Shape.lasts_slabAlloc (hc : c.Shape) {env : Env}
    (hs : env.slab = false → c.Spared env.now name) : c.Lasts (c.slabAlloc env).1 name := by
  unfold slabAlloc
  split_ifs with hslab
  · exact .refl c name
  · exact hc.lasts_expire (hs (Bool.eq_false_iff.2 hslab)) true

theorem fades_addSource (c : ShmCtx) (env : Env) (target : SourceName) :
    c.Fades (c.addSource env target) name := by
  rintro kind seen ⟨a, src, hsrc, hname, hk, hs⟩
  simp only [addSource, Pool.get_alloc] at hsrc
  split_ifs at hsrc
  · cases (congrArg ShmSource.publisherKind (Option.some.inj hsrc)).trans hk
  · exact ⟨a, src, hsrc, hname, hk, hs⟩

theorem lasts_addSource (c : ShmCtx) (env : Env) (target : SourceName) :
    c.Lasts (c.addSource env target) name := by
  rintro kind seen ⟨a, src, hsrc, hrest⟩
  exact ⟨a, src, Pool.get_alloc_of_some hsrc, hrest⟩

theorem fades_sourceGet (c : ShmCtx) (name : SourceName) (env : Env) (target : SourceName) :
    c.Fades (c.sourceGet env target).1 name := by
  unfold sourceGet
  split
  · exact .refl c name
  · split_ifs
    · exact (fades_slabAlloc c name env).trans (fades_addSource _ env target)
    · exact fades_slabAlloc c name env

theorem Shape.lasts_sourceGet (hc : c.Shape) {env : Env}
    (hs : env.slab = false → c.Spared env.now name) (target : SourceName) :
    c.Lasts (c.sourceGet env target).1 name := by
  unfold sourceGet
  split
  · exact .refl c name
  · split_ifs
    · exact (hc.lasts_slabAlloc hs).trans (lasts_addSource _ env target)
    · exact hc.lasts_slabAlloc hs

theorem fades_sessionAdd (c : ShmCtx) (name : SourceName) (env : Env) (args : SessionArgs) :
    c.Fades (c.sessionAdd env args).1 name := by
  unfold sessionAdd
  split
  · exact .refl c name
  · split_ifs <;> exact (fades_slabAlloc c name env).trans (publishes_of_sources rfl).1

theorem Shape.lasts_sessionAdd (hc : c.Shape) {env : Env}
    (hs : env.slab = false → c.Spared env.now name) (args : SessionArgs) :
    c.Lasts (c.sessionAdd env args).1 name := by
  unfold ShmCtx.sessionAdd
  split
  · exact .refl c name
  · split_ifs <;> exact (hc.lasts_slabAlloc hs).trans (publishes_of_sources rfl).2

/-- A removal frees only a source that nobody publishes. -/
theorem Shape.publishes_sourceRemove (hc : c.Shape) (target : SourceName) :
    c.Fades (c.sourceRemove target) name ∧ c.Lasts (c.sourceRemove target) name := by
  unfold ShmCtx.sourceRemove
  split
  · exact ⟨.refl c name, .refl c name⟩
  · next b _ =>
    split
    · exact ⟨.refl c name, .refl c name⟩
    · next s hs =>
      split_ifs with hsubs hpub href
      · exact ⟨.refl c name, .refl c name⟩
      · exact ⟨.refl c name, .refl c name⟩
      · exact ⟨.refl c name, .refl c name⟩
      · refine ⟨fun kind seen hp => ?_, fun kind seen hp => ?_⟩
        · obtain ⟨a, src, hsrc, hrest⟩ := hp
          rw [Pool.get_free] at hsrc
          split_ifs at hsrc
          exact ⟨a, src, hsrc, hrest⟩
        · obtain ⟨a, src, hsrc, hname, hk, hseen⟩ := hp
          refine ⟨a, src, ?_, hname, hk, hseen⟩
          rw [Pool.get_free_of_ne, hsrc]
          rintro rfl
          obtain rfl := Option.some.inj (hs.symm.trans hsrc)
          rw [(hc.ok _ _ hs).kind, hk] at hpub
          exact hpub rfl

theorem publishes_claimSource (now : ℕ) {target : SourceName} (kind : PublisherKind)
    (hne : target ≠ name) :
    c.Fades (c.claimSource now target kind) name ∧ c.Lasts (c.claimSource now target kind) name :=
  publishes_modifySource (fun _ => rfl) fun he => absurd he hne

theorem publishes_setPt (target : SourceName) (videoPt audioPt : UInt8) :
    c.Fades (c.sourceSetPt target videoPt audioPt) name ∧
      c.Lasts (c.sourceSetPt target videoPt audioPt) name :=
  publishes_modifySource (fun _ => rfl) fun _ _ => ⟨rfl, rfl⟩

theorem publishes_release (now : ℕ) {target : SourceName} (kind : PublisherKind)
    (hne : target ≠ name) :
    c.Fades (c.sourceReleasePublish now target kind) name ∧
      c.Lasts (c.sourceReleasePublish now target kind) name := by
  unfold sourceReleasePublish
  split
  · exact ⟨.refl c name, .refl c name⟩
  · split_ifs
    · exact ⟨.refl c name, .refl c name⟩
    · exact publishes_modifySource (fun _ => rfl) fun he => absurd he hne

/-- After its release by the only kind that could hold it a name has no publisher. -/
theorem Shape.unpublished_release (hc : c.Shape) {kind : PublisherKind}
    (honly : ∀ k seen, c.Publishes name k seen → k = kind) (now : ℕ) :
    ∀ k seen, ¬ (c.sourceReleasePublish now name kind).Publishes name k seen := by
  rintro k seen ⟨a, src', hsrc', hname, hk, hseen⟩
  unfold sourceReleasePublish at hsrc'
  split at hsrc'
  · next hnone =>
    have hl := hc.lookup_of_get hsrc'
    rw [hname, source?_eq_none.1 hnone] at hl
    exact nomatch hl
  · next s hs =>
    obtain ⟨b, hl, hsb, hsn⟩ := source?_eq_some hs
    split_ifs at hsrc' with hkind
    · have hab := hc.names a b src' s hsrc' hsb (hname.trans hsn.symm)
      subst hab
      obtain rfl := Option.some.inj (hsb.symm.trans hsrc')
      exact hkind (honly k seen ⟨_, _, hsrc', hname, hk, hseen⟩ ▸ hk)
    · rw [modifySource_get, hl] at hsrc'
      split_ifs at hsrc' with hab
      · obtain ⟨t, -, rfl⟩ := Option.map_eq_some_iff.1 hsrc'
        exact nomatch hk
      · refine hab (congrArg some (hc.names b a s src' hsb hsrc' (hsn.trans hname.symm)))

end ShmCtx

end NginxRtc
