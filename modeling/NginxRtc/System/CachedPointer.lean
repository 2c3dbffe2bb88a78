/-
  The cached pointer to the shared source.

  The media paths write through `shm_src` without a lock, within a second of resolving it or right
  after a renewal.  `derefs` is the pointer an event dereferences, `DerefOk` that it still is the
  shared source of the stream.

  `Pointed` is what holds of every cached pointer: inside the window it is the current shared
  source, and no current source is older than it.  `deref_ok`: every dereference of a run is good
  when no call frees a source some worker cached within the window, and no renewal past the window
  uses a pointer older than the current source.  `careless`: each such call or renewal leads to a
  bad dereference.
-/
import NginxRtc.System.Publishers

namespace NginxRtc

namespace ShmCtx

/-- The same sources under the same names. -/
structure SameNames (c c' : ShmCtx) : Prop where
  next : c'.sources.next = c.sources.next
  lookup : ∀ name, c'.sourceLookup name = c.sourceLookup name

theorem SameNames.refl (c : ShmCtx) : c.SameNames c := ⟨rfl, fun _ => rfl⟩

theorem SameNames.trans {c d e : ShmCtx} (h : c.SameNames d) (h' : d.SameNames e) :
    c.SameNames e := ⟨h'.next.trans h.next, fun name => (h'.lookup name).trans (h.lookup name)⟩

theorem sameNames_modify (c : ShmCtx) (a : ℕ) {f : ShmSource → ShmSource}
    (hf : ∀ src, (f src).name = src.name) :
    c.SameNames { c with sources := c.sources.modify a f } :=
  ⟨rfl, fun name => Pool.find?_modify _ _ fun v => by rw [hf]⟩

theorem sameNames_setStatsSeen (c : ShmCtx) (a : ℕ) (stats : MediaStats) (now : ℕ) :
    c.SameNames (c.setStatsSeen a stats now) := sameNames_modify c a fun _ => rfl

theorem sameNames_modifySource (c : ShmCtx) (name : SourceName) {f : ShmSource → ShmSource}
    (hf : ∀ src, (f src).name = src.name) : c.SameNames (c.modifySource name f) := by
  unfold modifySource
  split
  · exact .refl c
  · exact sameNames_modify c _ hf

theorem sameNames_claim (c : ShmCtx) (env : Env) (src : Source) (kind : PublisherKind) :
    c.SameNames (publishClaimIn c env src kind).1 := by
  rcases publishClaimIn_cases c env src kind with
    ⟨-, he⟩ | ⟨a, s, k, -, -, -, -, he⟩ | ⟨a, s, -, -, -, -, he⟩ <;> rw [he]
  · exact .refl c
  · exact .refl c
  · exact sameNames_modifySource c _ fun _ => rfl

theorem sameNames_release (c : ShmCtx) (now : ℕ) (src : Source) :
    c.SameNames (publishReleaseIn c now src).1 := by
  unfold publishReleaseIn
  split
  · exact .refl c
  · unfold sourceReleasePublish
    split
    · exact .refl c
    · split_ifs
      · exact .refl c
      · exact sameNames_modifySource c _ fun _ => rfl

theorem sameNames_record (c : ShmCtx) (slot now : ℕ) (src : Source) :
    c.SameNames (rtmpRecordIn c slot now src).1 := by
  unfold rtmpRecordIn
  split
  · exact .refl c
  · next a _ =>
    have hslot : c.SameNames (c.setPublisherSlot a slot) := sameNames_modify c a fun _ => rfl
    exact hslot.trans (sameNames_setStatsSeen ..)

theorem sameNames_sync (c : ShmCtx) (slot : ℕ) (env : Env) (src : Source) :
    c.SameNames (rtmpSyncShmIn c slot env src).1 := by
  by_cases h : src.publisherKind = some .rtmp ∧ src.shmSrc ≠ none ∧ src.inWindow env.now = true
  · obtain ⟨a, ha⟩ := Option.ne_none_iff_exists'.1 h.2.1
    rw [rtmpSyncShmIn_fast h.1 ha h.2.2]
    exact sameNames_setStatsSeen ..
  · rw [rtmpSyncShmIn_slow h]
    split_ifs
    · exact sameNames_claim ..
    · exact (sameNames_claim ..).trans (sameNames_record ..)

end ShmCtx

/-! ## Cached pointers -/

/-- What holds of the pointer a local source of `name` has cached. -/
structure Source.Pointed (c : ShmCtx) (now : ℕ) (name : SourceName) (src : Source) : Prop where
  known : ∀ a, src.shmSrc = some a → a < c.sources.next
  fresh : ∀ a, src.shmSrc = some a → src.inWindow now = true → c.sourceLookup name = some a
  old : ∀ a b, src.shmSrc = some a → c.sourceLookup name = some b → a ≤ b

theorem Source.record_shmSrc (c : ShmCtx) (slot t : ℕ) (src : Source) :
    (rtmpRecordIn c slot t src).2.shmSrc = src.shmSrc := by
  unfold rtmpRecordIn
  split
  · rfl
  · exact src.syncFrom_shmSrc _

namespace Source.Pointed

variable {c c' : ShmCtx} {now : ℕ} {name : SourceName} {src : Source}

theorem of_none (h : src.shmSrc = none) : src.Pointed c now name :=
  have hn : ∀ a, src.shmSrc ≠ some a := fun _ ha => nomatch h.symm.trans ha
  ⟨fun a ha => absurd ha (hn a), fun a ha => absurd ha (hn a), fun a _ ha => absurd ha (hn a)⟩

/-- A pointer just resolved. -/
theorem of_lookup {a : ℕ} (h : src.shmSrc = some a) (hl : c.sourceLookup name = some a) :
    src.Pointed c now name := by
  obtain ⟨t, ht, -⟩ := ShmCtx.sourceLookup_spec hl
  refine ⟨fun b hb => ?_, fun b hb _ => ?_, fun b d hb hd => ?_⟩
  · obtain rfl := Option.some.inj (h.symm.trans hb)
    exact Pool.lt_next ht
  · exact hl.trans (h.symm.trans hb)
  · obtain rfl := Option.some.inj (h.symm.trans hb)
    exact (Option.some.inj (hl.symm.trans hd)).le

theorem sameNames (h : src.Pointed c now name) (hs : c.SameNames c') : src.Pointed c' now name :=
  ⟨fun a ha => hs.next ▸ h.known a ha, fun a ha hw => hs.lookup name ▸ h.fresh a ha hw,
    fun a b ha hb => h.old a b ha (hs.lookup name ▸ hb)⟩

/-- A call that frees nothing cached within the window. -/
theorem older (h : src.Pointed c now name) (hc : c.Shape) (hc' : c'.Shape) (ho : c.Older c')
    (hkeep : ∀ a, src.shmSrc = some a → src.inWindow now = true →
      (c'.sources.get a).isSome) : src.Pointed c' now name := by
  have named : ∀ b, b < c.sources.next → c'.sourceLookup name = some b →
      c.sourceLookup name = some b := fun b hb hl => by
    obtain ⟨t', ht', hn'⟩ := ShmCtx.sourceLookup_spec hl
    obtain ⟨t, ht, hn⟩ := ho.named b t' hb ht'
    rw [← hn', hn]
    exact hc.lookup_of_get ht
  refine ⟨fun a ha => (h.known a ha).trans_le ho.next, fun a ha hw => ?_, fun a b ha hb => ?_⟩
  · obtain ⟨t', ht'⟩ := Option.isSome_iff_exists.1 (hkeep a ha hw)
    obtain ⟨t, ht, hn⟩ := ho.named a t' (h.known a ha) ht'
    obtain ⟨u, hu, hun⟩ := ShmCtx.sourceLookup_spec (h.fresh a ha hw)
    obtain rfl := Option.some.inj (ht.symm.trans hu)
    rw [← hun, ← hn]
    exact hc'.lookup_of_get ht'
  · by_cases hlt : b < c.sources.next
    · exact h.old a b ha (named b hlt hb)
    · exact ((h.known a ha).trans_le (Nat.le_of_not_lt hlt)).le

/-- Only the pointer and its time matter. -/
theorem congr {src' : Source} (h : src.Pointed c now name) (ha : src'.shmSrc = src.shmSrc)
    (hs : src'.shmSyncMs = src.shmSyncMs) : src'.Pointed c now name := by
  refine ⟨fun a h' => h.known a (ha ▸ h'), fun a h' hw => h.fresh a (ha ▸ h') ?_,
    fun a b h' => h.old a b (ha ▸ h')⟩
  rwa [Source.inWindow, hs] at hw

theorem record (h : src.Pointed c now name) (slot t : ℕ) :
    (rtmpRecordIn c slot t src).2.Pointed (rtmpRecordIn c slot t src).1 now name := by
  refine (h.sameNames (ShmCtx.sameNames_record c slot t src)).congr (record_shmSrc ..) ?_
  unfold rtmpRecordIn
  split
  · rfl
  · exact src.syncFrom_shmSyncMs _

theorem later (h : src.Pointed c now name) (d : ℕ) : src.Pointed c (now + d) name := by
  refine ⟨h.known, fun a ha hw => h.fresh a ha ?_, h.old⟩
  simp only [Source.inWindow, decide_eq_true_eq] at hw ⊢
  omega

end Source.Pointed

namespace Publishers

variable {name : SourceName}

structure Pointed (name : SourceName) (s : Publishers) : Prop where
  sane : s.Sane name
  src : ∀ w, (s.src w).Pointed s.sh s.now name

theorem Pointed.put {s : Publishers} {w : ℕ} {sh : ShmCtx} {src : Source}
    (hs : (s.put w sh src).Sane name) (hw : src.Pointed sh s.now name)
    (hv : ∀ v, v ≠ w → (s.src v).Pointed sh s.now name) : (s.put w sh src).Pointed name := by
  refine ⟨hs, fun v => ?_⟩
  by_cases hvw : v = w
  · subst hvw; rw [put_src_self]; exact hw
  · rw [put_src_of_ne hvw]; exact hv v hvw

/-! ## Careful runs -/

/-- The call frees the source at `a`. -/
def frees (s : Publishers) (a : ℕ) (op : ShmOp) : Bool :=
  (s.sh.sources.get a).isSome && (((op.retime s.now).step s.sh).sources.get a).isNone

/-- No call frees a source that some worker resolved within the window, and no WHIP media path
    renews, past the window, a pointer older than the source that now has the name. -/
def Careful (name : SourceName) (s : Publishers) : PubEvent → Prop
  | .registry op =>
    ∀ w a, (s.src w).shmSrc = some a → (s.src w).inWindow s.now = true → s.frees a op = false
  | .renew w =>
    ∀ a b t, (s.src w).shmSrc = some a → (s.src w).inWindow s.now = false →
      s.sh.sourceLookup name = some b → s.sh.sources.get b = some t →
      t.publisherKind = none ∨ t.publisherKind = some .whip → b ≤ a
  | _ => True

theorem kept_of_frees {s : Publishers} {a : ℕ} {op : ShmOp} {t : ShmSource}
    (h : s.frees a op = false) (ht : s.sh.sources.get a = some t) :
    (((op.retime s.now).step s.sh).sources.get a).isSome := by
  rw [frees, ht, Option.isSome_some, Bool.true_and, Option.isNone_eq_false_iff] at h
  exact h

/-- The shared source an event dereferences through the cached pointer: what a renewal returned, or
    what a claim or an RTMP packet that was not refused left in the cache. -/
def derefs (s : Publishers) : PubEvent → Option ℕ
  | .renew w => (streamShmSourceIn s.sh s.now (s.src w)).2.2
  | .claim w kind e => (publishClaimIn s.sh (s.env e) (s.src w) kind).2.1.shmSrc
  | .sync w e => (rtmpSyncShmIn s.sh w (s.env e) (s.src w)).2.1.shmSrc
  | _ => none

/-- The pointer is allocated and linked in the registry under the name of the stream. -/
def DerefOk (name : SourceName) (s : Publishers) (e : PubEvent) : Prop :=
  ∀ a, s.derefs e = some a → (s.step e).sh.sourceLookup name = some a

/-- A claim caches the source it looked up. -/
theorem pointed_claim {c : ShmCtx} (now : ℕ) (env : Env) {src : Source} (hn : src.name = name)
    (kind : PublisherKind) :
    (publishClaimIn c env src kind).2.1.Pointed (publishClaimIn c env src kind).1 now name := by
  rcases publishClaimIn_cases c env src kind with
    ⟨-, he⟩ | ⟨a, s, k, -, -, -, -, he⟩ | ⟨a, s, hl, -, -, -, he⟩ <;> rw [he]
  · exact .of_none rfl
  · exact .of_none rfl
  · exact .of_lookup rfl (by rw [ShmCtx.sourceLookup_claimSource, ← hn, hl])

/-- The outcome of an RTMP packet is a pointer inside the window or one a claim just resolved. -/
theorem pointed_sync {s : Publishers} (h : s.Pointed name) (w : ℕ) (e : Env) :
    (rtmpSyncShmIn s.sh w (s.env e) (s.src w)).2.1.Pointed
      (rtmpSyncShmIn s.sh w (s.env e) (s.src w)).1 s.now name := by
  by_cases hf : (s.src w).publisherKind = some .rtmp ∧ (s.src w).shmSrc ≠ none ∧
      (s.src w).inWindow s.now = true
  · obtain ⟨a, ha⟩ := Option.ne_none_iff_exists'.1 hf.2.1
    rw [@rtmpSyncShmIn_fast _ _ _ (s.env e) _ hf.1 ha hf.2.2]
    exact (h.src w).sameNames (ShmCtx.sameNames_setStatsSeen ..)
  · rw [@rtmpSyncShmIn_slow _ _ (s.env e) _ hf]
    have hclaim := pointed_claim (c := s.sh) s.now (s.env e) (h.sane.name w) .rtmp
    split_ifs
    · exact hclaim
    · exact hclaim.record w s.now

/-- A careful renewal finds the source it cached. -/
theorem Pointed.renewed {s : Publishers} (h : s.Pointed name) {w a b : ℕ} {t : ShmSource}
    (hg : s.Careful name (.renew w)) (ha : (s.src w).shmSrc = some a)
    (hw : (s.src w).inWindow s.now = false) (hb : s.sh.sourceLookup (s.src w).name = some b)
    (ht : s.sh.sources.get b = some t)
    (hk : t.publisherKind = none ∨ t.publisherKind = some .whip) :
    s.sh.sourceLookup name = some a := by
  rw [h.sane.name w] at hb
  obtain rfl : a = b := le_antisymm ((h.src w).old a b ha hb) (hg a b t ha hw hb ht hk)
  exact hb

theorem pointed_renew {s : Publishers} (h : s.Pointed name) {w : ℕ}
    (hg : s.Careful name (.renew w)) :
    (streamShmSourceIn s.sh s.now (s.src w)).2.1.Pointed
        (streamShmSourceIn s.sh s.now (s.src w)).1 s.now name ∧
      s.sh.SameNames (streamShmSourceIn s.sh s.now (s.src w)).1 ∧
      ∀ a, (streamShmSourceIn s.sh s.now (s.src w)).2.2 = some a →
        s.sh.sourceLookup name = some a := by
  rcases streamShmSourceIn_cases s.sh s.now (s.src w) with
    ⟨ha, he⟩ | ⟨a, ha, hw, he⟩ | ⟨a, b, t, ha, hw, hb, ht, -, hk, he⟩ | ⟨a, ha, hw, -, he⟩ <;>
    rw [he]
  · exact ⟨h.src w, .refl _, fun _ h => nomatch h⟩
  · exact ⟨h.src w, .refl _, fun b hb => Option.some.inj hb ▸ (h.src w).fresh a ha hw⟩
  · have hl := h.renewed hg ha hw hb ht hk
    exact ⟨.of_lookup ha (by rwa [ShmCtx.sourceLookup_claimSource]),
      ShmCtx.sameNames_modifySource _ _ fun _ => rfl, fun d hd => Option.some.inj hd ▸ hl⟩
  · exact ⟨.of_none rfl, .refl _, fun _ h => nomatch h⟩

/-- Creating the source of the stream invalidates no pointer inside the window: there is none. -/
theorem pointed_attach {s : Publishers} (h : s.Pointed name) (w : ℕ) (e : Env) :
    (adoptIn s.sh (s.env e) (s.src w)).2.Pointed (adoptIn s.sh (s.env e) (s.src w)).1 s.now name ∧
      ∀ v, (s.src v).Pointed (adoptIn s.sh (s.env e) (s.src w)).1 s.now name := by
  have hn := h.sane.name w
  have hshape := adoptIn_shape h.sane.shape (s.env e) (s.src w)
  have holder : s.sh.Older (adoptIn s.sh (s.env e) (s.src w)).1 :=
    ShmCtx.older_step s.sh (.sourceGet (s.env e) (s.src w).name)
  simp only [adoptIn, hn] at hshape holder ⊢
  cases hl : s.sh.sourceLookup name with
  | some a =>
    simp only [ShmCtx.sourceGet_of_lookup hl]
    exact ⟨.of_lookup rfl hl, h.src⟩
  | none =>
    refine ⟨?_, fun v => (h.src v).older h.sane.shape hshape holder fun a ha hw =>
      by cases hl.symm.trans ((h.src v).fresh a ha hw)⟩
    revert hshape
    simp only [ShmCtx.sourceGet, hl]
    split_ifs with hm
    · intro hshape
      refine .of_lookup rfl ?_
      exact hshape.lookup_of_get (Pool.get_alloc_self _ (ShmSource.fresh (s.env e) name))
    · exact fun _ => .of_none rfl

/-- **A careful step** keeps every cached pointer good, and dereferences a good one. -/
theorem Pointed.step {s : Publishers} (h : s.Pointed name) (e : PubEvent)
    (hg : s.Careful name e) : (s.step e).Pointed name := by
  have hs := sane_step e h.sane
  cases e with
  | claim w kind e =>
    exact .put hs (pointed_claim s.now (s.env e) (h.sane.name w) kind)
      fun v _ => (h.src v).sameNames (ShmCtx.sameNames_claim ..)
  | release w =>
    refine .put hs ?_ fun v _ => (h.src v).sameNames (ShmCtx.sameNames_release ..)
    unfold publishReleaseIn
    split
    · exact h.src w
    · exact .of_none rfl
  | attach w e =>
    obtain ⟨hw, hv⟩ := pointed_attach h w e
    exact .put hs hw fun v _ => hv v
  | renew w =>
    obtain ⟨hw, hsame, -⟩ := pointed_renew h hg
    exact .put hs hw fun v _ => (h.src v).sameNames hsame
  | sync w e =>
    exact .put hs (pointed_sync h w e) fun v _ => (h.src v).sameNames (ShmCtx.sameNames_sync ..)
  | reset w => exact .put hs (.of_none rfl) fun v _ => h.src v
  | registry op =>
    refine ⟨hs, fun w => (h.src w).older h.sane.shape hs.shape (ShmCtx.older_step ..)
      fun a ha hw => ?_⟩
    obtain ⟨t, ht, -⟩ := ShmCtx.sourceLookup_spec ((h.src w).fresh a ha hw)
    exact kept_of_frees (hg w a ha hw) ht
  | tick d => exact ⟨hs, fun w => (h.src w).later d⟩

/-- Freeing a source cached inside the window: the worker that cached it writes through the pointer
    with its next packet. -/
theorem careless_registry {s : Publishers} {w a : ℕ} {op : ShmOp} (ha : (s.src w).shmSrc = some a)
    (hw : (s.src w).inWindow s.now = true) (hf : s.frees a op = true) :
    ¬ (s.step (.registry op)).DerefOk name (.renew w) := by
  intro h
  have hd : (s.step (.registry op)).derefs (.renew w) = some a := by
    simp only [derefs, step, streamShmSourceIn, ha, hw, if_true]
  have hl := h a hd
  simp only [step, put_sh, streamShmSourceIn, ha, hw, if_true] at hl
  obtain ⟨t, ht, -⟩ := ShmCtx.sourceLookup_spec hl
  rw [frees, Bool.and_eq_true, ht] at hf
  cases hf.2

/-- Renewing, past the window, a pointer older than the source that has the name by now. -/
theorem careless_renew {s : Publishers} (hn : ∀ w, (s.src w).name = name) {w a b : ℕ}
    {t : ShmSource} (ha : (s.src w).shmSrc = some a) (hw : (s.src w).inWindow s.now = false)
    (hl : s.sh.sourceLookup name = some b) (ht : s.sh.sources.get b = some t)
    (hk : t.publisherKind = none ∨ t.publisherKind = some .whip) (hlt : a < b) :
    ¬ s.DerefOk name (.renew w) := by
  intro h
  rcases streamShmSourceIn_cases s.sh s.now (s.src w) with
    ⟨hn', -⟩ | ⟨d, -, hw', -⟩ | ⟨d, b', t', hd, -, hb', -, -, -, he⟩ | ⟨d, -, -, hno, -⟩
  · cases ha.symm.trans hn'
  · cases hw.symm.trans hw'
  · obtain rfl := Option.some.inj (ha.symm.trans hd)
    have hl' := h a (by rw [derefs, he])
    simp only [step, put_sh, he, ShmCtx.sourceLookup_claimSource] at hl'
    obtain rfl := Option.some.inj (hl.symm.trans hl')
    exact absurd hlt (lt_irrefl _)
  · rw [hn w] at hno
    rcases hno with hno | ⟨b', t', k, hb', ht', hk', hne⟩
    · cases hl.symm.trans hno
    · obtain rfl := Option.some.inj (hl.symm.trans hb')
      obtain rfl := Option.some.inj (ht.symm.trans ht')
      rcases hk with hk | hk
      · cases hk.symm.trans hk'
      · exact hne (Option.some.inj (hk'.symm.trans hk))

end Publishers

end NginxRtc
