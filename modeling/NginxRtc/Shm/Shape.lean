/-
  The shape of the registry: what holds in every reachable state, whatever the allocator did.

  Names and session ids are unique, the fields of a source agree with each other, and the
  subscriber list of a source and the links of the skeletons that point at it agree.  The shape
  says nothing about a skeleton whose source is gone.

  `Shape.step`: every call keeps the shape.  `shape_reachable`: so every reachable registry has it.
-/
import NginxRtc.Lib.Run
import NginxRtc.Shm.Moves

namespace NginxRtc

namespace ShmCtx

structure Shape (c : ShmCtx) : Prop where
  names : ∀ a b s t, c.sources.get a = some s → c.sources.get b = some t → s.name = t.name → a = b
  ok : ∀ a src, c.sources.get a = some src → src.Ok
  nodup : ∀ a src, c.sources.get a = some src → src.subscribers.Nodup
  listed : ∀ b src a, c.sources.get b = some src → a ∈ src.subscribers →
    ∃ s, c.sessions.get a = some s ∧ s.source = b ∧ s.subLinked = true
  inList : ∀ a s src, c.sessions.get a = some s → s.subLinked = true →
    c.sources.get s.source = some src → a ∈ src.subscribers
  linked : ∀ a s, c.sessions.get a = some s → s.subLinked = true →
    s.ownerSlot ≠ none ∧ s.srtpReady = true
  unbound : ∀ a s, c.sessions.get a = some s → s.ownerSlot = none → s.expires ≠ 0
  bound : ∀ a s, c.sessions.get a = some s → s.source < c.sources.next
  ids : ∀ a b s t, c.sessions.get a = some s → c.sessions.get b = some t → s.id = t.id → a = b
  idBound : ∀ a s, c.sessions.get a = some s → s.id < c.nextSessionId

theorem shape_init (nworkers : ℕ) (rings : List (Option MediaRing)) :
    (ShmCtx.init nworkers rings).Shape := by
  constructor <;> intros <;> simp_all [ShmCtx.init]

/-! ## Moves keep the shape -/

theorem Shape.sources {c : ShmCtx} (h : c.Shape) {f : ℕ → ShmSource → Option ShmSource}
    (keep : ∀ a src src', c.sources.get a = some src → f a src = some src' → src.Frame src') :
    Shape { c with sources := c.sources.sweep f } := by
  -- every source after the move is a framed source from before it
  have old : ∀ a t, (c.sources.sweep f).get a = some t →
      ∃ s, c.sources.get a = some s ∧ s.Frame t := by
    intro a t ht
    rw [Pool.get_sweep, Option.bind_eq_some_iff] at ht
    obtain ⟨s, hs, hst⟩ := ht
    exact ⟨s, hs, keep a s t hs hst⟩
  refine
    { names := fun a b s t hs ht hn => ?_
      ok := fun a t ht => ?_
      nodup := fun a t ht => ?_
      listed := fun b t a ht ha => ?_
      inList := fun a s t hs hl ht => ?_
      linked := h.linked
      unbound := h.unbound
      bound := h.bound
      ids := h.ids
      idBound := h.idBound }
  · obtain ⟨s₀, hs₀, fs⟩ := old a s hs
    obtain ⟨t₀, ht₀, ft⟩ := old b t ht
    exact h.names a b s₀ t₀ hs₀ ht₀ (by rw [← fs.name, hn, ft.name])
  · obtain ⟨s, hs, fs⟩ := old a t ht
    exact fs.ok (h.ok a s hs)
  · obtain ⟨s, hs, fs⟩ := old a t ht
    exact fs.subscribers ▸ h.nodup a s hs
  · obtain ⟨s, hs, fs⟩ := old b t ht
    exact h.listed b s a hs (fs.subscribers ▸ ha)
  · obtain ⟨s₀, hs₀, fs⟩ := old _ t ht
    exact fs.subscribers ▸ h.inList a s s₀ hs hl hs₀

theorem Shape.newSource {c : ShmCtx} (h : c.Shape) {env : Env} {name : SourceName}
    (absent : c.sourceLookup name = none) : (c.addSource env name).Shape := by
  have habs := sourceLookup_eq_none.1 absent
  have old : ∀ a t, (c.addSource env name).sources.get a = some t →
      (a = c.sources.next ∧ t = ShmSource.fresh env name) ∨ c.sources.get a = some t := by
    intro a t ht
    simp only [addSource, Pool.get_alloc] at ht
    split_ifs at ht with ha
    · exact .inl ⟨ha, (Option.some.inj ht).symm⟩
    · exact .inr ht
  refine
    { names := fun a b s t hs ht hn => ?_
      ok := fun a t ht => ?_
      nodup := fun a t ht => ?_
      listed := fun b t a ht ha => ?_
      inList := fun a s t hs hl ht => ?_
      linked := h.linked
      unbound := h.unbound
      bound := fun a s hs => Nat.lt_succ_of_lt (h.bound a s hs)
      ids := h.ids
      idBound := h.idBound }
  · rcases old a s hs with ⟨rfl, rfl⟩ | hs <;> rcases old b t ht with ⟨rfl, rfl⟩ | ht
    · rfl
    · exact absurd hn.symm (habs b t ht)
    · exact absurd hn (habs a s hs)
    · exact h.names a b s t hs ht hn
  · rcases old a t ht with ⟨-, rfl⟩ | ht
    · exact ShmSource.fresh_ok env name
    · exact h.ok a t ht
  · rcases old a t ht with ⟨-, rfl⟩ | ht
    · exact List.nodup_nil
    · exact h.nodup a t ht
  · rcases old b t ht with ⟨-, rfl⟩ | ht
    · exact absurd ha List.not_mem_nil
    · exact h.listed b t a ht ha
  · rcases old _ t ht with ⟨hnext, -⟩ | ht
    · exact absurd hnext (Nat.ne_of_lt (h.bound a s hs))
    · exact h.inList a s t hs hl ht

theorem Shape.session {c : ShmCtx} (h : c.Shape) {a : ℕ} {f : ShmSession → ShmSession}
    (keep : ∀ s, c.sessions.get a = some s → s.Frame (f s)) :
    Shape { c with sessions := c.sessions.modify a f } := by
  have old : ∀ b t, (c.sessions.modify a f).get b = some t →
      ∃ s, c.sessions.get b = some s ∧ s.Frame t := by
    intro b t ht
    rw [Pool.get_modify] at ht
    split_ifs at ht with hb
    · obtain ⟨s, hs, rfl⟩ := Option.map_eq_some_iff.1 ht
      exact ⟨s, hs, keep s (hb ▸ hs)⟩
    · exact ⟨t, ht, ⟨rfl, rfl, rfl, rfl, rfl, fun _ h => h, fun _ => rfl, fun h => h⟩⟩
  refine
    { names := h.names
      ok := h.ok
      nodup := h.nodup
      listed := fun b src d hsrc hd => ?_
      inList := fun b t src ht hl hsrc => ?_
      linked := fun b t ht hl => ?_
      unbound := fun b t ht hn => ?_
      bound := fun b t ht => ?_
      ids := fun b d t u ht hu hid => ?_
      idBound := fun b t ht => ?_ }
  · obtain ⟨s, hs, hb, hl⟩ := h.listed b src d hsrc hd
    by_cases hda : d = a
    · subst hda
      refine ⟨f s, by rw [Pool.get_modify_self, hs]; rfl, ?_, ?_⟩
      · rw [(keep s hs).source, hb]
      · rw [(keep s hs).linked, hl]
    · exact ⟨s, by rw [Pool.get_modify_of_ne hda, hs], hb, hl⟩
  · obtain ⟨s, hs, fs⟩ := old b t ht
    exact h.inList b s src hs (fs.linked ▸ hl) (fs.source ▸ hsrc)
  · obtain ⟨s, hs, fs⟩ := old b t ht
    obtain ⟨hown, hready⟩ := h.linked b s hs (fs.linked ▸ hl)
    obtain ⟨w, hw⟩ := Option.ne_none_iff_exists'.1 hown
    exact ⟨by rw [fs.owner w hw]; exact Option.some_ne_none w, fs.ready hready⟩
  · obtain ⟨s, hs, fs⟩ := old b t ht
    rw [fs.unbound hn]
    refine h.unbound b s hs ?_
    cases hw : s.ownerSlot with
    | none => rfl
    | some w => exact absurd (hn.symm.trans (fs.owner w hw)) (Option.some_ne_none w).symm
  · obtain ⟨s, hs, fs⟩ := old b t ht
    exact fs.source ▸ h.bound b s hs
  · obtain ⟨s, hs, fs⟩ := old b t ht
    obtain ⟨s', hs', fs'⟩ := old d u hu
    exact h.ids b d s s' hs hs' (by rw [← fs.id, hid, fs'.id])
  · obtain ⟨s, hs, fs⟩ := old b t ht
    exact fs.id ▸ h.idBound b s hs

/-- Linking the skeleton `sess` at `a` into its source. -/
theorem Shape.link {c : ShmCtx} (h : c.Shape) {a slot : ℕ} {sess : ShmSession}
    (get : c.sessions.get a = some sess) (fresh : sess.subLinked = false) :
    Shape { c with
      sessions := c.sessions.modify a (ShmSession.subscribed slot)
      sources := c.sources.modify sess.source (ShmSource.link a (some slot)) } := by
  have oldSource : ∀ b t, (c.sources.modify sess.source (ShmSource.link a (some slot))).get b =
      some t → ∃ s, c.sources.get b = some s ∧ t.name = s.name ∧
        (b = sess.source ∧ t = s.link a (some slot) ∨ b ≠ sess.source ∧ t = s) := by
    intro b t ht
    rw [Pool.get_modify] at ht
    split_ifs at ht with hb
    · obtain ⟨s, hs, rfl⟩ := Option.map_eq_some_iff.1 ht
      exact ⟨s, hs, rfl, .inl ⟨hb, rfl⟩⟩
    · exact ⟨t, ht, rfl, .inr ⟨hb, rfl⟩⟩
  have oldSession : ∀ b t, (c.sessions.modify a (ShmSession.subscribed slot)).get b = some t →
      b = a ∧ t = sess.subscribed slot ∨
        b ≠ a ∧ c.sessions.get b = some t := by
    intro b t ht
    rw [Pool.get_modify] at ht
    split_ifs at ht with hb
    · rw [hb, get] at ht
      exact .inl ⟨hb, (Option.some.inj ht).symm⟩
    · exact .inr ⟨hb, ht⟩
  -- the skeleton was not in any list before
  have notListed : ∀ b s, c.sources.get b = some s → a ∉ s.subscribers := by
    intro b s hs ha
    obtain ⟨s', hs', -, hl⟩ := h.listed b s a hs ha
    obtain rfl := Option.some.inj (get.symm.trans hs')
    exact absurd (fresh.symm.trans hl) Bool.false_ne_true
  refine
    { names := fun b d s t hs ht hn => ?_
      ok := fun b t ht => ?_
      nodup := fun b t ht => ?_
      listed := fun b t d ht hd => ?_
      inList := fun b t src ht hl hsrc => ?_
      linked := fun b t ht hl => ?_
      unbound := fun b t ht hn => ?_
      bound := fun b t ht => ?_
      ids := fun b d t u ht hu hid => ?_
      idBound := fun b t ht => ?_ }
  · obtain ⟨s₀, hs₀, hns, -⟩ := oldSource b s hs
    obtain ⟨t₀, ht₀, hnt, -⟩ := oldSource d t ht
    exact h.names b d s₀ t₀ hs₀ ht₀ (by rw [← hns, hn, hnt])
  · obtain ⟨s, hs, -, ⟨-, rfl⟩ | ⟨-, rfl⟩⟩ := oldSource b t ht
    · exact ⟨(h.ok b s hs).kind, fun _ => rfl, fun _ hn => absurd hn (List.cons_ne_nil _ _)⟩
    · exact h.ok b t hs
  · obtain ⟨s, hs, -, ⟨-, rfl⟩ | ⟨-, rfl⟩⟩ := oldSource b t ht
    · exact List.nodup_cons.2 ⟨notListed b s hs, h.nodup b s hs⟩
    · exact h.nodup b t hs
  · have keep : ∀ s, c.sources.get b = some s → d ∈ s.subscribers →
        ∃ s', (c.sessions.modify a (ShmSession.subscribed slot)).get d = some s' ∧
          s'.source = b ∧ s'.subLinked = true := by
      intro s hs hd
      obtain ⟨s', hs', hb, hl⟩ := h.listed b s d hs hd
      have hda : d ≠ a := fun he => notListed b s hs (he ▸ hd)
      exact ⟨s', by rw [Pool.get_modify_of_ne hda, hs'], hb, hl⟩
    obtain ⟨s, hs, -, ⟨hb, rfl⟩ | ⟨-, rfl⟩⟩ := oldSource b t ht
    · rcases List.mem_cons.1 hd with rfl | hd
      · exact ⟨sess.subscribed slot, by rw [Pool.get_modify_self, get]; rfl, hb.symm, rfl⟩
      · exact keep s hs hd
    · exact keep t hs hd
  · obtain ⟨s, hs, -, hcase⟩ := oldSource _ src hsrc
    rcases oldSession b t ht with ⟨rfl, rfl⟩ | ⟨-, ht⟩
    · rcases hcase with ⟨-, rfl⟩ | ⟨hne, -⟩
      · exact List.mem_cons_self
      · exact absurd rfl hne
    · have hmem := h.inList b t s ht hl hs
      rcases hcase with ⟨-, rfl⟩ | ⟨-, rfl⟩
      · exact List.mem_cons_of_mem _ hmem
      · exact hmem
  · rcases oldSession b t ht with ⟨-, rfl⟩ | ⟨-, ht⟩
    · exact ⟨Option.some_ne_none slot, rfl⟩
    · exact h.linked b t ht hl
  · rcases oldSession b t ht with ⟨-, rfl⟩ | ⟨-, ht⟩
    · exact absurd hn (Option.some_ne_none slot)
    · exact h.unbound b t ht hn
  · rcases oldSession b t ht with ⟨-, rfl⟩ | ⟨-, ht⟩
    · exact h.bound a sess get
    · exact h.bound b t ht
  · rcases oldSession b t ht with ⟨rfl, rfl⟩ | ⟨-, ht'⟩ <;>
      rcases oldSession d u hu with ⟨rfl, rfl⟩ | ⟨-, hu'⟩
    · rfl
    · exact h.ids _ d sess u get hu' hid
    · exact h.ids b _ t sess ht' get hid
    · exact h.ids b d t u ht' hu' hid
  · rcases oldSession b t ht with ⟨-, rfl⟩ | ⟨-, ht⟩
    · exact h.idBound a sess get
    · exact h.idBound b t ht

theorem Shape.mem_dropSession {c : ShmCtx} (h : c.Shape) {now a b d : ℕ} {sess : ShmSession}
    {src : ShmSource} (get : c.sessions.get a = some sess) (hsrc : c.sources.get b = some src) :
    d ∈ (src.dropSession now a sess).subscribers ↔ d ∈ src.subscribers ∧ d ≠ a := by
  unfold ShmSource.dropSession
  rw [ShmSource.armGrace_subscribers]
  cases hl : sess.subLinked with
  | true =>
    simp only [↓reduceIte, ShmSource.unlink]
    rw [(h.nodup b src hsrc).mem_erase_iff, and_comm]
  | false =>
    simp only [Bool.false_eq_true, ↓reduceIte]
    refine ⟨fun hd => ⟨hd, ?_⟩, And.left⟩
    rintro rfl
    obtain ⟨s', hs', -, hl'⟩ := h.listed b src d hsrc hd
    obtain rfl := Option.some.inj (get.symm.trans hs')
    exact absurd (hl.symm.trans hl') Bool.false_ne_true

/-- Freeing the skeleton at `a`. -/
theorem Shape.drop {c : ShmCtx} (h : c.Shape) (now a : ℕ) : (c.sessionFree now a).Shape := by
  unfold sessionFree
  split
  · exact h
  · next sess get =>
    have oldSource : ∀ b t, (c.sources.modify sess.source (ShmSource.dropSession now a sess)).get b =
        some t → ∃ s, c.sources.get b = some s ∧ s.Shed t ∧
          (b = sess.source ∧ t = s.dropSession now a sess ∨ b ≠ sess.source ∧ t = s) := by
      intro b t ht
      rw [Pool.get_modify] at ht
      split_ifs at ht with hb
      · obtain ⟨s, hs, rfl⟩ := Option.map_eq_some_iff.1 ht
        exact ⟨s, hs, s.shed_dropSession now a sess, .inl ⟨hb, rfl⟩⟩
      · exact ⟨t, ht, .refl t, .inr ⟨hb, rfl⟩⟩
    have oldSession : ∀ b t, (c.sessions.free a).get b = some t →
        b ≠ a ∧ c.sessions.get b = some t := by
      intro b t ht
      rw [Pool.get_free] at ht
      split_ifs at ht with hb
      exact ⟨hb, ht⟩
    refine
      { names := fun b d s t hs ht hn => ?_
        ok := fun b t ht => ?_
        nodup := fun b t ht => ?_
        listed := fun b t d ht hd => ?_
        inList := fun b t src ht hl hsrc => ?_
        linked := fun b t ht => h.linked b t (oldSession b t ht).2
        unbound := fun b t ht => h.unbound b t (oldSession b t ht).2
        bound := fun b t ht => h.bound b t (oldSession b t ht).2
        ids := fun b d t u ht hu => h.ids b d t u (oldSession b t ht).2 (oldSession d u hu).2
        idBound := fun b t ht => h.idBound b t (oldSession b t ht).2 }
    · obtain ⟨s₀, hs₀, hns, -⟩ := oldSource b s hs
      obtain ⟨t₀, ht₀, hnt, -⟩ := oldSource d t ht
      exact h.names b d s₀ t₀ hs₀ ht₀ (by rw [← hns.name, hn, hnt.name])
    · obtain ⟨s, hs, -, ⟨-, rfl⟩ | ⟨-, rfl⟩⟩ := oldSource b t ht
      · have hok := h.ok b s hs
        unfold ShmSource.dropSession
        split_ifs
        · exact ShmSource.armGrace_ok hok.kind hok.held
        · exact (s.frame_armGrace now).ok hok
      · exact h.ok b t hs
    · obtain ⟨s, hs, hshed, -⟩ := oldSource b t ht
      exact (h.nodup b s hs).sublist hshed.subscribers
    · obtain ⟨s, hs, hshed, hcase⟩ := oldSource b t ht
      obtain ⟨s', hs', hb', hl'⟩ := h.listed b s d hs (hshed.subscribers.subset hd)
      have hda : d ≠ a := by
        rintro rfl
        obtain rfl := Option.some.inj (get.symm.trans hs')
        rcases hcase with ⟨-, rfl⟩ | ⟨hb, -⟩
        · exact ((h.mem_dropSession get hs).1 hd).2 rfl
        · exact hb hb'.symm
      exact ⟨s', by rw [Pool.get_free_of_ne hda, hs'], hb', hl'⟩
    · obtain ⟨hba, ht⟩ := oldSession b t ht
      obtain ⟨s, hs, -, hcase⟩ := oldSource _ src hsrc
      have hmem := h.inList b t s ht hl hs
      rcases hcase with ⟨-, rfl⟩ | ⟨-, rfl⟩
      · exact (h.mem_dropSession get hs).2 ⟨hmem, hba⟩
      · exact hmem

theorem Shape.move {c c' : ShmCtx} (h : c.Shape) (hm : c.Move c') : c'.Shape := by
  cases hm with
  | sources f free keep => exact h.sources keep
  | newSource env name absent => exact h.newSource absent
  | session a f keep => exact h.session keep
  | link a slot s get own player fresh => exact h.link get fresh
  | drop now a => exact h.drop now a

theorem Shape.moves {c c' : ShmCtx} (h : c.Shape) (hm : c.Moves c') : c'.Shape := by
  induction hm with
  | refl => exact h
  | tail _ hstep ih => exact ih.move hstep

/-! ## The two other calls -/

theorem Shape.addSkeleton {c : ShmCtx} (h : c.Shape) {now src : ℕ} {args : SessionArgs}
    (hsrc : src < c.sources.next) : (c.addSkeleton now src args).Shape := by
  have old : ∀ b t, (c.addSkeleton now src args).sessions.get b = some t →
      b = c.sessions.next ∧ t = ShmSession.fresh now c.nextSessionId src args ∨
        c.sessions.get b = some t := by
    intro b t ht
    simp only [ShmCtx.addSkeleton, Pool.get_alloc] at ht
    split_ifs at ht with hb
    · exact .inl ⟨hb, (Option.some.inj ht).symm⟩
    · exact .inr ht
  refine
    { names := h.names
      ok := h.ok
      nodup := h.nodup
      listed := fun b t d ht hd => ?_
      inList := fun b t s ht hl hs => ?_
      linked := fun b t ht hl => ?_
      unbound := fun b t ht hn => ?_
      bound := fun b t ht => ?_
      ids := fun b d t u ht hu hid => ?_
      idBound := fun b t ht => ?_ }
  · obtain ⟨s, hs, hb, hl⟩ := h.listed b t d ht hd
    exact ⟨s, Pool.get_alloc_of_some hs, hb, hl⟩
  · rcases old b t ht with ⟨-, rfl⟩ | ht
    · exact absurd hl Bool.false_ne_true
    · exact h.inList b t s ht hl hs
  · rcases old b t ht with ⟨-, rfl⟩ | ht
    · exact absurd hl Bool.false_ne_true
    · exact h.linked b t ht hl
  · rcases old b t ht with ⟨-, rfl⟩ | ht
    · exact Nat.succ_ne_zero (now + 29999)
    · exact h.unbound b t ht hn
  · rcases old b t ht with ⟨-, rfl⟩ | ht
    · exact hsrc
    · exact h.bound b t ht
  · rcases old b t ht with ⟨rfl, rfl⟩ | ht <;> rcases old d u hu with ⟨rfl, rfl⟩ | hu
    · rfl
    · exact absurd hid.symm (Nat.ne_of_lt (h.idBound d u hu))
    · exact absurd hid (Nat.ne_of_lt (h.idBound b t ht))
    · exact h.ids b d t u ht hu hid
  · rcases old b t ht with ⟨-, rfl⟩ | ht
    · exact Nat.lt_succ_self _
    · exact Nat.lt_succ_of_lt (h.idBound b t ht)

theorem Shape.setPublisherSlot {c : ShmCtx} (h : c.Shape) (a slot : ℕ) :
    (c.setPublisherSlot a slot).Shape := by
  have old : ∀ b t, (c.setPublisherSlot a slot).sources.get b = some t →
      ∃ s, c.sources.get b = some s ∧ t.name = s.name ∧ t.subscribers = s.subscribers ∧
        (s.Ok → t.Ok) := by
    intro b t ht
    simp only [ShmCtx.setPublisherSlot, Pool.get_modify] at ht
    split_ifs at ht with hb
    · obtain ⟨s, hs, rfl⟩ := Option.map_eq_some_iff.1 ht
      exact ⟨s, hs, rfl, rfl, fun hok => ⟨hok.kind, hok.held, hok.idle⟩⟩
    · exact ⟨t, ht, rfl, rfl, id⟩
  refine
    { names := fun b d s t hs ht hn => ?_
      ok := fun b t ht => ?_
      nodup := fun b t ht => ?_
      listed := fun b t d ht hd => ?_
      inList := fun b t src ht hl hsrc => ?_
      linked := h.linked
      unbound := h.unbound
      bound := h.bound
      ids := h.ids
      idBound := h.idBound }
  · obtain ⟨s₀, hs₀, hns, -⟩ := old b s hs
    obtain ⟨t₀, ht₀, hnt, -⟩ := old d t ht
    exact h.names b d s₀ t₀ hs₀ ht₀ (by rw [← hns, hn, hnt])
  · obtain ⟨s, hs, -, -, hok⟩ := old b t ht
    exact hok (h.ok b s hs)
  · obtain ⟨s, hs, -, hsub, -⟩ := old b t ht
    exact hsub ▸ h.nodup b s hs
  · obtain ⟨s, hs, -, hsub, -⟩ := old b t ht
    exact h.listed b s d hs (hsub ▸ hd)
  · obtain ⟨s, hs, -, hsub, -⟩ := old _ src hsrc
    exact hsub ▸ h.inList b t s ht hl hs

/-! ## Runs -/

theorem lt_next_slabAlloc {c : ShmCtx} {env : Env} {a : ℕ} (h : a < c.sources.next) :
    a < (c.slabAlloc env).1.sources.next := by
  have hexp : ∀ as : List ℕ, ∀ d : ShmCtx,
      (as.foldl (expireSession env.now true) d).sources.next = d.sources.next := by
    intro as
    induction as with
    | nil => exact fun _ => rfl
    | cons b as ih =>
      intro d
      rw [List.foldl_cons, ih]
      unfold expireSession sessionFree
      split
      · rfl
      · split_ifs
        · split <;> rfl
        · rfl
  unfold slabAlloc
  split_ifs
  · exact h
  · exact (hexp _ c).symm ▸ h

theorem Shape.sessionAdd {c : ShmCtx} (h : c.Shape) (env : Env) (args : SessionArgs) :
    (c.sessionAdd env args).1.Shape := by
  rcases c.sessionAdd_cases env args with he | he | ⟨src, hsrc, -, he⟩
  · rwa [he]
  · rw [he]
    exact h.moves (c.moves_slabAlloc env)
  · rw [he]
    obtain ⟨s, hs, -⟩ := sourceLookup_spec hsrc
    exact (h.moves (c.moves_slabAlloc env)).addSkeleton (lt_next_slabAlloc (Pool.lt_next hs))

end ShmCtx

/-- **Every call keeps the shape of the registry.** -/
theorem ShmOp.shape_step {c : ShmCtx} (h : c.Shape) (op : ShmOp) : (op.step c).Shape := by
  rcases op.step_moves c with hm | ⟨env, args, rfl⟩ | ⟨a, slot, rfl⟩
  · exact h.moves hm
  · exact h.sessionAdd env args
  · exact h.setPublisherSlot a slot

/-- The states of the registry, over any interleaving of calls. -/
abbrev ShmCtx.Reachable (nworkers : ℕ) (rings : List (Option MediaRing)) (c : ShmCtx) : Prop :=
  Lts.Reachable (fun c op => ShmOp.step c op) (ShmCtx.init nworkers rings) c

theorem ShmCtx.Reachable.shape {nworkers : ℕ} {rings : List (Option MediaRing)} {c : ShmCtx}
    (h : c.Reachable nworkers rings) : c.Shape :=
  Lts.Reachable.induction (shape_init nworkers rings) (fun _ op hc => op.shape_step hc) h

end NginxRtc
