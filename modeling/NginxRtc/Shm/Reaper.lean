/-
  The reaper never takes a source that is in use, and never forgets one that is not.

  A publishing source has no deadline, and a source with neither publisher nor viewer has one
  (`ShmSource.Ok`, part of the shape).  `Shape.sweep_frees_iff`: which sources a sweep frees.
  `used_kept`: no call frees a source in use, as long as the slab has memory.

  `reaper_safe` puts them together for every reachable registry.
-/
import NginxRtc.Shm.Refs

namespace NginxRtc

/-- A call that runs no forced sweep: the slab has memory for it. -/
def ShmOp.calm : ShmOp → Bool
  | .sourceGet env _ => env.slab
  | .sessionAdd env _ => env.slab
  | .expire _ forced => !forced
  | _ => true

/-- A publisher or a linked viewer uses the source. -/
def ShmSource.Used (src : ShmSource) : Prop := src.publishing = true ∨ src.subscribers ≠ []

namespace ShmCtx

/-! ## Sweeps -/

/-- The first pass of a sweep leaves every source in place. -/
theorem expireSessions_source {c : ShmCtx} {a : ℕ} {src : ShmSource}
    (h : c.sources.get a = some src) (now : ℕ) (forced : Bool) :
    ∃ t, (c.expireSessions now forced).sources.get a = some t ∧ src.Shed t := by
  have hb := sheds_expireSessions c now forced a
  rw [h] at hb
  generalize hd : (c.expireSessions now forced).sources.get a = o at hb
  cases hb with
  | some hshed => exact ⟨_, rfl, hshed⟩

/-- In a registry of good shape the first pass keeps the viewers of a source. -/
theorem Shape.expireSessions_subscribers {c : ShmCtx} (hc : c.Shape) {now : ℕ} {forced : Bool}
    {a : ℕ} {src t : ShmSource} (hsrc : c.sources.get a = some src)
    (ht : (c.expireSessions now forced).sources.get a = some t) (hs : src.Shed t) :
    t.subscribers = [] ↔ src.subscribers = [] := by
  constructor
  · intro hnil
    refine List.eq_nil_iff_forall_not_mem.2 fun d hd => ?_
    exact List.eq_nil_iff_forall_not_mem.1 hnil d (hc.mem_expireSessions hsrc ht hd)
  · intro hnil
    exact List.sublist_nil.1 (hnil ▸ hs.subscribers)

/-- **A sweep frees a source** exactly when nobody publishes it, nobody watches it, its deadline has
    passed and no skeleton that outlives the sweep's first pass points at it. -/
theorem Shape.sweep_frees_iff {c : ShmCtx} (hc : c.Shape) {a now : ℕ} {src : ShmSource}
    (hsrc : c.sources.get a = some src) :
    (c.expire now false).sources.get a = none ↔
      src.publishing = false ∧ src.subscribers = [] ∧ src.expires ≤ now ∧
        ∀ b s, (c.expireSessions now false).sessions.get b = some s → s.source ≠ a := by
  obtain ⟨t, ht, hshed⟩ := expireSessions_source hsrc now false
  have hok := hc.ok a src hsrc
  have hsubs := hc.expireSessions_subscribers hsrc ht hshed
  rw [expire, expireSources_source, ht, Option.bind_some, ← sourceReferenced_eq_false]
  unfold ShmSource.expireStep
  cases hp : src.publishing with
  | true =>
    -- a dead publisher's source gets a new deadline, which this sweep does not reach
    have htp : t.publishing = true := hshed.publishing.trans hp
    have hte : t.expires = 0 := (hshed.expires (.inr hp)).trans (hok.held hp)
    have hdue : (t.settled now).due now false
        ((c.expireSessions now false).sourceReferenced a) = false := by
      simp [ShmSource.due, ShmSource.settled, htp, ShmSource.reapPublisher, hte, shmSourceExpireMs]
    refine iff_of_false ?_ fun h => Bool.noConfusion h.1
    rw [hdue]
    split_ifs <;> simp_all
  | false =>
    have htp : t.publishing = false := hshed.publishing.trans hp
    have hset : t.settled now = t := by simp [ShmSource.settled, htp]
    rw [htp, Bool.false_and, if_neg Bool.false_ne_true, hset]
    by_cases hnil : src.subscribers = []
    · have hexp : src.expires ≠ 0 := hok.idle hp hnil
      have hte : t.expires = src.expires := hshed.expires (.inl hexp)
      rw [if_neg (not_not.2 (hsubs.2 hnil))]
      simp [ShmSource.due, hte, hexp, hnil]
    · rw [if_pos (mt hsubs.1 hnil)]
      exact iff_of_false (by simp) fun h => hnil h.2.1

/-! ## Sources in use -/

theorem isSome_modifySource (c : ShmCtx) (name : SourceName) (f : ShmSource → ShmSource) (a : ℕ) :
    ((c.modifySource name f).sources.get a).isSome = (c.sources.get a).isSome := by
  unfold modifySource
  split
  · rfl
  · exact Pool.isSome_modify ..

theorem used_expire {c : ShmCtx} (hc : c.Shape) {a : ℕ} {src : ShmSource}
    (hsrc : c.sources.get a = some src) (hu : src.Used) (now : ℕ) :
    ((c.expire now false).sources.get a).isSome := by
  rw [Option.isSome_iff_ne_none]
  intro hnone
  obtain ⟨hp, hsubs, -⟩ := (hc.sweep_frees_iff hsrc).1 hnone
  rcases hu with hu | hu
  · exact Bool.false_ne_true (hp.symm.trans hu)
  · exact hu hsubs

theorem used_sourceRemove {c : ShmCtx} {a : ℕ} {src : ShmSource}
    (hsrc : c.sources.get a = some src) (hu : src.Used) (name : SourceName) :
    ((c.sourceRemove name).sources.get a).isSome := by
  have hkeep : (c.sources.get a).isSome := by simp [hsrc]
  unfold sourceRemove
  split
  · exact hkeep
  · next b _ =>
    split
    · exact hkeep
    · next t ht =>
      split_ifs with hsubs hpub href
      · exact hkeep
      · exact hkeep
      · exact hkeep
      · rw [Pool.get_free, if_neg]
        · exact hkeep
        · rintro rfl
          obtain rfl := Option.some.inj (hsrc.symm.trans ht)
          exact hu.elim hpub hsubs

/-- **No call frees a source in use**, while the slab has memory. -/
theorem used_kept {c : ShmCtx} (hc : c.Shape) {a : ℕ} {src : ShmSource}
    (hsrc : c.sources.get a = some src) (hu : src.Used) {op : ShmOp} (hop : op.calm = true) :
    ((op.step c).sources.get a).isSome := by
  have hkeep : (c.sources.get a).isSome := by simp [hsrc]
  cases op with
  | sourceGet env name =>
    have henv : env.slab = true := hop
    simp only [ShmOp.step, sourceGet, slabAlloc, henv, if_true]
    split
    · exact hkeep
    · exact Option.isSome_iff_exists.2 ⟨src, Pool.get_alloc_of_some hsrc⟩
  | sourceRemove name => exact used_sourceRemove hsrc hu name
  | tryPublish now name kind =>
    simp only [ShmOp.step, sourceTryPublish]
    split
    · exact hkeep
    · split_ifs
      · exact hkeep
      · rwa [isSome_modifySource]
  | releasePublish now name kind =>
    simp only [ShmOp.step, sourceReleasePublish]
    split
    · exact hkeep
    · split_ifs
      · exact hkeep
      · rwa [isSome_modifySource]
  | setPt name videoPt audioPt => exact (isSome_modifySource c name _ a).trans hkeep
  | setSsrc name videoSsrc audioSsrc => exact (isSome_modifySource c name _ a).trans hkeep
  | sessionAdd env args =>
    have henv : env.slab = true := hop
    simp only [ShmOp.step, sessionAdd, slabAlloc, henv, if_true]
    split
    · exact hkeep
    · exact hkeep
  | bind ufrag slot =>
    simp only [ShmOp.step, sessionBind]
    split
    · exact hkeep
    · split
      · exact hkeep
      · split_ifs <;> exact hkeep
  | activate ufrag slot =>
    simp only [ShmOp.step, sessionActivate]
    split
    · exact hkeep
    · split
      · exact hkeep
      · split_ifs
        · exact hkeep
        · exact hkeep
        · exact (Pool.isSome_modify ..).trans hkeep
  | removeIfOwner now ufrag slot =>
    simp only [ShmOp.step, sessionRemoveIfOwner, sessionFree]
    split
    · exact hkeep
    · split
      · exact hkeep
      · split_ifs
        · split
          · exact hkeep
          · exact (Pool.isSome_modify ..).trans hkeep
        · exact hkeep
  | requestClose id =>
    simp only [ShmOp.step, sessionRequestClose]
    split <;> exact hkeep
  | setState ufrag slot state =>
    simp only [ShmOp.step, sessionSetState]
    split <;> exact hkeep
  | expire now forced =>
    have hforced : forced = false := by simpa [ShmOp.calm] using hop
    subst hforced
    exact used_expire hc hsrc hu now
  | setPublisherSlot b slot => exact (Pool.isSome_modify ..).trans hkeep
  | setStats b stats => exact (Pool.isSome_modify ..).trans hkeep
  | setStatsSeen b stats now => exact (Pool.isSome_modify ..).trans hkeep
  | retransmitAppend b slab rtp gop =>
    simp only [ShmOp.step, retransmitAppend]
    split_ifs
    · exact hkeep
    · split
      · exact hkeep
      · split_ifs
        · exact hkeep
        · exact (Pool.isSome_modify ..).trans hkeep

/-- The publish flag, the viewers and the deadline of a source agree. -/
def DeadlinesOk (c : ShmCtx) : Prop :=
  ∀ a src, c.sources.get a = some src →
    (src.publishing = true → src.expires = 0) ∧
      (src.publishing = false → src.subscribers = [] → src.expires ≠ 0)

end ShmCtx

/-- **The reaper is safe and leaks no idle source**, in every reachable registry: deadlines agree
    with use, a sweep frees exactly the sources that are idle, overdue and unreferenced, and no call
    frees a source in use. -/
theorem reaper_safe {nworkers : ℕ} {rings : List (Option MediaRing)} {c : ShmCtx}
    (h : c.Reachable nworkers rings) :
    c.DeadlinesOk ∧
      (∀ a src now, c.sources.get a = some src →
        ((c.expire now false).sources.get a = none ↔
          src.publishing = false ∧ src.subscribers = [] ∧ src.expires ≤ now ∧
            ∀ b s, (c.expireSessions now false).sessions.get b = some s → s.source ≠ a)) ∧
      ∀ a src (op : ShmOp), c.sources.get a = some src → src.Used → op.calm = true →
        ((op.step c).sources.get a).isSome := by
  have hc := h.shape
  refine ⟨fun a src hsrc => ?_, fun a src now hsrc => hc.sweep_frees_iff hsrc,
    fun a src op hsrc hu hop => ShmCtx.used_kept hc hsrc hu hop⟩
  exact ⟨(hc.ok a src hsrc).held, (hc.ok a src hsrc).idle⟩

/-- A source created at time 5 and never used is freed by the sweep at 10005. -/
theorem reaper_safe_idle :
    (((ShmCtx.init 2 []).sourceGet (Env.at 5) sampleName).1.expire 10005 false).sources.get 0 =
      none := by
  obtain ⟨-, hfree, -⟩ := @reaper_safe 2 [] _
    ⟨[.sourceGet (Env.at 5) sampleName], rfl⟩
  refine (hfree 0 (ShmSource.fresh (Env.at 5) sampleName) 10005 rfl).2 ⟨rfl, rfl, by decide, ?_⟩
  intro b s hs
  exact nomatch hs

end NginxRtc
