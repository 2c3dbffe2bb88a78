/-
  References between the entries of the registry.

  `RefsOk`: every skeleton points at an allocated source, every linked skeleton stands in the
  list of its own source, and so no later call on a skeleton touches a freed source.

  `session_add` looks its source up before a forced sweep that may free it, so the property is
  not an invariant.  `refsOk_iff`: a run keeps it exactly if no `session_add` of the run meets the
  condition `dangles`: the first allocation fails and the retry succeeds, while the source has no
  live publisher, no viewer and no bound skeleton.  `refsOk_lost`: a run that loses it.
-/
import NginxRtc.Shm.Shape

namespace NginxRtc

namespace ShmCtx

/-- The skeleton called `ufrag`, when worker `slot` may act on it. -/
def ownable (c : ShmCtx) (ufrag : Ufrag) (slot : ℕ) : Option ShmSession :=
  ((c.sessionLookup ufrag).bind c.sessions.get).filter fun s => s.ownableBy slot

end ShmCtx

/-- The sources a call dereferences through a skeleton. -/
def ShmOp.touches (c : ShmCtx) : ShmOp → List ℕ
  | .bind ufrag slot => (c.ownable ufrag slot).toList.map fun s => s.source
  | .activate ufrag slot => (c.ownable ufrag slot).toList.map fun s => s.source
  | .removeIfOwner _ ufrag slot => (c.ownable ufrag slot).toList.map fun s => s.source
  | .expire now forced =>
    (c.sessions.cells.filter fun p => p.2.halfOpenDue now forced).map fun p => p.2.source
  | _ => []

namespace ShmCtx

structure RefsOk (c : ShmCtx) : Prop where
  live : ∀ a s, c.sessions.get a = some s → (c.sources.get s.source).isSome
  listed : ∀ a s, c.sessions.get a = some s → s.subLinked = true →
    ∃ src, c.sources.get s.source = some src ∧ a ∈ src.subscribers
  touches : ∀ op : ShmOp, ∀ a ∈ op.touches c, (c.sources.get a).isSome

/-- Whether `session_add` with these arguments leaves the new skeleton without its source. -/
def dangles (c : ShmCtx) (env : Env) (args : SessionArgs) : Bool :=
  !env.slab && env.slabRetry &&
    (c.sourceLookup args.name).any fun a => (c.sources.get a).any fun src =>
      !(src.publishing && src.alive env.now) && src.subscribers.isEmpty &&
        c.sessions.cells.all fun p => p.2.source ≠ a || p.2.ownerSlot = none

end ShmCtx

def ShmOp.dangles (c : ShmCtx) : ShmOp → Bool
  | .sessionAdd env args => c.dangles env args
  | _ => false

namespace ShmCtx

/-! ## Live references -/

/-- Every skeleton points at an allocated source. -/
def Live (c : ShmCtx) : Prop :=
  ∀ a s, c.sessions.get a = some s → (c.sources.get s.source).isSome

theorem ownable_get {c : ShmCtx} {ufrag : Ufrag} {slot : ℕ} {s : ShmSession}
    (h : s ∈ (c.ownable ufrag slot).toList) : ∃ a, c.sessions.get a = some s := by
  rw [Option.mem_toList, ownable, Option.filter_eq_some_iff,
    Option.bind_eq_some_iff] at h
  obtain ⟨⟨a, -, ha⟩, -⟩ := h
  exact ⟨a, ha⟩

theorem Live.touches {c : ShmCtx} (h : c.Live) (op : ShmOp) :
    ∀ a ∈ op.touches c, (c.sources.get a).isSome := by
  intro a ha
  have key : ∃ b s, c.sessions.get b = some s ∧ s.source = a := by
    cases op with
    | bind ufrag slot | activate ufrag slot | removeIfOwner _ ufrag slot =>
      obtain ⟨s, hs, rfl⟩ := List.mem_map.1 ha
      obtain ⟨b, hb⟩ := ownable_get hs
      exact ⟨b, s, hb, rfl⟩
    | expire now forced =>
      obtain ⟨⟨b, s⟩, hs, rfl⟩ := List.mem_map.1 ha
      exact ⟨b, s, Pool.mem_cells_iff.1 (List.mem_of_mem_filter hs), rfl⟩
    | _ => exact absurd ha List.not_mem_nil
  obtain ⟨b, s, hs, rfl⟩ := key
  exact h b s hs

theorem refsOk_of_live {c : ShmCtx} (hc : c.Shape) (h : c.Live) : c.RefsOk where
  live := h
  listed a s hs hl := by
    obtain ⟨src, hsrc⟩ := Option.isSome_iff_exists.1 (h a s hs)
    exact ⟨src, hsrc, hc.inList a s src hs hl hsrc⟩
  touches := h.touches

/-! ## Moves keep references live -/

theorem sourceReferenced_eq_false {c : ShmCtx} {a : ℕ} :
    c.sourceReferenced a = false ↔ ∀ b s, c.sessions.get b = some s → s.source ≠ a := by
  simp only [sourceReferenced, List.any_eq_false, decide_eq_true_eq, Prod.forall,
    Pool.mem_cells_iff, ne_eq]

theorem Live.move {c c' : ShmCtx} (h : c.Live) (hm : c.Move c') : c'.Live := by
  intro b s hs
  cases hm with
  | sources f free keep =>
    obtain ⟨src, hsrc⟩ := Option.isSome_iff_exists.1 (h b s hs)
    show ((c.sources.sweep f).get s.source).isSome
    rw [Pool.get_sweep, hsrc, Option.bind_some]
    cases hf : f s.source src with
    | none => exact absurd rfl (sourceReferenced_eq_false.1 (free _ _ hsrc hf).2 b s hs)
    | some src' => rfl
  | newSource env name absent =>
    obtain ⟨src, hsrc⟩ := Option.isSome_iff_exists.1 (h b s hs)
    exact Option.isSome_iff_exists.2 ⟨src, Pool.get_alloc_of_some hsrc⟩
  | session a f keep =>
    simp only [Pool.get_modify] at hs
    split_ifs at hs with hb
    · obtain ⟨t, ht, rfl⟩ := Option.map_eq_some_iff.1 hs
      rw [(keep t (hb ▸ ht)).source]
      exact h b t ht
    · exact h b s hs
  | link a slot t get own player fresh =>
    show ((c.sources.modify _ _).get s.source).isSome
    rw [Pool.isSome_modify]
    simp only [Pool.get_modify] at hs
    split_ifs at hs with hb
    · obtain ⟨u, hu, rfl⟩ := Option.map_eq_some_iff.1 hs
      exact h b u hu
    · exact h b s hs
  | drop now a =>
    unfold sessionFree at hs ⊢
    split at hs
    · exact h b s hs
    · next sess get =>
      simp only [Pool.isSome_modify]
      simp only [Pool.get_free] at hs
      split_ifs at hs
      exact h b s hs

theorem Live.moves {c c' : ShmCtx} (h : c.Live) (hm : c.Moves c') : c'.Live := by
  induction hm with
  | refl => exact h
  | tail _ hstep ih => exact ih.move hstep

/-! ## What the forced sweep does to the source of a new session -/

/-- In a registry of good shape the first pass of a sweep unlinks nobody. -/
theorem Shape.mem_expireSessions {c : ShmCtx} (hc : c.Shape) {now : ℕ} {forced : Bool} {b d : ℕ}
    {src src' : ShmSource} (hsrc : c.sources.get b = some src)
    (hsrc' : (c.expireSessions now forced).sources.get b = some src') (hd : d ∈ src.subscribers) :
    d ∈ src'.subscribers := by
  obtain ⟨s, hs, rfl, hl⟩ := hc.listed b src d hsrc hd
  have hs' : (c.expireSessions now forced).sessions.get d = some s := by
    have hbound : s.halfOpenDue now forced = false := by
      simp [ShmSession.halfOpenDue, (hc.linked d s hs hl).1]
    rw [expireSessions_session, hs, Option.filter_some, hbound]
    rfl
  exact (hc.moves (moves_foldl_expireSession now forced _ c)).inList d s src' hs' hl hsrc'

/-- **Which source a forced sweep frees.** -/
theorem Shape.expire_freed_iff {c : ShmCtx} (hc : c.Shape) {now a : ℕ} {src : ShmSource}
    (hsrc : c.sources.get a = some src) :
    (c.expire now true).sources.get a = none ↔
      (src.publishing && src.alive now) = false ∧ src.subscribers = [] ∧
        ∀ b s, c.sessions.get b = some s → s.source = a → s.ownerSlot = none := by
  have hshape : (c.expireSessions now true).Shape :=
    hc.moves (moves_foldl_expireSession now true _ c)
  obtain ⟨t, ht, hshed⟩ : ∃ t, (c.expireSessions now true).sources.get a = some t ∧ src.Shed t := by
    have hb := sheds_expireSessions c now true a
    rw [hsrc] at hb
    generalize hd : (c.expireSessions now true).sources.get a = o at hb
    cases hb with
    | some h => exact ⟨_, rfl, h⟩
  rw [expire, expireSources_source, ht, Option.bind_some]
  constructor
  · intro hnone
    obtain ⟨halive, hsubs, href⟩ := ShmSource.expireStep_none hnone
    rw [hshed.publishing, ShmSource.alive_congr hshed.seen] at halive
    refine ⟨halive, List.eq_nil_iff_forall_not_mem.2 fun d hd => ?_, fun b s hs hb => ?_⟩
    · exact List.eq_nil_iff_forall_not_mem.1 hsubs d (hc.mem_expireSessions hsrc ht hd)
    · -- a bound skeleton outlives the first pass and still refers to the source
      by_contra hown
      have hbound : s.halfOpenDue now true = false := by simp [ShmSession.halfOpenDue, hown]
      have hs' : (c.expireSessions now true).sessions.get b = some s := by
        rw [expireSessions_session, hs, Option.filter_some, hbound]
        rfl
      exact sourceReferenced_eq_false.1 href b s hs' hb
  · rintro ⟨halive, hsubs, hun⟩
    have htsubs : t.subscribers = [] := List.sublist_nil.1 (hsubs ▸ hshed.subscribers)
    have htalive : (t.publishing && t.alive now) = false := by
      rw [hshed.publishing, ShmSource.alive_congr hshed.seen, halive]
    have href : (c.expireSessions now true).sourceReferenced a = false := by
      refine sourceReferenced_eq_false.2 fun b s hs hb => ?_
      rw [expireSessions_session, Option.filter_eq_some_iff] at hs
      have hown := hun b s hs.1 hb
      have hdue : s.halfOpenDue now true = true := by
        simp [ShmSession.halfOpenDue, hown, hc.unbound b s hs.1 hown]
      simp [hdue] at hs
    have hframe := t.frame_settled now
    have hset : (t.settled now).publishing = false := by
      have hsw := ShmSource.swept_settled htalive
      cases hp : t.publishing with
      | false => exact (hsw.idle hp).1
      | true => exact (hsw.dead hp (by rwa [hp, Bool.true_and] at htalive)).1
    have hexp : (t.settled now).expires ≠ 0 :=
      (hframe.ok (hshape.ok a t ht)).idle hset (hframe.subscribers.trans htsubs)
    unfold ShmSource.expireStep
    rw [if_neg (Bool.eq_false_iff.1 htalive), if_neg (not_not.2 (hframe.subscribers.trans htsubs)),
      if_pos]
    simp [ShmSource.due, hexp, href]

theorem dangles_iff {c : ShmCtx} {env : Env} {args : SessionArgs} {a : ℕ} {src : ShmSource}
    (ha : c.sourceLookup args.name = some a) (hsrc : c.sources.get a = some src) :
    c.dangles env args = true ↔ env.slab = false ∧ env.slabRetry = true ∧
      (src.publishing && src.alive env.now) = false ∧ src.subscribers = [] ∧
        ∀ b s, c.sessions.get b = some s → s.source = a → s.ownerSlot = none := by
  simp only [dangles, ha, hsrc, Option.any_some, Bool.and_eq_true, Bool.not_eq_true',
    List.isEmpty_iff, List.all_eq_true, Bool.or_eq_true, decide_eq_true_eq, Prod.forall,
    Pool.mem_cells_iff, ne_eq, and_assoc, or_iff_not_imp_left, not_not]

/-- **One `session_add`**: the new skeleton loses its source exactly when it dangles. -/
theorem RefsOk.sessionAdd_iff {c : ShmCtx} (hc : c.Shape) (h : c.RefsOk) (env : Env)
    (args : SessionArgs) : (c.sessionAdd env args).1.RefsOk ↔ c.dangles env args = false := by
  cases ha : c.sourceLookup args.name with
  | none => simp [sessionAdd, dangles, ha, h]
  | some a =>
    obtain ⟨src, hsrc, -⟩ := sourceLookup_spec ha
    have hslab : (c.slabAlloc env).1.Live := Live.moves h.live (c.moves_slabAlloc env)
    rw [← Bool.not_eq_true, dangles_iff ha hsrc, sessionAdd, ha]
    by_cases hmem : (c.slabAlloc env).2 = true
    · have hadd : ((c.slabAlloc env).1.addSkeleton env.now a args).RefsOk ↔
          ((c.slabAlloc env).1.sources.get a).isSome := by
        constructor
        · exact fun hr => hr.live _ _ (Pool.get_alloc_self _ _)
        · intro hlive
          refine refsOk_of_live ?_ fun b s hs => ?_
          · exact (hc.moves (c.moves_slabAlloc env)).addSkeleton
              (lt_next_slabAlloc (Pool.lt_next hsrc))
          · simp only [addSkeleton, Pool.get_alloc] at hs
            split_ifs at hs
            · obtain rfl := Option.some.inj hs
              exact hlive
            · exact hslab b s hs
      simp only [hmem, ↓reduceIte, hadd]
      cases hfirst : env.slab with
      | true => simp [slabAlloc, hfirst, hsrc]
      | false =>
        have hretry : env.slabRetry = true := by simpa [slabAlloc, hfirst] using hmem
        simp only [slabAlloc, hfirst, Bool.false_eq_true, ↓reduceIte, hretry, true_and,
          ← hc.expire_freed_iff hsrc, ← Option.isSome_iff_ne_none]
    · simp only [hmem, Bool.false_eq_true, ↓reduceIte]
      refine iff_of_true (refsOk_of_live (hc.moves (c.moves_slabAlloc env)) hslab) fun hd => hmem ?_
      simp [slabAlloc, hd.1, hd.2.1]

end ShmCtx

/-- One call, from a good registry. -/
theorem ShmOp.refsOk_step_iff {c : ShmCtx} (hc : c.Shape) (h : c.RefsOk) (op : ShmOp) :
    (op.step c).RefsOk ↔ op.dangles c = false := by
  by_cases hadd : ∃ env args, op = .sessionAdd env args
  · obtain ⟨env, args, rfl⟩ := hadd
    exact h.sessionAdd_iff hc env args
  · refine iff_of_true (ShmCtx.refsOk_of_live (op.shape_step hc) ?_) ?_
    · rcases op.step_moves c with hm | hadd' | ⟨a, slot, rfl⟩
      · exact ShmCtx.Live.moves h.live hm
      · exact absurd hadd' hadd
      · intro b s hs
        show ((c.sources.modify _ _).get s.source).isSome
        rw [Pool.isSome_modify]
        exact h.live b s hs
    · cases op <;> first | rfl | exact absurd ⟨_, _, rfl⟩ hadd

/-- **A run keeps every reference live exactly if none of its `session_add` calls dangles.** -/
theorem refsOk_iff (nworkers : ℕ) (rings : List (Option MediaRing)) (ops : List ShmOp) :
    Lts.Visits (fun c op => ShmOp.step c op) ShmCtx.RefsOk (ShmCtx.init nworkers rings) ops ↔
      Lts.Along (fun c op => ShmOp.step c op) (fun c op => ShmOp.dangles c op = false)
        (ShmCtx.init nworkers rings) ops := by
  refine Lts.visits_iff_along (I := ShmCtx.Shape) (fun c op hc => op.shape_step hc)
    (fun c op hc h => op.refsOk_step_iff hc h) (ShmCtx.shape_init nworkers rings) ?_
  exact ShmCtx.refsOk_of_live (ShmCtx.shape_init nworkers rings) fun a s hs => nomatch hs

/-- A viewer's session is added when memory is short: the forced sweep frees the idle source that
    was looked up for it, the retry succeeds, and the new skeleton points at nothing. -/
theorem refsOk_lost :
    ¬ Lts.Visits (fun c op => ShmOp.step c op) ShmCtx.RefsOk (ShmCtx.init 1 [])
      [.sourceGet (Env.at 5) sampleName,
        .sessionAdd { Env.at 6 with slab := false } (SessionArgs.sample 1 false)] := by
  intro h
  have hlive := h.last.live 0 _ rfl
  exact absurd hlive (by decide)

end NginxRtc
