/-
  What an expiry sweep does to each entry of the registry.

  `expire_session`: a sweep frees exactly the half-open skeletons that are due.
  `expire_source_some`, `expire_source_none`: a source that survives keeps its name and viewers,
  and its publish state too when the publisher's heartbeat is young; only a source without a live
  publisher is freed.
-/
import Mathlib.Data.List.Sublists
import NginxRtc.Shm.Registry

namespace NginxRtc

/-! ## Freeing skeletons -/

/-- `src'` is `src` after skeletons that point at it were freed. -/
structure ShmSource.Shed (src src' : ShmSource) : Prop where
  name : src'.name = src.name
  publishing : src'.publishing = src.publishing
  kind : src'.publisherKind = src.publisherKind
  seen : src'.publisherSeenMs = src.publisherSeenMs
  slot : src'.publisherSlot = src.publisherSlot
  subscribers : src'.subscribers.Sublist src.subscribers
  expires : src.expires ≠ 0 ∨ src.publishing = true → src'.expires = src.expires
  watched : src'.subscribers ≠ [] → src'.expires = src.expires

theorem ShmSource.Shed.refl (src : ShmSource) : src.Shed src :=
  ⟨rfl, rfl, rfl, rfl, rfl, List.Sublist.refl _, fun _ => rfl, fun _ => rfl⟩

theorem ShmSource.Shed.trans {s t u : ShmSource} (h : s.Shed t) (h' : t.Shed u) : s.Shed u where
  name := h'.name.trans h.name
  publishing := h'.publishing.trans h.publishing
  kind := h'.kind.trans h.kind
  seen := h'.seen.trans h.seen
  slot := h'.slot.trans h.slot
  subscribers := h'.subscribers.trans h.subscribers
  expires he := by rw [h'.expires (by rwa [h.expires he, h.publishing]), h.expires he]
  watched hw := by
    have hmid : t.subscribers ≠ [] := fun hnil => hw (List.sublist_nil.1 (hnil ▸ h'.subscribers))
    exact (h'.watched hw).trans (h.watched hmid)

theorem ShmSource.shed_armGrace (now : ℕ) (src : ShmSource) : src.Shed (src.armGrace now) := by
  unfold ShmSource.armGrace
  split_ifs with h
  · refine ⟨rfl, rfl, rfl, rfl, rfl, List.Sublist.refl _, fun he => ?_, fun hw => absurd h.1 hw⟩
    rcases he with he | hp
    · exact absurd h.2.2 he
    · exact absurd (h.2.1.symm.trans hp) Bool.false_ne_true
  · exact .refl src

theorem ShmSource.shed_dropSession (now a : ℕ) (sess : ShmSession) (src : ShmSource) :
    src.Shed (src.dropSession now a sess) := by
  have hunlink : src.Shed (src.unlink a sess.ownerSlot) :=
    ⟨rfl, rfl, rfl, rfl, rfl, List.erase_sublist, fun _ => rfl, fun _ => rfl⟩
  unfold ShmSource.dropSession
  split_ifs
  · exact hunlink.trans (shed_armGrace now _)
  · exact shed_armGrace now src

/-- `src'` is `src` after a sweep at `now` kept it. -/
structure ShmSource.Swept (now : ℕ) (src src' : ShmSource) : Prop where
  name : src'.name = src.name
  slot : src'.publisherSlot = src.publisherSlot
  seen : src'.publisherSeenMs = src.publisherSeenMs
  subscribers : src'.subscribers.Sublist src.subscribers
  alive : src.publishing = true → src.alive now = true →
    src'.publishing = true ∧ src'.publisherKind = src.publisherKind ∧ src'.expires = src.expires
  dead : src.publishing = true → src.alive now = false →
    src'.publishing = false ∧ src'.publisherKind = none
  idle : src.publishing = false →
    src'.publishing = false ∧ src'.publisherKind = src.publisherKind

theorem ShmSource.swept_settled {now : ℕ} {src : ShmSource}
    (h : (src.publishing && src.alive now) = false) : src.Swept now (src.settled now) := by
  unfold ShmSource.settled
  cases hp : src.publishing with
  | false =>
    simp only [Bool.false_eq_true, ↓reduceIte]
    exact ⟨rfl, rfl, rfl, .refl _, fun h' => absurd (hp.symm.trans h') Bool.false_ne_true,
      fun h' => absurd (hp.symm.trans h') Bool.false_ne_true, fun _ => ⟨hp, rfl⟩⟩
  | true =>
    rw [hp, Bool.true_and] at h
    simp only [↓reduceIte]
    exact ⟨rfl, rfl, rfl, .refl _, fun _ h' => absurd (h.symm.trans h') Bool.false_ne_true,
      fun _ _ => ⟨rfl, rfl⟩, fun h' => absurd (h'.symm.trans hp) Bool.false_ne_true⟩

theorem ShmSource.swept_expireStep {now : ℕ} {forced referenced : Bool} {src src' : ShmSource}
    (h : src.expireStep now forced referenced = some src') : src.Swept now src' := by
  unfold ShmSource.expireStep at h
  split_ifs at h with halive hsubs hdue
  · obtain rfl := Option.some.inj h
    rw [Bool.and_eq_true] at halive
    exact ⟨rfl, rfl, rfl, .refl _, fun _ _ => ⟨halive.1, rfl, rfl⟩,
      fun _ h' => absurd (halive.2.symm.trans h') Bool.false_ne_true.symm,
      fun h' => absurd (h'.symm.trans halive.1) Bool.false_ne_true⟩
  · exact Option.some.inj h ▸ swept_settled (Bool.eq_false_iff.2 halive)
  · exact Option.some.inj h ▸ swept_settled (Bool.eq_false_iff.2 halive)

theorem ShmSource.alive_congr {now : ℕ} {s t : ShmSource}
    (h : t.publisherSeenMs = s.publisherSeenMs) : t.alive now = s.alive now := by
  simp only [ShmSource.alive, h]

theorem ShmSource.Shed.swept {now : ℕ} {s t u : ShmSource} (h : s.Shed t) (h' : t.Swept now u) :
    s.Swept now u where
  name := h'.name.trans h.name
  slot := h'.slot.trans h.slot
  seen := h'.seen.trans h.seen
  subscribers := h'.subscribers.trans h.subscribers
  alive hp ha := by
    obtain ⟨h1, h2, h3⟩ := h'.alive (h.publishing.trans hp) (by rwa [alive_congr h.seen])
    exact ⟨h1, h2.trans h.kind, h3.trans (h.expires (.inr hp))⟩
  dead hp ha := h'.dead (h.publishing.trans hp) (by rwa [alive_congr h.seen])
  idle hp := by
    obtain ⟨h1, h2⟩ := h'.idle (h.publishing.trans hp)
    exact ⟨h1, h2.trans h.kind⟩

/-- Only a source without viewers and without a live publisher is freed. -/
theorem ShmSource.expireStep_none {now : ℕ} {forced referenced : Bool} {src : ShmSource}
    (h : src.expireStep now forced referenced = none) :
    (src.publishing && src.alive now) = false ∧ src.subscribers = [] ∧ referenced = false := by
  unfold ShmSource.expireStep at h
  split_ifs at h with halive hsubs hdue
  have hs : (src.settled now).subscribers = src.subscribers := by
    unfold ShmSource.settled; split_ifs <;> rfl
  refine ⟨Bool.eq_false_iff.2 halive, hs ▸ not_not.1 hsubs, ?_⟩
  exact Bool.not_eq_true' .. ▸ (Bool.and_eq_true_iff.1 hdue).2

namespace ShmCtx

/-- After the sweep of skeletons every source is still there. -/
def Sheds (c c' : ShmCtx) : Prop :=
  ∀ b, Option.Rel ShmSource.Shed (c.sources.get b) (c'.sources.get b)

theorem sheds_refl (c : ShmCtx) : c.Sheds c := fun b => by
  cases c.sources.get b with
  | none => exact .none
  | some src => exact .some (.refl src)

theorem Sheds.trans {c d e : ShmCtx} (h : c.Sheds d) (h' : d.Sheds e) : c.Sheds e := fun b => by
  have hb := h b
  have hb' := h' b
  revert hb hb'
  cases c.sources.get b <;> cases d.sources.get b <;> cases e.sources.get b <;>
    intro hb hb' <;> cases hb <;> cases hb'
  · exact .none
  · next h1 h2 => exact .some (h1.trans h2)

theorem sheds_sessionFree (c : ShmCtx) (now a : ℕ) : c.Sheds (c.sessionFree now a) := fun b => by
  unfold sessionFree
  split
  · exact sheds_refl c b
  · next sess _ =>
    simp only [Pool.get_modify]
    cases c.sources.get b with
    | none => split_ifs <;> exact .none
    | some src =>
      split_ifs
      · exact .some (src.shed_dropSession now a sess)
      · exact .some (.refl src)

theorem sheds_expireSession (c : ShmCtx) (now : ℕ) (forced : Bool) (a : ℕ) :
    c.Sheds (expireSession now forced c a) := by
  unfold expireSession
  split
  · exact sheds_refl c
  · split_ifs
    · exact sheds_sessionFree c now a
    · exact sheds_refl c

theorem sheds_expireSessions (c : ShmCtx) (now : ℕ) (forced : Bool) :
    c.Sheds (c.expireSessions now forced) := by
  unfold expireSessions
  generalize c.sessions.addrs = as
  induction as generalizing c with
  | nil => exact sheds_refl c
  | cons a as ih => exact (sheds_expireSession c now forced a).trans (ih _)

/-! ## Which skeletons go -/

theorem sessionFree_session (c : ShmCtx) (now a b : ℕ) :
    (c.sessionFree now a).sessions.get b = if b = a then none else c.sessions.get b := by
  unfold sessionFree
  split
  · next h =>
    split_ifs with hb
    · rw [hb, h]
    · rfl
  · exact Pool.get_free ..

theorem expireSession_session (c : ShmCtx) (now : ℕ) (forced : Bool) (a b : ℕ) :
    (expireSession now forced c a).sessions.get b =
      if b = a then (c.sessions.get b).filter fun s => !s.halfOpenDue now forced
      else c.sessions.get b := by
  unfold expireSession
  split
  · next h =>
    split_ifs with hb
    · rw [hb, h, Option.filter_none]
    · rfl
  · next sess h =>
    by_cases hb : b = a
    · subst hb
      rw [if_pos rfl, h, Option.filter_some]
      cases sess.halfOpenDue now forced with
      | true => exact (sessionFree_session c now b b).trans (if_pos rfl)
      | false => exact h
    · rw [if_neg hb]
      split_ifs
      · rw [sessionFree_session, if_neg hb]
      · rfl

theorem foldl_expireSession (now : ℕ) (forced : Bool) (as : List ℕ) (c : ShmCtx) (b : ℕ) :
    (as.foldl (expireSession now forced) c).sessions.get b =
      if b ∈ as then (c.sessions.get b).filter fun s => !s.halfOpenDue now forced
      else c.sessions.get b := by
  induction as generalizing c with
  | nil => simp
  | cons a as ih =>
    rw [List.foldl_cons, ih, expireSession_session]
    by_cases hb : b = a
    · subst hb
      by_cases hm : b ∈ as
      · simp only [hm, ↓reduceIte, List.mem_cons, true_or, Option.filter_filter, Bool.and_self]
      · simp only [hm, ↓reduceIte, List.mem_cons, true_or]
    · simp only [hb, ↓reduceIte, List.mem_cons, false_or]

theorem expireSessions_session (c : ShmCtx) (now : ℕ) (forced : Bool) (b : ℕ) :
    (c.expireSessions now forced).sessions.get b =
      (c.sessions.get b).filter fun s => !s.halfOpenDue now forced := by
  rw [expireSessions, foldl_expireSession]
  split_ifs with hb
  · rfl
  · have hn : c.sessions.get b = none := by
      simpa only [Pool.mem_addrs_iff, Bool.not_eq_true, Option.isSome_eq_false_iff,
        Option.isNone_iff_eq_none] using hb
    rw [hn, Option.filter_none]

/-- **A sweep frees exactly the half-open skeletons that are due.** -/
theorem expire_session (c : ShmCtx) (now : ℕ) (forced : Bool) (b : ℕ) :
    (c.expire now forced).sessions.get b =
      (c.sessions.get b).filter fun s => !s.halfOpenDue now forced :=
  expireSessions_session c now forced b

/-! ## Which sources go -/

theorem expireSources_source (c : ShmCtx) (now : ℕ) (forced : Bool) (b : ℕ) :
    (c.expireSources now forced).sources.get b =
      (c.sources.get b).bind (ShmSource.expireStep now forced (c.sourceReferenced b)) :=
  Pool.get_sweep ..

/-- **A source that survives a sweep** was there before. -/
theorem expire_source_some {c : ShmCtx} {now : ℕ} {forced : Bool} {b : ℕ} {src' : ShmSource}
    (h : (c.expire now forced).sources.get b = some src') :
    ∃ src, c.sources.get b = some src ∧ src.Swept now src' := by
  rw [expire, expireSources_source, Option.bind_eq_some_iff] at h
  obtain ⟨t, ht, hstep⟩ := h
  have hb := sheds_expireSessions c now forced b
  rw [ht] at hb
  generalize hc : c.sources.get b = o at hb
  cases hb with
  | some hshed => exact ⟨_, rfl, hshed.swept (ShmSource.swept_expireStep hstep)⟩

/-- **A source that a sweep frees** had no live publisher. -/
theorem expire_source_none {c : ShmCtx} {now : ℕ} {forced : Bool} {b : ℕ} {src : ShmSource}
    (hsrc : c.sources.get b = some src) (h : (c.expire now forced).sources.get b = none) :
    (src.publishing && src.alive now) = false := by
  have hb := sheds_expireSessions c now forced b
  rw [hsrc] at hb
  generalize hd : (c.expireSessions now forced).sources.get b = o at hb
  cases hb with
  | some hshed =>
    rw [expire, expireSources_source, hd, Option.bind_some] at h
    have hn := (ShmSource.expireStep_none h).1
    rwa [hshed.publishing, ShmSource.alive_congr hshed.seen] at hn

theorem expire_source_of_alive {c : ShmCtx} {now : ℕ} {forced : Bool} {b : ℕ} {src : ShmSource}
    (hsrc : c.sources.get b = some src) (hp : src.publishing = true) (ha : src.alive now = true) :
    ∃ src', (c.expire now forced).sources.get b = some src' ∧ src.Swept now src' := by
  cases h : (c.expire now forced).sources.get b with
  | none =>
    have hn := expire_source_none hsrc h
    rw [hp, ha] at hn
    exact absurd hn (by decide)
  | some src' =>
    obtain ⟨t, ht, hs⟩ := expire_source_some h
    obtain rfl := Option.some.inj (hsrc.symm.trans ht)
    exact ⟨src', rfl, hs⟩

end ShmCtx

end NginxRtc
