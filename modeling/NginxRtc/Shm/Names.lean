/-
  Addresses and names of sources.

  Names are unique, so looking one up and following an address are the same thing:
  `Shape.lookup_of_get`.  An address is never given to another source and a source never changes
  its name: `older_step`.
-/
import NginxRtc.Shm.Shape

namespace NginxRtc

namespace ShmCtx

/-! ## Lookups by name -/

theorem Shape.lookup_of_get {c : ShmCtx} (hc : c.Shape) {a : ℕ} {src : ShmSource}
    (h : c.sources.get a = some src) : c.sourceLookup src.name = some a :=
  Pool.find?_eq_of_unique h (decide_eq_true rfl) fun b t ht hn =>
    hc.names b a t src ht h (of_decide_eq_true hn)

theorem source?_of_lookup {c : ShmCtx} {name : SourceName} {a : ℕ}
    (h : c.sourceLookup name = some a) : c.source? name = c.sources.get a := by
  rw [source?, h, Option.bind_some]

theorem source?_eq_some {c : ShmCtx} {name : SourceName} {src : ShmSource}
    (h : c.source? name = some src) :
    ∃ a, c.sourceLookup name = some a ∧ c.sources.get a = some src ∧ src.name = name := by
  obtain ⟨a, ha, hsrc⟩ := Option.bind_eq_some_iff.1 h
  obtain ⟨t, ht, hn⟩ := sourceLookup_spec ha
  obtain rfl := Option.some.inj (hsrc.symm.trans ht)
  exact ⟨a, ha, hsrc, hn⟩

theorem source?_eq_none {c : ShmCtx} {name : SourceName} :
    c.source? name = none ↔ c.sourceLookup name = none := by
  rw [source?]
  constructor
  · intro h
    by_contra hn
    obtain ⟨a, ha⟩ := Option.ne_none_iff_exists'.1 hn
    obtain ⟨src, hsrc, -⟩ := sourceLookup_spec ha
    rw [ha, Option.bind_some, hsrc] at h
    cases h
  · intro h
    rw [h, Option.bind_none]

theorem modifySource_get (c : ShmCtx) (name : SourceName) (f : ShmSource → ShmSource) (a : ℕ) :
    (c.modifySource name f).sources.get a =
      if c.sourceLookup name = some a then (c.sources.get a).map f else c.sources.get a := by
  unfold modifySource
  split
  · next h => rw [h, if_neg (by simp)]
  · next b h =>
    rw [h, Pool.get_modify]
    by_cases hab : a = b
    · subst hab; simp
    · simp [hab, Ne.symm hab]

theorem sourceLookup_modifySource (c : ShmCtx) (name n : SourceName) {f : ShmSource → ShmSource}
    (h : ∀ src, (f src).name = src.name) :
    (c.modifySource name f).sourceLookup n = c.sourceLookup n := by
  unfold modifySource
  split
  · rfl
  · exact Pool.find?_modify _ _ fun v => by rw [h]

theorem sourceGet_of_lookup {c : ShmCtx} {name : SourceName} {a : ℕ}
    (h : c.sourceLookup name = some a) (env : Env) : c.sourceGet env name = (c, some a) := by
  rw [sourceGet, h]

/-! ## Addresses over time -/

/-- Every source of `c'` at an address `c` had already given out is a source of `c`, under the same
    name. -/
structure Older (c c' : ShmCtx) : Prop where
  next : c.sources.next ≤ c'.sources.next
  named : ∀ a src', a < c.sources.next → c'.sources.get a = some src' →
    ∃ src, c.sources.get a = some src ∧ src'.name = src.name

theorem Older.refl (c : ShmCtx) : c.Older c := ⟨le_refl _, fun _ src _ h => ⟨src, h, rfl⟩⟩

theorem Older.trans {c d e : ShmCtx} (h : c.Older d) (h' : d.Older e) : c.Older e := by
  refine ⟨h.next.trans h'.next, fun a src' ha hsrc' => ?_⟩
  obtain ⟨t, ht, hn⟩ := h'.named a src' (ha.trans_le h.next) hsrc'
  obtain ⟨src, hsrc, hn'⟩ := h.named a t ha ht
  exact ⟨src, hsrc, hn.trans hn'⟩

theorem older_modify (c : ShmCtx) (b : ℕ) {f : ShmSource → ShmSource}
    (hf : ∀ src, (f src).name = src.name) :
    c.Older { c with sources := c.sources.modify b f } := by
  refine ⟨le_refl _, fun a src' _ h => ?_⟩
  rw [Pool.get_modify] at h
  split_ifs at h
  · obtain ⟨src, hsrc, rfl⟩ := Option.map_eq_some_iff.1 h
    exact ⟨src, hsrc, hf src⟩
  · exact ⟨src', h, rfl⟩

theorem armGrace_name (now : ℕ) (src : ShmSource) : (src.armGrace now).name = src.name := by
  unfold ShmSource.armGrace
  split_ifs <;> rfl

theorem older_sessionFree (c : ShmCtx) (now a : ℕ) : c.Older (c.sessionFree now a) := by
  unfold sessionFree
  split
  · exact .refl c
  · refine ⟨le_refl _, (older_modify c _ fun src => ?_).named⟩
    unfold ShmSource.dropSession
    split_ifs <;> exact armGrace_name now _

theorem Move.older {c c' : ShmCtx} (h : c.Move c') : c.Older c' := by
  cases h with
  | sources f free keep =>
    refine ⟨le_refl _, fun a src' _ h => ?_⟩
    rw [Pool.get_sweep, Option.bind_eq_some_iff] at h
    obtain ⟨src, hsrc, hf⟩ := h
    exact ⟨src, hsrc, (keep a src src' hsrc hf).name⟩
  | newSource env name absent =>
    refine ⟨Nat.le_succ _, fun a src' ha h => ?_⟩
    simp only [addSource, Pool.get_alloc, if_neg (Nat.ne_of_lt ha)] at h
    exact ⟨src', h, rfl⟩
  | session a f keep => exact ⟨le_refl _, (Older.refl c).named⟩
  | link a slot s get own player fresh =>
    have hlink := older_modify c s.source (f := ShmSource.link a (some slot)) fun _ => rfl
    exact ⟨hlink.next, hlink.named⟩
  | drop now a => exact older_sessionFree c now a

theorem Moves.older {c c' : ShmCtx} (h : c.Moves c') : c.Older c' := by
  induction h with
  | refl => exact .refl c
  | tail _ hm ih => exact ih.trans hm.older

/-- **No call renames a source** or gives its address to another one. -/
theorem older_step (c : ShmCtx) (op : ShmOp) : c.Older (op.step c) := by
  rcases op.step_moves c with hm | ⟨env, args, rfl⟩ | ⟨a, slot, rfl⟩
  · exact Moves.older hm
  · have hslab : c.Older (c.slabAlloc env).1 := Moves.older (moves_slabAlloc c env)
    rcases sessionAdd_cases c env args with h | h | ⟨src, -, -, h⟩
    · exact (congrArg c.Older h).mpr (.refl c)
    · exact (congrArg c.Older h).mpr hslab
    · exact (congrArg c.Older h).mpr ⟨hslab.next, hslab.named⟩
  · exact older_modify c a fun _ => rfl

end ShmCtx

end NginxRtc
