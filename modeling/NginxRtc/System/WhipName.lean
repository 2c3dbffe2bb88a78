/-
  The stream a WHIP request is for (`ngx_rtc_http_arg_decoded`, `ngx_rtc_http_whip_body_handler`).

  The name is `app/stream`, put together from two decoded arguments in a C string.  The lookups of
  the source and of its shared claim, and the release at the end, read that string up to its first
  NUL, which an argument can hold as `%00`.

  `Addresses name p q`: the request dealt with the stream `name` and with nothing else, on this worker
  and in the registry, and whatever it opened stays with that stream to its close.  `whip_addresses`:
  the stream addressed is `app/stream` exactly if neither argument holds a NUL, and two such requests
  for different streams never meet.  `whip_takes_over`: a request for `a/b%00c` publishes `a/b`.
-/
import NginxRtc.Lib.Json.Strings
import NginxRtc.Sdp.Parse
import NginxRtc.Worker.Attempt
import NginxRtc.Worker.Names

namespace NginxRtc

/-! ## Arguments -/

/-- What a request is asked for its arguments: `ngx_http_arg` by name, `ngx_unescape_uri`, and the
    answer of the pool for the buffer the named argument is decoded into. -/
structure Query where
  arg : Bytes → Option Bytes
  unescape : Bytes → Bytes
  pnalloc : Bytes → Bool

/-- `ngx_rtc_http_arg_decoded`; an empty value is not decoded. -/
def Query.argDecoded (q : Query) (name : Bytes) : Option Bytes :=
  match q.arg name with
  | none => none
  | some value =>
    if value.length = 0 then some value
    else if q.pnalloc name then some (q.unescape value)
    else none

/-- The arguments of a WHIP request, unless they are refused as a bad request. -/
def Query.whipArgs (q : Query) : Option (Bytes × Bytes) :=
  (q.argDecoded (Text.ascii "app")).bind fun app =>
  (q.argDecoded (Text.ascii "stream")).bind fun stream =>
  if app.length = 0 ∨ stream.length = 0 ∨ shmSourceNameMax ≤ app.length + stream.length + 1 then none
  else some (app, stream)

/-- What the handler writes to `name`. -/
def whipName (app stream : Bytes) : Bytes := app ++ [47] ++ stream ++ [0]

/-- The WHIP request, once its body is read: `r.name` is not looked at. -/
def Proc.whipBody (p : Proc) (q : Query) (r : Request) : Proc :=
  match q.whipArgs with
  | none => p
  | some (app, stream) =>
    match BStr.ofBytes shmSourceNameMax (Sdp.cstr (whipName app stream)) with
    | none => p
    | some name => p.whip { r with name := name }

theorem BStr.ofBytes_eq_some {cap : ℕ} {b : Bytes} {s : BStr cap} :
    BStr.ofBytes cap b = some s ↔ s.bytes = b := by
  unfold BStr.ofBytes
  constructor
  · intro h
    split_ifs at h
    exact Option.some.inj h ▸ rfl
  · rintro rfl
    rw [dif_pos ⟨s.pos, s.fits⟩]

/-- Arguments that are accepted give a name the registries can hold. -/
theorem Query.whipArgs_fits {q : Query} {app stream : Bytes} (h : q.whipArgs = some (app, stream)) :
    ∃ name : SourceName, name.bytes = app ++ [47] ++ stream := by
  simp only [Query.whipArgs, Option.bind_eq_some_iff, Option.ite_none_left_eq_some,
    Option.some.injEq, Prod.mk.injEq, not_or, Nat.not_le] at h
  obtain ⟨_, -, _, -, ⟨-, -, hlen⟩, rfl, rfl⟩ := h
  refine ⟨⟨_ ++ [47] ++ _, ?_, ?_⟩, rfl⟩ <;>
    simp only [List.length_append, List.length_singleton] <;> omega

theorem takeWhile_append_zero {s : Bytes} (h : (s ++ [0]).takeWhile (· ≠ 0) = s) : 0 ∉ s := by
  intro h0
  have hall := List.mem_takeWhile_imp (h ▸ h0)
  simp at hall

/-- The C string holds the whole name if and only if there is no NUL in it. -/
theorem cstr_whipName (app stream : Bytes) :
    Sdp.cstr (whipName app stream) = app ++ [47] ++ stream ↔ 0 ∉ app ∧ 0 ∉ stream := by
  have hmem : 0 ∉ app ++ [47] ++ stream ↔ 0 ∉ app ∧ 0 ∉ stream := by simp
  rw [← hmem]
  constructor
  · exact takeWhile_append_zero
  · intro h
    have hs : ∀ c ∈ app ++ [47] ++ stream, decide (c ≠ 0) = true :=
      fun c hc => decide_eq_true fun he => h (he ▸ hc)
    exact Text.takeWhile_run hs fun c hc => by
      obtain rfl := Option.some.inj hc
      rfl

/-! ## Sources of other names -/

/-- The local sources of other names are the same. -/
def Worker.Elsewhere (name : SourceName) (w w' : Worker) : Prop :=
  ∀ x v, v.name ≠ name → (w'.sources.get x = some v ↔ w.sources.get x = some v)

namespace Worker

variable {name : SourceName} {w w₀ w' : Worker} {a : ℕ} {v : Source}

theorem Elsewhere.refl (name : SourceName) (w : Worker) : w.Elsewhere name w := fun _ _ _ => .rfl

theorem Elsewhere.trans {u : Worker} (h : w.Elsewhere name w') (h' : w'.Elsewhere name u) :
    w.Elsewhere name u := fun x v hn => (h' x v hn).trans (h x v hn)

theorem Elsewhere.of_sources {u : Worker} (h : w.Elsewhere name w') (hs : u.sources = w'.sources) :
    w.Elsewhere name u := fun x v hn => hs ▸ h x v hn

/-- A change of the source at `a` alone, which is of the name before and after. -/
theorem elsewhere_of_others (hother : ∀ b, b ≠ a → w'.sources.get b = w.sources.get b)
    (hbefore : ∀ u, w.sources.get a = some u → u.name = name)
    (hafter : ∀ u, w'.sources.get a = some u → u.name = name) : w.Elsewhere name w' := by
  intro x u hn
  by_cases hx : x = a
  · subst hx
    exact ⟨fun h => absurd (hafter u h) hn, fun h => absurd (hbefore u h) hn⟩
  · rw [hother x hx]

theorem Started.elsewhere {created : Bool} (h : w.Started w₀ name a created v) :
    w.Elsewhere name w₀ := by
  refine elsewhere_of_others (a := a) h.others (fun u hu => ?_) fun u hu => ?_
  · cases created with
    | false =>
      rw [← h.same rfl, h.source] at hu
      exact Option.some.inj hu ▸ h.named
    | true => exact nomatch (h.new rfl).1.symm.trans hu
  · exact Option.some.inj (h.source.symm.trans hu) ▸ h.named

theorem Attempting.elsewhere {kind : Option PublisherKind} {created : Bool}
    (hst : w.Started w₀ name a created v) (h : w₀.Attempting a v kind w') :
    w.Elsewhere name w' := by
  obtain ⟨u, hu, ht⟩ := h.source
  refine hst.elsewhere.trans (elsewhere_of_others (a := a) h.others (fun t ht' => ?_) fun t ht' => ?_)
  · exact Option.some.inj (hst.source.symm.trans ht') ▸ hst.named
  · exact Option.some.inj (hu.symm.trans ht') ▸ ht.name.trans hst.named

theorem elsewhere_sourceRemove (w : Worker) (name : SourceName) :
    w.Elsewhere name (w.sourceRemove name) := by
  unfold Worker.sourceRemove
  split
  · exact .refl name w
  · next b hb =>
    obtain ⟨u, hu, hn⟩ := sourceLookup_spec hb
    simp only [hu]
    split_ifs
    · refine elsewhere_of_others (a := b) (fun x hx => Pool.get_free_of_ne hx) (fun t ht => ?_)
        fun t ht => ?_
      · exact Option.some.inj (hu.symm.trans ht) ▸ hn
      · exact nomatch (Pool.get_free_self _ b).symm.trans ht
    · exact .refl name w

end Worker

namespace Proc

variable {p q : Proc} {r : Request}

theorem elsewhere_rollback (p : Proc) (created : Bool) (name : SourceName) :
    p.w.Elsewhere name (p.rollback created name).w := by
  rw [rollback_w]
  split_ifs
  · exact p.w.elsewhere_sourceRemove name
  · exact .refl name p.w

/-! ## The cases of a request -/

/-- What a granted request does: it opens its session, or gives the claim back. -/
theorem whipGranted_cases (p : Proc) (r : Request) (src : ℕ) (created : Bool) :
    (r.heap.session = true ∧ r.answer = true ∧
        p.whipGranted r src created = whipGranted.registered p r src) ∨
      (r.heap.session = true ∧ r.answer = false ∧ p.whipGranted r src created =
        (((whipGranted.registered p r src).release r.env.now src).upd fun w =>
          w.sessionRemove p.w.sessions.next).rollback created r.name) ∨
      (r.heap.session = false ∧ p.whipGranted r src created =
        ((whipGranted.identified p r src).release r.env.now src).rollback created r.name) := by
  unfold whipGranted
  split_ifs with hsess hans
  · exact .inl ⟨hsess, hans, rfl⟩
  · exact .inr (.inl ⟨hsess, Bool.eq_false_iff.2 hans, rfl⟩)
  · exact .inr (.inr ⟨Bool.eq_false_iff.2 hsess, rfl⟩)

/-- **The outcomes of a WHIP request**: no memory for the source, a name that RTMP publishes here or
    elsewhere, or a granted claim. -/
theorem whip_cases (p : Proc) (r : Request) :
    (p.whip r = p ∧ p.whipFails r) ∨ ∃ w src created v, p.w.Started w r.name src created v ∧
      ((p.whip r = Proc.rollback ⟨p.sh, w⟩ created r.name ∧ p.whipFails r) ∨
        ∃ q rc, Proc.claim ⟨p.sh, w⟩ r.env src .whip = (q, rc) ∧
          ((rc = .busy ∧ p.whip r = q.rollback created r.name ∧ p.whipFails r) ∨
            (rc ≠ .busy ∧ p.whip r = q.whipGranted r src created ∧
              (p.whipFails r ↔ r.heap.session = false ∨ r.answer = false)))) := by
  unfold whipFails whip
  cases hw : p.w.sourceCreate r.heap.source r.name with
  | mk w o =>
    obtain ⟨o, created⟩ := o
    cases o with
    | none => exact .inl ⟨rfl, trivial⟩
    | some src =>
      obtain ⟨v, hst⟩ := Worker.started_sourceCreate hw
      refine .inr ⟨w, src, created, v, hst, ?_⟩
      dsimp only
      by_cases hrtmp : Proc.kindAt ⟨p.sh, w⟩ src = some .rtmp
      · exact .inl ⟨if_pos hrtmp, .inl hrtmp⟩
      · refine .inr ?_
        rw [if_neg hrtmp]
        cases hc : Proc.claim ⟨p.sh, w⟩ r.env src .whip with
        | mk q rc =>
          refine ⟨q, rc, rfl, ?_⟩
          cases rc with
          | busy => exact .inl ⟨rfl, rfl, .inr (.inl rfl)⟩
          | _ => exact .inr ⟨(nomatch ·), rfl, by simp [hrtmp]⟩

/-- The claim of a request on its source. -/
theorem claimed_attempting (hm : p.Mirrored) {w : Worker} {src : ℕ} {created : Bool} {v : Source}
    (hst : p.w.Started w r.name src created v) {rc : Rc}
    (hc : Proc.claim ⟨p.sh, w⟩ r.env src .whip = (q, rc)) (hrc : rc ≠ .busy) :
    w.Attempting src v (some .whip) q.w := by
  have h := attempting_claim (p := ⟨p.sh, w⟩) (hst.attempting hm) r.env .whip
  rw [hc] at h
  cases rc with
  | busy => exact absurd rfl hrc
  | _ => exact h

/-- **A WHIP request leaves the local sources of other names alone.** -/
theorem whip_elsewhere (hm : p.Mirrored) (r : Request) : p.w.Elsewhere r.name (p.whip r).w := by
  rcases whip_cases p r with ⟨he, -⟩ | ⟨w, src, created, v, hst, ⟨he, -⟩ | ⟨q, rc, hc, hq⟩⟩
  · rw [he]
    exact .refl r.name p.w
  · rw [he]
    exact hst.elsewhere.trans (elsewhere_rollback ⟨p.sh, w⟩ created r.name)
  · rcases hq with ⟨rfl, he, -⟩ | ⟨hrc, he, -⟩
    · have h := attempting_claim (p := ⟨p.sh, w⟩) (hst.attempting hm) r.env .whip
      rw [hc] at h
      rw [he]
      exact (h.elsewhere hst).trans (elsewhere_rollback q created r.name)
    · have hatt := attempting_takeIdentity (claimed_attempting hm hst hc hrc) r.offer r.name
        ((q.w.sources.get src).bind Source.shmSrc)
      rw [he]
      rcases whipGranted_cases q r src created with ⟨-, -, hg⟩ | ⟨-, -, hg⟩ | ⟨-, hg⟩ <;> rw [hg]
      · exact (attempting_registered hatt).elsewhere hst
      · have hrel := attempting_release (attempting_registered hatt) r.env.now
        exact ((hrel.elsewhere hst).of_sources rfl).trans (elsewhere_rollback _ created r.name)
      · exact ((attempting_release hatt r.env.now).elsewhere hst).trans
          (elsewhere_rollback _ created r.name)

/-! ## Publishers of other names -/

/-- What the claim of a request does to the registry. -/
theorem claimed_registry {w : Worker} {src : ℕ} {created : Bool} {v : Source}
    (hst : p.w.Started w r.name src created v) {rc : Rc}
    (hc : Proc.claim ⟨p.sh, w⟩ r.env src .whip = (q, rc)) {c : ShmCtx} (hsh : p.sh = some c) :
    q.sh = some (publishClaimIn c r.env v .whip).1 ∧ rc = (publishClaimIn c r.env v .whip).2.2 := by
  simp only [Proc.claim, Proc.atSource, hst.source, hsh, publishClaim, Prod.mk.injEq] at hc
  obtain ⟨rfl, rfl⟩ := hc
  exact ⟨rfl, rfl⟩

theorem Shaped.claimed (hs : p.Shaped) {w : Worker} {src : ℕ} {rc : Rc}
    (hc : Proc.claim ⟨p.sh, w⟩ r.env src .whip = (q, rc)) : q.Shaped := by
  have h := Shaped.claim (p := ⟨p.sh, w⟩) hs r.env src .whip
  rwa [hc] at h

/-- **A WHIP request adds no publisher of another name**, and takes none away but in a sweep. -/
theorem whip_keeps (hs : p.Shaped) (hm : p.Mirrored) (r : Request) {c : ShmCtx}
    (hsh : p.sh = some c) :
    ∃ d, (p.whip r).sh = some d ∧ ∀ n, n ≠ r.name → Keeps r c d n := by
  rcases whip_cases p r with ⟨he, -⟩ | ⟨w, src, created, v, hst, ⟨he, -⟩ | ⟨q, rc, hc, hq⟩⟩
  · exact ⟨c, by rw [he, hsh], fun n _ => .refl r c n⟩
  · exact ⟨c, by rw [he, rollback_sh]; exact hsh, fun n _ => .refl r c n⟩
  · obtain ⟨hqsh, hrc⟩ := claimed_registry hst hc hsh
    rcases hq with ⟨rfl, he, -⟩ | ⟨hbusy, he, hfails⟩
    · have hsame : (Proc.claim ⟨p.sh, w⟩ r.env src .whip).1.sh = p.sh :=
        claim_busy_sh (by rw [hc])
      rw [hc] at hsame
      exact ⟨c, by rw [he, rollback_sh, hsame]; exact hsh, fun n _ => .refl r c n⟩
    · have hshaped := hs.claimed hc
      obtain ⟨-, -, hother⟩ := claimed_alone (hs c hsh) (hrc ▸ hbusy)
      have hclaim : ∀ n, n ≠ r.name → Keeps r c (publishClaimIn c r.env v .whip).1 n :=
        fun n hn => .of_both (hother n fun he => hn (he.symm.trans hst.named))
      by_cases hf : r.heap.session = false ∨ r.answer = false
      · obtain ⟨d, hd, hk, -⟩ := failed_granted_keeps hshaped hqsh
          (claimed_attempting hm hst hc hbusy) created hf
        exact ⟨d, he ▸ hd, fun n hn => (hclaim n hn).trans
          (hk n fun he => hn (he.symm.trans hst.named))⟩
      · obtain ⟨d, hd, hk⟩ := registered_keeps hshaped hqsh r src
        rcases whipGranted_cases q r src created with ⟨-, -, hg⟩ | ⟨-, ha, -⟩ | ⟨ha, -⟩
        · exact ⟨d, by rw [he, hg, hd], fun n hn => (hclaim n hn).trans (hk n)⟩
        · exact absurd (.inr ha) hf
        · exact absurd (.inl ha) hf

/-! ## The session of a request -/

/-- The session at `b` publishes the stream called `name`: its source is of that name and tagged. -/
def Opened (name : SourceName) (b : ℕ) (p : Proc) : Prop :=
  ∃ s x v, p.w.sessions.get b = some s ∧ s.stream = (some x, true) ∧
    p.w.sources.get x = some v ∧ v.name = name ∧ v.publisherKind = some .whip

theorem started_sessions {w : Worker} {src : ℕ} {created : Bool} {v : Source}
    (hst : p.w.Started w r.name src created v) {rc : Rc}
    (hc : Proc.claim ⟨p.sh, w⟩ r.env src .whip = (q, rc)) : q.w.sessions = p.w.sessions := by
  have h := claim_sessions ⟨p.sh, w⟩ r.env src .whip
  rw [hc] at h
  exact h.trans hst.sessions

/-- The session a granted request registers. -/
theorem registered_session {src : ℕ} {u : Source}
    (hu : (whipGranted.identified q r src).w.sources.get src = some u) :
    ∃ s, (whipGranted.registered q r src).w.sessions.get q.w.sessions.next = some s ∧
      s.stream = (some src, true) := by
  have hnext : (whipGranted.identified q r src).w.sessions = q.w.sessions :=
    takeIdentity_sessions ..
  have hopen : ((whipGranted.identified q r src).openSession r src true).w.sessions.get
      q.w.sessions.next = some (Session.fresh r.env.now src u r.offer true r.ufrag r.pwd) := by
    simp only [Proc.openSession, hu, upd, Worker.sessionAdd, hnext, Pool.get_alloc_self]
  have hgot : (((whipGranted.identified q r src).openSession r src true).shmSourceGet r.env
      r.name).1.w.sessions.get q.w.sessions.next =
        some (Session.fresh r.env.now src u r.offer true r.ufrag r.pwd) := by
    rw [shmSourceGet_w, hopen]
  unfold whipGranted.registered
  split
  · next he =>
    rw [he] at hgot
    exact ⟨_, hgot, rfl⟩
  · next he =>
    rw [he] at hgot
    unfold Proc.addSkeleton
    split
    · dsimp only
      split
      · exact ⟨_, hgot, rfl⟩
      · simp only [Worker.modifySession, Pool.get_modify_self, hgot, Option.map_some]
        exact ⟨_, rfl, rfl⟩
    · exact ⟨_, hgot, rfl⟩

/-- A request that does not fail claims its source and registers its session. -/
theorem whip_registered (hf : ¬ p.whipFails r) :
    ∃ w src created v q rc, p.w.Started w r.name src created v ∧
      Proc.claim ⟨p.sh, w⟩ r.env src .whip = (q, rc) ∧ rc ≠ .busy ∧
        p.whip r = whipGranted.registered q r src := by
  rcases whip_cases p r with ⟨-, h⟩ | ⟨w, src, created, v, hst, ⟨-, h⟩ | ⟨q, rc, hc, hq⟩⟩
  · exact absurd h hf
  · exact absurd h hf
  · rcases hq with ⟨-, -, h⟩ | ⟨hbusy, he, hfails⟩
    · exact absurd h hf
    · rw [hfails, not_or] at hf
      rcases whipGranted_cases q r src created with ⟨-, -, hg⟩ | ⟨-, ha, -⟩ | ⟨ha, -⟩
      · exact ⟨w, src, created, v, q, rc, hst, hc, hbusy, he.trans hg⟩
      · exact absurd ha hf.2
      · exact absurd ha hf.1

/-- **A request that does not fail** opens a session that publishes its stream. -/
theorem whip_opened (hm : p.Mirrored) (hf : ¬ p.whipFails r) :
    (p.whip r).Opened r.name p.w.sessions.next := by
  obtain ⟨w, src, created, v, q, rc, hst, hc, hbusy, he⟩ := whip_registered hf
  have hid := attempting_takeIdentity (claimed_attempting hm hst hc hbusy) r.offer r.name
    ((q.w.sources.get src).bind Source.shmSrc)
  obtain ⟨u, hu, -⟩ := hid.source
  obtain ⟨t, ht, htried⟩ := (attempting_registered hid).source
  obtain ⟨s, hs, hstream⟩ := registered_session hu
  rw [started_sessions hst hc] at hs
  exact ⟨s, src, t, by rw [he, hs], hstream, by rw [he, ht], htried.name.trans hst.named,
    htried.kind⟩

/-- A request that fails leaves no session. -/
theorem whip_failed (hf : p.whipFails r) :
    (p.whip r).w.sessions.get p.w.sessions.next = none := by
  have hrollback : ∀ (o : Proc) (created : Bool),
      (o.rollback created r.name).w.sessions = o.w.sessions := by
    intro o created
    rw [rollback_w]
    split_ifs
    · exact (o.w.drops_sourceRemove r.name).sessions
    · rfl
  rcases whip_cases p r with ⟨he, -⟩ | ⟨w, src, created, v, hst, ⟨he, -⟩ | ⟨q, rc, hc, hq⟩⟩
  · rw [he]
    exact Pool.get_next _
  · rw [he, hrollback, hst.sessions]
    exact Pool.get_next _
  · have hsame := started_sessions hst hc
    rcases hq with ⟨-, he, -⟩ | ⟨-, he, hfails⟩
    · rw [he, hrollback, hsame]
      exact Pool.get_next _
    · rw [he]
      rcases whipGranted_cases q r src created with ⟨ha, hb, -⟩ | ⟨-, -, hg⟩ | ⟨-, hg⟩
      · rw [hfails, ha, hb] at hf
        exact hf.elim (nomatch ·) (nomatch ·)
      · rw [hg, hrollback, hsame]
        exact Pool.get_free_self _ _
      · rw [hg, hrollback, Proc.release, atSource_sessions, whipGranted.identified,
          takeIdentity_sessions, hsame]
        exact Pool.get_next _

/-- **A request that does not fail** claims the shared source of its stream, if there is one. -/
theorem whip_publishes (hs : p.Shaped) (hf : ¬ p.whipFails r) {c : ShmCtx}
    (hsh : p.sh = some c) (hl : (c.sourceLookup r.name).isSome) (hslab : r.env.slab = true)
    (hslabAdd : r.envAdd.slab = true) :
    ∃ d, (p.whip r).sh = some d ∧ d.Publishes r.name .whip r.env.now := by
  obtain ⟨w, src, created, v, q, rc, hst, hc, hbusy, he⟩ := whip_registered hf
  obtain ⟨hqsh, hrc⟩ := claimed_registry hst hc hsh
  have hclaimed : (publishClaimIn c r.env v .whip).1.Publishes r.name .whip r.env.now := by
    rcases publishClaimIn_cases c r.env v .whip with
      ⟨hnone, -⟩ | ⟨_, _, _, -, -, -, -, hpc⟩ | ⟨a, src, hla, hget, hn, -, hpc⟩
    · rw [hst.named] at hnone
      exact nomatch hnone ▸ hl
    · rw [hpc] at hrc
      exact absurd hrc hbusy
    · rw [hpc]
      exact ⟨a, _, ShmCtx.claimSource_get hla hget r.env.now .whip, hn.trans hst.named, rfl, rfl⟩
  obtain ⟨d, hd, hk⟩ := registered_keeps (hs.claimed hc) hqsh r src
  have hspares : Spares r (publishClaimIn c r.env v .whip).1 r.name :=
    ⟨fun h => Bool.noConfusion (hslab.symm.trans h),
      fun h => Bool.noConfusion (hslabAdd.symm.trans h)⟩
  exact ⟨d, by rw [he, hd], (hk r.name).2 hspares _ _ hclaimed⟩

/-! ## The stream of a session -/

/-- The session at `b`, while it is there, publishes the stream `name` and releases it at its end:
    its source is of that name, the cached pointer of the source leads to no other one, and a close
    of the session touches no other stream. -/
structure Publishing (name : SourceName) (b : ℕ) (p : Proc) : Prop where
  stream : ∀ s, p.w.sessions.get b = some s → ∃ x, s.stream = (some x, true) ∧
    ∀ v, p.w.sources.get x = some v → v.name = name ∧
      ∀ c a src, p.sh = some c → v.shmSrc = some a → c.sources.get a = some src → src.name = name
  close : ∀ now heap ev, p.w.Elsewhere name (p.sessionClose now heap ev b).w ∧
    ∀ c, p.sh = some c → ∃ d, (p.sessionClose now heap ev b).sh = some d ∧
      ∀ n, n ≠ name → Alike n c d

theorem elsewhere_unsubscribe {w : Worker} {name : SourceName} {x : ℕ}
    (h : ∀ v, w.sources.get x = some v → v.name = name) (b : ℕ) :
    w.Elsewhere name (w.unsubscribe x b) := by
  have hafter : ∀ v, (w.unlink x b).sources.get x = some v → v.name = name := by
    intro v hv
    simp only [Worker.unlink, Pool.get_modify_self] at hv
    obtain ⟨u, hu, rfl⟩ := Option.map_eq_some_iff.1 hv
    exact h u hu
  have hunlink : w.Elsewhere name (w.unlink x b) :=
    Worker.elsewhere_of_others (fun y hy => Pool.get_modify_of_ne hy _) h hafter
  unfold Worker.unsubscribe
  split
  · exact .refl name w
  · split_ifs
    · exact .refl name w
    · split
      · exact hunlink
      · next v hv =>
        split_ifs
        · exact hunlink.trans (hafter v hv ▸ Worker.elsewhere_sourceRemove _ _)
        · exact hunlink

/-- The local sources a close leaves alone. -/
theorem elsewhere_sessionClose {name : SourceName} {b : ℕ} (now : ℕ) (heap : Heap)
    (ev : SessionEvent) (h : ∀ s x v, p.w.sessions.get b = some s → s.source = some x →
      p.w.sources.get x = some v → v.name = name) :
    p.w.Elsewhere name (p.sessionClose now heap ev b).w := by
  cases hsess : p.w.sessions.get b with
  | none =>
    rw [sessionClose_none hsess]
    exact .refl name p.w
  | some sess =>
    obtain ⟨w, hsrc, -, he⟩ := sessionClose_eq hsess now heap ev
    have hw : p.w.Elsewhere name w := (Worker.Elsewhere.refl name p.w).of_sources hsrc
    simp only [he, upd, call]
    unfold Worker.leave Proc.releaseOwned
    cases hx : sess.source with
    | none => exact hw.of_sources rfl
    | some x =>
      have hbefore : ∀ v, w.sources.get x = some v → v.name = name :=
        fun v hv => h sess x v hsess hx (hsrc ▸ hv)
      have hrelease : ∀ v, (Proc.release ⟨p.sh, w⟩ now x).w.sources.get x = some v → v.name = name := by
        intro v hv
        unfold Proc.release Proc.atSource at hv
        split at hv
        · exact hbefore v hv
        · next u hu =>
          simp only [Worker.modifySource, Pool.get_modify_self] at hv
          obtain ⟨t, ht, rfl⟩ := Option.map_eq_some_iff.1 hv
          exact (publishRelease_steered p.sh now u).name.trans (hbefore u hu)
      have hothers : w.Elsewhere name (Proc.release ⟨p.sh, w⟩ now x).w := by
        refine Worker.elsewhere_of_others (a := x) (fun y hy => ?_) hbefore hrelease
        unfold Proc.release Proc.atSource
        split
        · rfl
        · exact Pool.get_modify_of_ne hy _
      dsimp only
      split_ifs
      · exact ((hw.trans hothers).trans (elsewhere_unsubscribe hrelease b)).of_sources rfl
      · exact (hw.trans (elsewhere_unsubscribe hbefore b)).of_sources rfl

/-! ## Addressed streams -/

/-- A state of some run of a worker, in a zone or without one. -/
def Running (p : Proc) : Prop :=
  ∃ nworkers rings slot sh, (∀ c, sh = some c → c.Reachable nworkers rings) ∧
    Lts.Reachable step (init slot sh) p

theorem Running.mirrored (h : p.Running) : p.Mirrored := by
  obtain ⟨_, _, slot, sh, -, h⟩ := h
  exact h.induction (P := Mirrored) (mirrored_init slot sh) fun _ e => mirrored_step e

theorem Running.shaped (h : p.Running) : p.Shaped := by
  obtain ⟨_, _, slot, sh, hsh, es, rfl⟩ := h
  exact shaped_run (p := init slot sh) (fun c hc => (hsh c hc).shape) es

theorem Running.aimed (h : p.Running) : p.Aimed := by
  obtain ⟨_, _, slot, sh, -, es, rfl⟩ := h
  exact (ages_run (init slot sh) es).aimed (aimed_init slot sh)

theorem Running.holdsLive (h : p.Running) : p.HoldsLive := by
  obtain ⟨_, _, _, _, -, h⟩ := h
  exact holdsLive_of_reachable h

theorem Running.run (h : p.Running) (es : List ProcEvent) : (Lts.run step p es).Running := by
  obtain ⟨nworkers, rings, slot, sh, hsh, es', rfl⟩ := h
  exact ⟨nworkers, rings, slot, sh, hsh, es' ++ es, Lts.run_append _ es' es⟩

theorem running_init : (init 0 none).Running :=
  ⟨0, [], 0, none, fun _ hc => (nomatch hc), .refl _⟩

/-- What was opened stays with its stream. -/
theorem Opened.publishing {name : SourceName} {b : ℕ} (hp : p.Running) (h : p.Opened name b)
    (es : List ProcEvent) : (Lts.run step p es).Publishing name b := by
  obtain ⟨s, x, v, hs, hstream, hv, hname, -⟩ := h
  have hages := ages_run p es
  have hr := hp.run es
  generalize Lts.run step p es = q at hages hr
  have hsource : ∀ t, q.w.sources.get x = some t → t.name = name := by
    intro t ht
    obtain ⟨u, hu, hn⟩ := hages.sources.kept x t (Pool.lt_next hv) ht
    obtain rfl := Option.some.inj (hv.symm.trans hu)
    exact hn.trans hname
  have hsession : ∀ t, q.w.sessions.get b = some t → t.stream = (some x, true) := by
    intro t ht
    obtain ⟨u, hu, hst⟩ := hages.sessions.kept b t (Pool.lt_next hs) ht
    obtain rfl := Option.some.inj (hs.symm.trans hu)
    exact hst.trans hstream
  have hclose : ∀ t y u, q.w.sessions.get b = some t → t.source = some y →
      q.w.sources.get y = some u → u.name = name := by
    intro t y u ht hy hu
    have hx : t.source = some x := congrArg Prod.fst (hsession t ht)
    obtain rfl := Option.some.inj (hx.symm.trans hy)
    exact hsource u hu
  refine ⟨fun t ht => ⟨x, hsession t ht, fun u hu => ⟨hsource u hu, fun c a src hc ha hsrc => ?_⟩⟩,
    fun now heap ev => ⟨elsewhere_sessionClose now heap ev hclose, fun c hc => ?_⟩⟩
  · exact ((hr.aimed x u hu c a hc ha).2 src hsrc).trans (hsource u hu)
  · obtain ⟨d, hd, hothers⟩ := sessionClose_others hr.shaped hc now heap ev b
    refine ⟨d, hd, fun n hn => hothers n fun t y u ht hy hu he => hn ?_⟩
    exact he.symm.trans (hclose t y u ht hy hu)

/-- From `p` to `q` the request `r` dealt with the stream `name` and no other: the local sources and
    the publishers of other names are left alone, a request that nothing stands against opens a
    session on the stream and claims its shared source, and the session stays with the stream. -/
structure Addresses (name : SourceName) (r : Request) (p q : Proc) : Prop where
  sources : p.w.Elsewhere name q.w
  registry : ∀ c, p.sh = some c → ∃ d, q.sh = some d ∧ ∀ n, n ≠ name → Keeps r c d n
  opens : ¬ p.whipFails { r with name := name } → q.Opened name p.w.sessions.next
  claims : ¬ p.whipFails { r with name := name } → r.env.slab = true → r.envAdd.slab = true →
    ∀ c, p.sh = some c → (c.sourceLookup name).isSome →
      ∃ d, q.sh = some d ∧ d.Publishes name .whip r.env.now
  stays : (q.w.sessions.get p.w.sessions.next).isSome →
    ∀ es, (Lts.run step q es).Publishing name p.w.sessions.next

/-- **A WHIP request addresses its name.** -/
theorem whip_addresses_name (hp : p.Running) (name : SourceName) (r : Request) :
    Addresses name r p (p.whip { r with name := name }) where
  sources := whip_elsewhere hp.mirrored { r with name := name }
  registry c hc := whip_keeps hp.shaped hp.mirrored { r with name := name } hc
  opens hf := whip_opened hp.mirrored hf
  claims hf hslab hslabAdd c hc hl := whip_publishes hp.shaped hf hc hl hslab hslabAdd
  stays hsome es := by
    by_cases hf : p.whipFails { r with name := name }
    · rw [whip_failed hf] at hsome
      exact nomatch hsome
    · have hrun := hp.run [.whip { r with name := name }]
      exact (whip_opened hp.mirrored hf).publishing hrun es

/-- No source serves the sessions at `b` and `b'` both, and no shared source is cached for both. -/
def Apart (b b' : ℕ) (p : Proc) : Prop :=
  ∀ s s' x x', p.w.sessions.get b = some s → p.w.sessions.get b' = some s' →
    s.source = some x → s'.source = some x' → x ≠ x' ∧
      ∀ c a v v', p.sh = some c → p.w.sources.get x = some v → p.w.sources.get x' = some v' →
        v.shmSrc = some a → v'.shmSrc = some a → c.sources.get a = none

theorem Publishing.apart {name name' : SourceName} {b b' : ℕ} (hl : p.HoldsLive)
    (h : p.Publishing name b) (h' : p.Publishing name' b') (hne : name ≠ name') : p.Apart b b' := by
  intro s s' x x' hs hs' hx hx'
  obtain ⟨y, hy, hsource⟩ := h.stream s hs
  obtain ⟨y', hy', hsource'⟩ := h'.stream s' hs'
  obtain rfl := Option.some.inj (hx.symm.trans (congrArg Prod.fst hy))
  obtain rfl := Option.some.inj (hx'.symm.trans (congrArg Prod.fst hy'))
  refine ⟨?_, fun c a v v' hc hv hv' ha ha' => ?_⟩
  · rintro rfl
    obtain ⟨v, hv⟩ := Option.isSome_iff_exists.1 (hl b s x hs hx)
    exact hne ((hsource v hv).1.symm.trans (hsource' v hv).1)
  · rw [Option.eq_none_iff_forall_ne_some]
    intro src hsrc
    exact hne (((hsource v hv).2 c a src hc ha hsrc).symm.trans
      ((hsource' v' hv').2 c a src hc ha' hsrc))

/-! ## Requests for `app/stream` -/

/-- The request is one for the name that its C string holds. -/
theorem whipBody_eq {q : Query} {app stream : Bytes} (h : q.whipArgs = some (app, stream))
    {name : SourceName} (hn : name.bytes = Sdp.cstr (whipName app stream)) (p : Proc) (r : Request) :
    p.whipBody q r = p.whip { r with name := name } := by
  simp only [Proc.whipBody, h, BStr.ofBytes_eq_some.2 hn]

/-- Without a NUL the name is `app/stream`. -/
theorem whipBody_named {q : Query} {app stream : Bytes} (h : q.whipArgs = some (app, stream))
    (hnul : 0 ∉ app ∧ 0 ∉ stream) : ∃ name : SourceName, name.bytes = app ++ [47] ++ stream ∧
      ∀ (p : Proc) (r : Request), p.whipBody q r = p.whip { r with name := name } := by
  obtain ⟨name, hname⟩ := Query.whipArgs_fits h
  exact ⟨name, hname, whipBody_eq h (hname.trans ((cstr_whipName app stream).2 hnul).symm)⟩

/-- The worker at its start, and nothing stands against a request. -/
theorem init_serves (name : SourceName) :
    ¬ (init 0 none).whipFails { sampleRequest 1 with name := name } := by
  rintro (h | h | h | h) <;> exact nomatch h

/-- A request that addresses `app/stream` on a fresh worker holds no NUL. -/
theorem nul_free_of_addresses {q : Query} {app stream : Bytes}
    (h : q.whipArgs = some (app, stream)) {name : SourceName}
    (hname : name.bytes = app ++ [47] ++ stream)
    (ha : Addresses name (sampleRequest 1) (init 0 none) ((init 0 none).whipBody q (sampleRequest 1))) :
    0 ∉ app ∧ 0 ∉ stream := by
  rw [← cstr_whipName, ← hname]
  obtain ⟨s, x, v, hs, -, hv, hvn, -⟩ := ha.opens (init_serves name)
  simp only [Proc.whipBody, h] at hs hv
  cases hc : BStr.ofBytes shmSourceNameMax (Sdp.cstr (whipName app stream)) with
  | none =>
    rw [hc] at hs
    exact nomatch hs
  | some name' =>
    rw [hc] at hv
    -- the one source there is has the name of the C string
    have hel := whip_elsewhere (p := init 0 none) (mirrored_init 0 none)
      { sampleRequest 1 with name := name' }
    by_cases hne : v.name = name'
    · rw [← hvn, hne]
      exact (BStr.ofBytes_eq_some.1 hc).symm
    · exact nomatch (hel x v hne).1 hv

end Proc

/-! ### Sample requests -/

/-- What `ngx_unescape_uri` makes of a value whose escapes are well formed. -/
def percentDecode : Bytes → Bytes
  | 37 :: a :: b :: s =>
    match Json.hexValue a, Json.hexValue b with
    | some x, some y => UInt8.ofNat (16 * x + y) :: percentDecode s
    | _, _ => 37 :: a :: b :: percentDecode s
  | c :: s => c :: percentDecode s
  | [] => []

/-- The query `app=..&stream=..`, in worked runs. -/
def Query.sample (app stream : String) : Query where
  arg name :=
    if name = Text.ascii "app" then some (Text.ascii app)
    else if name = Text.ascii "stream" then some (Text.ascii stream)
    else none
  unescape := percentDecode
  pnalloc _ := true

namespace Proc

/-- **A WHIP request addresses exactly the stream `app/stream`** if and only if neither of its
    decoded arguments holds a NUL.  Two such requests for different streams never meet. -/
theorem whip_addresses {q : Query} {app stream : Bytes} (h : q.whipArgs = some (app, stream)) :
    ((∃ name : SourceName, name.bytes = app ++ [47] ++ stream ∧
        ∀ p : Proc, p.Running → ∀ r, Addresses name r p (p.whipBody q r)) ↔
      0 ∉ app ∧ 0 ∉ stream) ∧
    (0 ∉ app ∧ 0 ∉ stream → ∀ (q' : Query) (app' stream' : Bytes),
      q'.whipArgs = some (app', stream') → 0 ∉ app' ∧ 0 ∉ stream' →
      app ++ [47] ++ stream ≠ app' ++ [47] ++ stream' →
      ∀ (p p' : Proc) (r r' : Request) (es es' : List ProcEvent), p.Running →
        p' = Lts.run step (p.whipBody q r) es →
        ((p.whipBody q r).w.sessions.get p.w.sessions.next).isSome →
        ((p'.whipBody q' r').w.sessions.get p'.w.sessions.next).isSome →
        (Lts.run step (p'.whipBody q' r') es').Apart p.w.sessions.next p'.w.sessions.next) := by
  refine ⟨⟨?_, fun hnul => ?_⟩, ?_⟩
  · rintro ⟨name, hname, ha⟩
    exact nul_free_of_addresses h hname (ha _ running_init (sampleRequest 1))
  · obtain ⟨name, hname, hbody⟩ := whipBody_named h hnul
    refine ⟨name, hname, fun p hp r => ?_⟩
    rw [hbody]
    exact whip_addresses_name hp name r
  · intro hnul q' app' stream' h' hnul' hne p p' r r' es es' hp hp' hs hs'
    obtain ⟨name, hname, hbody⟩ := whipBody_named h hnul
    obtain ⟨name', hname', hbody'⟩ := whipBody_named h' hnul'
    have hb := hbody p r
    have hb' := hbody' p' r'
    have hrun' : p'.Running := by
      rw [hp', hb]
      exact (hp.run [.whip { r with name := name }]).run es
    have hlast : (Lts.run step (p'.whipBody q' r') es').Running := by
      rw [hb']
      exact (hrun'.run [.whip { r' with name := name' }]).run es'
    have hfirst : (Lts.run step (p'.whipBody q' r') es').Publishing name p.w.sessions.next := by
      have hstay := (whip_addresses_name hp name r).stays (hb ▸ hs)
        (es ++ .whip { r' with name := name' } :: es')
      rwa [Lts.run_append, Lts.run_cons, ← hb, ← hp', step, ← hb'] at hstay
    have hsecond : (Lts.run step (p'.whipBody q' r') es').Publishing name' p'.w.sessions.next := by
      rw [hb']
      exact (whip_addresses_name hrun' name' r').stays (hb' ▸ hs') es'
    exact hfirst.apart hlast.holdsLive hsecond fun he => hne (hname.symm.trans (he ▸ hname'))

/-- The stream `a/b` asked for with its slash escaped in the second argument, and the stream `a/c`. -/
theorem whip_addresses_sample :
    (∃ name : SourceName, name.bytes = Text.ascii "live/a/b" ∧
      ∀ p : Proc, p.Running → ∀ r, Addresses name r p (p.whipBody (.sample "live" "a%2Fb") r)) ∧
    ∀ (p p' : Proc) (r r' : Request) (es es' : List ProcEvent), p.Running →
      p' = Lts.run step (p.whipBody (.sample "live" "a%2Fb") r) es →
      ((p.whipBody (.sample "live" "a%2Fb") r).w.sessions.get p.w.sessions.next).isSome →
      ((p'.whipBody (.sample "live" "c") r').w.sessions.get p'.w.sessions.next).isSome →
      (Lts.run step (p'.whipBody (.sample "live" "c") r') es').Apart p.w.sessions.next
        p'.w.sessions.next := by
  have h : (Query.sample "live" "a%2Fb").whipArgs = some (Text.ascii "live", Text.ascii "a/b") := by
    decide
  have h' : (Query.sample "live" "c").whipArgs = some (Text.ascii "live", Text.ascii "c") := by decide
  exact ⟨(whip_addresses h).1.2 (by decide),
    (whip_addresses h).2 (by decide) _ _ _ h' (by decide) (by decide)⟩

/-- **A stream taken over.**  The stream `b%00c` of `a` is accepted, and is not addressed: its session
    publishes the source that a request for `a/b` opened before. -/
theorem whip_takes_over :
    (Query.sample "a" "b%00c").whipArgs = some (Text.ascii "a", [98, 0, 99]) ∧
      (¬ ∃ name : SourceName, name.bytes = Text.ascii "a" ++ [47] ++ [98, 0, 99] ∧
        ∀ p : Proc, p.Running → ∀ r, Addresses name r p (p.whipBody (.sample "a" "b%00c") r)) ∧
      ((((init 0 none).whipBody (.sample "a" "b") (sampleRequest 1)).whipBody
        (.sample "a" "b%00c") (sampleRequest 2)).w.sessions.cells.map fun cell =>
          (cell.1, cell.2.source)) = [(1, some 0), (0, some 0)] := by
  have h : (Query.sample "a" "b%00c").whipArgs = some (Text.ascii "a", [98, 0, 99]) := by decide
  refine ⟨h, ?_, by decide⟩
  rintro ⟨name, hname, ha⟩
  have hnul := nul_free_of_addresses h hname (ha _ running_init (sampleRequest 1))
  exact absurd hnul (by decide)

end Proc

end NginxRtc
