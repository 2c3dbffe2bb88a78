/-
  A worker that serves a WHIP publish.

  The session at `b` publishes through the local source at `x`, which carries the tag and the cached
  pointer of the shared source at `a`.  Its stamp `shmSyncMs` is never ahead of the shared heartbeat,
  and a packet forwarded at time `last` found it less than a sync window old, or renewed it.

  `Serving.media_step`: a datagram or a timer of this worker keeps that, and a forwarded packet moves
  `last` up to now.  `Serving.beside`: so does any handler of another worker.  `Serving.later`: the
  publish is alive while `last` is no further back than the grace less the window.
-/
import NginxRtc.Worker.Held
import NginxRtc.Worker.Shaped

namespace NginxRtc

namespace Worker

/-- A session that leaves takes nothing from the source another one holds. -/
theorem leave_held {w : Worker} {b d x : ℕ} {s : Session} (hs : w.sessions.get b = some s)
    (hx : s.source = some x) (hd : b ≠ d) (sess : Session) (hy : sess.source ≠ some x) :
    (w.leave d sess).sources.get x = w.sources.get x ∧ (w.leave d sess).sessions.get b = some s := by
  unfold Worker.leave
  split
  · exact ⟨rfl, (Pool.get_free_of_ne hd).trans hs⟩
  · next y hsrc =>
    have hxy : x ≠ y := fun he => hy (he ▸ hsrc)
    rcases w.unsubscribe_cases y d with he | ⟨-, hdrops⟩
    · rw [he]
      exact ⟨rfl, (Pool.get_free_of_ne hd).trans hs⟩
    · have hsb : (w.unlink y d).sessions.get b = some s := (Pool.get_modify_of_ne hd _).trans hs
      refine ⟨(hdrops.held hsb hx).trans (Pool.get_modify_of_ne hxy _), ?_⟩
      exact (Pool.get_free_of_ne hd).trans (hdrops.sessions ▸ hsb)

end Worker

namespace Proc

/-- The worker serves the live publish of the shared source at `a`. -/
structure Serves (name : SourceName) (a b x t last : ℕ) (p : Proc) (c : ShmCtx) (src : ShmSource)
    (s : Session) (v : Source) : Prop where
  sh : p.sh = some c
  shape : c.Shape
  get : c.sources.get a = some src
  held : src.Held name .whip
  alive : src.alive t = true
  session : p.w.sessions.get b = some s
  stream : s.stream = (some x, true)
  source : p.w.sources.get x = some v
  named : v.name = name
  kind : v.publisherKind = some .whip
  cached : v.shmSrc ≠ none
  synced : v.shmSyncMs ≤ src.publisherSeenMs
  past : v.shmSyncMs ≤ t
  heard : last ≤ t
  paced : last < v.shmSyncMs + shmSyncMs

def Serving (name : SourceName) (a b x t last : ℕ) (p : Proc) : Prop :=
  ∃ c src s v, p.Serves name a b x t last c src s v

section Serving
variable {name : SourceName} {a b x t last : ℕ} {p q : Proc}

theorem Serving.heldAt (h : p.Serving name a b x t last) :
    ∃ c, p.sh = some c ∧ c.HeldAt a name .whip := by
  obtain ⟨c, src, s, v, h⟩ := h
  exact ⟨c, h.sh, src, h.get, h.held⟩

/-- The claim of the source and the stream of the session stay, and the publish goes on. -/
theorem Serving.keep (ht : 0 < t) (h : p.Serving name a b x t last) (hgo : GoesOn name a t p q)
    (hshape : q.Shaped)
    (hclaim : (q.w.sources.get x).map Source.claim = (p.w.sources.get x).map Source.claim)
    (hstream : (q.w.sessions.get b).map Session.stream = (p.w.sessions.get b).map Session.stream) :
    q.Serving name a b x t last := by
  obtain ⟨c, src, s, v, h⟩ := h
  obtain ⟨c', hc', src', hget', hst⟩ := hgo c src h.sh h.get h.held h.alive
  rw [h.source] at hclaim
  rw [h.session] at hstream
  obtain ⟨v', hv', hv⟩ := Option.map_eq_some_iff.1 hclaim
  obtain ⟨s', hs', hs⟩ := Option.map_eq_some_iff.1 hstream
  simp only [Source.claim, SourceClaim.mk.injEq] at hv
  obtain ⟨hname, -, hkind, hsrc, hsync⟩ := hv
  refine ⟨c', src', s', v', hc', hshape c' hc', hget', h.held.still hst, hst.alive ht h.alive, hs',
    hs.trans h.stream, hv', hname.trans h.named, hkind.trans h.kind, hsrc ▸ h.cached, ?_,
    hsync ▸ h.past, h.heard, hsync ▸ h.paced⟩
  rw [hsync]
  rcases hst.seen with he | he <;> rw [he]
  · exact h.synced
  · exact h.past

theorem Serving.shaped (h : p.Serving name a b x t last) : p.Shaped := by
  obtain ⟨c, src, s, v, h⟩ := h
  exact fun c' hc' => Option.some.inj (h.sh.symm.trans hc') ▸ h.shape

theorem Serving.calm (ht : 0 < t) (h : p.Serving name a b x t last)
    (hc : Calm (· = t) (· = name) p q) : q.Serving name a b x t last :=
  h.keep ht (.acts ht hc.acts) (h.shaped.acts hc.acts) (hc.claims x) (hc.streams b)

/-- A step of another worker on the same registry. -/
theorem Serving.beside (ht : 0 < t) (h : p.Serving name a b x t last) {w w' : Worker}
    {sh' : Option ShmCtx} (hgo : GoesOn name a t ⟨p.sh, w⟩ ⟨sh', w'⟩)
    (hshape : NginxRtc.Shaped sh') : Serving name a b x t last ⟨sh', p.w⟩ :=
  h.keep (q := ⟨sh', p.w⟩) ht hgo hshape rfl rfl

theorem Serving.back (h : p.Serving name a b x t last) {last' : ℕ} (hl : last' ≤ last) :
    p.Serving name a b x t last' := by
  obtain ⟨c, src, s, v, h⟩ := h
  exact ⟨c, src, s, v, { h with heard := hl.trans h.heard, paced := lt_of_le_of_lt hl h.paced }⟩

theorem Serving.last_le (h : p.Serving name a b x t last) : last ≤ t := by
  obtain ⟨c, src, s, v, h⟩ := h
  exact h.heard

/-- Time passes, but not too much since the last packet. -/
theorem Serving.later {d : ℕ} (h : p.Serving name a b x t last)
    (hd : t + d ≤ last + (shmPublishGraceMs - shmSyncMs)) : p.Serving name a b x (t + d) last := by
  have hgrace : shmPublishGraceMs = 10000 := rfl
  have hwindow : shmSyncMs = 1000 := rfl
  obtain ⟨c, src, s, v, h⟩ := h
  have halive := h.alive
  have hsynced := h.synced
  have hpaced := h.paced
  simp only [ShmSource.alive, Bool.and_eq_true, decide_eq_true_eq] at halive
  refine ⟨c, src, s, v, h.sh, h.shape, h.get, h.held, ?_, h.session, h.stream, h.source, h.named,
    h.kind, h.cached, hsynced, h.past.trans (Nat.le_add_right t d),
    h.heard.trans (Nat.le_add_right t d), hpaced⟩
  simp only [ShmSource.alive, Bool.and_eq_true, decide_eq_true_eq]
  exact ⟨halive.1, by omega⟩

/-! ## Packets -/

/-- A renewal on another source. -/
theorem Serving.renew_of_ne (ht : 0 < t) (h : p.Serving name a b x t last) {y : ℕ} (hy : y ≠ x) :
    (p.renew t y).1.Serving name a b x t last := by
  have hact : Act (· = t) (· = name) p (p.renew t y).1 := .renew p t y rfl
  refine h.keep ht (goesOn_renew p y) (h.shaped.act hact) ?_ ?_
  · unfold Proc.renew Proc.atSource
    split
    · rfl
    · simp only [Worker.modifySource, Pool.get_modify_of_ne (Ne.symm hy)]
  · unfold Proc.renew Proc.atSource
    split <;> rfl

/-- **A renewal on the source itself** brings the last packet up to now. -/
theorem Serving.renew (ht : 0 < t) (h : p.Serving name a b x t last) :
    (p.renew t x).1.Serving name a b x t t := by
  have hwindow : 0 < shmSyncMs := by decide
  obtain ⟨c, src, s, v, h⟩ := h
  have hlook : c.sourceLookup v.name = some a :=
    h.named ▸ ShmCtx.HeldAt.lookup h.shape ⟨src, h.get, h.held⟩
  have he : (p.renew t x).1 = ⟨some (streamShmSourceIn c t v).1,
      p.w.modifySource x fun _ => (streamShmSourceIn c t v).2.1⟩ := by
    simp only [Proc.renew, Proc.atSource, h.source, h.sh, streamShmSource]
  have hv : ∀ u, (p.w.modifySource x fun _ => u).sources.get x = some u := fun u => by
    simp only [Worker.modifySource, Pool.get_modify_self, h.source, Option.map_some]
  rw [he]
  rcases streamShmSourceIn_cases c t v with
    ⟨hn, -⟩ | ⟨a', -, hin, hr⟩ | ⟨a', b', u, hs, -, hl, hget, hname, hfree, hr⟩ |
      ⟨a', -, -, hno, -⟩
  · exact absurd hn h.cached
  · rw [hr]
    refine ⟨c, src, s, v, rfl, h.shape, h.get, h.held, h.alive, h.session, h.stream, hv v, h.named,
      h.kind, h.cached, h.synced, h.past, le_rfl, ?_⟩
    simp only [Source.inWindow, decide_eq_true_eq] at hin
    have := h.past
    omega
  · obtain rfl := Option.some.inj (hl.symm.trans hlook)
    obtain rfl := Option.some.inj (h.get.symm.trans hget)
    rw [hr]
    have hget' := ShmCtx.claimSource_get hl hget t .whip
    refine ⟨_, _, s, _, rfl, h.shape.claimSource t v.name .whip, hget',
      ⟨h.held.name, rfl, rfl⟩, ?_, h.session, h.stream, hv _, h.named, h.kind, ?_, ?_, ?_, le_rfl,
      ?_⟩
    · have hgrace : 0 < shmPublishGraceMs := by decide
      simp [ShmSource.alive, Nat.pos_iff_ne_zero.1 ht, hgrace]
    · exact h.cached
    · exact le_rfl
    · exact le_rfl
    · exact Nat.lt_add_of_pos_right hwindow
  · rcases hno with hno | ⟨b', u, k, hl, hget, hk, hne⟩
    · cases hno.symm.trans hlook
    · obtain rfl := Option.some.inj (hl.symm.trans hlook)
      obtain rfl := Option.some.inj (h.get.symm.trans hget)
      exact absurd (Option.some.inj (hk.symm.trans h.held.kind)) hne

/-- A packet forwarded on some source; on `x` itself it moves the last packet up to now. -/
theorem Serving.forward (ht : 0 < t) (h : p.Serving name a b x t last) (y : ℕ) (rtp : Bytes)
    (isVideo gop : Bool) :
    (p.forward t y rtp isVideo gop).1.Serving name a b x t (if y = x then t else last) := by
  have hp : (p.publishRtp y rtp isVideo gop).Serving name a b x t last :=
    h.calm ht (calm_publishRtp p y rtp isVideo gop)
  split_ifs with hy
  · subst hy
    exact (hp.renew ht).calm ht (calm_shmStats _ y _)
  · exact (hp.renew_of_ne ht hy).calm ht (calm_shmStats _ y _)

theorem Serving.whipEmit (ht : 0 < t) (h : p.Serving name a b x t last) (slab : Bool) (y : ℕ)
    (pkt : Bytes × Bool) :
    (whipEmit t slab y p pkt).Serving name a b x t (if y = x then t else last) :=
  (h.forward ht y pkt.1 true pkt.2).calm ht (whipEmit_calm t slab y p pkt)

/-- The packets the jitter buffer hands on: if there is one, the last packet is of now. -/
theorem Serving.emitted (ht : 0 < t) (slab : Bool) (y : ℕ) (pkts : List (Bytes × Bool))
    (h : p.Serving name a b x t last) : (pkts.foldl (Proc.whipEmit t slab y) p).Serving name a b x t
      (if y = x ∧ pkts ≠ [] then t else last) := by
  induction pkts generalizing p last with
  | nil => simpa using h
  | cons pkt pkts ih =>
    have hi := ih (h.whipEmit ht slab y pkt)
    rw [List.foldl_cons]
    refine hi.back ?_
    split_ifs <;> simp_all

end Serving

/-- The session whose media an event makes the worker forward. -/
def mediaOf (p : Proc) : ProcEvent → Option ℕ
  | .srtp _ _ c (some rtp) emitted =>
    (p.w.getCtx c).filter fun a => (p.w.sessions.get a).any fun s =>
      s.source.isSome && s.publishing && s.fsm.isReady && rtpHeaderSize ≤ rtp.length &&
        (if rtpPt rtp = s.videoPt then !emitted.isEmpty else rtpPt rtp = s.audioPt)
  | _ => none

section Media
variable {name : SourceName} {a b x t last : ℕ} {p q : Proc}

theorem Serving.learned (ht : 0 < t) (h : p.Serving name a b x t last) (d y : ℕ) (isVideo : Bool)
    (ssrc : UInt32) : Serving name a b x t last
      ((p.upd fun w => w.modifySession d fun s => { s with lastActive := t }).learnSsrc y isVideo
        ssrc) :=
  (h.calm ht (calm_touch p t d)).calm ht (calm_learnSsrc _ y isVideo ssrc)

theorem Serving.onSrtp (ht : 0 < t) (h : p.Serving name a b x t last) (slab : Bool) (c : ℕ)
    (plain : Option Bytes) (emitted : List (Bytes × Bool)) :
    (p.onSrtp t slab c plain emitted).Serving name a b x t last := by
  have hback : ∀ {q : Proc} (P : Prop) [Decidable P],
      q.Serving name a b x t (if P then t else last) → q.Serving name a b x t last := fun P _ hq =>
    hq.back (by split_ifs; exacts [h.last_le, le_rfl])
  unfold Proc.onSrtp
  split
  · exact h
  · next d hc =>
    split
    · next sess rtp hs =>
      split
      · exact h
      · next y hsrc =>
        split_ifs
        · exact h
        · exact hback _ ((h.learned ht d y true _).emitted ht slab y emitted)
        · exact hback _ ((h.learned ht d y false _).forward ht y rtp false false)
        · exact h.calm ht (calm_touch p t d)
    · exact h

/-- **A forwarded packet of the session** renews the claim, or finds it renewed. -/
theorem Serving.onSrtp_media (ht : 0 < t) (h : p.Serving name a b x t last) {slab : Bool} {c : ℕ}
    {plain : Option Bytes} {emitted : List (Bytes × Bool)}
    (hm : p.mediaOf (.srtp t slab c plain emitted) = some b) :
    (p.onSrtp t slab c plain emitted).Serving name a b x t t := by
  cases plain with
  | none => exact nomatch hm
  | some rtp =>
    obtain ⟨hc, hm⟩ := Option.filter_eq_some_iff.1 hm
    obtain ⟨sess, hs, hm⟩ := (Option.any_eq_true ..).1 hm
    simp only [Bool.and_eq_true, decide_eq_true_eq] at hm
    obtain ⟨⟨⟨⟨-, hpub⟩, hready⟩, hlen⟩, hpt⟩ := hm
    have hx : sess.source = some x := by
      obtain ⟨_, _, s, _, h⟩ := h
      obtain rfl := Option.some.inj (h.session.symm.trans hs)
      exact congrArg Prod.fst h.stream
    simp only [Proc.onSrtp, hc, hs, hx, hpub, hready, Bool.not_true, Bool.or_self, Bool.false_or,
      decide_eq_true_eq, if_neg (Nat.not_lt.2 hlen)]
    split_ifs at hpt ⊢ with hv ha
    · have hne : emitted ≠ [] := by simpa using hpt
      have he := (h.learned ht b x true (rtpSsrc rtp)).emitted ht slab x emitted
      rwa [if_pos ⟨rfl, hne⟩] at he
    · have he := (h.learned ht b x false (rtpSsrc rtp)).forward ht x rtp false false
      rwa [if_pos rfl] at he
    · exact absurd (by simpa using hpt) ha

/-! ## Closes and bindings -/

theorem Serving.tagged (h : p.Serving name a b x t last) : p.tagged name b = true := by
  obtain ⟨c, src, s, v, h⟩ := h
  have hx : s.source = some x := congrArg Prod.fst h.stream
  simp [Proc.tagged, h.session, hx, h.source, h.named, h.kind]

/-- The close of another session. -/
theorem Serving.sessionClose (ht : 0 < t) (h : p.Serving name a b x t last) (now : ℕ) (heap : Heap)
    (ev : SessionEvent) {d : ℕ} (hd : p.tagged name d = false) :
    (p.sessionClose now heap ev d).Serving name a b x t last := by
  have hbd : b ≠ d := by
    rintro rfl
    exact nomatch hd.symm.trans h.tagged
  have hgo : GoesOn name a t p (p.sessionClose now heap ev d) :=
    goesOn_sessionClose ht p now heap ev hd
  have hshape := h.shaped.sessionClose now heap ev d
  suffices he : (p.sessionClose now heap ev d).w.sources.get x = p.w.sources.get x ∧
      (p.sessionClose now heap ev d).w.sessions.get b = p.w.sessions.get b from
    h.keep ht hgo hshape (by rw [he.1]) (by rw [he.2])
  obtain ⟨c, src, s, v, h⟩ := h
  have hx : s.source = some x := congrArg Prod.fst h.stream
  cases hs : p.w.sessions.get d with
  | none =>
    rw [sessionClose_none hs]
    exact ⟨rfl, rfl⟩
  | some sess =>
    have hy : sess.source ≠ some x := fun hy => by
      simp [Proc.tagged, hs, hy, h.source, h.named, h.kind] at hd
    obtain ⟨w, hsrc, hothers, he⟩ := sessionClose_eq hs now heap ev
    have hdet : w.sessions.get b = some s := (hothers b hbd).trans h.session
    simp only [he, call, upd]
    have hrel : (releaseOwned ⟨p.sh, w⟩ now sess).w.sessions.get b = some s ∧
        (releaseOwned ⟨p.sh, w⟩ now sess).w.sources.get x = p.w.sources.get x := by
      rw [← hsrc]
      unfold Proc.releaseOwned
      split
      · exact ⟨hdet, rfl⟩
      · next y hsy =>
        have hxy : x ≠ y := fun he => hy (he ▸ hsy)
        split_ifs
        · unfold Proc.release Proc.atSource
          split
          · exact ⟨hdet, rfl⟩
          · exact ⟨hdet, Pool.get_modify_of_ne hxy _⟩
        · exact ⟨hdet, rfl⟩
    have hleave := Worker.leave_held hrel.1 hx hbd sess hy
    exact ⟨hleave.1.trans hrel.2, hleave.2.trans h.session.symm⟩

theorem Serving.settles (ht : 0 < t) (h : p.Serving name a b x t last) {C : ℕ → Prop}
    (hs : Settles (· = t) (· = name) C p q) (hC : ∀ d, C d → p.tagged name d = false) :
    q.Serving name a b x t last := by
  cases hs with
  | calm hc => exact h.calm ht hc
  | @closes q hc now heap ev d hd =>
    exact (h.calm ht hc).sessionClose ht now heap ev (by rw [hc.tagged, hC d hd])

end Media

/-- The event attaches a session that publishes the stream: no such session is here yet. -/
def attaches (name : SourceName) (p : Proc) : ProcEvent → Bool
  | .stun _ heap k ufrag _ =>
    (p.w.conns.get k).isSome && (p.w.sessionFind ufrag).isNone && heap.session &&
      p.sh.any fun c => (c.sessionLookup ufrag).any fun d => (c.sessions.get d).any fun sess =>
        sess.ownableBy p.w.slot && sess.publishing &&
          (c.sources.get sess.source).any fun src => src.name = name
  | _ => false

section Steps
variable {name : SourceName} {a b x t last : ℕ} {p q : Proc}

/-- The local source of an attached session is another one, or is not claimed again. -/
theorem attachSource_claim (h : p.Serving name a b x t last) (env : Env) (heap : Heap)
    (snap : SessionSnapshot)
    (hsnap : snap.publishing = true → ∀ id, snap.source = some id → id.1 ≠ name) :
    ((p.attachSource env heap snap).1.w.sources.get x).map Source.claim =
      (p.w.sources.get x).map Source.claim := by
  obtain ⟨c, src, s, v, h⟩ := h
  unfold Proc.attachSource
  split
  · rfl
  · next n vs as vp ap hid =>
    split
    · rfl
    · next w y created hw =>
      have hwx : w.sources.get x = some v := by
        rcases Worker.sourceCreate_cases hw with ⟨-, rfl, -⟩ | ⟨-, -, -, rfl⟩
        · exact h.source
        · exact Pool.get_alloc_of_some h.source
      have hyx : y = x → n = name := by
        rintro rfl
        rcases Worker.sourceCreate_cases hw with ⟨-, -, hl⟩ | ⟨-, rfl, -, -⟩
        · obtain ⟨u, hu, hn⟩ := Worker.sourceLookup_spec hl
          rw [← hn, ← h.named, Option.some.inj (hu.symm.trans h.source)]
        · exact nomatch (Pool.get_next _).symm.trans h.source
      unfold Proc.atSource
      split
      · rw [hwx, h.source]
      · next u hu =>
        by_cases he : y = x
        · subst he
          obtain rfl := Option.some.inj (hu.symm.trans hwx)
          have hpub : snap.publishing = false := Bool.eq_false_iff.2 fun hp => hsnap hp _ hid (hyx rfl)
          simp only [Worker.modifySource, Pool.get_modify_self, hu, h.source, hpub, Option.map_some,
            Option.some.injEq]
          cases p.sh <;> rfl
        · simp only [Worker.modifySource, Pool.get_modify_of_ne (Ne.symm he), hwx, h.source]

theorem Serving.attach (ht : 0 < t) (h : p.Serving name a b x t last) {env : Env}
    (he : env.now = t) {heap : Heap} {k : ℕ} {ufrag : Ufrag} {verified : Pwd → Bool}
    (hk : (p.w.conns.get k).isSome) (hf : p.w.sessionFind ufrag = none)
    (hno : p.attaches name (.stun env heap k ufrag verified) = false) :
    (p.attachFromShm env heap ufrag).1.Serving name a b x t last := by
  have hgo : GoesOn name a t p (p.attachFromShm env heap ufrag).1 := goesOn_attach ht p he heap ufrag
  have hshape := h.shaped.attachFromShm env heap ufrag
  suffices hw : ((p.attachFromShm env heap ufrag).1.w.sources.get x).map Source.claim =
      (p.w.sources.get x).map Source.claim ∧
        (p.attachFromShm env heap ufrag).1.w.sessions.get b = p.w.sessions.get b from
    h.keep ht hgo hshape hw.1 (by rw [hw.2])
  unfold Proc.attachFromShm
  split
  · exact ⟨rfl, rfl⟩
  · next c hc =>
    split_ifs with hs
    · exact ⟨rfl, rfl⟩
    · split
      · exact ⟨rfl, rfl⟩
      · next c' rc snap hb =>
        have hsnap : snap.publishing = true → ∀ id, snap.source = some id → id.1 ≠ name := by
          intro hp id hid hn
          unfold ShmCtx.sessionBind at hb
          split at hb
          · simp at hb
          · next d hd =>
            split at hb
            · simp at hb
            · next sess hsess =>
              split_ifs at hb with ho
              · simp only [Prod.mk.injEq, Option.some.injEq] at hb
                obtain ⟨-, -, rfl⟩ := hb
                obtain ⟨src, hsrc, rfl⟩ := Option.map_eq_some_iff.1 hid
                have hp : sess.publishing = true := hp
                have hn : src.name = name := hn
                simp [attaches, hk, hf, by simpa using hs, hc, hd, hsess, ho, hp, hsrc, hn] at hno
              · simp at hb
        have hbind : GoesOn name a t p (p.call (.bind ufrag p.w.slot)) :=
          goesOn_call p (ShmOp.plain_of_idle rfl (fun _ => rfl) fun _ _ _ => (nomatch ·))
        have hcall : p.call (.bind ufrag p.w.slot) = ⟨some c', p.w⟩ := by
          simp only [call, hc, Option.map_some, ShmOp.step, hb]
        have hbound : Serving name a b x t last ⟨some c', p.w⟩ :=
          hcall ▸ h.calm ht (calm_call p (ShmOp.plain_of_idle rfl (fun _ => rfl) fun _ _ _ => (nomatch ·)))
        refine ⟨attachSource_claim hbound env heap snap hsnap, ?_⟩
        obtain ⟨_, _, s, _, h⟩ := h
        simp only [upd, Worker.sessionAdd, attachSource_sessions, h.session]
        exact Pool.get_alloc_of_some h.session

theorem Serving.onStun (ht : 0 < t) (h : p.Serving name a b x t last) {env : Env}
    (he : env.now = t) {heap : Heap} {k : ℕ} {ufrag : Ufrag} {verified : Pwd → Bool}
    (hk : (p.w.conns.get k).isSome)
    (hno : p.attaches name (.stun env heap k ufrag verified) = false) :
    (p.onStun env heap k ufrag verified).Serving name a b x t last := by
  refine Serving.calm ht ?_ (onStun_calm p env heap k ufrag verified)
  unfold Proc.findOrAttach
  split
  · exact h
  · next hf => exact h.attach ht he hk hf hno

end Steps

end Proc

/-- The events of a worker that serves media: datagrams, timers and sweeps. -/
def ProcEvent.OnMedia : ProcEvent → Prop
  | .accept | .stun .. | .dtls .. | .dtlsTimer .. | .rtcp .. | .srtp .. | .reap .. | .finalize .. => True
  | .others (.expire ..) => True
  | _ => False

namespace Proc

/-- **A step of the worker that serves.**  It keeps serving unless it closes a session of the stream
    or attaches another publisher of it; a forwarded packet counts from now. -/
theorem Serving.media_step {name : SourceName} {a b x t last : ℕ} {p : Proc} (ht : 0 < t)
    (h : p.Serving name a b x t last) {e : ProcEvent} (hm : e.OnMedia) (htime : e.Timed (· = t))
    (hc : p.closesTagged name e = false) (hno : p.attaches name e = false) :
    (p.step e).Serving name a b x t (if p.mediaOf e = some b then t else last) := by
  have hC : ∀ d, p.closes e = some d → p.tagged name d = false := fun d hd => by
    simpa only [closesTagged, hd, Option.any_some] using hc
  cases e with
  | accept => exact h.calm ht (calm_conns p rfl rfl)
  | stun env heap k ufrag verified =>
    have hs : (p.step (.stun env heap k ufrag verified)).Serving name a b x t last := by
      simp only [step]
      split_ifs with hk
      · exact h.onStun ht htime hk hno
      · exact h
    exact hs
  | dtls now heap c data v => exact h.settles ht (settles_onDtls p now heap c data v fun _ => id) hC
  | dtlsTimer now heap d v => exact h.settles ht (settles_dtlsTimer p now heap d v fun _ => id) hC
  | rtcp now heap c plain => exact h.settles ht (settles_onRtcp p now heap c plain fun _ => id) hC
  | srtp now slab c plain emitted =>
    obtain rfl : now = t := htime
    split_ifs with hmedia
    · exact h.onSrtp_media ht hmedia
    · exact h.onSrtp ht slab c plain emitted
  | reap conf now heap d =>
    exact h.settles ht (settles_reapSession conf now heap p d fun _ => id) hC
  | finalize c =>
    have hs : (p.step (.finalize c)).Serving name a b x t last := by
      simp only [step, finalize]
      split_ifs
      · exact h.calm ht (calm_conns p rfl rfl)
      · exact h
    exact hs
  | others op =>
    cases op with
    | expire now forced =>
      refine h.calm ht (calm_call p ⟨htime.beat, htime.sweeps, fun _ _ _ h => by cases h⟩)
    | _ => exact hm.elim
  | _ => exact hm.elim

end Proc

end NginxRtc
