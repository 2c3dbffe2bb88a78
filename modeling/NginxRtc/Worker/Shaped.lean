/-
  The registry a worker shares keeps its shape.

  No act of a handler can break what `ShmCtx.Shape` says, and neither can a close.

  `Proc.shaped_step`: every handler keeps the shape.  `Proc.shaped_run`: so does every run.
-/
import NginxRtc.Worker.Acts

namespace NginxRtc

/-- The registry, if there is one, has its shape. -/
def Shaped (sh : Option ShmCtx) : Prop := ∀ c, sh = some c → c.Shape

theorem shaped_none : Shaped none := fun _ h => nomatch h

theorem shaped_some {c : ShmCtx} : Shaped (some c) ↔ c.Shape :=
  ⟨fun h => h c rfl, fun h _ he => Option.some.inj he ▸ h⟩

theorem Shaped.map {sh : Option ShmCtx} (h : Shaped sh) {f : ShmCtx → ShmCtx}
    (hf : ∀ c, c.Shape → (f c).Shape) : Shaped (sh.map f) := by
  intro c' hc'
  obtain ⟨c, hc, rfl⟩ := Option.map_eq_some_iff.1 hc'
  exact hf c (h c hc)

/-! ## Publish ownership -/

theorem publishClaim_shaped {sh : Option ShmCtx} (h : Shaped sh) (env : Env) (src : Source)
    (kind : PublisherKind) : Shaped (publishClaim sh env src kind).1 := by
  cases sh with
  | none => exact shaped_none
  | some c => exact shaped_some.2 (publishClaimIn_shape (shaped_some.1 h) env src kind)

theorem publishRelease_shaped {sh : Option ShmCtx} (h : Shaped sh) (now : ℕ) (src : Source) :
    Shaped (publishRelease sh now src).1 := by
  cases sh with
  | none => cases hk : src.publisherKind <;> simpa only [publishRelease, hk] using shaped_none
  | some c =>
    have hc := shaped_some.1 h
    cases hk : src.publisherKind with
    | none => simpa only [publishRelease, hk] using h
    | some kind =>
      simp only [publishRelease, hk]
      exact shaped_some.2 ((ShmOp.sourceRemove src.name).shape_step
        (publishReleaseIn_shape hc now src))

theorem streamShmSource_shaped {sh : Option ShmCtx} (h : Shaped sh) (now : ℕ) (src : Source) :
    Shaped (streamShmSource sh now src).1 := by
  cases sh with
  | none => exact shaped_none
  | some c => exact shaped_some.2 (streamShmSourceIn_shape (shaped_some.1 h) now src)

theorem rtmpSyncShm_shaped {sh : Option ShmCtx} (h : Shaped sh) (slot : ℕ) (env : Env)
    (src : Source) : Shaped (rtmpSyncShm sh slot env src).1 := by
  cases sh with
  | none => exact shaped_none
  | some c => exact shaped_some.2 (rtmpSyncShmIn_shape (shaped_some.1 h) slot env src)

/-- A packet changes nothing of the registry but the rings. -/
theorem broadcastRtp_shape {c : ShmCtx} (hc : c.Shape) (w : Worker) (src : Source) (rtp : Bytes)
    (isVideo gop : Bool) : (broadcastRtp c w src rtp isVideo gop).sh.Shape := by
  unfold broadcastRtp
  split_ifs
  · exact hc
  · exact hc
  · exact ⟨hc.names, hc.ok, hc.nodup, hc.listed, hc.inList, hc.linked, hc.unbound, hc.bound, hc.ids,
      hc.idBound⟩

namespace Proc

/-- The registry the worker shares has its shape. -/
def Shaped (p : Proc) : Prop := NginxRtc.Shaped p.sh

variable {p : Proc}

theorem Shaped.call (h : p.Shaped) (op : ShmOp) : (p.call op).Shaped :=
  NginxRtc.Shaped.map h fun _ hc => op.shape_step hc

theorem Shaped.atSource {β : Type} (h : p.Shaped) (a : ℕ) (d : β)
    {f : Option ShmCtx → Source → Option ShmCtx × Source × β}
    (hf : ∀ src, NginxRtc.Shaped (f p.sh src).1) : (p.atSource a d f).1.Shaped := by
  unfold Proc.atSource
  split
  · exact h
  · next src _ => exact hf src

theorem Shaped.claim (h : p.Shaped) (env : Env) (a : ℕ) (kind : PublisherKind) :
    (p.claim env a kind).1.Shaped :=
  h.atSource a _ fun src => publishClaim_shaped h env src kind

theorem Shaped.release (h : p.Shaped) (now a : ℕ) : (p.release now a).Shaped :=
  h.atSource a _ fun src => publishRelease_shaped h now src

theorem Shaped.sessionClose (h : p.Shaped) (now : ℕ) (heap : Heap) (ev : SessionEvent) (a : ℕ) :
    (p.sessionClose now heap ev a).Shaped := by
  unfold Proc.sessionClose
  split
  · exact h
  · next sess _ =>
    have hd : Shaped (p.upd fun w => (w.detach heap.closeEv a sess).modifySession a
        (Session.dispatch ev none)) := h
    refine Shaped.call (p := Proc.upd _ _) ?_ _
    unfold Proc.releaseOwned
    split
    · exact hd
    · split_ifs
      · exact hd.release now _
      · exact hd

theorem Shaped.attachSource (h : p.Shaped) (env : Env) (heap : Heap) (snap : SessionSnapshot) :
    (p.attachSource env heap snap).1.Shaped := by
  unfold Proc.attachSource
  split
  · exact h
  · split
    · exact h
    · next w src _ _ =>
      refine Shaped.atSource (p := ⟨p.sh, w⟩) h src () fun v => ?_
      split
      · next c hsh _ => exact shaped_some.2 (adoptIn_shape (h c hsh) env _)
      · exact h

theorem Shaped.attachFromShm (h : p.Shaped) (env : Env) (heap : Heap) (ufrag : Ufrag) :
    (p.attachFromShm env heap ufrag).1.Shaped := by
  unfold Proc.attachFromShm
  split
  · exact h
  · next c hc =>
    split_ifs
    · exact h
    · split
      · exact h
      · next c' _ snap he =>
        have hb : (c.sessionBind ufrag p.w.slot).1.Shape :=
          (ShmOp.bind ufrag p.w.slot).shape_step (h c hc)
        rw [he] at hb
        exact Shaped.attachSource (p := ⟨some c', p.w⟩) (shaped_some.2 hb) env heap snap

theorem Shaped.broadcast (h : p.Shaped) (a : ℕ) (rtp : Bytes) (isVideo gop : Bool) :
    (p.broadcast a rtp isVideo gop).Shaped := by
  refine h.atSource a () fun src => ?_
  cases hsh : p.sh with
  | none => exact shaped_none
  | some c => exact shaped_some.2 (broadcastRtp_shape (h c hsh) p.w src rtp isVideo gop)

/-- **No act breaks the shape.** -/
theorem Shaped.act {T : ℕ → Prop} {kept : SourceName → Prop} {q : Proc} (h : p.Shaped)
    (ha : Act T kept p q) : q.Shaped := by
  cases ha with
  | call op _ => exact h.call op
  | broadcast a rtp isVideo gop => exact h.broadcast a rtp isVideo gop
  | claim env a kind _ => exact h.claim env a kind
  | renew now a _ => exact h.atSource a none fun src => streamShmSource_shaped h now src
  | sync slot env a _ => exact h.atSource a Rc.error fun src => rtmpSyncShm_shaped h slot env src
  | attach env heap ufrag _ => exact h.attachFromShm env heap ufrag
  | release now a _ => exact h.release now a
  | _ => exact h

theorem Shaped.acts {T : ℕ → Prop} {kept : SourceName → Prop} {q : Proc} (h : p.Shaped)
    (ha : Acts T kept p q) : q.Shaped := by
  induction ha with
  | refl => exact h
  | tail _ hq ih => exact ih.act hq

theorem Shaped.handles {T : ℕ → Prop} {kept : SourceName → Prop} {C : ℕ → Prop} {q : Proc}
    (h : p.Shaped) (hh : Handles T kept C p q) : q.Shaped := by
  cases hh with
  | acts ha => exact h.acts ha
  | settles hs =>
    cases hs with
    | calm ha => exact h.acts ha.acts
    | @closes _ ha now heap ev a _ => exact (h.acts ha.acts).sessionClose now heap ev a

/-- Acts with no condition on them. -/
theorem Shaped.free {q : Proc} (h : p.Shaped) (ha : Acts (fun _ => True) (fun _ => False) p q) : q.Shaped :=
  h.acts ha

/-- **Every handler keeps the shape of the registry.** -/
theorem shaped_step (e : ProcEvent) (h : p.Shaped) : (p.step e).Shaped :=
  h.handles (handles_step p e.timed_any (steady_none p e))

theorem shaped_run (h : p.Shaped) (es : List ProcEvent) : (Lts.run step p es).Shaped := by
  induction es generalizing p with
  | nil => exact h
  | cons e es ih => exact ih (shaped_step e h)

end Proc

end NginxRtc
