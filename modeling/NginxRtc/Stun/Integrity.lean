/-
  What MESSAGE-INTEGRITY covers.

  The verifier checks the HMAC over the bytes in front of the last MESSAGE-INTEGRITY, but the
  decoder takes fields from every attribute, also from those behind it.

  `integrity_iff`: every attribute a field comes from is covered if and only if none of those
  behind the last MESSAGE-INTEGRITY is a USERNAME with a colon, a USE-CANDIDATE or an ICE role; and
  then the covered bytes determine the user name, the role and use-candidate.
-/
import Mathlib.Data.List.DropRight
import NginxRtc.Stun.Message

namespace NginxRtc.Stun

/-! ## What an attribute sets -/

/-- The fields of a request that its sender chooses: user name, use-candidate, role. -/
def Request.used (s : Request) : Bool × Bytes × Bytes × Bool × Bool × Bool :=
  (s.hasUsername, s.localUfrag, s.remoteUfrag, s.useCandidate, s.iceControlled, s.iceControlling)

/-- The attribute sets one of these fields. -/
def Attr.Sets (a : Attr) : Prop := ∃ s, (apply s a).used ≠ s.used

/-- The attributes the decoder takes these fields from. -/
def Attr.Field (a : Attr) : Prop :=
  a.type = attrUsername ∧ 58 ∈ cstr (a.value.take (2 * ufragMax + 1)) ∨
    a.type = attrUseCandidate ∨ a.type = attrIceControlled ∨ a.type = attrIceControlling

theorem apply_used_of_not_field {a : Attr} (h : ¬ a.Field) (s : Request) :
    (apply s a).used = s.used := by
  simp only [Attr.Field, not_or, not_and] at h
  obtain ⟨hu, hc, hd, hg⟩ := h
  unfold apply
  split_ifs with h₁ h₂ h₃
  · have := (splitUser_isSome (a.value.take (2 * ufragMax + 1))).not.2 (hu h₁)
    rw [Option.not_isSome_iff_eq_none] at this
    rw [this]
  · rfl
  · rfl
  · rfl

/-- What an attribute makes of these fields depends on them only. -/
theorem apply_used_congr {s t : Request} (h : s.used = t.used) (a : Attr) :
    (apply s a).used = (apply t a).used := by
  simp only [Request.used, Prod.mk.injEq] at h
  obtain ⟨h₁, h₂, h₃, h₄, h₅, h₆⟩ := h
  unfold apply
  split_ifs
  · cases splitUser (a.value.take (2 * ufragMax + 1)) <;> simp only [Request.used, *]
  all_goals simp only [Request.used, *]

theorem foldl_used_congr (as : List Attr) {s t : Request} (h : s.used = t.used) :
    (as.foldl apply s).used = (as.foldl apply t).used := by
  induction as generalizing s t with
  | nil => exact h
  | cons a as ih => exact ih (apply_used_congr h a)

theorem foldl_used_of_not_field {as : List Attr} (h : ∀ a ∈ as, ¬ a.Field) (s : Request) :
    (as.foldl apply s).used = s.used := by
  induction as generalizing s with
  | nil => rfl
  | cons a as ih =>
    rw [List.foldl_cons, ih (fun b hb => h b (List.mem_cons_of_mem _ hb)),
      apply_used_of_not_field (h a List.mem_cons_self)]

/-- A request none of whose fields is set. -/
def Request.blank : Request := { type := 0, transactionId := [] }

theorem sets_iff (a : Attr) : a.Sets ↔ a.Field := by
  constructor
  · intro ⟨s, hs⟩
    exact Classical.not_not.1 fun h => hs (apply_used_of_not_field h s)
  · rintro (⟨hu, hc⟩ | hc | hc | hc)
    · obtain ⟨⟨l, r⟩, hlr⟩ := Option.isSome_iff_exists.1 ((splitUser_isSome _).2 hc)
      refine ⟨.blank, ?_⟩
      rw [apply, if_pos hu, hlr]
      exact fun h => nomatch congrArg Prod.fst h
    · refine ⟨.blank, ?_⟩
      rw [show apply .blank a = { Request.blank with useCandidate := true } by rw [apply, hc]; rfl]
      decide
    · refine ⟨.blank, ?_⟩
      rw [show apply .blank a = { Request.blank with iceControlled := true } by rw [apply, hc]; rfl]
      decide
    · refine ⟨.blank, ?_⟩
      rw [show apply .blank a = { Request.blank with iceControlling := true } by
        rw [apply, hc]; rfl]
      decide

/-! ## The last MESSAGE-INTEGRITY -/

/-- The attributes behind the last MESSAGE-INTEGRITY. -/
def behind (as : List Attr) : List Attr := as.rtakeWhile (·.type ≠ attrMessageIntegrity)

theorem apply_messageIntegrity (s : Request) (a : Attr) :
    (apply s a).messageIntegrity =
      if a.type = attrMessageIntegrity then some (UInt16.ofNat a.pos) else s.messageIntegrity := by
  by_cases ha : a.type = attrMessageIntegrity
  · rw [apply, ha]
    rfl
  · rw [if_neg ha]
    unfold apply
    split_ifs
    · cases splitUser (a.value.take (2 * ufragMax + 1)) <;> rfl
    all_goals rfl

theorem not_field_of_integrity {a : Attr} (h : a.type = attrMessageIntegrity) : ¬ a.Field := by
  rw [Attr.Field, h]
  rintro (⟨h, -⟩ | h | h | h) <;> exact absurd h (by decide)

/-- The verifier looks at the last one. -/
theorem exists_last {as : List Attr} {s : Request} {off : UInt16} (hs : s.messageIntegrity = none)
    (h : (as.foldl apply s).messageIntegrity = some off) :
    ∃ pre m, as = pre ++ m :: behind as ∧ m.type = attrMessageIntegrity ∧
      off = UInt16.ofNat m.pos := by
  induction as using List.reverseRecOn with
  | nil => exact nomatch hs.symm.trans h
  | append_singleton as a ih =>
    rw [List.foldl_append, List.foldl_cons, List.foldl_nil, apply_messageIntegrity] at h
    by_cases ha : a.type = attrMessageIntegrity
    · rw [if_pos ha] at h
      refine ⟨as, a, ?_, ha, (Option.some.inj h).symm⟩
      rw [behind, List.rtakeWhile_concat_neg _ _ _ (by simp [ha])]
    · rw [if_neg ha] at h
      obtain ⟨pre, m, he, ht, hm⟩ := ih h
      refine ⟨pre, m, ?_, ht, hm⟩
      rw [behind, List.rtakeWhile_concat_pos _ _ _ (by simp [ha])]
      rw [behind] at he
      conv_lhs => rw [he]
      rw [List.append_assoc, List.cons_append]

/-! ## Accepted datagrams -/

variable {hmac : Hmac} {data pwd : Bytes} {s : Request} {as : List Attr} {off : UInt16}

theorem verify_bounds (ho : s.messageIntegrity = some off)
    (hv : verifyRequest hmac s data pwd = true) :
    data.length ≤ verifyMax ∧ off.toNat + 20 ≤ data.length := by
  rw [verifyRequest, ho] at hv
  dsimp only at hv
  split at hv
  · exact nomatch hv
  · omega

/-- Where the MESSAGE-INTEGRITY stands that the HMAC was checked over. -/
theorem accepted_split (hd : decode data = some s) (hv : verifyRequest hmac s data pwd = true)
    (hs : attrs data = some as) (ho : s.messageIntegrity = some off) :
    ∃ pre m, as = pre ++ m :: behind as ∧ m.type = attrMessageIntegrity ∧ m.pos = off.toNat ∧
      headerLen + 4 ≤ m.pos ∧ m.pos ≤ data.length := by
  obtain ⟨hh, -, as', has, rfl⟩ := decode_eq_some.1 hd
  obtain rfl := Option.some.inj (hs.symm.trans has)
  obtain ⟨pre, m, he, ht, hm⟩ := exists_last rfl ho
  obtain ⟨hlen, -⟩ := verify_bounds ho hv
  obtain ⟨hlo, hhi⟩ := readAttrs_placed hs m (he ▸ List.mem_append_right _ List.mem_cons_self)
  rw [List.length_drop] at hhi
  have hpos : m.pos ≤ data.length := by omega
  refine ⟨pre, m, he, ht, ?_, hlo, hpos⟩
  have hmax : verifyMax = 2048 := rfl
  rw [hm, UInt16.toNat_ofNat', Nat.mod_eq_of_lt (by omega)]

theorem attrs_covered {pre : List Attr} {m : Attr} (hs : attrs data = some (pre ++ m :: behind as))
    (hm : m.pos = off.toNat) (hlo : headerLen + 4 ≤ m.pos) (hhi : m.pos ≤ data.length) :
    attrs (covered data off) = some pre := by
  have hhead : headerLen = 20 := rfl
  have hlen : (covered data off).length = m.pos - 4 := by
    rw [covered, List.length_take, List.length_append, List.length_append, List.length_take,
      Wire.length_wr16, List.length_drop]
    omega
  have hdrop : (covered data off).drop headerLen =
      (data.drop headerLen).take (m.pos - 4 - headerLen) := by
    have hpre : (data.take 2 ++ Wire.wr16 off).length = 4 := by
      rw [List.length_append, List.length_take, Wire.length_wr16]
      omega
    rw [covered, List.drop_take, List.drop_append, hpre, List.drop_drop,
      List.drop_eq_nil_of_le (by omega), List.nil_append, hm]
    rfl
  have hshort : ((data.drop headerLen).take (m.pos - 4 - headerLen)).length <
      4 * (m.pos - 4) + 4 := by
    rw [List.length_take]
    omega
  rw [attrs, hlen, hdrop, ← readAttrs_enough hshort (data.length - (m.pos - 4)),
    show m.pos - 4 + (data.length - (m.pos - 4)) = data.length by omega]
  exact readAttrs_take hs

/-- If nothing behind the last MESSAGE-INTEGRITY is a field, the fields are those of the covered
    bytes. -/
theorem used_covered (hd : decode data = some s) (hv : verifyRequest hmac s data pwd = true)
    (hs : attrs data = some as) (ho : s.messageIntegrity = some off)
    (hb : ∀ a ∈ behind as, ¬ a.Field) :
    ∃ pre, attrs (covered data off) = some pre ∧ s.used = (pre.foldl apply .blank).used := by
  obtain ⟨pre, m, he, ht, hm, hlo, hhi⟩ := accepted_split hd hv hs ho
  refine ⟨pre, attrs_covered (he ▸ hs) hm hlo hhi, ?_⟩
  obtain ⟨-, -, as', has, rfl⟩ := decode_eq_some.1 hd
  obtain rfl := Option.some.inj (hs.symm.trans has)
  calc (as.foldl apply (header data)).used
      = ((m :: behind as).foldl apply (pre.foldl apply (header data))).used := by
        conv_lhs => rw [he]
        rw [List.foldl_append]
    _ = (pre.foldl apply (header data)).used :=
        foldl_used_of_not_field (List.forall_mem_cons.2 ⟨not_field_of_integrity ht, hb⟩) _
    _ = (pre.foldl apply .blank).used := foldl_used_congr pre rfl

/-- **What the HMAC covers.**  In an accepted datagram every attribute that sets a user name, a role
    or use-candidate lies in front of the MESSAGE-INTEGRITY that was checked if and only if no such
    attribute follows the last one; and two such datagrams with the same covered bytes have the same
    of them. -/
theorem integrity_iff (hd : decode data = some s) (hv : verifyRequest hmac s data pwd = true)
    (hs : attrs data = some as) (ho : s.messageIntegrity = some off) :
    ((∀ a ∈ as, a.Sets → a.pos + a.value.length ≤ off.toNat - 4) ↔
      ∀ a ∈ behind as, ¬ a.Field) ∧
    ((∀ a ∈ behind as, ¬ a.Field) →
      ∀ data' pwd' s' as' off', decode data' = some s' → verifyRequest hmac s' data' pwd' = true →
        attrs data' = some as' → s'.messageIntegrity = some off' →
        (∀ a ∈ behind as', ¬ a.Field) → covered data' off' = covered data off →
        s'.used = s.used) := by
  constructor
  · obtain ⟨pre, m, he, ht, hm, hlo, hhi⟩ := accepted_split hd hv hs ho
    have hapart := readAttrs_apart hs
    rw [he] at hapart
    obtain ⟨-, hpost, hpre⟩ := List.pairwise_append.1 hapart
    constructor
    · intro h a ha hf
      have := h a (by rw [he]; exact List.mem_append_right _ (List.mem_cons_of_mem _ ha))
        ((sets_iff a).2 hf)
      have := (List.pairwise_cons.1 hpost).1 a ha
      omega
    · intro h a ha hset
      rw [he] at ha
      rcases List.mem_append.1 ha with ha | ha
      · have := hpre a ha m List.mem_cons_self
        omega
      · have hf := (sets_iff a).1 hset
        rcases List.mem_cons.1 ha with rfl | ha
        · exact absurd hf (not_field_of_integrity ht)
        · exact absurd hf (h a ha)
  · intro hb data' pwd' s' as' off' hd' hv' hs' ho' hb' hc
    obtain ⟨pre, hp, hu⟩ := used_covered hd hv hs ho hb
    obtain ⟨pre', hp', hu'⟩ := used_covered hd' hv' hs' ho' hb'
    rw [hc, hp] at hp'
    obtain rfl := Option.some.inj hp'
    rw [hu, hu']

/-! ## A datagram and its extension -/

/-- The HMAC-SHA1 of the request below under the password `pw`. -/
def requestMac : Digest :=
  ⟨[18, 215, 146, 159, 203, 158, 145, 253, 121, 22, 73, 17, 62, 72, 84, 72, 54, 214, 91, 205], rfl⟩

/-- A binding request of `srvu:clnt` with `extra` behind its MESSAGE-INTEGRITY. -/
def request (extra : Bytes) : Bytes :=
  Wire.wr16 bindingRequest ++ Wire.wr16 (UInt16.ofNat (40 + extra.length)) ++
    Wire.wr32 magicCookie ++ [1, 2, 3, 4, 5, 6, 7, 8, 9, 10, 11, 12] ++
    [0, 6, 0, 9, 115, 114, 118, 117, 58, 99, 108, 110, 116, 0, 0, 0] ++
    [0, 8, 0, 20] ++ requestMac.bytes ++ extra

/-- A USERNAME attribute of `srvu:evil`. -/
def otherUser : Bytes := [0, 6, 0, 9, 115, 114, 118, 117, 58, 101, 118, 105, 108, 0, 0, 0]

/-- What the decoder makes of that request. -/
def requestOf (remoteUfrag : Bytes) : Request :=
  { type := bindingRequest, transactionId := [1, 2, 3, 4, 5, 6, 7, 8, 9, 10, 11, 12],
    hasUsername := true, localUfrag := [115, 114, 118, 117], remoteUfrag,
    messageIntegrity := some 40 }

/-- A USERNAME behind the MESSAGE-INTEGRITY replaces the authentic one, and both datagrams are
    accepted. -/
theorem extension_accepted :
    let hmac : Hmac := fun _ _ => requestMac
    decode (request []) = some (requestOf [99, 108, 110, 116]) ∧
    decode (request otherUser) = some (requestOf [101, 118, 105, 108]) ∧
    verifyRequest hmac (requestOf [99, 108, 110, 116]) (request []) [112, 119] = true ∧
    verifyRequest hmac (requestOf [101, 118, 105, 108]) (request otherUser) [112, 119] = true ∧
    covered (request otherUser) 40 = covered (request []) 40 ∧
    (requestOf [101, 118, 105, 108]).used ≠ (requestOf [99, 108, 110, 116]).used ∧
    ∃ as, attrs (request otherUser) = some as ∧
      ∃ a ∈ as, a.Sets ∧ (40 : UInt16).toNat - 4 < a.pos + a.value.length := by
  refine ⟨by decide +kernel, by decide +kernel, by decide +kernel, by decide +kernel,
    by decide +kernel, by decide, _, rfl, ⟨attrUsername, 64, _⟩,
    List.mem_cons_of_mem _ (List.mem_cons_of_mem _ List.mem_cons_self), ?_, by decide⟩
  exact (sets_iff _).2 (.inl ⟨rfl, by decide⟩)

theorem integrity_iff_request :
    let hmac : Hmac := fun _ _ => requestMac
    verifyRequest hmac (requestOf [99, 108, 110, 116]) (request []) [112, 119] = true ∧
    ∃ as, attrs (request []) = some as ∧ (∀ a ∈ behind as, ¬ a.Field) ∧
      ∀ a ∈ as, a.Sets → a.pos + a.value.length ≤ (40 : UInt16).toNat - 4 := by
  have hv : verifyRequest (fun _ _ => requestMac) (requestOf [99, 108, 110, 116]) (request [])
    [112, 119] = true := by decide +kernel
  have hb : ∀ a ∈ behind [⟨attrUsername, 24, [115, 114, 118, 117, 58, 99, 108, 110, 116]⟩,
      ⟨attrMessageIntegrity, 40, requestMac.bytes⟩], ¬ a.Field := fun _ ha => nomatch ha
  exact ⟨hv, _, rfl, hb, (integrity_iff (by decide +kernel) hv rfl rfl).1.2 hb⟩

end NginxRtc.Stun
