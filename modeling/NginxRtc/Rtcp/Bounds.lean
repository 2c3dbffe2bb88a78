/-
  The RTCP parser and the bytes it reads.

  `parse_cases`: a parse reads past the end exactly of a bare header (version 2, length word 0)
  with fewer than four bytes behind it; otherwise it accepts the packets whose fixed fields fit.

  `decode_in_bounds`: a walk over a compound packet ends, and stays within it whatever the callback
  does, exactly when no packet it comes to is such a header.
-/
import NginxRtc.Rtcp.Parse

namespace NginxRtc
namespace Rtcp

variable {b : Bytes} {total : ℕ} {pkt : Pkt}

/-! ## Reads inside a packet -/

theorem readRb_some {i : ℕ} (h : i + 24 ≤ b.length) : ∃ rb, readRb b i = some rb := by
  obtain ⟨x₁, h₁⟩ := Wire.rd32_some (b := b) (i := i) (by omega)
  obtain ⟨x₂, h₂⟩ := Wire.rd8_some (b := b) (i := i + 4) (by omega)
  obtain ⟨x₃, h₃⟩ := Wire.rd24_some (b := b) (i := i + 5) (by omega)
  obtain ⟨x₄, h₄⟩ := Wire.rd32_some (b := b) (i := i + 8) (by omega)
  obtain ⟨x₅, h₅⟩ := Wire.rd32_some (b := b) (i := i + 12) (by omega)
  obtain ⟨x₆, h₆⟩ := Wire.rd32_some (b := b) (i := i + 16) (by omega)
  obtain ⟨x₇, h₇⟩ := Wire.rd32_some (b := b) (i := i + 20) (by omega)
  simp only [readRb, h₁, h₂, h₃, h₄, h₅, h₆, h₇, Option.bind_eq_bind, Option.bind_some]
  exact ⟨_, rfl⟩

/-- Every item takes two bytes or more, so the walk over a chunk ends. -/
theorem sdesItems_some (hb : total ≤ b.length) {n : ℕ} (off : ℕ) (ho : off ≤ total)
    (hn : total < off + n) : ∃ r, sdesItems b total n off = some r := by
  induction n generalizing off with
  | zero => exact absurd hn (by omega)
  | succ n ih =>
    unfold sdesItems
    split
    · obtain ⟨t, ht⟩ := Wire.rd8_some (b := b) (i := off) (by omega)
      rw [ht, Option.bind_eq_bind, Option.bind_some]
      split
      · exact ⟨_, rfl⟩
      · split
        · exact ⟨_, rfl⟩
        · obtain ⟨l, hl⟩ := Wire.rd8_some (b := b) (i := off + 1) (by omega)
          rw [hl, Option.bind_some]
          split
          · exact ⟨_, rfl⟩
          · split
            · have hcopy : off + 2 + (if maxCname ≤ l.toNat then maxCname - 1 else l.toNat) ≤
                  b.length := by
                split <;> omega
              rw [Wire.slice_some hcopy]
              exact ⟨_, rfl⟩
            · exact ih _ (by omega) (by omega)
    · exact ⟨_, rfl⟩

theorem sdesChunks_some (hb : total ≤ b.length) (n off : ℕ) :
    ∃ r, sdesChunks b total n off = some r := by
  induction n generalizing off with
  | zero => exact ⟨_, rfl⟩
  | succ n ih =>
    unfold sdesChunks
    split
    · obtain ⟨r, hr⟩ := sdesItems_some hb (n := total + 1) (off + 4) ‹_› (by omega)
      rw [hr, Option.bind_eq_bind, Option.bind_some]
      cases r with
      | inl off => exact ih _
      | inr cname => exact ⟨_, rfl⟩
    · exact ⟨_, rfl⟩

theorem parseSdes_some (hb : total ≤ b.length) (pkt : Pkt) : ∃ p, parseSdes b total pkt = some p := by
  obtain ⟨r, hr⟩ := sdesChunks_some hb pkt.fmt.toNat 4
  rw [parseSdes, hr]
  exact ⟨_, rfl⟩

theorem twccChunks_some {count words p : ℕ} (hb : p + 2 * words ≤ b.length) (r : Pkt × ℕ) :
    ∃ q, twccChunks b count words p r = some q := by
  induction words generalizing p r with
  | zero => exact ⟨_, rfl⟩
  | succ words ih =>
    unfold twccChunks
    split
    · obtain ⟨c, hc⟩ := Wire.rd16_some (b := b) (i := p) (by omega)
      rw [hc]
      exact ih (by omega) _
    · exact ⟨_, rfl⟩

theorem parseTwcc_some (hb : total ≤ b.length) (pkt : Pkt) : ∃ p, parseTwcc b total pkt = some p := by
  unfold parseTwcc
  split
  · exact ⟨_, rfl⟩
  · obtain ⟨x, hx⟩ := Wire.rd16_some (b := b) (i := 12) (by omega)
    obtain ⟨y, hy⟩ := Wire.rd16_some (b := b) (i := 14) (by omega)
    rw [hx, hy]
    exact twccChunks_some (by omega) _

theorem words32_some {n p : ℕ} (hb : p + 4 * n ≤ b.length) : ∃ vs, words32 b n p = some vs := by
  induction n generalizing p with
  | zero => exact ⟨_, rfl⟩
  | succ n ih =>
    obtain ⟨v, hv⟩ := Wire.rd32_some (b := b) (i := p) (by omega)
    obtain ⟨vs, hvs⟩ := ih (p := p + 4) (by omega)
    exact ⟨v :: vs, by simp only [words32, hv, hvs, Option.bind_eq_bind, Option.bind_some]⟩

theorem nackEntries_some {n p : ℕ} (hb : p + 4 * n ≤ b.length) :
    ∃ es, nackEntries b n p = some es := by
  induction n generalizing p with
  | zero => exact ⟨_, rfl⟩
  | succ n ih =>
    obtain ⟨x, hx⟩ := Wire.rd16_some (b := b) (i := p) (by omega)
    obtain ⟨y, hy⟩ := Wire.rd16_some (b := b) (i := p + 2) (by omega)
    obtain ⟨es, hes⟩ := ih (p := p + 4) (by omega)
    exact ⟨(x, y) :: es, by simp only [nackEntries, hx, hy, hes, Option.bind_eq_bind, Option.bind_some]⟩

/-! ## Which packets a parse accepts -/

/-- The REMB list of the packet is inside it, if it has one. -/
def RembFits (b : Bytes) (total : ℕ) : Prop :=
  16 ≤ total → (b.drop 12).take 4 = [0x52, 0x45, 0x4D, 0x42] →
    20 ≤ total ∧ 20 + (b.getD 16 0).toNat * 4 ≤ total

/-- The fixed fields of the packet are inside it. -/
def FieldsFit (b : Bytes) : Prop :=
  (typeOf b = typeSr → 28 ≤ totalOf b ∧ (0 < fmtOf b → 52 ≤ totalOf b)) ∧
    (typeOf b = typeRr → 0 < fmtOf b → 32 ≤ totalOf b) ∧
    (typeOf b = typeSdes → 8 ≤ totalOf b) ∧
    (typeOf b = typeRtpfb → 12 ≤ totalOf b) ∧
    (typeOf b = typePsfb → 12 ≤ totalOf b ∧ (fmtOf b = fmtRemb → RembFits b (totalOf b)))

/-- The header and the packet it announces are inside `b`. -/
def WellFormed (b : Bytes) : Prop :=
  4 ≤ b.length ∧ totalOf b ≤ b.length ∧ version b = 2 ∧ FieldsFit b

/-- A header alone, with fewer than four bytes behind it. -/
def Bare (b : Bytes) : Prop :=
  4 ≤ b.length ∧ b.length < 8 ∧ version b = 2 ∧ lengthOf b = 0

instance (b : Bytes) : Decidable (Bare b) := inferInstanceAs (Decidable (_ ∧ _ ∧ _ ∧ _))

/-- `r` accepts the packet if `fits`, and refuses it otherwise. -/
def Decides (r : Option (Except CodecErr Pkt)) (fits : Prop) : Prop :=
  (∃ p, r = some (.ok p)) ∧ fits ∨ (∃ e, r = some (.error e)) ∧ ¬fits

theorem Decides.ok {r : Option (Except CodecErr Pkt)} {fits : Prop} (h : ∃ p, r = some (.ok p))
    (hf : fits) : Decides r fits := .inl ⟨h, hf⟩

theorem Decides.error {e : CodecErr} {fits : Prop} (hf : ¬fits) :
    Decides (some (.error e)) fits := .inr ⟨⟨e, rfl⟩, hf⟩

theorem Decides.congr {r : Option (Except CodecErr Pkt)} {fits fits' : Prop} (h : Decides r fits)
    (hf : fits ↔ fits') : Decides r fits' := by rwa [← propext hf]

theorem parseSr_decides (hb : total ≤ b.length) :
    Decides (parseSr b total pkt) (28 ≤ total ∧ (0 < pkt.fmt → 52 ≤ total)) := by
  unfold parseSr
  split
  · exact .error (by omega)
  · obtain ⟨x₁, h₁⟩ := Wire.rd64_some (b := b) (i := 8) (by omega)
    obtain ⟨x₂, h₂⟩ := Wire.rd32_some (b := b) (i := 16) (by omega)
    obtain ⟨x₃, h₃⟩ := Wire.rd32_some (b := b) (i := 20) (by omega)
    obtain ⟨x₄, h₄⟩ := Wire.rd32_some (b := b) (i := 24) (by omega)
    simp only [h₁, h₂, h₃, h₄, Option.bind_eq_bind, Option.bind_some]
    split
    · next hf =>
      split
      · exact .error fun h => absurd (h.2 hf) (by omega)
      · obtain ⟨rb, hrb⟩ := readRb_some (b := b) (i := 28) (by omega)
        rw [hrb]
        exact .ok ⟨_, rfl⟩ ⟨by omega, fun _ => by omega⟩
    · next hf => exact .ok ⟨_, rfl⟩ ⟨by omega, fun h => absurd h hf⟩

theorem parseRr_decides (hb : total ≤ b.length) :
    Decides (parseRr b total pkt) (0 < pkt.fmt → 32 ≤ total) := by
  unfold parseRr
  split
  · next hf =>
    split
    · exact .error fun h => absurd (h hf) (by omega)
    · obtain ⟨rb, hrb⟩ := readRb_some (b := b) (i := 8) (by omega)
      rw [hrb]
      exact .ok ⟨_, rfl⟩ fun _ => by omega
  · next hf => exact .ok ⟨_, rfl⟩ fun h => absurd h hf

theorem parseRtpfb_decides (hb : total ≤ b.length) :
    Decides (parseRtpfb b total pkt) (12 ≤ total) := by
  unfold parseRtpfb
  split
  · exact .error (by omega)
  · obtain ⟨x, hx⟩ := Wire.rd32_some (b := b) (i := 8) (by omega)
    simp only [hx, Option.bind_eq_bind, Option.bind_some]
    refine .ok ?_ (by omega)
    split
    · obtain ⟨es, hes⟩ := nackEntries_some (b := b) (p := 12)
        (n := min ((total - 12) / 4) maxNackEntries) (by omega)
      rw [hes]
      exact ⟨_, rfl⟩
    · split
      · obtain ⟨p, hp⟩ := parseTwcc_some hb { pkt with mediaSsrc := x }
        rw [hp]
        exact ⟨_, rfl⟩
      · exact ⟨_, rfl⟩

theorem parseRemb_decides (hb : total ≤ b.length) (h12 : 12 ≤ total) :
    Decides (parseRemb b total pkt) (RembFits b total) := by
  unfold parseRemb
  split
  · exact .ok ⟨_, rfl⟩ fun h => absurd h (by omega)
  · rw [Wire.slice_some (by omega), Option.bind_eq_bind, Option.bind_some]
    split
    · next hm => exact .ok ⟨_, rfl⟩ fun _ h => absurd h hm
    · next hm =>
      have hmagic := not_not.1 hm
      split
      · exact .error fun h => absurd (h (by omega) hmagic).1 (by omega)
      · obtain ⟨x₁, h₁⟩ := Wire.rd8_some (b := b) (i := 16) (by omega)
        obtain ⟨x₂, h₂⟩ := Wire.rd8_some (b := b) (i := 17) (by omega)
        obtain ⟨x₃, h₃⟩ := Wire.rd8_some (b := b) (i := 18) (by omega)
        obtain ⟨x₄, h₄⟩ := Wire.rd8_some (b := b) (i := 19) (by omega)
        have hword : Wire.rd32 b 16 = some (Wire.word32 x₁ x₂ x₃ x₄) := by
          simp only [Wire.rd32, h₁, h₂, h₃, h₄]
        have hnum : (b.getD 16 0).toNat = x₁.toNat := by
          rw [List.getD_eq_getElem?_getD, h₁, Option.getD_some]
        simp only [hword, Option.bind_eq_bind, Option.bind_some, Wire.word32_top]
        split
        · exact .error fun h => absurd (h (by omega) hmagic).2 (by omega)
        · obtain ⟨vs, hvs⟩ := words32_some (b := b) (n := min x₁.toNat maxRembSsrcs) (p := 20)
            (by omega)
          rw [hvs]
          exact .ok ⟨_, rfl⟩ fun _ _ => ⟨by omega, by omega⟩

theorem parsePsfb_decides (hb : total ≤ b.length) :
    Decides (parsePsfb b total pkt)
      (12 ≤ total ∧ (pkt.fmt = fmtRemb → RembFits b total)) := by
  unfold parsePsfb
  split
  · exact .error (by omega)
  · next h12 =>
    have h12 := Nat.not_lt.1 h12
    obtain ⟨x, hx⟩ := Wire.rd32_some (b := b) (i := 8) (by omega)
    simp only [hx, Option.bind_eq_bind, Option.bind_some]
    split
    · next hf =>
      refine (parseRemb_decides hb h12).congr ⟨fun h => ⟨h12, fun _ => h⟩, fun h => h.2 hf⟩
    · next hf => exact .ok ⟨_, rfl⟩ ⟨h12, fun h => absurd h hf⟩

/-- The type of the packet decides which of the fixed fields it needs. -/
theorem parseBody_decides (pkt : Pkt) (hb : total ≤ b.length) (ht : pkt.type = typeOf b)
    (hf : pkt.fmt = fmtOf b) (hn : total = totalOf b) :
    Decides (parseBody b total pkt) (FieldsFit b) := by
  unfold parseBody FieldsFit
  rw [← ht, ← hf, ← hn]
  generalize pkt.type = t at *
  split
  · next h =>
    refine (parseSr_decides hb).congr ?_
    subst h
    simp [typeSr, typeRr, typeSdes, typeRtpfb, typePsfb]
  next h₁ =>
  split
  · next h =>
    refine (parseRr_decides hb).congr ?_
    subst h
    simp [typeSr, typeRr, typeSdes, typeRtpfb, typePsfb]
  next h₂ =>
  split
  · next h =>
    have hsdes : Decides (if total < 8 then some (.error .parse)
        else (parseSdes b total pkt).map .ok) (8 ≤ total) := by
      split
      · exact .error (by omega)
      · obtain ⟨p, hp⟩ := parseSdes_some hb pkt
        rw [hp]
        exact .ok ⟨p, rfl⟩ (by omega)
    refine hsdes.congr ?_
    subst h
    simp [typeSr, typeRr, typeSdes, typeRtpfb, typePsfb]
  next h₃ =>
  split
  · next h =>
    refine (parseRtpfb_decides hb).congr ?_
    subst h
    simp [typeSr, typeRr, typeSdes, typeRtpfb, typePsfb]
  next h₄ =>
  split
  · next h =>
    refine (parsePsfb_decides hb).congr ?_
    subst h
    simp [typeSr, typeRr, typeSdes, typeRtpfb, typePsfb]
  next h₅ => exact .ok ⟨_, rfl⟩ (by simp [h₁, h₂, h₃, h₄, h₅])

/-! ## A parse -/

/-- The common header. -/
theorem header_some {b : Bytes} (h : 4 ≤ b.length) :
    ∃ x₀ : UInt8, b[0]? = some x₀ ∧ b[1]? = some (typeOf b) ∧
      Wire.rd16 b 2 = some (lengthOf b) ∧ version b = (x₀ >>> 6) &&& 3 ∧ fmtOf b = x₀ &&& 0x1f := by
  obtain ⟨x₀, h₀⟩ := Wire.rd8_some (b := b) (i := 0) (by omega)
  obtain ⟨x₁, h₁⟩ := Wire.rd8_some (b := b) (i := 1) (by omega)
  obtain ⟨x₂, h₂⟩ := Wire.rd8_some (b := b) (i := 2) (by omega)
  obtain ⟨x₃, h₃⟩ := Wire.rd8_some (b := b) (i := 3) (by omega)
  have ht : typeOf b = x₁ := by rw [typeOf, List.getD_eq_getElem?_getD, h₁, Option.getD_some]
  have hl : lengthOf b = Wire.word16 x₂ x₃ := by
    rw [lengthOf, List.getD_eq_getElem?_getD, List.getD_eq_getElem?_getD, h₂, h₃]
    rfl
  refine ⟨x₀, h₀, ht ▸ h₁, ?_, ?_, ?_⟩
  · simp only [Wire.rd16, h₂, h₃, hl]
  · rw [version, List.getD_eq_getElem?_getD, h₀, Option.getD_some]
  · rw [fmtOf, List.getD_eq_getElem?_getD, h₀, Option.getD_some]

/-- **What a parse does.**  It reads past the end of `b` if there is a bare header there; otherwise
    it accepts a packet that is well formed, and consumes what its header states, and refuses any
    other. -/
theorem parse_cases (b : Bytes) :
    (parse b = none ∧ Bare b) ∨
    (¬Bare b ∧ WellFormed b ∧ ∃ pkt, parse b = some (.ok (pkt, totalOf b))) ∨
    (¬Bare b ∧ ¬WellFormed b ∧ ∃ e, parse b = some (.error e)) := by
  unfold parse
  split
  · next h =>
    refine .inr (.inr ⟨fun hbare => absurd hbare.1 (by omega), fun hw => absurd hw.1 (by omega), ?_⟩)
    exact ⟨_, rfl⟩
  next hlen =>
  obtain ⟨x₀, h₀, h₁, hw, hv, hf⟩ := header_some (b := b) (by omega)
  simp only [h₀, h₁, hw, Option.bind_eq_bind, Option.bind_some, ← hv, ← hf]
  have htot : ((lengthOf b).toNat + 1) * 4 = totalOf b := rfl
  rw [htot]
  split
  · next hbig =>
    refine .inr (.inr ⟨fun hbare => ?_, fun hw => absurd hw.2.1 (by omega), ⟨_, rfl⟩⟩)
    have h4 : totalOf b = 4 := by rw [totalOf, hbare.2.2.2]; rfl
    omega
  split
  · next hver => exact .inr (.inr ⟨fun hbare => hver hbare.2.2.1, fun hw => hver hw.2.2.1, ⟨_, rfl⟩⟩)
  next hbig hver =>
  have hver := not_not.1 hver
  by_cases hbare : Bare b
  · rw [Wire.rd32_none (by have := hbare.2.1; omega)]
    exact .inl ⟨rfl, hbare⟩
  have h8 : 8 ≤ b.length := by
    by_contra h8
    have hz : (lengthOf b).toNat = 0 := by
      unfold totalOf at hbig
      omega
    exact hbare ⟨by omega, by omega, hver, UInt16.toNat_inj.1 hz⟩
  obtain ⟨ssrc, hssrc⟩ := Wire.rd32_some (b := b) (i := 4) (by omega)
  rw [hssrc, Option.bind_some]
  have hbody := parseBody_decides
    { version := version b, padding := (x₀ >>> 5) &&& 1, type := typeOf b, fmt := fmtOf b,
      lengthWords := lengthOf b, totalLen := totalOf b, ssrc := ssrc }
    (show totalOf b ≤ b.length by omega) rfl rfl rfl
  rcases hbody with ⟨⟨p, hp⟩, hfit⟩ | ⟨⟨e, he⟩, hfit⟩
  · rw [hp]
    exact .inr (.inl ⟨hbare, ⟨by omega, by omega, hver, hfit⟩, p, rfl⟩)
  · rw [he]
    exact .inr (.inr ⟨hbare, fun hw => hfit hw.2.2.2, e, rfl⟩)

/-! ## A walk -/

/-- The rests of `b` a walk comes to while the callback goes on. -/
inductive Comes : Bytes → Bytes → Prop where
  | here (b : Bytes) : Comes b b
  | next {b c : Bytes} : WellFormed b → Comes (b.drop (totalOf b)) c → Comes b c

theorem four_le_totalOf (b : Bytes) : 4 ≤ totalOf b := by
  unfold totalOf
  omega

variable {σ : Type} {cb : σ → Pkt → Option Int × σ}

/-- Every packet takes four bytes or more, so the rounds are enough. -/
theorem walk_ends {n : ℕ} (s : σ) (hn : (b.length + 3) / 4 ≤ n) : walk cb n b s ≠ .unended := by
  induction n generalizing b s with
  | zero =>
    cases b with
    | nil => exact fun h => nomatch h
    | cons x b =>
      rw [List.length_cons] at hn
      omega
  | succ n ih =>
    cases b with
    | nil => exact fun h => nomatch h
    | cons x b =>
      unfold walk
      rcases parse_cases (x :: b) with ⟨hp, -⟩ | ⟨-, hw, pkt, hp⟩ | ⟨-, -, e, hp⟩
      · rw [hp]
        exact fun h => nomatch h
      · rw [hp]
        simp only
        split
        · exact fun h => nomatch h
        · refine ih _ ?_
          have := four_le_totalOf (x :: b)
          rw [List.length_drop]
          omega
      · rw [hp]
        exact fun h => nomatch h

/-- A walk that comes to no bare header stays inside the packet. -/
theorem walk_reads {n : ℕ} (s : σ) (h : ∀ c, Comes b c → ¬Bare c) : walk cb n b s ≠ .overread := by
  induction n generalizing b s with
  | zero => cases b <;> exact fun h => nomatch h
  | succ n ih =>
    cases b with
    | nil => exact fun h => nomatch h
    | cons x b =>
      unfold walk
      rcases parse_cases (x :: b) with ⟨-, hbare⟩ | ⟨-, hw, pkt, hp⟩ | ⟨-, -, e, hp⟩
      · exact absurd hbare (h _ (.here _))
      · rw [hp]
        simp only
        split
        · exact fun h => nomatch h
        · exact ih _ fun c hc => h c (.next hw hc)
      · rw [hp]
        exact fun h => nomatch h

/-- A walk whose callback goes on comes to a bare header if there is one on its way. -/
theorem walk_overreads {n : ℕ} {c : Bytes} (hc : Comes b c) (hbare : Bare c)
    (hn : (b.length + 3) / 4 ≤ n) :
    walk (fun (_ : Unit) (_ : Pkt) => (none, ())) n b () = .overread := by
  induction hc generalizing n with
  | here b =>
    cases n with
    | zero =>
      have := hbare.1
      omega
    | succ n =>
      cases b with
      | nil => exact absurd hbare.1 (by decide)
      | cons x b =>
        unfold walk
        rcases parse_cases (x :: b) with ⟨hp, -⟩ | ⟨hno, -⟩ | ⟨hno, -⟩
        · rw [hp]
        · exact absurd hbare hno
        · exact absurd hbare hno
  | @next b c hw _ ih =>
    have h4 := hw.1
    cases n with
    | zero => omega
    | succ n =>
      cases b with
      | nil => exact absurd h4 (by decide)
      | cons x b =>
        unfold walk
        rcases parse_cases (x :: b) with ⟨hp, -⟩ | ⟨-, -, pkt, hp⟩ | ⟨-, hno, -⟩
        · rw [hp]
        · rw [hp]
          refine ih hbare ?_
          have := four_le_totalOf (x :: b)
          rw [List.length_drop]
          omega
        · exact absurd hw hno

/-- **RTCP parsing ends and stays in bounds**, whatever the callback, exactly when no packet the
    walk comes to is a bare header.  That it ends, and takes four bytes or more a step, holds
    always. -/
theorem decode_in_bounds (b : Bytes) :
    (∀ (c : Bytes) (pkt : Pkt) (consumed : ℕ), parse c = some (.ok (pkt, consumed)) →
      4 ≤ consumed ∧ consumed ≤ c.length) ∧
    (∀ (σ : Type) (cb : σ → Pkt → Option Int × σ) (s : σ), decode cb b s ≠ .unended) ∧
    ((∀ (σ : Type) (cb : σ → Pkt → Option Int × σ) (s : σ), decode cb b s ≠ .overread) ↔
      ∀ c, Comes b c → ¬Bare c) := by
  refine ⟨fun c pkt consumed hp => ?_, fun σ cb s => walk_ends s (Nat.le_refl _), ?_⟩
  · rcases parse_cases c with ⟨hp', -⟩ | ⟨-, hw, pkt', hp'⟩ | ⟨-, -, e, hp'⟩
    · rw [hp'] at hp
      exact nomatch hp
    · rw [hp'] at hp
      cases hp
      exact ⟨four_le_totalOf c, hw.2.1⟩
    · rw [hp'] at hp
      exact nomatch hp
  · constructor
    · intro h c hc hbare
      exact h Unit _ () (walk_overreads hc hbare (Nat.le_refl _))
    · exact fun h σ cb s => walk_reads s h

/-- An empty receiver report, and a BYE that names no source. -/
def sampleBye : Bytes := [0x80, 201, 0, 1, 0, 0, 0, 1, 0x80, 203, 0, 0]

/-- The SSRC the parser reads of the BYE lies past the end. -/
theorem bye_overread :
    ¬∀ (σ : Type) (cb : σ → Pkt → Option Int × σ) (s : σ), decode cb sampleBye s ≠ .overread :=
  fun h => h Unit (fun _ _ => (none, ())) () rfl

end Rtcp
end NginxRtc
