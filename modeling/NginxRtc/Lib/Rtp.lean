/-
  RTP packets, and the H.264 payload format in its non-interleaved mode, as a receiver reads them.

  An RTP packet without contributing sources or extension is a fixed header of twelve bytes and a
  payload.  An H.264 payload is a NAL unit, several of them (an aggregation packet), or a fragment
  of one; `feed` runs a receiver that keeps the fragments of at most one NAL unit.

  `feed_single`, `feed_stapA`, `feed_fuA`: what each kind of payload yields.  `size_receive_le`: a
  receiver never yields more bytes than it was sent, and fewer when a payload is not a NAL unit of
  its own.
-/
import Mathlib.Data.List.Basic
import Mathlib.Data.UInt
import Mathlib.Tactic.Common

/-- What holds of all bytes can be checked on the bit vectors. -/
theorem UInt8.forall_of_bitVec {P : UInt8 → Prop} (h : ∀ b : BitVec 8, P ⟨b⟩) (b : UInt8) : P b :=
  h b.toBitVec

namespace Rtp

/-! ## The fixed header -/

def headerLength : ℕ := 12

/-- The number written in bytes, the first one the most significant. -/
def ofBytes (bs : List UInt8) : ℕ := bs.foldl (fun n b => n * 256 + b.toNat) 0

def marker (p : List UInt8) : Bool := p.getD 1 0 &&& 0x80 ≠ 0

def seq (p : List UInt8) : UInt16 := UInt16.ofNat (ofBytes ((p.drop 2).take 2))

def timestamp (p : List UInt8) : UInt32 := UInt32.ofNat (ofBytes ((p.drop 4).take 4))

def payload (p : List UInt8) : List UInt8 := p.drop headerLength

theorem ofBytes_two (a b : UInt8) : ofBytes [a, b] = a.toNat * 256 + b.toNat := by
  simp [ofBytes]

theorem ofBytes_four (a b c d : UInt8) : ofBytes [a, b, c, d] =
    ((a.toNat * 256 + b.toNat) * 256 + c.toNat) * 256 + d.toNat := by
  simp [ofBytes]

/-! ### Sources and extension -/

/-- An RTP packet: the first byte of the fixed header and the other eleven, the contributing
    sources it counts, the extension it announces, with its own header, and the payload. -/
@[ext] structure Packet where
  first : UInt8
  fixed : List UInt8
  csrcs : List UInt8
  extension : List UInt8
  payload : List UInt8
  fixed_length : fixed.length = 11
  csrcs_length : csrcs.length = 4 * (first &&& 0x0f).toNat
  extension_length : extension.length =
    if first &&& 0x10 = 0 then 0 else 4 + 4 * ofBytes ((extension.drop 2).take 2)

namespace Packet

def bytes (p : Packet) : List UInt8 :=
  p.first :: (p.fixed ++ p.csrcs ++ p.extension ++ p.payload)

/-- The packet without sources and extension; version and padding bit stay. -/
def plain (p : Packet) : Packet where
  first := p.first &&& 0xe0
  fixed := p.fixed
  csrcs := []
  extension := []
  payload := p.payload
  fixed_length := p.fixed_length
  csrcs_length := by
    rw [UInt8.and_assoc, show (0xe0 : UInt8) &&& 0x0f = 0 from rfl, UInt8.and_zero]
    rfl
  extension_length := by
    rw [UInt8.and_assoc, show (0xe0 : UInt8) &&& 0x10 = 0 from rfl, UInt8.and_zero, if_pos rfl]
    rfl

theorem bytes_plain (p : Packet) :
    p.plain.bytes = (p.first &&& 0xe0) :: (p.fixed ++ p.payload) := by
  simp [bytes, plain]

theorem plain_plain (p : Packet) : p.plain.plain = p.plain := by
  ext1
  · exact (UInt8.and_assoc ..).trans (congrArg _ (UInt8.and_self))
  all_goals rfl

/-- The length of the header, with sources and extension. -/
def headerBytes (p : Packet) : ℕ := 12 + p.csrcs.length + p.extension.length

theorem length_bytes (p : Packet) : p.bytes.length = p.headerBytes + p.payload.length := by
  simp only [bytes, headerBytes, List.length_cons, List.length_append, p.fixed_length]
  omega

end Packet

/-! ### Consecutive sequence numbers -/

theorem seq_succ (seq : UInt16) (n : ℕ) :
    seq + 1 + UInt16.ofNat n = seq + UInt16.ofNat (n + 1) := by
  rw [UInt16.ofNat_add, UInt16.add_assoc, UInt16.add_comm 1]
  rfl

theorem seqs_succ (seq : UInt16) (n : ℕ) :
    (List.range (n + 1)).map (fun i => seq + UInt16.ofNat i) =
      seq :: (List.range n).map fun i => seq + 1 + UInt16.ofNat i := by
  rw [List.range_succ_eq_map, List.map_cons, List.map_map]
  refine congrArg₂ List.cons (by simp) (List.map_congr_left fun i _ => ?_)
  rw [Function.comp_apply, seq_succ]

end Rtp

namespace H264

/-- A NAL unit; its first byte is its header. -/
abbrev Nalu := List UInt8

/-- The type that the first byte of a NAL unit, or of a payload, carries. -/
def typeOf (header : UInt8) : UInt8 := header &&& 0x1f

/-- A type that a NAL unit sent on its own may have. -/
def plainType (t : UInt8) : Bool := 0 < t && t < 24

def stapA : UInt8 := 24
def fuA : UInt8 := 28

/-! ## Receiving -/

/-- The NAL units of an aggregation packet, each after its size in two bytes. -/
def aggregated : List UInt8 → List Nalu
  | hi :: lo :: rest =>
    if rest.length < Rtp.ofBytes [hi, lo] then []
    else rest.take (Rtp.ofBytes [hi, lo]) :: aggregated (rest.drop (Rtp.ofBytes [hi, lo]))
  | _ => []
termination_by bs => bs.length
decreasing_by
  simp only [List.length_drop, List.length_cons]
  omega

/-- The NAL unit a first fragment starts: the header is split over the indicator and the fragment's
    own header. -/
def startOf (indicator fu : UInt8) (body : List UInt8) : Nalu :=
  (indicator &&& 0xe0 ||| fu &&& 0x1f) :: body

/-- One payload: the fragments kept afterwards, and the NAL units it completes. -/
def receive (kept : Option Nalu) : List UInt8 → Option Nalu × List Nalu
  | [] => (none, [])
  | header :: rest =>
    if plainType (typeOf header) then (none, [header :: rest])
    else if typeOf header = stapA then (none, aggregated rest)
    else if typeOf header = fuA then
      match rest with
      | [] => (none, [])
      | fu :: body =>
        let grown :=
          if fu &&& 0x80 ≠ 0 then some (startOf header fu body) else kept.map (· ++ body)
        if fu &&& 0x40 ≠ 0 then (none, grown.toList) else (grown, [])
    else (none, [])

/-- Payloads in the order of their sequence numbers. -/
def feed (kept : Option Nalu) : List (List UInt8) → Option Nalu × List Nalu
  | [] => (kept, [])
  | p :: ps =>
    ((feed (receive kept p).1 ps).1, (receive kept p).2 ++ (feed (receive kept p).1 ps).2)

/-- **Depacketization**: the NAL units that the payloads of a stream yield. -/
def depacketize (ps : List (List UInt8)) : List Nalu := (feed none ps).2

theorem feed_append (kept : Option Nalu) (ps qs : List (List UInt8)) :
    feed kept (ps ++ qs) =
      ((feed (feed kept ps).1 qs).1, (feed kept ps).2 ++ (feed (feed kept ps).1 qs).2) := by
  induction ps generalizing kept with
  | nil => rfl
  | cons p ps ih => simp only [List.cons_append, feed, ih, List.append_assoc]

/-! ## What each kind of payload yields -/

theorem feed_single (kept : Option Nalu) {n : Nalu}
    (h : n.head?.any fun b => plainType (typeOf b)) : feed kept [n] = (none, [n]) := by
  cases n with
  | nil => simp at h
  | cons b bs =>
    have hb : plainType (typeOf b) = true := by simpa using h
    simp [feed, receive, hb]

theorem aggregated_append {hi lo : UInt8} {n : Nalu} (h : Rtp.ofBytes [hi, lo] = n.length)
    (rest : List UInt8) : aggregated (hi :: lo :: (n ++ rest)) = n :: aggregated rest := by
  rw [aggregated, h, if_neg (by simp), List.take_left, List.drop_left]

theorem feed_stapA (kept : Option Nalu) {b : UInt8} (h : typeOf b = stapA) (body : List UInt8) :
    feed kept [b :: body] = (none, aggregated body) := by
  simp [feed, receive, h, plainType, stapA]

theorem feed_fuA (kept : Option Nalu) {ind fu : UInt8} (h : typeOf ind = fuA) (body : List UInt8) :
    feed kept [ind :: fu :: body] =
      if fu &&& 0x40 ≠ 0 then
        (none,
          (if fu &&& 0x80 ≠ 0 then some (startOf ind fu body) else kept.map (· ++ body)).toList)
      else (if fu &&& 0x80 ≠ 0 then some (startOf ind fu body) else kept.map (· ++ body), []) := by
  simp only [feed, receive, h, plainType, stapA, fuA]
  split_ifs <;> simp_all

/-- The payload starts a NAL unit of type `t`: it is that unit, or its first fragment. -/
def startsType (t : UInt8) : List UInt8 → Bool
  | [] => false
  | header :: rest =>
    if plainType (typeOf header) then typeOf header = t
    else if typeOf header = fuA then rest.head?.any fun fu => fu &&& 0x80 ≠ 0 ∧ fu &&& 0x1f = t
    else false

/-! ## Announced NAL units -/

/-- The payload is an aggregation packet of exactly these NAL units. -/
def Aggregates (ns : List Nalu) (p : List UInt8) : Prop :=
  ∃ header body, p = header :: body ∧ typeOf header = stapA ∧ aggregated body = ns

/-- Every payload that starts a NAL unit of type `t` comes right after an aggregation packet of
    `ns`. -/
def Announced (ns : List Nalu) (t : UInt8) (ps : List (List UInt8)) : Prop :=
  ∀ before p after, ps = before ++ p :: after → startsType t p = true →
    ∃ before' q, before = before' ++ [q] ∧ Aggregates ns q

theorem Announced.of_none {ns : List Nalu} {t : UInt8} {ps : List (List UInt8)}
    (h : ∀ p ∈ ps, startsType t p = false) : Announced ns t ps := by
  rintro before p after rfl hp
  rw [h p (by simp)] at hp
  exact absurd hp Bool.false_ne_true

theorem Announced.append {ns : List Nalu} {t : UInt8} {ps qs : List (List UInt8)}
    (hp : Announced ns t ps) (hq : Announced ns t qs) : Announced ns t (ps ++ qs) := by
  intro before p after he hs
  rcases List.append_eq_append_iff.1 he with ⟨rest, rfl, hrest⟩ | ⟨rest, hps, hrest⟩
  · obtain ⟨before', q, rfl, hagg⟩ := hq rest p after hrest hs
    exact ⟨ps ++ before', q, (List.append_assoc ..).symm, hagg⟩
  · cases rest with
    | nil =>
      obtain ⟨before', q, hnil, -⟩ := hq [] p after hrest.symm hs
      simp at hnil
    | cons r rest =>
      obtain ⟨rfl, -⟩ := List.cons.inj hrest
      exact hp before p rest hps hs

/-- An announced NAL unit: the aggregation packet, its first payload, and those after it. -/
theorem Announced.cons {ns : List Nalu} {t : UInt8} {q p : List UInt8} {ps : List (List UInt8)}
    (hq : Aggregates ns q) (hps : ∀ p ∈ ps, startsType t p = false) :
    Announced ns t (q :: p :: ps) := by
  have hstap : startsType t q = false := by
    obtain ⟨header, body, rfl, hty, -⟩ := hq
    simp [startsType, hty, plainType, stapA, fuA]
  intro before r after he hs
  rcases before with - | ⟨a, - | ⟨b, before⟩⟩
  · obtain ⟨rfl, -⟩ := List.cons.inj he
    rw [hstap] at hs
    exact absurd hs Bool.false_ne_true
  · obtain ⟨rfl, -⟩ := List.cons.inj he
    exact ⟨[], q, rfl, hq⟩
  · simp only [List.cons_append, List.cons.injEq] at he
    obtain ⟨-, -, rfl⟩ := he
    rw [hps r (by simp)] at hs
    exact absurd hs Bool.false_ne_true

/-! ## How much comes out -/

/-- The bytes of NAL units. -/
def size (ns : List Nalu) : ℕ := (ns.map List.length).sum

theorem size_append (ns ms : List Nalu) : size (ns ++ ms) = size ns + size ms := by
  simp [size]

theorem size_aggregated_le (bs : List UInt8) : size (aggregated bs) ≤ bs.length := by
  induction bs using aggregated.induct with
  | case1 hi lo rest h =>
    rw [aggregated, if_pos h]
    simp [size]
  | case2 hi lo rest h ih =>
    rw [aggregated, if_neg h]
    simp only [size, List.map_cons, List.sum_cons, List.length_take, List.length_drop,
      List.length_cons] at ih ⊢
    omega
  | case3 bs h =>
    rw [aggregated]
    · simp [size]
    · exact h

/-- A payload that is a NAL unit of its own. -/
def isPlain (p : List UInt8) : Bool := p.head?.any fun b => plainType (typeOf b)

/-- A fragment grows what is kept by less than its own length. -/
theorem size_grown_le (kept : Option Nalu) (ind fu : UInt8) (body : List UInt8) (start : Bool) :
    size (if start then some (startOf ind fu body) else kept.map (· ++ body)).toList ≤
      size kept.toList + (body.length + 1) := by
  cases start with
  | true => simp [size, startOf]
  | false =>
    cases kept with
    | none => simp [size]
    | some n =>
      simp only [Bool.false_eq_true, if_false, Option.map_some, size, Option.toList_some,
        List.map_cons, List.map_nil, List.sum_cons, List.sum_nil, List.length_append]
      omega

/-- **What a payload completes and what is kept afterwards** is no more than what was kept and sent;
    it is less when the payload is not a NAL unit of its own. -/
theorem size_receive_le (kept : Option Nalu) {p : List UInt8} (hp : p ≠ []) :
    size (receive kept p).2 + size (receive kept p).1.toList + (if isPlain p then 0 else 1) ≤
      size kept.toList + p.length := by
  cases p with
  | nil => exact absurd rfl hp
  | cons b rest =>
    have hplain : isPlain (b :: rest) = plainType (typeOf b) := by simp [isPlain]
    have hnil : size ([] : List Nalu) = 0 := rfl
    rw [hplain]
    simp only [receive]
    split_ifs with hb hs hf
    · simp [size]
    · have h := size_aggregated_le rest
      simp only [Option.toList_none, hnil, List.length_cons]
      omega
    · cases rest with
      | nil => simp [size]
      | cons fu body =>
        have h := size_grown_le kept b fu body (decide (fu &&& 0x80 ≠ 0))
        simp only [decide_eq_true_eq] at h
        dsimp only
        split_ifs at h ⊢ <;> simp only [Option.toList_none, hnil, List.length_cons] <;> omega
    · simp only [Option.toList_none, hnil, List.length_cons]
      omega

end H264
