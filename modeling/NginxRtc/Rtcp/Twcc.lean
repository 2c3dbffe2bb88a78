/-
  The loss summary of transport-wide feedback.

  A chunk of the feedback states the status of a run of packets: one status for all of them, or
  fourteen one-bit or seven two-bit symbols, zero meaning that the packet was not received.

  `twcc_exact`: whatever chunks the statuses were written in, the parser counts each of them once;
  and of any packet it accepts, it counts no more packets than the status count.
-/
import Mathlib.Data.Bool.Count
import Mathlib.Data.Nat.Bitwise
import NginxRtc.Rtcp.Encode
import NginxRtc.Rtcp.Feedback

namespace NginxRtc
namespace Rtcp

/-! ## What the parser reads in a chunk -/

/-- Whether each packet of a chunk was received. -/
def chunkReceived (chunk : UInt16) : List Bool :=
  if chunk >>> 15 = 0 then
    List.replicate (chunk &&& 0x1FFF).toNat (decide ((chunk >>> 13) &&& 3 ≠ 0))
  else if chunk &&& 0x4000 = 0 then
    (List.range 14).map fun symbol => decide ((chunk >>> UInt16.ofNat (13 - symbol)) &&& 1 ≠ 0)
  else
    (List.range 7).map fun symbol => decide ((chunk >>> UInt16.ofNat (12 - symbol * 2)) &&& 3 ≠ 0)

/-- Counting packets. -/
def tally (received : List Bool) (r : Pkt × ℕ) : Pkt × ℕ :=
  ({ r.1 with
      twccLost := r.1.twccLost + UInt32.ofNat (received.count false)
      twccReceived := r.1.twccReceived + UInt32.ofNat (received.count true) },
    r.2 + received.length)

@[simp] theorem tally_nil (r : Pkt × ℕ) : tally [] r = r := by
  simp [tally]

theorem tally_append (xs ys : List Bool) (r : Pkt × ℕ) : tally (xs ++ ys) r = tally ys (tally xs r) := by
  simp [tally, UInt32.ofNat_add, UInt32.add_assoc, Nat.add_assoc]

theorem tally_cons (x : Bool) (xs : List Bool) (r : Pkt × ℕ) :
    tally (x :: xs) r = tally xs (tally [x] r) := tally_append [x] xs r

theorem tally_single (x : Bool) (pkt : Pkt) (parsed : ℕ) :
    tally [x] (pkt, parsed) =
      (if x = false then { pkt with twccLost := pkt.twccLost + 1 }
        else { pkt with twccReceived := pkt.twccReceived + 1 }, parsed + 1) := by
  cases x <;> simp [tally]

/-- The symbols of a vector chunk are counted up to the status count. -/
theorem twccSymbols_eq (lost : ℕ → Bool) (count n symbol : ℕ) (r : Pkt × ℕ) :
    twccSymbols lost count n symbol r =
      tally (((List.range' symbol n).map fun i => !lost i).take (count - r.2)) r := by
  induction n generalizing symbol r with
  | zero => simp [twccSymbols]
  | succ n ih =>
    obtain ⟨pkt, parsed⟩ := r
    rw [twccSymbols]
    split
    · next hlt =>
      obtain ⟨k, hk⟩ : ∃ k, count - parsed = k + 1 := ⟨count - parsed - 1, by omega⟩
      have hk' : count - (parsed + 1) = k := by omega
      rw [List.range'_succ, List.map_cons, hk, List.take_succ_cons, tally_cons, tally_single, ih, hk']
      cases lost symbol <;> simp
    · next hge =>
      have h0 : count - parsed = 0 := by omega
      rw [h0, List.take_zero, tally_nil]

/-- A run is counted up to the status count. -/
theorem tally_replicate (n : ℕ) (x : Bool) (pkt : Pkt) (parsed : ℕ) :
    tally (List.replicate n x) (pkt, parsed) =
      (if x = false then { pkt with twccLost := pkt.twccLost + UInt32.ofNat n }
        else { pkt with twccReceived := pkt.twccReceived + UInt32.ofNat n }, parsed + n) := by
  cases x <;> simp [tally, List.count_replicate]

theorem twccChunk_eq (chunk : UInt16) (count : ℕ) (r : Pkt × ℕ) :
    twccChunk chunk count r = tally ((chunkReceived chunk).take (count - r.2)) r := by
  unfold twccChunk chunkReceived
  split
  · rw [List.take_replicate, tally_replicate, Nat.min_comm]
    by_cases h : (chunk >>> 13) &&& 3 = 0 <;> simp [h]
  · split
    · rw [twccSymbols_eq, List.range_eq_range']
      simp
    · rw [twccSymbols_eq, List.range_eq_range']
      simp

/-- The chunks that state the statuses are all the parser looks at. -/
theorem twccChunks_eq {b post : Bytes} {count words p : ℕ} {ws : List UInt16} {r : Pkt × ℕ}
    (hb : b.drop p = ws.flatMap Wire.wr16 ++ post) (hw : ws.length ≤ words)
    (hcover : count - r.2 ≤ (ws.flatMap chunkReceived).length) :
    twccChunks b count words p r =
      some (tally ((ws.flatMap chunkReceived).take (count - r.2)) r).1 := by
  induction ws generalizing words p r with
  | nil =>
    have h0 : count - r.2 = 0 := Nat.le_zero.1 hcover
    rw [h0, List.take_zero, tally_nil]
    cases words with
    | zero => rfl
    | succ words => rw [twccChunks, if_neg (by omega)]
  | cons w ws ih =>
    cases words with
    | zero => exact absurd hw (Nat.not_succ_le_zero _)
    | succ words =>
      rw [twccChunks]
      split
      · have hread : Wire.rd16 b p = some w := by
          have h : Wire.rd16 (b.drop p) 0 = some w := by
            rw [hb]
            exact congrArg some (Wire.word16_bytes w)
          simpa [Wire.rd16] using h
        have hnext : b.drop (p + 2) = ws.flatMap Wire.wr16 ++ post := by
          rw [← List.drop_drop, hb]
          rfl
        rw [hread, Option.bind_eq_bind, Option.bind_some, twccChunk_eq]
        simp only [List.flatMap_cons, List.length_append] at hcover ⊢
        have hleft : count - (tally ((chunkReceived w).take (count - r.2)) r).2 =
            count - r.2 - (chunkReceived w).length := by
          simp only [tally, List.length_take]
          omega
        rw [ih hnext (Nat.le_of_succ_le_succ hw) (by omega), hleft, List.take_append, tally_append]
      · next hge =>
        have h0 : count - r.2 = 0 := by omega
        rw [h0, List.take_zero, tally_nil]

theorem parseTwcc_eq {b post : Bytes} {base n : UInt16} {ws : List UInt16} {total : ℕ} (pkt : Pkt)
    (hbase : Wire.rd16 b 12 = some base) (hn : Wire.rd16 b 14 = some n)
    (hb : b.drop 20 = ws.flatMap Wire.wr16 ++ post) (hw : 20 + 2 * ws.length ≤ total)
    (hcover : n.toNat ≤ (ws.flatMap chunkReceived).length) :
    parseTwcc b total pkt =
      some (tally ((ws.flatMap chunkReceived).take n.toNat)
        ({ pkt with twccBaseSeq := base, twccPktCount := n }, 0)).1 := by
  rw [parseTwcc, if_neg (by omega), hbase, hn]
  exact twccChunks_eq hb (by omega) hcover

/-! ## Chunks of the draft -/

/-- A packet status chunk: a status for a run of packets, or one symbol a packet. -/
inductive TwccChunk where
  | run (symbol : Fin (2 ^ 2)) (length : Fin (2 ^ 13))
  | oneBit (symbols : List (Fin (2 ^ 1))) (h : symbols.length = 14)
  | twoBit (symbols : List (Fin (2 ^ 2))) (h : symbols.length = 7)

namespace TwccChunk

/-- The sixteen bits of a chunk, its type on top. -/
def word : TwccChunk → UInt16
  | run symbol length => UInt16.ofNat (symbol * 2 ^ 13 + length)
  | oneBit symbols _ => UInt16.ofNat (Wire.packed 1 (1 :: 0 :: symbols))
  | twoBit symbols _ => UInt16.ofNat (Wire.packed 2 (3 :: symbols))

/-- Whether each packet was received: its symbol is not zero. -/
def received : TwccChunk → List Bool
  | run symbol length => List.replicate length (decide (symbol ≠ 0))
  | oneBit symbols _ => symbols.map fun s => decide (s ≠ 0)
  | twoBit symbols _ => symbols.map fun s => decide (s ≠ 0)

end TwccChunk

theorem shift_mask {n k m : ℕ} (hn : n < 2 ^ 16) (hk : k < 16) (hm : m < 16) :
    ((UInt16.ofNat n >>> UInt16.ofNat k) &&& UInt16.ofNat (2 ^ m - 1)).toNat = n / 2 ^ k % 2 ^ m := by
  have hmask : 2 ^ m - 1 < 2 ^ 16 :=
    Nat.lt_of_le_of_lt (Nat.sub_le _ _) (Nat.pow_lt_pow_right (by omega) hm)
  rw [UInt16.toNat_and, UInt16.toNat_shiftRight, UInt16.toNat_ofNat_of_lt' hn,
    UInt16.toNat_ofNat_of_lt' (Nat.lt_trans hk (by decide)), UInt16.toNat_ofNat_of_lt' hmask, Nat.mod_eq_of_lt hk,
    Nat.shiftRight_eq_div_pow, Nat.and_two_pow_sub_one_eq_mod]

/-- The symbols of a vector chunk, read off its word. -/
theorem received_packed {w n : ℕ} {top : List (Fin (2 ^ w))} {symbols : List (Fin (2 ^ w))}
    {mask : UInt16} (hmask : mask = UInt16.ofNat (2 ^ w - 1)) (hw₀ : 0 < w) (hw : w < 16)
    (hlen : symbols.length = n) (h16 : w * (top.length + n) = 16) :
    ((List.range n).map fun symbol => decide
      ((UInt16.ofNat (Wire.packed w (top ++ symbols)) >>> UInt16.ofNat (w * (n - 1 - symbol))) &&&
        mask ≠ 0)) = symbols.map fun s => decide (s ≠ 0) := by
  have hlt : Wire.packed w (top ++ symbols) < 2 ^ 16 := by
    have h := Wire.packed_lt w (top ++ symbols)
    rwa [List.length_append, hlen, h16] at h
  refine List.ext_getElem (by simp [hlen]) fun k hk _ => ?_
  have hk : k < n := by simpa using hk
  simp only [List.getElem_map, List.getElem_range, decide_eq_decide]
  have hle : w * (n - 1 - k) < 16 := by
    calc w * (n - 1 - k) < w * n := Nat.mul_lt_mul_of_pos_left (by omega) hw₀
      _ ≤ w * (top.length + n) := Nat.mul_le_mul_left w (Nat.le_add_left _ _)
      _ = 16 := h16
  have hpos : top.length + k < (top ++ symbols).length := by rw [List.length_append]; omega
  have hfield := Wire.packed_field (w := w) hpos
  have hidx : (top ++ symbols).length - 1 - (top.length + k) = n - 1 - k := by
    rw [List.length_append]
    omega
  rw [hidx, List.getElem_append_right (Nat.le_add_right _ _)] at hfield
  simp only [Nat.add_sub_cancel_left] at hfield
  rw [hmask, ne_eq, ← UInt16.toNat_inj, shift_mask hlt hle hw, hfield, ne_eq, Fin.ext_iff]
  rfl

/-- The type bit of a word. -/
theorem shift_type {n : ℕ} (hn : n < 2 ^ 16) : UInt16.ofNat n >>> 15 = 0 ↔ n < 2 ^ 15 := by
  rw [← UInt16.toNat_inj, UInt16.toNat_shiftRight, UInt16.toNat_ofNat_of_lt' hn]
  simp only [UInt16.reduceToNat, Nat.reduceMod, Nat.shiftRight_eq_div_pow]
  omega

/-- The bit of a vector chunk that states the width of its symbols. -/
theorem mask_size {n : ℕ} (hn : n < 2 ^ 16) :
    UInt16.ofNat n &&& 0x4000 = 0 ↔ n / 2 ^ 14 % 2 = 0 := by
  have hpow : (0x4000 : UInt16).toNat = 2 ^ 14 := rfl
  rw [← UInt16.toNat_inj, UInt16.toNat_and, UInt16.toNat_ofNat_of_lt' hn, hpow, Nat.and_two_pow,
    Nat.testBit_eq_decide_div_mod_eq]
  rcases Nat.mod_two_eq_zero_or_one (n / 2 ^ 14) with h | h
  · simp only [h, reduceCtorEq, decide_false, Bool.toNat_false]
    decide
  · simp only [h, decide_true, Bool.toNat_true]
    decide

/-- **The parser reads a chunk as the draft lays it out.** -/
theorem chunkReceived_word (c : TwccChunk) : chunkReceived c.word = c.received := by
  cases c with
  | run symbol length =>
    have hs := symbol.isLt
    have hl := length.isLt
    have hn : symbol * 2 ^ 13 + length.val < 2 ^ 16 := by omega
    have hsym : ((UInt16.ofNat (symbol * 2 ^ 13 + length) >>> 13) &&& 3).toNat = symbol := by
      refine (shift_mask (k := 13) (m := 2) hn (by decide) (by decide)).trans ?_
      omega
    have hrun : (UInt16.ofNat (symbol * 2 ^ 13 + length) &&& 0x1FFF).toNat = length := by
      rw [UInt16.toNat_and, UInt16.toNat_ofNat_of_lt' hn]
      refine (Nat.and_two_pow_sub_one_eq_mod _ 13).trans ?_
      omega
    have hzero : (UInt16.ofNat (symbol * 2 ^ 13 + length) >>> 13) &&& 3 = 0 ↔ symbol = 0 := by
      rw [← UInt16.toNat_inj, hsym, Fin.ext_iff]
      rfl
    rw [TwccChunk.word, chunkReceived, if_pos ((shift_type hn).2 (by omega)), hrun]
    simp only [ne_eq, hzero, TwccChunk.received]
  | oneBit symbols h =>
    have hlt := Wire.packed_lt 1 symbols
    rw [h] at hlt
    have hn : Wire.packed 1 (1 :: 0 :: symbols) = 2 ^ 15 + Wire.packed 1 symbols := by
      simp [Wire.packed, h]
    have h16 : Wire.packed 1 (1 :: 0 :: symbols) < 2 ^ 16 := by omega
    have hread := @received_packed 1 14 [1, 0] symbols 1 rfl Nat.one_pos (by decide) h rfl
    rw [TwccChunk.word, chunkReceived, if_neg (by rw [shift_type h16]; omega),
      if_pos ((mask_size h16).2 (by omega)), TwccChunk.received]
    simpa using hread
  | twoBit symbols h =>
    have hlt := Wire.packed_lt 2 symbols
    rw [h] at hlt
    have hn : Wire.packed 2 (3 :: symbols) = 3 * 2 ^ 14 + Wire.packed 2 symbols := by
      rw [Wire.packed, h]
      rfl
    have h16 : Wire.packed 2 (3 :: symbols) < 2 ^ 16 := by omega
    have hread := @received_packed 2 7 [3] symbols 3 rfl Nat.two_pos (by decide) h rfl
    have hshift : ∀ symbol, 2 * (7 - 1 - symbol) = 12 - symbol * 2 := fun _ => by omega
    simp only [hshift] at hread
    rw [TwccChunk.word, chunkReceived, if_neg (by rw [shift_type h16]; omega),
      if_neg (by rw [mask_size h16]; omega)]
    exact hread

/-! ## A feedback packet -/

/-- A transport-wide feedback packet: the statuses of a number of packets, the chunks they are
    written in, of which the last may run past them, and the receive deltas. -/
structure TwccFeedback where
  padding : Bool
  ssrc : UInt32
  mediaSsrc : UInt32
  baseSeq : UInt16
  referenceTime : UInt32
  fbCount : UInt8
  received : List Bool
  chunks : List TwccChunk
  deltas : Bytes
  count_lt : received.length < 2 ^ 16
  covered : received <+: chunks.flatMap TwccChunk.received
  aligned : (2 * chunks.length + deltas.length) % 4 = 0
  fits : 20 + (2 * chunks.length + deltas.length) ≤ 2 ^ 18

theorem length_words (ws : List UInt16) : (ws.flatMap Wire.wr16).length = 2 * ws.length := by
  induction ws with
  | nil => rfl
  | cons w ws ih =>
    rw [List.flatMap_cons, List.length_append, ih, Wire.length_wr16, List.length_cons]
    omega

namespace TwccFeedback
variable (f : TwccFeedback)

/-- The size of the packet, without its header word. -/
def words : UInt16 := UInt16.ofNat (4 + (2 * f.chunks.length + f.deltas.length) / 4)

/-- The bytes of the packet. -/
def encode : Bytes :=
  [if f.padding then 0xAF else 0x8F, typeRtpfb] ++ Wire.wr16 f.words ++
    (Wire.wr32 f.ssrc ++ (Wire.wr32 f.mediaSsrc ++ (Wire.wr16 f.baseSeq ++
      (Wire.wr16 (UInt16.ofNat f.received.length) ++ (Wire.wr24 f.referenceTime ++ [f.fbCount] ++
        ((f.chunks.map TwccChunk.word).flatMap Wire.wr16 ++ f.deltas))))))

theorem words_toNat : (f.words.toNat + 1) * 4 = 20 + (2 * f.chunks.length + f.deltas.length) := by
  have h4 := f.aligned
  have hfit := f.fits
  rw [words, UInt16.toNat_ofNat_of_lt' (by simp only [UInt16.size]; omega)]
  omega

theorem length_encode : f.encode.length = (f.words.toNat + 1) * 4 := by
  rw [words_toNat]
  simp only [encode, List.length_append, length_words, List.length_map, Wire.length_wr16, Wire.length_wr24,
    Wire.length_wr32, List.length_cons, List.length_nil]
  omega

/-- The packet the parser reports. -/
theorem parse_encode (rest : Bytes) :
    ∃ pkt, parse (f.encode ++ rest) = some (.ok (pkt, f.encode.length)) ∧
      pkt.twccBaseSeq = f.baseSeq ∧ pkt.twccPktCount = UInt16.ofNat f.received.length ∧
      pkt.twccLost = UInt32.ofNat (f.received.count false) ∧
      pkt.twccReceived = UInt32.ofNat (f.received.count true) := by
  set b0 : UInt8 := if f.padding then 0xAF else 0x8F with hb0
  set chunks := (f.chunks.map TwccChunk.word).flatMap Wire.wr16 with hchunks
  set body := Wire.wr32 f.mediaSsrc ++ (Wire.wr16 f.baseSeq ++
    (Wire.wr16 (UInt16.ofNat f.received.length) ++ (Wire.wr24 f.referenceTime ++ [f.fbCount] ++
      (chunks ++ (f.deltas ++ rest))))) with hbody
  have hbytes : f.encode ++ rest =
      [b0, typeRtpfb] ++ Wire.wr16 f.words ++ (Wire.wr32 f.ssrc ++ body) := by
    simp only [encode, hbody, List.append_assoc]
    rfl
  have hversion : (b0 >>> 6) &&& 3 = 2 := by
    rw [hb0]
    cases f.padding <;> decide
  have hfmt : b0 &&& 0x1f = fmtTwcc := by
    rw [hb0]
    cases f.padding <;> decide
  have htotal := f.words_toNat
  have hlen := f.length_encode
  have hall : (f.encode ++ rest).length = 8 + body.length := by
    rw [hbytes]
    simp only [List.length_append, Wire.length_wr16, Wire.length_wr32, List.length_cons,
      List.length_nil]
    omega
  have hfit : (f.words.toNat + 1) * 4 ≤ 8 + body.length := by
    rw [← hall, ← hlen, List.length_append]
    omega
  rw [hlen, hbytes, parse_header hversion hfit]
  set b := [b0, typeRtpfb] ++ Wire.wr16 f.words ++ (Wire.wr32 f.ssrc ++ body) with hb
  have hmedia : Wire.rd32 b 8 = some f.mediaSsrc := congrArg some (Wire.word32_bytes _)
  have hbase : Wire.rd16 b 12 = some f.baseSeq := congrArg some (Wire.word16_bytes _)
  have hcount : Wire.rd16 b 14 = some (UInt16.ofNat f.received.length) :=
    congrArg some (Wire.word16_bytes _)
  have hdrop : b.drop 20 = chunks ++ (f.deltas ++ rest) := rfl
  have hread : (f.chunks.map TwccChunk.word).flatMap chunkReceived =
      f.chunks.flatMap TwccChunk.received := by
    simp [List.flatMap_map, chunkReceived_word]
  have hn : (UInt16.ofNat f.received.length).toNat = f.received.length :=
    UInt16.toNat_ofNat_of_lt' f.count_lt
  have htake : (f.chunks.flatMap TwccChunk.received).take f.received.length = f.received :=
    (List.prefix_iff_eq_take.1 f.covered).symm
  have hroom : 20 + 2 * (f.chunks.map TwccChunk.word).length ≤ (f.words.toNat + 1) * 4 := by
    rw [List.length_map]
    omega
  have htwcc := fun pkt => parseTwcc_eq pkt hbase hcount hdrop hroom
    (by rw [hn, hread]; exact f.covered.length_le)
  rw [hn, hread, htake] at htwcc
  have hcases : ∀ pkt : Pkt, pkt.type = typeRtpfb → ∀ total,
      parseBody b total pkt = parseRtpfb b total pkt := by
    intro pkt hpkt total
    simp only [parseBody, hpkt]
    rfl
  rw [hcases _ rfl, parseRtpfb, if_neg (by omega), hmedia, Option.bind_eq_bind, Option.bind_some]
  simp only [hfmt, htwcc]
  exact ⟨_, rfl, rfl, rfl, UInt32.zero_add _, UInt32.zero_add _⟩

end TwccFeedback

/-! ## Any packet -/

/-- The parser has counted `r.2` packets, and no more than `count`. -/
structure Counted (count : ℕ) (r : Pkt × ℕ) : Prop where
  sum : r.1.twccLost.toNat + r.1.twccReceived.toNat = r.2
  le : r.2 ≤ count
  pktCount : r.1.twccPktCount.toNat = count

theorem Counted.tally {count : ℕ} {r : Pkt × ℕ} (h : Counted count r) (xs : List Bool)
    (hle : r.2 + xs.length ≤ count) : Counted count (Rtcp.tally xs r) := by
  have hcount : count < 2 ^ 16 := h.pktCount ▸ r.1.twccPktCount.toNat_lt
  have hsum := h.sum
  have hxs : xs.count false + xs.count true = xs.length := List.count_false_add_count_true xs
  refine ⟨?_, hle, h.pktCount⟩
  simp only [Rtcp.tally, UInt32.toNat_add, UInt32.toNat_ofNat']
  omega

theorem twccChunks_counted {b : Bytes} {count words p : ℕ} {r : Pkt × ℕ} {pkt : Pkt}
    (h : Counted count r) (hr : twccChunks b count words p r = some pkt) :
    ∃ parsed, Counted count (pkt, parsed) := by
  induction words generalizing p r with
  | zero =>
    obtain rfl := Option.some.inj hr
    exact ⟨r.2, h⟩
  | succ words ih =>
    rw [twccChunks] at hr
    split at hr
    · obtain ⟨chunk, -, hr⟩ := Option.bind_eq_some_iff.1 hr
      refine ih ?_ hr
      rw [twccChunk_eq]
      refine h.tally _ ?_
      have := h.le
      rw [List.length_take]
      omega
    · obtain rfl := Option.some.inj hr
      exact ⟨r.2, h⟩

/-- The counts of a packet are within its status count. -/
def Within (pkt : Pkt) : Prop :=
  pkt.twccLost.toNat + pkt.twccReceived.toNat ≤ pkt.twccPktCount.toNat

theorem within_uncounted {pkt : Pkt} (h : pkt.twccLost = 0 ∧ pkt.twccReceived = 0) : Within pkt := by
  rw [Within, h.1, h.2]
  exact Nat.zero_le _

theorem parseTwcc_within {b : Bytes} {total : ℕ} {pkt pkt' : Pkt}
    (h : pkt.twccLost = 0 ∧ pkt.twccReceived = 0) (hp : parseTwcc b total pkt = some pkt') :
    Within pkt' := by
  unfold parseTwcc at hp
  split at hp
  · obtain rfl := Option.some.inj hp
    exact within_uncounted h
  · obtain ⟨base, -, hp⟩ := Option.bind_eq_some_iff.1 hp
    obtain ⟨count, -, hp⟩ := Option.bind_eq_some_iff.1 hp
    have h0 : Counted count.toNat ({ pkt with twccBaseSeq := base, twccPktCount := count }, 0) :=
      ⟨by simp [h.1, h.2], Nat.zero_le _, rfl⟩
    obtain ⟨parsed, hc⟩ := twccChunks_counted h0 hp
    rw [Within, hc.sum, hc.pktCount]
    exact hc.le

/-! The other kinds of packet leave the counts alone. -/

theorem parseSr_within {b : Bytes} {total : ℕ} {pkt pkt' : Pkt}
    (h : pkt.twccLost = 0 ∧ pkt.twccReceived = 0)
    (hp : parseSr b total pkt = some (.ok pkt')) : Within pkt' := by
  unfold parseSr at hp
  split at hp
  · exact nomatch hp
  obtain ⟨ntp, -, hp⟩ := Option.bind_eq_some_iff.1 hp
  obtain ⟨ts, -, hp⟩ := Option.bind_eq_some_iff.1 hp
  obtain ⟨packets, -, hp⟩ := Option.bind_eq_some_iff.1 hp
  obtain ⟨octets, -, hp⟩ := Option.bind_eq_some_iff.1 hp
  dsimp only at hp
  split at hp
  · split at hp
    · exact nomatch hp
    obtain ⟨rb, -, hp⟩ := Option.bind_eq_some_iff.1 hp
    obtain rfl := Except.ok.inj (Option.some.inj hp)
    exact within_uncounted h
  · obtain rfl := Except.ok.inj (Option.some.inj hp)
    exact within_uncounted h

theorem parseRr_within {b : Bytes} {total : ℕ} {pkt pkt' : Pkt}
    (h : pkt.twccLost = 0 ∧ pkt.twccReceived = 0)
    (hp : parseRr b total pkt = some (.ok pkt')) : Within pkt' := by
  unfold parseRr at hp
  split at hp
  · split at hp
    · exact nomatch hp
    obtain ⟨rb, -, hp⟩ := Option.bind_eq_some_iff.1 hp
    obtain rfl := Except.ok.inj (Option.some.inj hp)
    exact within_uncounted h
  · obtain rfl := Except.ok.inj (Option.some.inj hp)
    exact within_uncounted h

theorem parseSdes_within {b : Bytes} {total : ℕ} {pkt pkt' : Pkt}
    (h : pkt.twccLost = 0 ∧ pkt.twccReceived = 0)
    (hp : parseSdes b total pkt = some pkt') : Within pkt' := by
  obtain ⟨cname, -, hp⟩ := Option.bind_eq_some_iff.1 hp
  obtain rfl := Option.some.inj hp
  exact within_uncounted h

theorem parseRtpfb_within {b : Bytes} {total : ℕ} {pkt pkt' : Pkt}
    (h : pkt.twccLost = 0 ∧ pkt.twccReceived = 0)
    (hp : parseRtpfb b total pkt = some (.ok pkt')) : Within pkt' := by
  unfold parseRtpfb at hp
  split at hp
  · exact nomatch hp
  obtain ⟨media, -, hp⟩ := Option.bind_eq_some_iff.1 hp
  dsimp only at hp
  split at hp
  · obtain ⟨nack, -, hp⟩ := Option.bind_eq_some_iff.1 hp
    obtain rfl := Except.ok.inj (Option.some.inj hp)
    exact within_uncounted h
  split at hp
  · obtain ⟨pkt₁, htwcc, hp⟩ := Option.bind_eq_some_iff.1 hp
    obtain rfl := Except.ok.inj (Option.some.inj hp)
    refine parseTwcc_within ?_ htwcc
    exact h
  · obtain rfl := Except.ok.inj (Option.some.inj hp)
    exact within_uncounted h

theorem parsePsfb_within {b : Bytes} {total : ℕ} {pkt pkt' : Pkt}
    (h : pkt.twccLost = 0 ∧ pkt.twccReceived = 0)
    (hp : parsePsfb b total pkt = some (.ok pkt')) : Within pkt' := by
  unfold parsePsfb at hp
  split at hp
  · exact nomatch hp
  obtain ⟨media, -, hp⟩ := Option.bind_eq_some_iff.1 hp
  dsimp only at hp
  split at hp
  · unfold parseRemb at hp
    split at hp
    · obtain rfl := Except.ok.inj (Option.some.inj hp)
      exact within_uncounted h
    obtain ⟨magic, -, hp⟩ := Option.bind_eq_some_iff.1 hp
    split at hp
    · obtain rfl := Except.ok.inj (Option.some.inj hp)
      exact within_uncounted h
    split at hp
    · exact nomatch hp
    obtain ⟨word, -, hp⟩ := Option.bind_eq_some_iff.1 hp
    dsimp only at hp
    split at hp
    · exact nomatch hp
    obtain ⟨ssrcs, -, hp⟩ := Option.bind_eq_some_iff.1 hp
    obtain rfl := Except.ok.inj (Option.some.inj hp)
    exact within_uncounted h
  · obtain rfl := Except.ok.inj (Option.some.inj hp)
    exact within_uncounted h

theorem parseBody_within {b : Bytes} {total : ℕ} {pkt pkt' : Pkt}
    (h : pkt.twccLost = 0 ∧ pkt.twccReceived = 0)
    (hp : parseBody b total pkt = some (.ok pkt')) : Within pkt' := by
  unfold parseBody at hp
  split at hp
  · exact parseSr_within h hp
  split at hp
  · exact parseRr_within h hp
  split at hp
  · split at hp
    · exact nomatch hp
    obtain ⟨pkt₁, hsdes, hp⟩ := Option.map_eq_some_iff.1 hp
    obtain rfl := Except.ok.inj hp
    exact parseSdes_within h hsdes
  split at hp
  · exact parseRtpfb_within h hp
  split at hp
  · exact parsePsfb_within h hp
  · obtain rfl := Except.ok.inj (Option.some.inj hp)
    exact within_uncounted h

theorem parse_within {b : Bytes} {pkt : Pkt} {n : ℕ} (h : parse b = some (.ok (pkt, n))) :
    Within pkt := by
  obtain ⟨pkt₀, hhead, -, hbody⟩ := parse_body h
  exact parseBody_within ⟨hhead.twccLost, hhead.twccReceived⟩ hbody

/-- **The loss summary is exact.**  The parser reads a feedback packet, whatever follows it, and
    counts as lost the packets that were not received and as received the ones that were; and in
    any packet it accepts, the two counts do not exceed the status count together. -/
theorem twcc_exact :
    (∀ (f : TwccFeedback) (rest : Bytes),
      ∃ pkt, parse (f.encode ++ rest) = some (.ok (pkt, f.encode.length)) ∧
        pkt.twccBaseSeq = f.baseSeq ∧ pkt.twccPktCount.toNat = f.received.length ∧
        pkt.twccLost.toNat = f.received.count false ∧
        pkt.twccReceived.toNat = f.received.count true) ∧
    ∀ (b : Bytes) (pkt : Pkt) (n : ℕ), parse b = some (.ok (pkt, n)) →
      pkt.twccLost.toNat + pkt.twccReceived.toNat ≤ pkt.twccPktCount.toNat := by
  refine ⟨fun f rest => ?_, fun b pkt n h => parse_within h⟩
  obtain ⟨pkt, hparse, hbase, hcount, hlost, hreceived⟩ := f.parse_encode rest
  have hlen := f.count_lt
  have hfalse : f.received.count false ≤ f.received.length := List.count_le_length
  have htrue : f.received.count true ≤ f.received.length := List.count_le_length
  refine ⟨pkt, hparse, hbase, ?_, ?_, ?_⟩
  · rw [hcount, UInt16.toNat_ofNat_of_lt' hlen]
  · rw [hlost, UInt32.toNat_ofNat_of_lt' (by simp only [UInt32.size]; omega)]
  · rw [hreceived, UInt32.toNat_ofNat_of_lt' (by simp only [UInt32.size]; omega)]

/-- Two packets, the second of them lost, in a chunk that runs past both. -/
def sampleFeedback : TwccFeedback where
  padding := false
  ssrc := 1
  mediaSsrc := 2
  baseSeq := 7
  referenceTime := 0
  fbCount := 0
  received := [true, false]
  chunks := [.twoBit [1, 0, 0, 0, 0, 0, 0] rfl]
  deltas := [4, 0]
  count_lt := by decide
  covered := ⟨[false, false, false, false, false], rfl⟩
  aligned := rfl
  fits := by decide

theorem twcc_exact_sample : ∃ pkt n, parse (sampleFeedback.encode ++ []) = some (.ok (pkt, n)) ∧
    pkt.twccLost.toNat = 1 ∧ pkt.twccReceived.toNat = 1 ∧
    pkt.twccLost.toNat + pkt.twccReceived.toNat ≤ pkt.twccPktCount.toNat := by
  obtain ⟨pkt, hparse, -, -, hlost, hreceived⟩ := twcc_exact.1 sampleFeedback []
  exact ⟨pkt, _, hparse, hlost, hreceived, twcc_exact.2 _ pkt _ hparse⟩

end Rtcp
end NginxRtc
