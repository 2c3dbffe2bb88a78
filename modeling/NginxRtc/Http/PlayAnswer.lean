/-
  The response to a play request (`ngx_rtc_http_body_handler`): the SDP answer as a member of a JSON
  object.

  `ngx_escape_json` is nginx's: one call measures what escaping adds, another writes the escaped text.
  `ngxEscapeJson` is it.

  `play_answer_read`: the response fills the buffer that was measured for it, and a viewer reads the
  answer back from it.
-/
import NginxRtc.Basic
import NginxRtc.Lib.Json.Escape

namespace NginxRtc

/-- `ngx_escape_json` with no destination and with one: it writes an escaped text, and tells how much
    longer than its source that is. -/
structure EscapeJson where
  extra : Bytes → ℕ
  write : Bytes → Bytes
  escapes : ∃ e : Json.Escaper, ∀ s, write s = e.text s
  longer : ∀ s, (write s).length = s.length + extra s

/-- The members, and the object up to the answer. -/
def playPrefix : Bytes := Text.ascii "\x7b\"code\":0,\"sdp\":\""

/-- `resp_len`, and the response. -/
def playResponse (esc : EscapeJson) (ans : Bytes) : ℕ × Bytes :=
  (ans.length + esc.extra ans + (Text.ascii "\x7b\"code\":0,\"sdp\":\"\"\x7d").length,
    playPrefix ++ (esc.write ans ++ Text.ascii "\"\x7d"))

/-- What the response says. -/
def playDocument (ans : Bytes) : Json.Value :=
  .object [(Text.ascii "code", .number (Text.decimal 0)), (Text.ascii "sdp", .string ans)]

theorem playResponse_eq (esc : EscapeJson) (ans : Bytes) :
    (playResponse esc ans).2 = Json.objectText
      [(Text.ascii "code", Text.decimal 0), (Text.ascii "sdp", Json.quoted (esc.write ans))] := by
  have hzero : Text.decimal 0 = [48] := by simp [Text.decimal]
  have hhead : playPrefix = 123 :: (Json.memberText (Text.ascii "code", [48]) ++ 44 ::
      (Json.quoted (Text.ascii "sdp") ++ [58, 34])) := rfl
  have htail : Text.ascii "\"\x7d" = [34, 125] := rfl
  simp only [playResponse, hhead, htail, hzero, Json.objectText, List.map_cons, List.map_nil,
    Json.commas, List.flatMap_cons, List.flatMap_nil]
  simp [Json.memberText, Json.quoted]

/-- The document, whatever the answer is. -/
theorem reads_play (esc : EscapeJson) (ans : Bytes) :
    Json.Reads (playDocument ans) (playResponse esc ans).2 := by
  obtain ⟨e, he⟩ := esc.escapes
  rw [playResponse_eq, he]
  exact Json.reads_object
    (.cons ⟨rfl, show Json.Unescaped (Text.ascii "code") by decide, Json.reads_decimal 0⟩
      (.cons ⟨rfl, show Json.Unescaped (Text.ascii "sdp") by decide, e.reads_text ans⟩ .nil))

/-- The bytes around the answer are ASCII. -/
theorem valid_playResponse (esc : EscapeJson) (ans : Bytes) :
    Utf8.Valid (playResponse esc ans).2 ↔ Utf8.Valid ans := by
  obtain ⟨e, he⟩ := esc.escapes
  have hall : (playPrefix.all fun b => decide (b < 0x80)) = true := by decide
  have hprefix : ∀ b ∈ playPrefix, b < 0x80 := fun b hb =>
    of_decide_eq_true (List.all_eq_true.1 hall b hb)
  have htail : Text.ascii "\"\x7d" = 34 :: [125] := rfl
  rw [playResponse, Utf8.valid_ascii_append hprefix, he, htail, Utf8.valid_append_cons (by decide),
    e.valid_text]
  exact and_iff_left (Utf8.valid_ascii fun b hb => List.mem_singleton.1 hb ▸ by decide)

/-- **The answer arrives.**  The response is as long as the buffer that was measured for it; a reader
    of JSON finds the code 0 in it and, under `sdp`, the answer byte for byte; and it is a JSON text
    if and only if the answer is UTF-8. -/
theorem play_answer_read (esc : EscapeJson) (ans : Bytes) :
    (playResponse esc ans).2.length = (playResponse esc ans).1 ∧
      (∀ n, (playResponse esc ans).2.length ≤ n →
        Json.value n (playResponse esc ans).2 = some (playDocument ans, [])) ∧
      ∀ v, Json.IsText (playResponse esc ans).2 v ↔ Utf8.Valid ans ∧ v = playDocument ans := by
  have hread : ∀ n, (playResponse esc ans).2.length ≤ n →
      Json.value n (playResponse esc ans).2 = some (playDocument ans, []) := by
    intro n hn
    have hv := reads_play esc ans n [] hn fun _ hc => by cases hc
    rwa [List.append_nil] at hv
  refine ⟨?_, hread, fun v => ⟨?_, ?_⟩⟩
  · have hlen : playPrefix.length + 2 = (Text.ascii "\x7b\"code\":0,\"sdp\":\"\"\x7d").length := rfl
    show (playPrefix ++ (esc.write ans ++ Text.ascii "\"\x7d")).length = _
    rw [List.length_append, List.length_append, esc.longer, playResponse]
    show _ + (_ + 2) = _
    omega
  · rintro ⟨hvalid, n, r, hv, -⟩
    have hx := (reads_play esc ans).eq (r := []) (fun _ hc => by cases hc)
      (by rw [List.append_nil]; exact hv)
    exact ⟨(valid_playResponse esc ans).1 hvalid, (Prod.mk.inj hx).1⟩
  · rintro ⟨hvalid, rfl⟩
    exact ⟨(valid_playResponse esc ans).2 hvalid, _, [], hread _ (le_refl _), rfl⟩

/-! ### nginx's escaper -/

/-- A digit of `\u001F`. -/
def ngxHex (n : UInt8) : UInt8 := if n < 10 then 48 + n else 55 + n

/-- What `ngx_escape_json` writes for a byte. -/
def ngxEscapeByte (c : UInt8) : Bytes :=
  if c = 34 ∨ c = 92 then [92, c]
  else if 31 < c then [c]
  else if c = 10 then [92, 110]
  else if c = 13 then [92, 114]
  else if c = 9 then [92, 116]
  else if c = 8 then [92, 98]
  else if c = 12 then [92, 102]
  else [92, 117, 48, 48, ngxHex (c >>> 4), ngxHex (c &&& 0xf)]

theorem spells_ngxEscapeByte (c : UInt8) : Json.Spells c (ngxEscapeByte c) := by
  unfold ngxEscapeByte
  split_ifs with hself hplain hn hr ht hb hf
  · refine .letter (fun h => ?_) (if_pos ?_)
    · rw [h] at hself
      exact absurd hself (by decide)
    · exact hself.imp_right .inl
  · refine .byte ⟨?_, fun h => hself (.inl h), fun h => hself (.inr h)⟩
    rw [UInt8.le_iff_toNat_le]
    exact UInt8.lt_iff_toNat_lt.1 hplain
  · exact .letter (by decide) (by rw [hn]; rfl)
  · exact .letter (by decide) (by rw [hr]; rfl)
  · exact .letter (by decide) (by rw [ht]; rfl)
  · exact .letter (by decide) (by rw [hb]; rfl)
  · exact .letter (by decide) (by rw [hf]; rfl)
  · have hall : ∀ n < 32, Json.hex4 48 48 (ngxHex (UInt8.ofNat n >>> 4))
        (ngxHex (UInt8.ofNat n &&& 0xf)) = some n := by decide
    have hc : c.toNat < 32 := Nat.lt_succ_of_le (UInt8.le_iff_toNat_le.1 (UInt8.not_lt.1 hplain))
    refine .unit ?_ (UInt8.lt_iff_toNat_lt.2 (hc.trans (by decide)))
    have hx := hall c.toNat hc
    rwa [UInt8.ofNat_toNat] at hx

theorem length_ngxEscapeByte (c : UInt8) : 1 ≤ (ngxEscapeByte c).length := by
  unfold ngxEscapeByte
  split_ifs <;> simp only [List.length_cons] <;> omega

/-- `ngx_escape_json`. -/
def ngxEscapeJson : EscapeJson where
  extra s := (s.map fun c => (ngxEscapeByte c).length - 1).sum
  write s := s.flatMap ngxEscapeByte
  escapes := ⟨⟨ngxEscapeByte, spells_ngxEscapeByte⟩, fun _ => rfl⟩
  longer s := by
    induction s with
    | nil => rfl
    | cons c s ih =>
      have hc := length_ngxEscapeByte c
      simp only [List.flatMap_cons, List.length_append, ih, List.length_cons, List.map_cons, List.sum_cons]
      omega

theorem play_answer_read_sample :
    (playResponse ngxEscapeJson [34, 13, 1]).2.length =
        (playResponse ngxEscapeJson [34, 13, 1]).1 ∧
      (∀ n, (playResponse ngxEscapeJson [34, 13, 1]).2.length ≤ n →
        Json.value n (playResponse ngxEscapeJson [34, 13, 1]).2 =
          some (playDocument [34, 13, 1], [])) ∧
      ∀ v, Json.IsText (playResponse ngxEscapeJson [34, 13, 1]).2 v ↔
        Utf8.Valid [34, 13, 1] ∧ v = playDocument [34, 13, 1] :=
  play_answer_read ngxEscapeJson [34, 13, 1]

end NginxRtc
