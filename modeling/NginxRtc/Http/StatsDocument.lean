/-
  The statistics document is JSON, up to the names (`ngx_rtc_http_render_stats`).

  `StatsCtx.listed` are the sources, and of each the sessions, for which there is room: an entry is
  started while the reserve is left.

  `renderStats_eq`: what is rendered is the document of these, complete.  `stats_document_iff`: it
  is a JSON text that gives sources of the registry back under their names exactly if no name of a
  listed source needs an escape.
-/
import NginxRtc.Http.Stats
import NginxRtc.Http.Play
import NginxRtc.Lib.Json.Write

namespace NginxRtc

/-! ## The document -/

open Json (Written)

section Document

/-- A member that counts. -/
def counter (k : String) (n : UInt64) : Bytes × Written := (Text.ascii k, .number n.toNat)

def signedNumber (n : Int64) : Written :=
  if n < 0 then .negative n.toInt.natAbs else .number n.toInt.natAbs

def mediaDoc (m : StatsMedia) : Written :=
  .object [(Text.ascii "ssrc", .number m.ssrc.toNat), counter "pt" m.pt.toUInt64,
    counter "packets" m.packets, counter "octets" m.octets]

def retxDoc (r : RetxLock) : Written :=
  .object [counter "append_locked" r.appendLocked, counter "append_us" r.appendUs,
    counter "replay_count" r.replayCount, counter "replay_slots" r.replaySlots,
    counter "replay_us" r.replayUs]

def statesDoc (v : StatsCtx) : Written :=
  .object [counter "UNKNOWN" (v.stateCount 0), counter "NEW" (v.stateCount 1),
    counter "ICE_BOUND" (v.stateCount 2), counter "DTLS_HANDSHAKE" (v.stateCount 3),
    counter "SRTP_READY" (v.stateCount 4)]

def sessionDoc (s : StatsSession) : Written :=
  .object [counter "id" s.id, (Text.ascii "ufrag", .string (iceUfrag s.ufrag)),
    (Text.ascii "state", .string (Text.ascii (stateName (clampState s.state)))),
    counter "twcc_lost" s.twccLost, counter "twcc_received" s.twccReceived,
    counter "pacer_bps" s.pacerBps, counter "drop_pacer" s.dropPacer,
    counter "drop_gop" s.dropGop]

/-- The members of a source behind its name and before its sessions. -/
def headMembers (src : StatsSource) : List (Bytes × Written) :=
  [counter "publishing" src.publishing, (Text.ascii "pub_worker", signedNumber src.publisherSlot),
    counter "cross_worker" src.cross, counter "clients" src.nsub,
    counter "send_failed" src.sendFailed, counter "send_eagain" src.sendEagain]

/-- The members of a source behind its sessions. -/
def tailMembers (src : StatsSource) : List (Bytes × Written) :=
  [(Text.ascii "video", mediaDoc src.video), (Text.ascii "audio", mediaDoc src.audio),
    counter "retransmit_alloc_failed" src.retransmitAllocFailed,
    (Text.ascii "retx_lock", retxDoc src.retxLock)]

def sourceDoc (e : StatsSource × List StatsSession) : Written :=
  .object ((Text.ascii "name", .string e.1.name.bytes) :: headMembers e.1 ++
    (Text.ascii "sessions", .array (e.2.map sessionDoc)) :: tailMembers e.1)

/-- The totals, and the sessions counted by state. -/
def totalsMembers (v : StatsCtx) (t : StatsTotals) : List (Bytes × Written) :=
  [counter "total_streams" t.streams, counter "total_clients" t.clients,
    counter "total_video_octets" t.videoOctets, counter "total_audio_octets" t.audioOctets,
    counter "total_send_failed" t.sendFailed, counter "total_send_eagain" t.sendEagain,
    counter "total_retransmit_alloc_failed" t.retransmitAllocFailed,
    (Text.ascii "total_retx_lock", retxDoc t.retxLock),
    (Text.ascii "session_states", statesDoc v)]

/-- The document that lists the sources `es`, each with the sessions listed for it. -/
def statsDoc (es : List (StatsSource × List StatsSession)) (ms : List (Bytes × Written)) :
    Written :=
  .object ([(Text.ascii "code", .number 0)] ++
    (Text.ascii "streams", .array (es.map sourceDoc)) :: ms)

end Document

/-! ### The pieces make the document -/

/-- Items behind others, each with its comma, or the first ones. -/
def itemsText (first : Bool) (ts : List Bytes) : Bytes :=
  if first then Json.commas ts else ts.flatMap (44 :: ·)

theorem itemsText_cons (first : Bool) (t : Bytes) (ts : List Bytes) :
    itemsText first (t :: ts) = comma first ++ t ++ itemsText false ts := by
  cases first with
  | true => rfl
  | false =>
    rw [itemsText, itemsText]
    simp only [Bool.false_eq_true, if_false, List.flatMap_cons]
    rfl

theorem signedNumber_text (n : Int64) : (signedNumber n).text = signed n := by
  unfold signedNumber signed
  split_ifs <;> rfl

theorem label_eq (k : String) : label k = 34 :: (Text.ascii k ++ [34, 58]) := by
  simp only [label, List.append_assoc]
  rfl

theorem marks :
    Text.ascii "," = [44] ∧ Text.ascii "\"" = [34] ∧ Text.ascii "\"," = [34, 44] ∧
      Text.ascii "\x7b" = [123] ∧ Text.ascii "\x7d" = [125] ∧ Text.ascii "[" = [91] ∧
      Text.ascii "]," = [93, 44] := ⟨rfl, rfl, rfl, rfl, rfl, rfl, rfl⟩

theorem mediaPiece_eq (m : StatsMedia) : mediaPiece m = (mediaDoc m).text := by
  unfold mediaPiece
  simp only [mediaDoc, Written.object, counter, Written.number, ui, uD, label_eq, marks,
    Json.objectText, Json.commas, Json.memberText, Json.quoted, List.map_cons, List.map_nil,
    List.flatMap_cons, List.flatMap_nil, List.append_assoc, List.cons_append, List.nil_append]

theorem retxPiece_eq (r : RetxLock) : retxPiece r = (retxDoc r).text := by
  unfold retxPiece
  simp only [retxDoc, Written.object, counter, Written.number, ui, label_eq, marks,
    Json.objectText, Json.commas, Json.memberText, Json.quoted, List.map_cons, List.map_nil,
    List.flatMap_cons, List.flatMap_nil, List.append_assoc, List.cons_append, List.nil_append]

theorem statesPiece_eq (v : StatsCtx) : statesPiece v = (statesDoc v).text := by
  unfold statesPiece
  simp only [statesDoc, Written.object, counter, Written.number, ui, label_eq, marks,
    Json.objectText, Json.commas, Json.memberText, Json.quoted, List.map_cons, List.map_nil,
    List.flatMap_cons, List.flatMap_nil, List.append_assoc, List.cons_append, List.nil_append]

theorem sessionPiece_eq (first : Bool) (s : StatsSession) :
    sessionPiece first s = comma first ++ (sessionDoc s).text := by
  unfold sessionPiece
  simp only [sessionDoc, Written.object, counter, Written.number, Written.string, ui,
    label_eq, marks, Json.objectText, Json.commas, Json.memberText, Json.quoted, List.map_cons,
    List.map_nil, List.flatMap_cons, List.flatMap_nil, List.append_assoc, List.cons_append,
    List.nil_append]

/-- The texts of members. -/
def texts (ms : List (Bytes × Written)) : List (Bytes × Bytes) := ms.map fun m => (m.1, m.2.text)

theorem sourceHead_eq (first : Bool) (src : StatsSource) :
    sourceHead first src = comma first ++ Json.openText
      ((Text.ascii "name", Json.quoted src.name.bytes) :: texts (headMembers src))
      (Text.ascii "sessions") := by
  unfold sourceHead
  simp only [texts, headMembers, counter, Written.number, signedNumber_text, ui,
    label_eq, marks, Json.openText, Json.commas, Json.memberText, Json.quoted, List.map_cons,
    List.map_nil, List.flatMap_cons, List.flatMap_nil, List.append_assoc, List.cons_append,
    List.nil_append]

theorem sourceTail_eq (src : StatsSource) :
    sourceTail src = Json.closeText (texts (tailMembers src)) := by
  unfold sourceTail
  simp only [texts, tailMembers, counter, Written.number, mediaPiece_eq, retxPiece_eq,
    ui, label_eq, marks, Json.closeText, Json.memberText, Json.quoted, List.map_cons,
    List.map_nil, List.flatMap_cons, List.flatMap_nil, List.append_assoc, List.cons_append,
    List.nil_append]

theorem sourceDoc_text (src : StatsSource) (ss : List StatsSession) :
    (sourceDoc (src, ss)).text = Json.openText
        ((Text.ascii "name", Json.quoted src.name.bytes) :: texts (headMembers src))
        (Text.ascii "sessions") ++
      (Json.commas (ss.map fun s => (sessionDoc s).text) ++
        Json.closeText (texts (tailMembers src))) := by
  rw [← Json.objectText_array (List.cons_ne_nil _ _)]
  simp only [sourceDoc, Written.object, Written.string, Written.array, texts, List.map_append,
    List.map_cons, List.map_map]
  rfl

theorem statsHead_eq :
    statsHead = Json.openText [(Text.ascii "code", Text.decimal 0)] (Text.ascii "streams") := rfl

theorem totalsPiece_eq (v : StatsCtx) (t : StatsTotals) :
    totalsPiece v t = Json.closeText (texts (totalsMembers v t)) := by
  unfold totalsPiece
  simp only [texts, totalsMembers, counter, Written.number, retxPiece_eq,
    statesPiece_eq, ui, label_eq, marks, Json.closeText, Json.memberText, Json.quoted,
    List.map_cons, List.map_nil, List.flatMap_cons, List.flatMap_nil, List.append_assoc,
    List.cons_append, List.nil_append]

theorem statsDoc_text (es : List (StatsSource × List StatsSession)) (ms : List (Bytes × Written)) :
    (statsDoc es ms).text =
      statsHead ++ (Json.commas (es.map fun e => (sourceDoc e).text) ++
        Json.closeText (texts ms)) := by
  rw [statsHead_eq, ← Json.objectText_array (List.cons_ne_nil _ _)]
  simp only [statsDoc, Written.object, Written.array, texts, List.map_append, List.map_cons,
    List.map_map]
  rfl

/-! ## Nothing is cut off -/

/-- No entry is started from here on. -/
def statsRoom : ℕ := statsBufLen - statsReserve

/-- The sessions that are listed when `used` bytes are written. -/
def listedSessions (used : ℕ) (first : Bool) : List StatsSession → List StatsSession
  | [] => []
  | s :: ss =>
    if statsRoom ≤ used then []
    else s :: listedSessions (used + (sessionPiece first s).length) false ss

def StatsCtx.sessionsOf (v : StatsCtx) (src : StatsSource) : List StatsSession :=
  v.sessions.filter fun s => s.source = src.addr

/-- The entry of a source. -/
def entryText (first : Bool) (e : StatsSource × List StatsSession) : Bytes :=
  comma first ++ (sourceDoc e).text

/-- The sources that are listed when `used` bytes are written, each with its sessions. -/
def listedSources (v : StatsCtx) (used : ℕ) (first : Bool) :
    List StatsSource → List (StatsSource × List StatsSession)
  | [] => []
  | src :: srcs =>
    if statsRoom ≤ used then []
    else
      let e := (src,
        listedSessions (used + (sourceHead first src).length) true (v.sessionsOf src))
      e :: listedSources v (used + (entryText first e).length) false srcs

def StatsCtx.listed (v : StatsCtx) : List (StatsSource × List StatsSession) :=
  listedSources v statsHead.length true v.sources

theorem listedSources_prefix (v : StatsCtx) (used : ℕ) (first : Bool) (srcs : List StatsSource) :
    (listedSources v used first srcs).map Prod.fst <+: srcs := by
  induction srcs generalizing used first with
  | nil => exact List.prefix_rfl
  | cons src srcs ih =>
    rw [listedSources]
    split_ifs with hroom
    · exact List.nil_prefix
    · exact List.cons_prefix_cons.2 ⟨rfl, ih _ _⟩

/-- Sources are left out for want of room only. -/
theorem listedSources_all (v : StatsCtx) (used : ℕ) (first : Bool) (srcs : List StatsSource) :
    (listedSources v used first srcs).map Prod.fst = srcs ∨
      statsRoom ≤ used + (itemsText first
        ((listedSources v used first srcs).map fun e => (sourceDoc e).text)).length := by
  induction srcs generalizing used first with
  | nil => exact .inl rfl
  | cons src srcs ih =>
    rw [listedSources]
    split_ifs with hroom
    · exact .inr (Nat.le_add_right_of_le hroom)
    · rw [List.map_cons, List.map_cons, itemsText_cons, ← entryText, List.length_append,
        ← Nat.add_assoc]
      exact (ih _ false).imp_left (congrArg (src :: ·))

theorem slprintf_fits {cap : ℕ} {p text : Bytes} (h : p.length + text.length ≤ cap) :
    slprintf cap p text = p ++ text :=
  List.take_of_length_le (by rwa [List.length_append])

theorem itemsText_nil (first : Bool) : itemsText first [] = [] := by
  cases first <;> rfl

theorem nothing_written (first : Bool) {p : Bytes} {n : ℕ} (h : p.length ≤ n) :
    ∃ q, p = p ++ q ∧ q = itemsText first [] ∧ (p ++ q).length ≤ n :=
  ⟨[], (List.append_nil p).symm, (itemsText_nil first).symm, by rwa [List.append_nil]⟩

/-- Every session of the source that is started is written whole, and its entry can be closed. -/
theorem renderSessions_eq (addr : ℕ) (first : Bool) (ss : List StatsSession) {p : Bytes}
    (h : p.length ≤ statsRoom + 355) :
    ∃ q, renderSessions statsBufLen addr first ss p = p ++ q ∧
      q = itemsText first ((listedSessions p.length first
        (ss.filter fun s => s.source = addr)).map fun s => (sessionDoc s).text) ∧
      (p ++ q).length ≤ statsRoom + 355 := by
  induction ss generalizing first p with
  | nil => exact nothing_written first h
  | cons s ss ih =>
    rw [renderSessions, show statsBufLen - statsReserve = statsRoom from rfl]
    split_ifs with hs hroom
    · rw [List.filter_cons_of_neg (by simpa using hs)]
      exact ih first h
    · rw [List.filter_cons_of_pos (by simpa using hs), listedSessions, if_pos hroom]
      exact nothing_written first h
    · have hp : p.length < statsRoom := Nat.lt_of_not_le hroom
      have hpiece := length_sessionPiece_le first s
      have hnext : (p ++ sessionPiece first s).length ≤ statsRoom + 355 := by
        rw [List.length_append]
        omega
      have hcap : p.length + (sessionPiece first s).length ≤ statsBufLen := by
        rw [← List.length_append]
        exact Nat.le_trans hnext (by decide)
      obtain ⟨q, hq, htext, hlen⟩ := ih false hnext
      refine ⟨sessionPiece first s ++ q, ?_, ?_, ?_⟩
      · rw [slprintf_fits hcap, hq, List.append_assoc]
      · rw [List.filter_cons_of_pos (by simpa using hs), listedSessions, if_neg hroom,
          List.map_cons, itemsText_cons, ← sessionPiece_eq, ← List.length_append, htext]
      · rwa [← List.append_assoc]

theorem renderSource_eq (v : StatsCtx) (first : Bool) (src : StatsSource) {p : Bytes}
    (h : p.length < statsRoom) :
    renderSource statsBufLen v first p src = p ++ entryText first (src,
        listedSessions (p.length + (sourceHead first src).length) true (v.sessionsOf src)) ∧
      (renderSource statsBufLen v first p src).length ≤ statsRoom + 823 := by
  have hhead := length_sourceHead_le first src
  have htail := length_sourceTail_le src
  have hstart : (p ++ sourceHead first src).length ≤ statsRoom + 355 := by
    rw [List.length_append]
    omega
  have hfit : p.length + (sourceHead first src).length ≤ statsBufLen :=
    Nat.le_trans (Nat.add_le_add (Nat.le_of_lt h) hhead) (by decide)
  obtain ⟨q, hq, htext, hlen⟩ := renderSessions_eq src.addr true v.sessions hstart
  have hclose : (p ++ sourceHead first src ++ q).length + (sourceTail src).length ≤ statsBufLen :=
    Nat.le_trans (Nat.add_le_add hlen htail) (by decide)
  have heq : renderSource statsBufLen v first p src =
      p ++ sourceHead first src ++ q ++ sourceTail src := by
    rw [renderSource, slprintf_fits hfit, hq, slprintf_fits hclose]
  refine ⟨?_, ?_⟩
  · rw [heq, entryText, sourceDoc_text, sourceHead_eq, sourceTail_eq, htext, List.length_append]
    simp only [List.append_assoc, StatsCtx.sessionsOf, itemsText, if_true, sourceHead_eq]
  · rw [heq, List.length_append]
    exact Nat.le_trans (Nat.add_le_add hlen htail) (Nat.le_of_eq (Nat.add_assoc ..))

/-- Every source that is started is written whole, and the document can be closed. -/
theorem renderSources_eq (v : StatsCtx) (first : Bool) (srcs : List StatsSource) {p : Bytes}
    (t : StatsTotals) (h : p.length ≤ statsRoom + 823) :
    ∃ q, (renderSources statsBufLen v first srcs p t).1 = p ++ q ∧
      q = itemsText first ((listedSources v p.length first srcs).map fun e => (sourceDoc e).text) ∧
      (p ++ q).length ≤ statsRoom + 823 := by
  induction srcs generalizing first p t with
  | nil => exact nothing_written first h
  | cons src srcs ih =>
    rw [renderSources, listedSources, show statsBufLen - statsReserve = statsRoom from rfl]
    split_ifs with hroom
    · exact nothing_written first h
    · obtain ⟨heq, hle⟩ := renderSource_eq v first src (Nat.lt_of_not_le hroom)
      generalize (src, listedSessions (p.length + (sourceHead first src).length) true
        (v.sessionsOf src)) = e at heq ⊢
      obtain ⟨q, hq, htext, hlen⟩ := ih false (t.add src) hle
      rw [heq] at hq htext hlen
      refine ⟨entryText first e ++ q, ?_, ?_, by rwa [← List.append_assoc]⟩
      · rw [heq, hq, List.append_assoc]
      · rw [List.map_cons, itemsText_cons, ← entryText, ← List.length_append, htext]

/-- **What is rendered is complete**: the document of the listed sources. -/
theorem renderStats_eq (v : StatsCtx) :
    ∃ t, renderStats statsBufLen (some v) = (statsDoc v.listed (totalsMembers v t)).text := by
  have hhead : slprintf statsBufLen [] statsHead = statsHead := slprintf_fits (by decide)
  obtain ⟨q, hq, htext, hlen⟩ :=
    renderSources_eq v true v.sources (p := statsHead) .zero (by decide)
  refine ⟨(renderSources statsBufLen v true v.sources statsHead .zero).2, ?_⟩
  have hclose := length_totalsPiece_le v
    (renderSources statsBufLen v true v.sources statsHead .zero).2
  rw [renderStats, hhead, hq, slprintf_fits (Nat.le_trans (Nat.add_le_add hlen hclose) (by decide)),
    totalsPiece_eq, statsDoc_text, htext, List.append_assoc]
  rfl

/-! ## The document is JSON -/

section Parts

open Json (Plain Printable)

theorem ok_counter {k : String} (h : Printable (Text.ascii k)) (n : UInt64) :
    Plain (counter k n).1 ∧ (counter k n).2.Ok := ⟨h.plain, Json.Written.ok_number _⟩

theorem ok_signedNumber (n : Int64) : (signedNumber n).Ok := by
  unfold signedNumber
  split_ifs
  · exact Json.Written.ok_negative _
  · exact Json.Written.ok_number _

theorem printable_hex8 (w : UInt32) : Printable (Sdp.hex8 w) := by
  have hall : ∀ n < 16, Json.Ordinary (Sdp.hexDigit n) ∧ Sdp.hexDigit n < 0x80 := by decide
  intro c hc
  obtain ⟨k, -, rfl⟩ := List.mem_map.1 hc
  exact hall _ (Nat.mod_lt _ (by decide))

theorem printable_stateName (st : UInt8) : Printable (Text.ascii (stateName st)) := by
  unfold stateName
  split_ifs <;> decide

theorem ok_mediaDoc (m : StatsMedia) : (mediaDoc m).Ok := by
  refine Json.Written.ok_object ?_
  simp only [List.forall_mem_cons]
  exact ⟨⟨Printable.plain (by decide), Json.Written.ok_number _⟩, ok_counter (by decide) _,
    ok_counter (by decide) _, ok_counter (by decide) _, fun _ h => nomatch h⟩

theorem ok_retxDoc (r : RetxLock) : (retxDoc r).Ok := by
  refine Json.Written.ok_object ?_
  simp only [List.forall_mem_cons]
  exact ⟨ok_counter (by decide) _, ok_counter (by decide) _, ok_counter (by decide) _,
    ok_counter (by decide) _, ok_counter (by decide) _, fun _ h => nomatch h⟩

theorem ok_statesDoc (v : StatsCtx) : (statesDoc v).Ok := by
  refine Json.Written.ok_object ?_
  simp only [List.forall_mem_cons]
  exact ⟨ok_counter (by decide) _, ok_counter (by decide) _, ok_counter (by decide) _,
    ok_counter (by decide) _, ok_counter (by decide) _, fun _ h => nomatch h⟩

theorem ok_sessionDoc (s : StatsSession) : (sessionDoc s).Ok := by
  have hufrag : Printable (iceUfrag s.ufrag) := (printable_hex8 s.ufrag).append (by decide)
  refine Json.Written.ok_object ?_
  simp only [List.forall_mem_cons]
  exact ⟨ok_counter (by decide) _,
    ⟨Printable.plain (by decide), Json.Written.ok_string hufrag.plain⟩,
    ⟨Printable.plain (by decide), Json.Written.ok_string (printable_stateName _).plain⟩,
    ok_counter (by decide) _, ok_counter (by decide) _, ok_counter (by decide) _,
    ok_counter (by decide) _, ok_counter (by decide) _, fun _ h => nomatch h⟩

/-- The entry of a source, if its name can be written as it is. -/
theorem ok_sourceDoc {src : StatsSource} (h : Plain src.name.bytes) (ss : List StatsSession) :
    (sourceDoc (src, ss)).Ok := by
  have hsessions : (Written.array (ss.map sessionDoc)).Ok := by
    refine Json.Written.ok_array fun w hw => ?_
    obtain ⟨s, -, rfl⟩ := List.mem_map.1 hw
    exact ok_sessionDoc s
  refine Json.Written.ok_object ?_
  simp only [headMembers, tailMembers, List.cons_append, List.nil_append, List.forall_mem_cons]
  exact ⟨⟨Printable.plain (by decide), Json.Written.ok_string h⟩, ok_counter (by decide) _,
    ⟨Printable.plain (by decide), ok_signedNumber _⟩, ok_counter (by decide) _,
    ok_counter (by decide) _, ok_counter (by decide) _, ok_counter (by decide) _,
    ⟨Printable.plain (by decide), hsessions⟩, ⟨Printable.plain (by decide), ok_mediaDoc _⟩,
    ⟨Printable.plain (by decide), ok_mediaDoc _⟩, ok_counter (by decide) _,
    ⟨Printable.plain (by decide), ok_retxDoc _⟩, fun _ h => nomatch h⟩

theorem names_sourceDoc (e : StatsSource × List StatsSession) :
    Json.Written.Names (Text.ascii "name") e.1.name.bytes (sourceDoc e) :=
  Json.Written.names_object _ _ fun h => ok_sourceDoc h e.2

theorem ok_statsDoc {es : List (StatsSource × List StatsSession)}
    (h : ∀ e ∈ es, Plain e.1.name.bytes) (v : StatsCtx) (t : StatsTotals) :
    (statsDoc es (totalsMembers v t)).Ok := by
  have hstreams : (Written.array (es.map sourceDoc)).Ok := by
    refine Json.Written.ok_array fun w hw => ?_
    obtain ⟨e, he, rfl⟩ := List.mem_map.1 hw
    exact ok_sourceDoc (h e he) e.2
  refine Json.Written.ok_object ?_
  simp only [totalsMembers, List.cons_append, List.nil_append, List.forall_mem_cons]
  exact ⟨⟨Printable.plain (by decide), Json.Written.ok_number 0⟩,
    ⟨Printable.plain (by decide), hstreams⟩, ok_counter (by decide) _, ok_counter (by decide) _,
    ok_counter (by decide) _, ok_counter (by decide) _, ok_counter (by decide) _,
    ok_counter (by decide) _, ok_counter (by decide) _,
    ⟨Printable.plain (by decide), ok_retxDoc _⟩, ⟨Printable.plain (by decide), ok_statesDoc v⟩,
    fun _ h => nomatch h⟩

end Parts

/-! ## The names -/

/-- A JSON text that lists streams of these names. -/
def StatsDocument (out : Bytes) (names : List Bytes) : Prop :=
  ∃ doc elems, Json.IsText out doc ∧
    doc.members (Text.ascii "streams") = [.array elems] ∧
    elems.map (Json.Value.members (Text.ascii "name")) = names.map fun n => [.string n]

theorem statsDocument_of_plain {es : List (StatsSource × List StatsSession)}
    (h : ∀ e ∈ es, Json.Plain e.1.name.bytes) (v : StatsCtx) (t : StatsTotals) :
    StatsDocument (statsDoc es (totalsMembers v t)).text (es.map fun e => e.1.name.bytes) := by
  refine ⟨_, (es.map sourceDoc).map Written.value, (ok_statsDoc h v t).isText, rfl, ?_⟩
  rw [List.map_map, List.map_map, List.map_map]
  exact List.map_congr_left fun e _ => rfl

/-- A name stands in the document as it is. -/
theorem utf8_name {es : List (StatsSource × List StatsSession)} {ms : List (Bytes × Written)}
    (h : Utf8.Valid (statsDoc es ms).text) {e : StatsSource × List StatsSession} (he : e ∈ es) :
    Utf8.Valid e.1.name.bytes := by
  obtain ⟨t, ht⟩ := (names_sourceDoc e).text
  obtain ⟨a, b, hab⟩ :=
    Json.exists_commas_eq (List.mem_map_of_mem (f := fun e => (sourceDoc e).text) he)
  rw [statsDoc_text, hab, ht] at h
  have hsplit : statsHead ++ (a ++ 123 :: (Json.quoted (Text.ascii "name") ++
        58 :: 34 :: (e.1.name.bytes ++ 34 :: 44 :: 34 :: t)) ++ b ++ Json.closeText (texts ms)) =
      (statsHead ++ a ++ 123 :: (Json.quoted (Text.ascii "name") ++ [58])) ++
        34 :: (e.1.name.bytes ++ 34 :: (44 :: 34 :: t ++ b ++ Json.closeText (texts ms))) := by
    simp only [List.append_assoc, List.cons_append, List.nil_append]
  rw [hsplit] at h
  exact (Utf8.Valid.split (by decide) (Utf8.Valid.split (by decide) h).2).1

/-- What a reader finds under `streams`. -/
theorem elements_of_text {es : List (StatsSource × List StatsSession)} (hne : es ≠ [])
    {ms : List (Bytes × Written)} {doc : Json.Value} {elems : List Json.Value} {n : ℕ} {r : Bytes}
    (hread : Json.value n (statsDoc es ms).text = some (doc, r))
    (hdoc : doc.members (Text.ascii "streams") = [.array elems]) :
    ∃ m s r', Json.elements m
      (Json.commas ((es.map sourceDoc).map Written.text) ++ 93 :: s) = some (elems, r') := by
  obtain ⟨y, hy⟩ : ∃ y, (statsDoc es ms).text = 123 :: (Json.quoted (Text.ascii "code") ++
      58 :: (Text.decimal 0 ++ 44 :: (Json.quoted (Text.ascii "streams") ++ 58 :: 91 ::
        (Json.commas ((es.map sourceDoc).map Written.text) ++ 93 :: y)))) := by
    refine ⟨((texts ms).map Json.memberText).flatMap (44 :: ·) ++ [125], ?_⟩
    rw [statsDoc_text, statsHead_eq, Json.closeText, Json.openText, List.map_map]
    simp only [List.map_cons, List.map_nil, Json.commas, Json.memberText, List.flatMap_nil,
      List.append_assoc, List.cons_append, List.nil_append]
    rfl
  have hbracket : (Json.skip (Json.commas ((es.map sourceDoc).map Written.text) ++
      93 :: y)).head? ≠ some 93 := by
    obtain ⟨e, es, rfl⟩ := List.exists_cons_of_ne_nil hne
    obtain ⟨t, ht⟩ := (names_sourceDoc e).text
    rw [List.map_cons, List.map_cons, Json.commas, ht]
    simp only [List.cons_append, Json.skip_cons (c := 123) (by decide)]
    exact (by decide : some (123 : UInt8) ≠ some 93)
  rw [hy] at hread
  obtain ⟨m, members, hmembers, rfl⟩ :=
    Json.value_object (by rw [Json.skip_quoted]; decide) hread
  obtain ⟨m', code, s, rest, hcode, rfl, hmore⟩ := Json.members_value (by decide) hmembers
  obtain ⟨-, rfl⟩ := Prod.mk.inj ((Json.reads_decimal 0).eq (.cons (.inl rfl) _) hcode)
  obtain ⟨m'', streams, s', rest', hstreams, rfl, -⟩ :=
    Json.members_value (by decide) (hmore _ rfl)
  obtain ⟨k, vs, hvs, rfl⟩ := Json.value_array hbracket hstreams
  have hother : decide (Text.ascii "code" = Text.ascii "streams") = false := by decide
  simp only [Json.Value.members, List.filter_cons, hother, decide_true, Bool.false_eq_true, if_true,
    if_false, List.map_cons] at hdoc
  obtain rfl := Json.Value.array.inj (List.cons.inj hdoc).1
  exact ⟨k, y, s', hvs⟩

theorem plain_of_statsDocument {es : List (StatsSource × List StatsSession)}
    {ms : List (Bytes × Written)} {names : List Bytes}
    (hpre : names <+: es.map (fun e => e.1.name.bytes) ∨ es.map (fun e => e.1.name.bytes) <+: names)
    (h : StatsDocument (statsDoc es ms).text names) : ∀ e ∈ es, Json.Plain e.1.name.bytes := by
  obtain ⟨doc, elems, ⟨hutf8, n, r, hread, -⟩, hdoc, hnames⟩ := h
  have hvalid : ∀ e ∈ es, Utf8.Valid e.1.name.bytes := fun e he => utf8_name hutf8 he
  intro e he
  refine ⟨hvalid e he, ?_⟩
  obtain ⟨m, s, r', helems⟩ := elements_of_text (List.ne_nil_of_mem he) hread hdoc
  have hall : List.Forall₂ (Json.Written.Names (Text.ascii "name"))
      (es.map fun e => e.1.name.bytes) (es.map sourceDoc) := by
    rw [List.forall₂_map_left_iff, List.forall₂_map_right_iff, List.forall₂_same]
    exact fun e _ => names_sourceDoc e
  have hbytes : ∀ b ∈ es.map (fun e => e.1.name.bytes), Utf8.Valid b := by
    intro b hb
    obtain ⟨e, he, rfl⟩ := List.mem_map.1 hb
    exact hvalid e he
  exact Json.Written.unescaped_of_elements (by decide) hall hbytes helems hpre hnames _
    (List.mem_map_of_mem he)

/-- The names of the sources that are listed need no escape, if the document names sources. -/
theorem plain_of_listed {v : StatsCtx} {srcs : List StatsSource} (hsrcs : srcs <+: v.sources)
    (hdoc : StatsDocument (renderStats statsBufLen (some v)) (srcs.map fun src => src.name.bytes)) :
    ∀ e ∈ v.listed, Json.Plain e.1.name.bytes := by
  obtain ⟨t, ht⟩ := renderStats_eq v
  have hlisted : v.listed.map Prod.fst <+: v.sources := listedSources_prefix ..
  have hnames : v.listed.map (fun e => e.1.name.bytes) =
      (v.listed.map Prod.fst).map fun src => src.name.bytes := by
    rw [List.map_map]
    rfl
  rw [ht] at hdoc
  refine plain_of_statsDocument ?_ hdoc
  rw [hnames]
  rcases List.prefix_or_prefix_of_prefix hsrcs hlisted with h | h
  · exact .inl (h.map _)
  · exact .inr (h.map _)

/-- What is rendered without a registry. -/
theorem statsDocument_none : StatsDocument (renderStats statsBufLen none) [] := by
  let states : Written := .object [counter "UNKNOWN" 0, counter "NEW" 0, counter "ICE_BOUND" 0,
    counter "DTLS_HANDSHAKE" 0, counter "SRTP_READY" 0]
  let doc : Written := .object [counter "code" 0, (Text.ascii "streams", .array []),
    counter "total_streams" 0, counter "total_clients" 0, (Text.ascii "session_states", states)]
  have htext : renderStats statsBufLen none = doc.text := by decide +kernel
  have hstates : states.Ok := by
    refine Json.Written.ok_object ?_
    simp only [List.forall_mem_cons]
    exact ⟨ok_counter (by decide) _, ok_counter (by decide) _, ok_counter (by decide) _,
      ok_counter (by decide) _, ok_counter (by decide) _, fun _ h => nomatch h⟩
  have hdoc : doc.Ok := by
    refine Json.Written.ok_object ?_
    simp only [List.forall_mem_cons]
    exact ⟨ok_counter (by decide) _,
      ⟨Json.Printable.plain (by decide), Json.Written.ok_array fun _ h => nomatch h⟩,
      ok_counter (by decide) _, ok_counter (by decide) _,
      ⟨Json.Printable.plain (by decide), hstates⟩, fun _ h => nomatch h⟩
  rw [htext]
  exact ⟨doc.value, [], hdoc.isText, rfl, rfl⟩

/-- The sources of the registry, if there is one. -/
def registered (o : Option StatsCtx) : List StatsSource := o.elim [] StatsCtx.sources

/-- The document lists the first sources of the registry, each under its name, and all of them unless
    there was no room for the next one. -/
def ListsSources (o : Option StatsCtx) (out : Bytes) : Prop :=
  ∃ srcs, srcs <+: registered o ∧ (srcs = registered o ∨ statsRoom ≤ out.length) ∧
    StatsDocument out (srcs.map fun src => src.name.bytes)

/-- **The document is a JSON text that gives the sources back** exactly if no name of a listed source
    needs an escape. -/
theorem stats_document_iff (o : Option StatsCtx) :
    ListsSources o (renderStats statsBufLen o) ↔
      ∀ v ∈ o, ∀ e ∈ v.listed, Json.Plain e.1.name.bytes := by
  cases o with
  | none =>
    exact ⟨fun _ _ hv => (nomatch hv), fun _ => ⟨[], List.nil_prefix, .inl rfl, statsDocument_none⟩⟩
  | some v =>
    constructor
    · rintro ⟨srcs, hsrcs, -, hdoc⟩ v' hv
      obtain rfl := Option.some.inj hv
      exact plain_of_listed hsrcs hdoc
    · intro h
      obtain ⟨t, ht⟩ := renderStats_eq v
      refine ⟨v.listed.map Prod.fst, listedSources_prefix .., ?_, ?_⟩
      · refine (listedSources_all v statsHead.length true v.sources).imp_right fun hroom => ?_
        rw [ht, statsDoc_text, List.length_append, List.length_append]
        exact Nat.le_trans hroom (Nat.add_le_add_left (Nat.le_add_right ..) _)
      · rw [ht, List.map_map]
        exact statsDocument_of_plain (h v rfl) v t

/-- A play request for the stream `b` of the application `a"`. -/
def quotedBody : Bytes :=
  Text.ascii "\x7b\"sdp\":\"v=0\",\"streamurl\":\"webrtc://h/a\\\"/b\"\x7d"

/-- The source it is for, as it is registered. -/
def quotedSource : StatsSource where
  addr := 0
  name := ⟨[97, 34, 47, 98], by decide, by decide⟩
  terminated := by decide
  publishing := 0
  publisherSlot := -1
  subscribers := []
  sendFailed := 0
  sendEagain := 0
  video := ⟨0, 0, 0, 0⟩
  audio := ⟨0, 0, 0, 0⟩
  retransmitAllocFailed := 0
  retxLock := ⟨0, 0, 0, 0, 0⟩

/-- A quotation mark in a name that a play request brings in ends the name in the document. -/
theorem statsDocument_quoted :
    (Play.request 65536 [some quotedBody]).map Prod.snd =
        some (quotedSource.name.bytes ++ [0]) ∧
      ¬ListsSources (some ⟨[], [quotedSource]⟩)
        (renderStats statsBufLen (some ⟨[], [quotedSource]⟩)) := by
  refine ⟨by decide +kernel, ?_⟩
  rintro ⟨srcs, hsrcs, -, hdoc⟩
  have hlisted : (quotedSource, []) ∈ (⟨[], [quotedSource]⟩ : StatsCtx).listed :=
    List.mem_singleton_self _
  have hplain := (plain_of_listed hsrcs hdoc _ hlisted).unescaped
  exact absurd hplain (by decide)

end NginxRtc
