/-
  The name of the source that a play request is for (`ngx_rtc_http_body_handler`).

  The request body has an SDP offer and a stream URL `webrtc://host/app/stream`; the source is
  `app/stream`.

  `sourceName_streamUrl`: the URL can name any application without a slash, and any stream.
-/
import NginxRtc.Http.JsonString
import NginxRtc.Sdp.Parse

namespace NginxRtc

namespace Play

/-- `ngx_strnstr`: what follows the first `pat` of a text that ends at its first NUL. -/
def strnstr (pat : Bytes) : Bytes → Option Bytes
  | [] => none
  | c :: s =>
    if pat.isPrefixOf (c :: s) then some ((c :: s).drop pat.length)
    else if c = 0 then none
    else strnstr pat s

/-- `ngx_strlchr`: what stands before the first slash, and behind it. -/
def slash (s : Bytes) : Option (Bytes × Bytes) :=
  match s.dropWhile (· ≠ 47) with
  | [] => none
  | _ :: t => some (s.takeWhile (· ≠ 47), t)

/-- What is written to the name of the source, which has a terminator if there is room. -/
def sourceName (streamurl : Bytes) : Option Bytes :=
  (strnstr (Text.ascii "://") streamurl).bind fun s =>
  (slash s).bind fun host =>
  (slash host.2).bind fun path =>
  let app := Sdp.cstr path.1
  let stream := Sdp.cstr path.2
  if app = [] ∨ stream = [] ∨ shmSourceNameMax < app.length + stream.length + 2 then none
  else some ((app ++ [47] ++ stream ++ [0]).take (shmSourceNameMax - 1))

def bodyLen (cl : List (Option Bytes)) : ℕ := ((cl.filterMap id).map List.length).sum

/-- The request up to the lookup of the source, with a body in memory: the offer, and what is
    written to the name. -/
def request (maxSdpLen : ℕ) (cl : List (Option Bytes)) : Option (Sdp.Offer × Bytes) :=
  if maxSdpLen < bodyLen cl then none
  else
    (jsonString (Text.ascii "sdp") (bodyLen cl + 1) (.init cl)).bind fun sdp =>
    (jsonString (Text.ascii "streamurl") 256 (.init cl)).bind fun streamurl =>
    (sourceName streamurl.1).bind fun name =>
    (Sdp.parseOffer sdp.1).toOption.map fun offer => (offer, name)

theorem strnstr_webrtc (s : Bytes) :
    strnstr (Text.ascii "://") (Text.ascii "webrtc://" ++ s) = some s := rfl

theorem slash_eq {s : Bytes} (h : Text.Avoids 47 s) (t : Bytes) :
    slash (s ++ 47 :: t) = some (s, t) := by
  have hs : ∀ c ∈ s, decide (c ≠ 47) = true := fun c hc => decide_eq_true (h c hc)
  have ht : ∀ c ∈ (47 :: t).head?, decide (c ≠ 47) = false := by
    rintro c hc
    obtain rfl := Option.some.inj hc
    rfl
  rw [slash, Text.dropWhile_run hs ht, Text.takeWhile_run hs ht]

/-- **A stream URL** names any application and any stream. -/
theorem sourceName_streamUrl {host app stream : Bytes} (hhost : Text.Avoids 47 host)
    (hslash : Text.Avoids 47 app) (happ : Text.Avoids 0 app) (hstream : Text.Avoids 0 stream)
    (hne : app ≠ [] ∧ stream ≠ []) (hlen : app.length + stream.length + 2 < shmSourceNameMax) :
    sourceName (Text.ascii "webrtc://" ++ (host ++ 47 :: (app ++ 47 :: stream))) =
      some (app ++ 47 :: stream ++ [0]) := by
  have hfits : (app ++ [47] ++ stream ++ [0]).length ≤ shmSourceNameMax - 1 := by
    simp only [List.length_append, List.length_singleton]
    omega
  rw [sourceName, strnstr_webrtc, Option.bind_some, slash_eq hhost, Option.bind_some,
    slash_eq hslash, Option.bind_some]
  simp only [Sdp.cstr_eq happ, Sdp.cstr_eq hstream]
  have hok : ¬(app = [] ∨ stream = [] ∨ shmSourceNameMax < app.length + stream.length + 2) := by
    rintro (h | h | h)
    · exact hne.1 h
    · exact hne.2 h
    · exact Nat.lt_asymm hlen h
  rw [if_neg hok, List.take_of_length_le hfits, List.append_assoc app]
  rfl

end Play

end NginxRtc
