import NginxRtc.Lib.Pool
import NginxRtc.Lib.Run
import NginxRtc.Lib.Window
import NginxRtc.Lib.Smear
import NginxRtc.Lib.CacheRing
import NginxRtc.Lib.Queue
import NginxRtc.Lib.Rtp
import NginxRtc.Lib.Wire
import NginxRtc.Lib.Text
import NginxRtc.Lib.Checked
import NginxRtc.Lib.Circular
import NginxRtc.Lib.Slope
import NginxRtc.Lib.ExpGolomb
import NginxRtc.Lib.Forest
import NginxRtc.Lib.Stages
import NginxRtc.Lib.Reorder
import NginxRtc.Basic
import NginxRtc.Shm.Ring
import NginxRtc.Shm.Fifo
import NginxRtc.Shm.Retransmit
import NginxRtc.Shm.Registry
import NginxRtc.Shm.Sweep
import NginxRtc.Shm.Moves
import NginxRtc.Shm.Shape
import NginxRtc.Shm.Names
import NginxRtc.Shm.Refs
import NginxRtc.Shm.Reaper
import NginxRtc.Shm.Owner
import NginxRtc.Shm.Remote
import NginxRtc.Shm.Version
import NginxRtc.Shm.Replay
import NginxRtc.Shm.Publish
import NginxRtc.Shm.Ownership
import NginxRtc.Shm.Crash
import NginxRtc.Shm.Edit
import NginxRtc.Session.Fsm
import NginxRtc.Session.Hsm
import NginxRtc.Session.Transition
import NginxRtc.Session.Dispatch
import NginxRtc.Session.SessionChart
import NginxRtc.Session.Lifecycle
import NginxRtc.Worker.State
import NginxRtc.Worker.GopRing
import NginxRtc.Worker.Lookup
import NginxRtc.Worker.Contiguous
import NginxRtc.Worker.Binding
import NginxRtc.Worker.Publish
import NginxRtc.Worker.Broadcast
import NginxRtc.Worker.Stream
import NginxRtc.Worker.Acts
import NginxRtc.Worker.Close
import NginxRtc.Worker.Held
import NginxRtc.Worker.Links
import NginxRtc.Worker.Shaped
import NginxRtc.Worker.Serving
import NginxRtc.Worker.Core
import NginxRtc.Worker.Lifetime
import NginxRtc.Worker.Attempt
import NginxRtc.Worker.Names
import NginxRtc.Worker.Quiet
import NginxRtc.Worker.Backed
import NginxRtc.Media.Packetize
import NginxRtc.Media.SliceType
import NginxRtc.Media.Jitter
import NginxRtc.Media.JitterGap
import NginxRtc.Media.JitterCount
import NginxRtc.Media.JitterRestore
import NginxRtc.Media.Video
import NginxRtc.Media.AccessUnit
import NginxRtc.Media.GopStart
import NginxRtc.Media.ByteRing
import NginxRtc.Audio.Transcode
import NginxRtc.Audio.Worker
import NginxRtc.Rtcp.Parse
import NginxRtc.Rtcp.Bounds
import NginxRtc.Rtcp.Encode
import NginxRtc.Rtcp.Feedback
import NginxRtc.Rtcp.Twcc
import NginxRtc.Rtcp.Avsync
import NginxRtc.Stun.Integrity
import NginxRtc.Stun.Response
import NginxRtc.Sdp.Parse
import NginxRtc.Sdp.Accepted
import NginxRtc.Sdp.Answer
import NginxRtc.Sdp.ReadBack
import NginxRtc.Sdp.Mirror
import NginxRtc.Sdp.Offered
import NginxRtc.System.Publishers
import NginxRtc.System.Refusal
import NginxRtc.System.CachedPointer
import NginxRtc.System.Snapshot
import NginxRtc.System.Generations
import NginxRtc.System.WhipPair
import NginxRtc.System.Delivery
import NginxRtc.Egress.Pacer
import NginxRtc.Egress.PacerRate
import NginxRtc.Egress.RateControl
import NginxRtc.Egress.Send
import NginxRtc.Egress.StripExt
import NginxRtc.Egress.Run
import NginxRtc.Egress.Gate
import NginxRtc.Egress.Keyframe
import NginxRtc.Egress.Nack
import NginxRtc.Egress.Window
import NginxRtc.Media.Fragments
import NginxRtc.Lib.Utf8
import NginxRtc.Lib.Json.Strings
import NginxRtc.Lib.Json.Read
import NginxRtc.Lib.Json.Write
import NginxRtc.Lib.Json.Flat
import NginxRtc.Http.Stats
import NginxRtc.Http.JsonString
import NginxRtc.Http.JsonMember
import NginxRtc.Http.Play
import NginxRtc.Http.StatsDocument
import NginxRtc.System.WhipName
import NginxRtc.System.Kick
import NginxRtc.Rtmp.Message
import NginxRtc.Rtmp.AudioTrack
import NginxRtc.Rtmp.Report
import NginxRtc.Worker.Datagram
import NginxRtc.System.Uplink
import NginxRtc.Lib.Json.Escape
import NginxRtc.Http.PlayAnswer
import NginxRtc.Lib.Throttle
import NginxRtc.Worker.KeyframeRequest
