import PulseCoap.Codec.RoundTrip
import PulseCoap.Codec.Strict
import PulseCoap.Codec.WordSize
import PulseCoap.Codec.Header
import PulseCoap.Pool.Schedule
import PulseCoap.Client.Model
import PulseCoap.Client.Spec
import PulseCoap.Client.Correlation
import PulseCoap.Client.Outcome
import PulseCoap.Client.Reclaim
import PulseCoap.Client.Sender
import PulseCoap.Client.Refusal
import PulseCoap.Server.Resource
import PulseCoap.Server.Model
import PulseCoap.Server.Reply
import PulseCoap.Server.Spec
import PulseCoap.Server.Answer
import PulseCoap.Server.Upload
import PulseCoap.Server.Deferral
import PulseCoap.Tracking.Reliable
import PulseCoap.Timing.Server
import PulseCoap.Exchange.Client
import PulseCoap.Codec.Cut
import PulseCoap.Transport.Adapters
import PulseCoap.Transport.Truncation
import PulseCoap.Server.Isolation
import PulseCoap.Server.Tables
import PulseCoap.Server.Settled
import PulseCoap.Server.Frame
import PulseCoap.Server.Registration
import PulseCoap.Server.Owing
import PulseCoap.Server.LastSent
import PulseCoap.Client.Shared
import PulseCoap.Client.Reentry
import PulseCoap.Exchange.Block
import PulseCoap.Server.Sends
import PulseCoap.Server.Blocks
import PulseCoap.System.ServerCursor
import PulseCoap.System.ClientCursor
import PulseCoap.System.Lockstep
import PulseCoap.System.Invocations
import PulseCoap.Codec.Canonical
import PulseCoap.Codec.Operations
import PulseCoap.Exchange.Buffer
import PulseCoap.Server.Routing
import PulseCoap.Server.Template
import PulseCoap.Server.Matching
import PulseCoap.Server.Notify
import PulseCoap.Server.Subscribers
import PulseCoap.Server.Sessions
import PulseCoap.Client.Ending
import PulseCoap.Transport.Dtls
import PulseCoap.Transport.DtlsClient
import PulseCoap.System.Notified
import PulseCoap.System.Cancelled
import PulseCoap.Server.Captures
import PulseCoap.Server.Discovery
import PulseCoap.Client.Options
import PulseCoap.Server.Placement
import PulseCoap.Lib.Slices
import PulseCoap.Server.Slicing
import PulseCoap.Client.Download
import PulseCoap.Lib.Serial
import PulseCoap.Server.Sequence
import PulseCoap.Lib.Ring
import PulseCoap.Transport.RxRing
import PulseCoap.Transport.Posix
import PulseCoap.Transport.DtlsPeers
import PulseCoap.System.Fetched
import PulseCoap.System.Completed
import PulseCoap.System.Uploaded
import PulseCoap.Client.Sends
import PulseCoap.System.Given
import PulseCoap.System.Asked
import PulseCoap.System.Agreement
