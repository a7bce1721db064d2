import Syndicate.Graph
import Syndicate.Spec.Executor
import Syndicate.Spec.Oversight
import Syndicate.Spec.Graph
import Syndicate.Spec.Control
import Syndicate.Budget
import Syndicate.Strikes
import Syndicate.Escalation
import Syndicate.Audit
import Syndicate.Commit
import Syndicate.Py.Re
import Syndicate.Server.Events
import Syndicate.Server.Registry
import Syndicate.Server.Stream
import Syndicate.Server.Wakeup
import Syndicate.Server.Replay
import Syndicate.Server.Ending
import Syndicate.Server.Runner
import Syndicate.Server.Protocol
import Syndicate.Diagnosis
import Syndicate.Distil
import Syndicate.Session
import Syndicate.Tickets
import Syndicate.Compression
import Syndicate.Server.Updates
import Syndicate.Server.Listing
import Syndicate.Server.Fanout
import Syndicate.Server.Backlog
import Syndicate.Server.Attempts
import Syndicate.Server.App
import Syndicate.Server.SingleActive
import Syndicate.Server.Tasks
import Syndicate.Py.Render
import Syndicate.Server.Redaction
import Syndicate.Server.Secrets
import Syndicate.Framework.Store
import Syndicate.Py.Utf8
import Syndicate.Runtime.Http
import Syndicate.Runtime.Adapters
import Syndicate.Runtime.Agreement
import Syndicate.Egress.Scripts
import Syndicate.Egress.Lock
import Syndicate.Egress.Unlock
import Syndicate.Py.Residue
import Syndicate.Server.Residue
import Syndicate.Framework.Sorted
import Syndicate.Py.Time
import Syndicate.Server.Newest
import Syndicate.Runtime.HeadCheck
import Syndicate.Py.Json
import Syndicate.Py.Object
import Syndicate.Server.Payloads
import Syndicate.Server.Cap
import Syndicate.Framework.EventStream
import Syndicate.Server.Frames
import Syndicate.Framework.Woven
import Syndicate.Server.Preview
import Syndicate.Server.Coverage
import Syndicate.Py.Shell
import Syndicate.Spec.Staging
import Syndicate.Spec.Commands
import Syndicate.Spec.Dispatch
import Syndicate.Spec.Conversation
import Syndicate.Py.Cuts
import Syndicate.Spec.Planning
import Syndicate.Spec.Truncation
import Syndicate.Framework.Occurs
import Syndicate.Runtime.Edits
import Syndicate.Py.Pieces
import Syndicate.Server.Monitor
import Syndicate.Framework.Simulation
import Syndicate.Server.Sourcing
import Syndicate.Server.Site
import Syndicate.Server.Viewers
import Syndicate.Server.Delivery
import Syndicate.Server.Turns
import Syndicate.Server.Emissions
import Syndicate.Server.Watching
import Syndicate.Server.Encodes
import Syndicate.Server.Audience
import Syndicate.Server.Browser
import Syndicate.Server.Browsing
import Syndicate.Framework.Matching
import Syndicate.Spec.Backends
import Syndicate.Server.Backend
import Syndicate.Runtime.AgentHttp
import Syndicate.Server.Marks
