import Dianemo.MultiPlan
import Dianemo.Library.Meter
import Dianemo.Library.Timed
import Dianemo.Focus
import Dianemo.Account
import Dianemo.Follow
import Dianemo.Calls
import Dianemo.Exact
import Dianemo.Runs
import Dianemo.Pacing
import Dianemo.Soundness
import Dianemo.Expiry
import Dianemo.Once
import Dianemo.Ledger
import Dianemo.Slots
import Dianemo.Cap
import Dianemo.AllOrNothing
import Dianemo.Thaw
import Dianemo.Window
import Dianemo.Queue
import Dianemo.Items
import Dianemo.Tombstone
import Dianemo.Drain
import Dianemo.Protocol
import Dianemo.Entries
import Dianemo.System
import Dianemo.Orderly
import Dianemo.Dispatch
import Dianemo.Recovery
import Dianemo.Life
import Dianemo.Release
import Dianemo.Flag
import Dianemo.Habits
import Dianemo.Presence
import Dianemo.Probe
import Dianemo.Arming
import Dianemo.Redelivery
import Dianemo.Election
import Dianemo.Registry
import Dianemo.Template
import Dianemo.MemberOrder
import Dianemo.Library.Worlds
import Dianemo.Alone
import Dianemo.Turns
import Dianemo.Overtaking
import Dianemo.Sole
import Dianemo.Isolation
import Dianemo.Stranded
import Dianemo.Library.Packing
import Dianemo.Score
import Dianemo.Ranking
import Dianemo.Waiting
import Dianemo.Library.Tasks
import Dianemo.Lifecycle
import Dianemo.Library.Logs
import Dianemo.HandleRequest
import Dianemo.Unsent
import Dianemo.Library.Segments
import Dianemo.Keys
import Dianemo.Apart
import Dianemo.Renaming
import Dianemo.JsonValue
import Dianemo.Broadcast
import Dianemo.ConfigValue
import Dianemo.SubClients
import Dianemo.Plans
import Dianemo.Redact
import Dianemo.Redaction
import Dianemo.Serialised
import Dianemo.Progress
import Dianemo.Cost
import Dianemo.RequestCodec
import Dianemo.Admissible
import Dianemo.Fleet
import Dianemo.Billing
import Dianemo.Exactness
import Dianemo.Purge
