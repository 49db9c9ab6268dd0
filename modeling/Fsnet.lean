import Fsnet.Attributes.Sharing
import Fsnet.Catalog.Idempotence
import Fsnet.Entity.Versions
import Fsnet.Entity.Views
import Fsnet.Gateway.Guarantees
import Fsnet.Gateway.Messages
import Fsnet.Gateway.PacketCodec
import Fsnet.Host.Receipts
import Fsnet.Lua.Classes
import Fsnet.Lua.Cost
import Fsnet.Lua.Schedule
import Fsnet.Node.Calls
import Fsnet.Node.Queues
import Fsnet.Replication.Following
import Fsnet.Storage.Backends
import Fsnet.Storage.Completions
import Fsnet.Timers.Advance
import Fsnet.World.Discovery
import Fsnet.World.Lifecycle
import Fsnet.World.Outcomes
