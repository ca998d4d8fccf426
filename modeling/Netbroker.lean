import Netbroker.Broadcast.Order
import Netbroker.Buffer
import Netbroker.Codec.Bytes
import Netbroker.Common.AutoDeleter
import Netbroker.Common.CDBTable
import Netbroker.Common.Couples
import Netbroker.Common.NoLockPool
import Netbroker.Common.Sharing
import Netbroker.Common.Spq
import Netbroker.Common.SynchQueue
import Netbroker.Connector.Basic
import Netbroker.Connector.Calls
import Netbroker.Connector.DropFlags
import Netbroker.Connector.Fidelity
import Netbroker.Connector.GroupName
import Netbroker.Connector.Isolation
import Netbroker.Connector.Progress
import Netbroker.Connector.Receive
import Netbroker.Connector.Turns
import Netbroker.Container.FreeList
import Netbroker.Container.OrderedUnique
import Netbroker.Container.SkipList
import Netbroker.Dispatcher.Activity
import Netbroker.Dispatcher.AllOrNothing
import Netbroker.Dispatcher.Announcements
import Netbroker.Dispatcher.Basic
import Netbroker.Dispatcher.ClientNames
import Netbroker.Dispatcher.ConnectionLoss
import Netbroker.Dispatcher.Copies
import Netbroker.Dispatcher.Fleet
import Netbroker.Dispatcher.Halt
import Netbroker.Dispatcher.Lifetime
import Netbroker.Dispatcher.Membership
import Netbroker.Dispatcher.NullConnector
import Netbroker.Dispatcher.Reconnect
import Netbroker.Dispatcher.Registry
import Netbroker.Dispatcher.Routing
import Netbroker.Dispatcher.SizeLimit
import Netbroker.Dispatcher.SlowConsumer
import Netbroker.Dispatcher.Steps
import Netbroker.Dispatcher.StopJoin
import Netbroker.Dispatcher.Store
import Netbroker.Dispatcher.Stranded
import Netbroker.Dispatcher.World
import Netbroker.Fifo.Ledger
import Netbroker.Groups.Agreement
import Netbroker.Groups.Basic
import Netbroker.Groups.Clients
import Netbroker.Groups.Exchange
import Netbroker.Groups.Handlers
import Netbroker.Groups.Members
import Netbroker.Groups.Memberships
import Netbroker.Groups.Messages
import Netbroker.Groups.Notices
import Netbroker.Groups.Packing
import Netbroker.Groups.Sessions
import Netbroker.Groups.Table
import Netbroker.LogService.Destroy
import Netbroker.LogService.Factory
import Netbroker.LogService.Filters
import Netbroker.LogService.Logger
import Netbroker.LogService.Report
import Netbroker.Ring.Acceptance
import Netbroker.Ring.Assembly
import Netbroker.Ring.Basic
import Netbroker.Ring.Deliver
import Netbroker.Ring.Delivery
import Netbroker.Ring.Guarantees
import Netbroker.Ring.Invariant
import Netbroker.Ring.Refinement
import Netbroker.Ring.Run
import Netbroker.Ring.Sending
import Netbroker.Ring.Store
import Netbroker.Ring.System
import Netbroker.Ring.Token
import Netbroker.Ring.Turn
import Netbroker.Rotation.LowWater
import Netbroker.Spread.Library
import Netbroker.Spread.Session
import Netbroker.SyncQueue.Basic
import Netbroker.SyncQueue.Counter
import Netbroker.SyncQueue.History
import Netbroker.SyncQueue.Sections
import Netbroker.SyncQueue.Statements
import Netbroker.SyncQueue.TimedPop
import Netbroker.SyncQueue.Wakeup
import Netbroker.Transition.Exception
import Netbroker.Transition.Machine
import Netbroker.Transition.Monitor
import Netbroker.Transition.Returns
