import Athena.Common.System
import Athena.Login.Model
import Athena.Login.Exclusion
import Athena.Lua.Number
import Athena.Gate.Model
import Athena.Common.Trace
import Athena.Gate.Step
import Athena.Gate.Handshake
import Athena.Gate.Connection
import Athena.Common.Chain
import Athena.Log.Model
import Athena.Log.Shape
import Athena.Log.Step
import Athena.Log.Order
import Athena.Log.Shutdown
import Athena.Log.Roll
import Athena.Common.Act
import Athena.Lua.Value
import Athena.Sql.Lexer
import Athena.Sql.Statement
import Athena.Store.Model
import Athena.Store.Encoding
import Athena.Store.Codec
import Athena.Store.Cache
import Athena.Store.Delete
import Athena.Entity.Model
import Athena.Common.Transaction
import Athena.Sync.Isolation
import Athena.Gate.Socket
import Athena.Gate.Admission
import Athena.Gate.Username
import Athena.Gated.Model
import Athena.Gated.Step
import Athena.Gated.Subid
import Athena.Common.Holder
import Athena.Gated.Pool
import Athena.Cluster.Model
import Athena.Cluster.View
import Athena.Cluster.Sound
import Athena.Cluster.Session
import Athena.Msgagent.Model
import Athena.Msgagent.Agent
import Athena.Msgagent.Owner
import Athena.Lua.Arith
import Athena.Warehouse.Model
import Athena.Warehouse.Balance
import Athena.Common.Mirror
import Athena.Warehouse.Serve
import Athena.Shop.Model
import Athena.Shop.Step
import Athena.Shop.Slots
import Athena.Shop.Books
import Athena.Shop.Fair
import Athena.Shop.Settlement
import Athena.Shop.Lines
import Athena.Shop.Payment
import Athena.Shop.Khorium
import Athena.Warehouse.Stock
import Athena.Team.Run
import Athena.Queue.Once
import Athena.Queue.Order
import Athena.Scan.Grant
import Athena.Chips.Run
import Athena.Chips.Restore
import Athena.Timext.Event
import Athena.Timext.Stamp
import Athena.Timecheck.Punctual
import Athena.Entity.Addressing
import Athena.Entity.Levels
import Athena.Entity.Single
import Athena.Addiction.Daytime
import Athena.Prices.Run
import Athena.Prices.Aligned
import Athena.Battle.Result
import Athena.Assignment.Observers
import Athena.Match.Placed
import Athena.Hangar.Exclusive
import Athena.Mall.Purchase
import Athena.Buff.Settle
import Athena.Energy.Run
import Athena.Rolename.Unique
import Athena.Chips.Compatible
import Athena.Chips.Paid
import Athena.Chips.Sale
import Athena.Chips.Taken
import Athena.Chips.Sold
import Athena.Chips.Fair
import Athena.Chips.Skills
import Athena.Chips.Atomic
import Athena.Scan.Cost
import Athena.Scan.Fresh
import Athena.Scan.Refund
import Athena.Scan.Castfair
import Athena.Queue.Columns
import Athena.Warehouse.Marks
import Athena.Warehouse.Granted
import Athena.Queue.Alone
import Athena.Freight.Transport
import Athena.Freight.Carried
import Athena.Freight.Returned
import Athena.Freight.Producers
import Athena.Rolename.Model
import Athena.Random.Model
import Athena.Random.Ids
import Athena.Assignment.Finish
import Athena.Exp.Parts
import Athena.Warehouse.Paging
import Athena.Warehouse.FlatPages
import Athena.Freight.Drops
import Athena.Chips.Rig
import Athena.Chips.Worth
import Athena.Hangar.Unequip
import Athena.Lua.Pattern
import Athena.Lua.Split
import Athena.Lua.Nested
import Athena.Gate.Userid
import Athena.Common.Loop
import Athena.Rolename.Answers
import Athena.Store.Whole
import Athena.Store.Rows
import Athena.Account.Model
import Athena.Account.Reload
import Athena.Account.Registration
import Athena.Chips.Rated
import Athena.Common.Ring
import Athena.Skynet.Mq
import Athena.Skynet.Dispatch
import Athena.Skynet.Sound
import Athena.Skynet.Delivery
import Athena.Common.Agenda
import Athena.Skynet.Timer
import Athena.Skynet.Wheel
import Athena.Common.Feistel
import Athena.Crypt.Des
import Athena.Crypt.Exchange
import Athena.Crypt.Hmac
import Athena.Login.Session
import Athena.Login.Handshake
import Athena.Login.Challenge
import Athena.Skynet.Queue
import Athena.Common.Framing
import Athena.Common.Buckets
import Athena.Skynet.Netpack
import Athena.Skynet.Gateserver
