import GoFixMsg.Engine.Unflushed
import GoFixMsg.Session.Pipe
import GoFixMsg.Handler.ReadTags
import GoFixMsg.Handler.ResendQuery
import GoFixMsg.Engine.Detection
import GoFixMsg.Network.Acceptor
import GoFixMsg.Handler.Exchange
import GoFixMsg.Engine.SessionMap
import GoFixMsg.Codec.Loading
import GoFixMsg.Codec.Reading
import GoFixMsg.Codec.NormalForm
import GoFixMsg.Codec.Conservation
import GoFixMsg.Codec.Serialisers
import GoFixMsg.Session.Blocked
import GoFixMsg.Session.Grammar
import GoFixMsg.Session.Shutdown
import GoFixMsg.State.Subscribers
import GoFixMsg.Engine.SeqSystem
import GoFixMsg.Engine.Detach
import GoFixMsg.Engine.Helpers
import GoFixMsg.Engine.MultiSession
import GoFixMsg.Engine.OneSession
import GoFixMsg.Engine.StaleCallback
import GoFixMsg.Engine.AfterClose
import GoFixMsg.Engine.Acceptable
import GoFixMsg.Engine.LogonState
import GoFixMsg.Engine.FreshStart
import GoFixMsg.Engine.Attribution
import GoFixMsg.Engine.SharedStore
import GoFixMsg.Engine.Dictionary
import GoFixMsg.Engine.HeartbeatMonitor
import GoFixMsg.Engine.Reconnect
import GoFixMsg.Engine.Broadcast
import GoFixMsg.Message.DeepSearch
import GoFixMsg.Spec.FirstTag
import GoFixMsg.Spec.OptionalComponents
import GoFixMsg.Codec.Separator
import GoFixMsg.Codec.Junk
import GoFixMsg.Handler.Inbound
import GoFixMsg.Handler.ResendBounds
import GoFixMsg.Handler.SequenceReset
import GoFixMsg.Handler.Replies
import GoFixMsg.Handler.Rejected
import GoFixMsg.Handler.ToAdmin
import GoFixMsg.Scheduler.RuntimeScheduler
import GoFixMsg.Scheduler.StartStop
import GoFixMsg.Handler.Duplex
import GoFixMsg.Handler.Delivered
import GoFixMsg.Handler.Arrival
