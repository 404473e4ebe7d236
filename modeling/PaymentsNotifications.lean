import PaymentsNotifications.Lib.Amqp.Host
import PaymentsNotifications.Lib.Amqp.Declarations
import PaymentsNotifications.Lib.Amqp.Messages
import PaymentsNotifications.Lib.Backoff
import PaymentsNotifications.Lib.Checked
import PaymentsNotifications.Lib.Coupling
import PaymentsNotifications.Lib.DebugFmt
import PaymentsNotifications.Lib.Futures
import PaymentsNotifications.Lib.Parties
import PaymentsNotifications.Lib.Pattern
import PaymentsNotifications.Lib.Traces
import PaymentsNotifications.Lib.Transition
import PaymentsNotifications.Lib.WorkQueue
import PaymentsNotifications.Models.Amount
import PaymentsNotifications.Models.AmountCodec
import PaymentsNotifications.Models.Notifications
import PaymentsNotifications.Utils
import PaymentsNotifications.Utils.HexCoding
import PaymentsNotifications.Failure
import PaymentsNotifications.Utils.FormatError
import PaymentsNotifications.External
import PaymentsNotifications.Config
import PaymentsNotifications.Config.Debug
import PaymentsNotifications.Error
import PaymentsNotifications.Transport
import PaymentsNotifications.Client.Http
import PaymentsNotifications.Client.Query
import PaymentsNotifications.Client.Callback
import PaymentsNotifications.Client.SecretKey
import PaymentsNotifications.Client.Email
import PaymentsNotifications.Client.Ios
import PaymentsNotifications.Rabbit.Publisher
import PaymentsNotifications.Rabbit.Topology
import PaymentsNotifications.Rabbit.ErrorQueues
import PaymentsNotifications.Rabbit.R2d2
import PaymentsNotifications.Rabbit.Address
import PaymentsNotifications.Services.Notificator
import PaymentsNotifications.Server.Process
import PaymentsNotifications.Server.LogLevel
import PaymentsNotifications.Server.Signature
import PaymentsNotifications.Server.Repost
import PaymentsNotifications.Server.Calls
import PaymentsNotifications.Server.Handling
import PaymentsNotifications.Server.Consumer
import PaymentsNotifications.Server.NoLoss
import PaymentsNotifications.Server.Broker
import PaymentsNotifications.Server.Settlement
import PaymentsNotifications.Server.Runtime
import PaymentsNotifications.Server.Parking
import PaymentsNotifications.Server.Schedule
import PaymentsNotifications.Server.Drain
import PaymentsNotifications.Server.StartLog
import PaymentsNotifications.Server.Lives
import PaymentsNotifications.Server.Conservation
import PaymentsNotifications.Server.Course
import PaymentsNotifications.Server.ExactlyOnce
import PaymentsNotifications.Server.Deployment
import PaymentsNotifications.Server.Fate
import PaymentsNotifications.Server.Instances
import PaymentsNotifications.Server.Cluster
import PaymentsNotifications.Server.Recovery
import PaymentsNotifications.Server.Sharing
import PaymentsNotifications.Server.Rewording
import PaymentsNotifications.Server.Replay
import PaymentsNotifications.Server.Levels
import PaymentsNotifications.Server.Fleet
import PaymentsNotifications.Server.Settling
