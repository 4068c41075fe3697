import PuppetMaster.Lib.Run
import PuppetMaster.Lib.Lists
import PuppetMaster.Lib.LittleEndian
import PuppetMaster.Lib.Calls
import PuppetMaster.Lib.Hex
import PuppetMaster.Lib.Cursor
import PuppetMaster.Lib.SortedMap
import PuppetMaster.Lib.Nearest
import PuppetMaster.Lib.TopologicalSort
import PuppetMaster.Core.Status
import PuppetMaster.Core.Message
import PuppetMaster.Core.MessagePolicy
import PuppetMaster.Core.Name
import PuppetMaster.Core.Check
import PuppetMaster.Core.Parameters
import PuppetMaster.Core.Endpoint
import PuppetMaster.Shm.Segment
import PuppetMaster.Shm.Seqlock
import PuppetMaster.Shm.SeqlockProofs
import PuppetMaster.Shm.FailedPublish
import PuppetMaster.Shm.Accounting
import PuppetMaster.Shm.Open
import PuppetMaster.Shm.OpenProofs
import PuppetMaster.Shm.Participants
import PuppetMaster.Shm.ParticipantsProofs
import PuppetMaster.Shm.Reclaim
import PuppetMaster.Shm.Lifetime
import PuppetMaster.Shm.LifetimeInvariant
import PuppetMaster.Shm.LifetimeProofs
import PuppetMaster.Shm.Notify
import PuppetMaster.Shm.NotifySteps
import PuppetMaster.Shm.NotifyProofs
import PuppetMaster.Shm.NotifyReads
import PuppetMaster.Shm.NotifyRing
import PuppetMaster.InMemory.Mailbox
import PuppetMaster.InMemory.Delivery
import PuppetMaster.Transport.Local
import PuppetMaster.Transport.Agreement
import PuppetMaster.Scheduler.Trigger
import PuppetMaster.Scheduler.TaskGraph
import PuppetMaster.Scheduler.Dispatch
import PuppetMaster.Scheduler.Machine
import PuppetMaster.Scheduler.Bookkeeping
import PuppetMaster.Scheduler.Conservation
import PuppetMaster.Scheduler.Restart
import PuppetMaster.Scheduler.Propagation
import PuppetMaster.Scheduler.Wakeups
import PuppetMaster.Scheduler.Carried
import PuppetMaster.Scheduler.TaskOrder
import PuppetMaster.Service.Codec
import PuppetMaster.Service.Client
import PuppetMaster.Service.ExactlyOnce
import PuppetMaster.Service.RequestIds
import PuppetMaster.Service.Server
import PuppetMaster.Service.Matching
import PuppetMaster.Service.Endpoints
import PuppetMaster.Runtime.Component
import PuppetMaster.Runtime.Lifecycle
import PuppetMaster.Scheduler.Register
import PuppetMaster.Service.ScheduledServer
import PuppetMaster.Service.ScheduledServerProofs
import PuppetMaster.Service.Serving
import PuppetMaster.Service.HandlerDiscipline
import PuppetMaster.Configuration.Project
import PuppetMaster.Configuration.Checked
import PuppetMaster.Configuration.Schedulable
import PuppetMaster.Configuration.WireTopics
import PuppetMaster.Configuration.Application
import PuppetMaster.Configuration.ApplicationLife
import PuppetMaster.Configuration.LifecycleTrace
import PuppetMaster.Configuration.StopDuringStart
import PuppetMaster.Configuration.Supervisor
import PuppetMaster.Configuration.SupervisorProofs
import PuppetMaster.Configuration.SupervisorExit
import PuppetMaster.Configuration.SystemCheck
import PuppetMaster.Configuration.SystemVerdict
import PuppetMaster.Configuration.Deployment
import PuppetMaster.Shm.Options
import PuppetMaster.Shm.OptionsAgree
import PuppetMaster.Portable.Codec
import PuppetMaster.Portable.RoundTrip
import PuppetMaster.Portable.Canonical
import PuppetMaster.Portable.Sizes
import PuppetMaster.Recording.Format
import PuppetMaster.Recording.Records
import PuppetMaster.Recording.RoundTrip
import PuppetMaster.Recording.CutOff
import PuppetMaster.Lib.Signed
import PuppetMaster.Scheduler.DispatchOrder
import PuppetMaster.Scheduler.Aging
import PuppetMaster.Scheduler.Idle
import PuppetMaster.Scheduler.TaskAcceptance
import PuppetMaster.Scheduler.Readiness
import PuppetMaster.Scheduler.Requests
import PuppetMaster.Configuration.TaskAgreement
import PuppetMaster.Service.PendingPass
import PuppetMaster.Service.Deadlines
import PuppetMaster.Shm.Hostile
import PuppetMaster.Shm.Layout
import PuppetMaster.Runtime.ConcurrentLifecycle
import PuppetMaster.InMemory.MailboxPolicy
import PuppetMaster.Configuration.SupervisorEnding
import PuppetMaster.InMemory.ReaderOwned
import PuppetMaster.Core.Decimal
import PuppetMaster.Shm.Listing
import PuppetMaster.Lib.DepthFirst
import PuppetMaster.Core.Path
import PuppetMaster.Configuration.Json
import PuppetMaster.Configuration.Loader
import PuppetMaster.Configuration.Imports
import PuppetMaster.Configuration.ImportOrder
import PuppetMaster.Configuration.DuplicateIds
import PuppetMaster.Configuration.CreateScheduler
import PuppetMaster.Configuration.AllOrNothing
import PuppetMaster.Lib.Table
import PuppetMaster.Configuration.SystemManifest
import PuppetMaster.Configuration.StartCommands
import PuppetMaster.Tools.Floats
import PuppetMaster.Tools.PortableFields
import PuppetMaster.Tools.FieldValues
import PuppetMaster.Tools.Numerals
import PuppetMaster.Tools.FieldTexts
import PuppetMaster.Tools.IntegerTexts
import PuppetMaster.Tools.TypeTexts
import PuppetMaster.Recording.AnyInput
import PuppetMaster.Lib.JsonText
import PuppetMaster.Observability.JsonLog
import PuppetMaster.Lib.JsonNumbers
import PuppetMaster.Observability.Observer
import PuppetMaster.Observability.ChromeTrace
import PuppetMaster.Observability.Hub
import PuppetMaster.Runtime.QueueDepths
import PuppetMaster.Tools.RecordReplay
import PuppetMaster.Tools.RecordedRun
import PuppetMaster.Service.Presence
import PuppetMaster.Transport.FastDds
import PuppetMaster.Transport.FastDdsProofs
import PuppetMaster.Transport.FastDdsReads
import PuppetMaster.Transport.FastDdsReadsProofs
import PuppetMaster.Transport.FastDdsSamples
import PuppetMaster.Transport.FastDdsThreads
import PuppetMaster.Transport.BytePayload
import PuppetMaster.Lib.Exposition
import PuppetMaster.Observability.Prometheus
import PuppetMaster.Runtime.ObservedEndpoints
import PuppetMaster.Runtime.ObservedDepths
import PuppetMaster.Runtime.Transports
