import FerroFlow.Lib.Transition
import FerroFlow.Lib.Checks
import FerroFlow.Lib.ExactFloat
import FerroFlow.Lib.KeyedMap
import FerroFlow.Primitives
import FerroFlow.LiquidCan
import FerroFlow.Mapping
import FerroFlow.SequenceBuilder
import FerroFlow.CanNode
import FerroFlow.Events
import FerroFlow.NodeManager
import FerroFlow.NodeValues
import FerroFlow.SequenceRunner
import FerroFlow.NodeSlots
import FerroFlow.Registration
import FerroFlow.GroupMembers
import FerroFlow.RegistrationOrder
import FerroFlow.DecodingHistory
import FerroFlow.ValueCache
import FerroFlow.ErrorAtomicity
import FerroFlow.TypedWrites
import FerroFlow.FieldReads
import FerroFlow.MappingTargets
import FerroFlow.MappingNames
import FerroFlow.UpdateLog
import FerroFlow.SequenceSteps
import FerroFlow.SequenceAbort
import FerroFlow.SequencePauses
import FerroFlow.SequenceHold
import FerroFlow.RunnerThread
import FerroFlow.SequenceValidation
import FerroFlow.SequenceSchedule
import FerroFlow.SequenceRamp
import FerroFlow.ScheduleOrder
import FerroFlow.ScheduleDomain
import FerroFlow.RawValues
import FerroFlow.WritePaths
import FerroFlow.RampValues
import FerroFlow.ScheduleShape
import FerroFlow.LoggingWorker
import FerroFlow.Reannouncement
import FerroFlow.NodeIsolation
import FerroFlow.RampGrid
import FerroFlow.SequenceLoading
import FerroFlow.Lib.Interval
import FerroFlow.LogicalRules
import FerroFlow.InverseMapping
import FerroFlow.Lib.Broadcast
import FerroFlow.Dispatcher
import FerroFlow.StartUp
import FerroFlow.CanThreads
import FerroFlow.CanTraffic
import FerroFlow.Relay
import FerroFlow.HoldComparisons
import FerroFlow.WorkerExit
import FerroFlow.GroupDecoding
import FerroFlow.HeartbeatCounters
import FerroFlow.ScheduleIndependence
import FerroFlow.FiniteCommands
import FerroFlow.Lib.GroupedMap
import FerroFlow.MappingDirectory
import FerroFlow.Discovery
import FerroFlow.ManagerThreads
import FerroFlow.HeartbeatRounds
import FerroFlow.Server
import FerroFlow.Telemetry
import FerroFlow.Messages
import FerroFlow.Shutdown
import FerroFlow.RecordedValues
import FerroFlow.HeartbeatPacing
import FerroFlow.Lib.Fairness
import FerroFlow.Progress
import FerroFlow.Termination
import FerroFlow.SequencedServer
import FerroFlow.SequenceCommands
import FerroFlow.SequenceWrites
