import Telemetryd.Lib.OrderedDict
import Telemetryd.Lib.PyText
import Telemetryd.Models
import Telemetryd.Targets
import Telemetryd.TargetSessions
import Telemetryd.TargetRestart
import Telemetryd.Lib.Runs
import Telemetryd.SharedTargets
import Telemetryd.Lib.Utf8
import Telemetryd.LogFile
import Telemetryd.LogRotation
import Telemetryd.Lib.Regex
import Telemetryd.Lib.PyNumber
import Telemetryd.EventLines
import Telemetryd.NvmeConst
import Telemetryd.TimeoutEvents
import Telemetryd.Convert
import Telemetryd.CollectorLines
import Telemetryd.TimeoutRoundTrip
import Telemetryd.ErrorEvents
import Telemetryd.EventReader
import Telemetryd.WatchedLog
import Telemetryd.Collector
import Telemetryd.TickText
import Telemetryd.EbpfPerf
import Telemetryd.PerfLines
import Telemetryd.PerfHist
import Telemetryd.PerfTick
import Telemetryd.PerfRows
import Telemetryd.ProcStats
import Telemetryd.ProcNames
import Telemetryd.ErrorStats
import Telemetryd.ErrorLines
import Telemetryd.ErrorRoundTrip
import Telemetryd.Lib.GroupedSums
import Telemetryd.TargetAttribution
import Telemetryd.CollectorSteps
import Telemetryd.Counting
import Telemetryd.SubmissionCache
import Telemetryd.DataAccounting
import Telemetryd.ProcLines
import Telemetryd.ProcTick
import Telemetryd.EventService
import Telemetryd.EventOrder
import Telemetryd.EventRetention
import Telemetryd.ErrorTotals
import Telemetryd.ErrorCounting
import Telemetryd.AppendedRuns
import Telemetryd.TickLedger
import Telemetryd.TickBalance
import Telemetryd.ProcRows
import Telemetryd.TickConservation
import Telemetryd.AdaptiveCache
import Telemetryd.WorkerShare
import Telemetryd.Lib.SlotRing
import Telemetryd.SubmissionQueue
import Telemetryd.InflightLength
import Telemetryd.PrpPayload
import Telemetryd.RefreshedSessions
import Telemetryd.SessionRules
import Telemetryd.SessionEnds
import Telemetryd.StateFile
import Telemetryd.ProcessList
import Telemetryd.Lib.Shlex
import Telemetryd.CommandLine
import Telemetryd.Adapters
import Telemetryd.ProfileMessages
import Telemetryd.SendableProfiles
import Telemetryd.PidReuse
import Telemetryd.ProfilingHost
import Telemetryd.PrpBuffer
import Telemetryd.UserMemory
import Telemetryd.TreeWalk
import Telemetryd.TreePaths
import Telemetryd.TreeChildren
import Telemetryd.Lib.Quantile
import Telemetryd.PerfPercentile
import Telemetryd.PerfDecode
import Telemetryd.Lib.RoseTree
import Telemetryd.Lib.IndexedTree
import Telemetryd.Topology
import Telemetryd.TopologyMoves
import Telemetryd.TopologyFaults
import Telemetryd.TopologyHealth
import Telemetryd.TopologyIds
import Telemetryd.Lib.ParentMap
import Telemetryd.TopologyMerge
import Telemetryd.Lib.X86Paging
import Telemetryd.PageAttributes
import Telemetryd.DoorbellWindow
import Telemetryd.TailWindow
import Telemetryd.QueueSnapshots
import Telemetryd.GenericGroups
import Telemetryd.Lib.FirstCome
import Telemetryd.FioGroups
import Telemetryd.FioJobs
import Telemetryd.Lib.Fallible
import Telemetryd.KernelThreads
import Telemetryd.Lib.JsonValue
import Telemetryd.Lib.TwoIndexes
import Telemetryd.DamagedState
import Telemetryd.DamagedRefresh
import Telemetryd.DamagedRecovery
import Telemetryd.OwnStateFile
import Telemetryd.Lib.WhileLoop
import Telemetryd.SessionIds
import Telemetryd.BusWalk
import Telemetryd.Lib.Generation
import Telemetryd.Dashboard
import Telemetryd.DashboardLinks
import Telemetryd.DashboardPolling
import Telemetryd.DashboardRequests
import Telemetryd.BackendExecutor
import Telemetryd.BackendFairness
import Telemetryd.StreamRelay
import Telemetryd.TopologyView
import Telemetryd.TopologyFirstView
import Telemetryd.Lib.DrawnTree
import Telemetryd.TopologyPrint
import Telemetryd.Hexdump
import Telemetryd.ProcessTimes
import Telemetryd.HistogramView
import Telemetryd.RenamedRuns
import Telemetryd.RenamedLogs
import Telemetryd.NameInterference
import Telemetryd.QueueTimes
import Telemetryd.CacheHistory
import Telemetryd.DeviceList
import Telemetryd.DriverEvents
import Telemetryd.CompletionQueue
import Telemetryd.PerfHistory
import Telemetryd.EventTable
