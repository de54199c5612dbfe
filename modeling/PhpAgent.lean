import PhpAgent.Agent.AppHarvest
import PhpAgent.Agent.AppInfoQuery
import PhpAgent.Agent.AttributesOrder
import PhpAgent.Agent.Header
import PhpAgent.Agent.PackagePriority
import PhpAgent.Agent.PayloadRequired
import PhpAgent.Agent.PostgresParse
import PhpAgent.Agent.RulesAgree
import PhpAgent.Agent.RulesBuffersFit
import PhpAgent.Agent.Rum
import PhpAgent.Agent.SegmentAttributes
import PhpAgent.Agent.SegmentTermsExact
import PhpAgent.Agent.SqsQueueUrl
import PhpAgent.Agent.TraceContextOmitted
import PhpAgent.Agent.TxnTraceRuns
import PhpAgent.Agent.TxndataRoundTrip
import PhpAgent.Agent.WraprecHashmap
import PhpAgent.Daemon.CommandsSafety
import PhpAgent.Daemon.ConfigQuoted
import PhpAgent.Daemon.ConnectRetry
import PhpAgent.Daemon.EventLimits
import PhpAgent.Daemon.EventReservoir
import PhpAgent.Daemon.EventRetries
import PhpAgent.Daemon.ForcedMetrics
import PhpAgent.Daemon.HarvestMetrics
import PhpAgent.Daemon.HarvestTriggerRuns
import PhpAgent.Daemon.MetricRenames
import PhpAgent.Daemon.NoPhoneHome
import PhpAgent.Daemon.OtlpHistogram
import PhpAgent.Daemon.OtlpSeries
import PhpAgent.Daemon.OtlpTraceIds
import PhpAgent.Daemon.SegmentTreeRoundTrip
import PhpAgent.Daemon.TraceObserverQueue
import PhpAgent.Daemon.TraceObserverShutdown
import PhpAgent.Daemon.TxnTraces
import PhpAgent.Segment.BlockedRuns
import PhpAgent.Segment.DiscardTime
import PhpAgent.Segment.GraphWalk
import PhpAgent.Segment.Sampling
import PhpAgent.Segment.SpanBatches
import PhpAgent.Segment.SpanEncoding
import PhpAgent.Segment.SpanOnce
import PhpAgent.Segment.WalkRuns
import PhpAgent.Util.BufferQueue
import PhpAgent.Util.FlatbufferRoundTrip
import PhpAgent.Util.HashmapRefines
import PhpAgent.Util.Matcher
import PhpAgent.Util.MetricsRuns
import PhpAgent.Util.MinmaxHeapPeek
import PhpAgent.Util.Obfuscate
import PhpAgent.Util.ObjectArray
import PhpAgent.Util.ObjectParseBounds
import PhpAgent.Util.SqlNormalize
import PhpAgent.Util.UrlProxy
import PhpAgent.Util.UrlUserinfo
