import PhpAgent.Agent.AppInfoTransport
import PhpAgent.Daemon.Protocol
import PhpAgent.Daemon.SlowSQLs

/-! Messages of the agent as the daemon reads them, after `commands.go`. A panic is none. -/
namespace PhpAgent

open Flatbuf

variable (fb : Runtime)

/-- An `int32` from its bits. -/
def int32OfBits (n : ℕ) : ℤ := (n : ℤ).bmod (2^32)

/-- `GetBool`, on the byte it reads. -/
def boolOfByte (n : ℕ) : Bool := n = 1

/-- A nil slice as a string. -/
def stringOf (b : Option Bytes) : Bytes := b.getD []

/-! ### Aggregation -/

/-- `TxnTrace`, in full. -/
structure FlatTrace where
  unixTimestampMillis : ℕ
  durationMillis : ℕ
  guid : Bytes
  syntheticsResourceID : Bytes
  forcePersist : Bool
  metricName : Bytes
  requestURI : Bytes
deriving DecidableEq

/-- What `AggregateInto` asks of the harvest. -/
inductive HarvestCall
  | addValue (name : String) (value : ℕ)
  | pid (pid : ℤ)
  | addTxnEvent (data : Option Bytes) (priority : ℕ)
  | addSyntheticsEvent (data : Option Bytes) (priority : ℕ)
  | addRaw (name : Option Bytes) (scope : Bytes) (data : List ℕ) (forced : Bool)
  | addError (priority : ℤ) (data : Option Bytes)
  | observe (slow : SlowSQL)
  | addCustomEvent (data : Option Bytes) (priority : ℕ)
  | addSpanEvent (data : Option Bytes) (priority : ℕ)
  | addLogEvent (data : Option Bytes) (priority : ℕ)
  | setLogForwardingLabels (data : Option Bytes)
  | addPhpPackages (data : Option Bytes)
  | addTxnTrace (trace : FlatTrace) (data : Option Bytes)
  | addErrorEvent (data : Option Bytes) (priority : ℕ)

/-- `for i := range n`: the elements of a vector of tables. A vector with a length is there, so the
zero value is never used. -/
def forElements {β : Type} (length : Option ℕ) (element : ℕ → Option (Option Table))
    (body : Table → Option β) : Option (List β) := do
  let n ← length
  (List.range n).mapM fun i => do
    let t ← element i
    body (t.getD Table.zero)

/-- `if x := …; x != nil`. -/
def ifPresent {β : Type} (table : Option (Option Table)) (body : Table → Option β) : Option (List β) := do
  let t ← table
  match t with
  | none => some []
  | some t =>
    let y ← body t
    return [y]

/-- One metric of `aggregateMetrics`, with the data of the metric before it. -/
def aggregateMetric (txn : Table) (txnName : Bytes) (i : ℕ) (data : Table) :
    Option (Table × List HarvestCall) := do
  let m ← Protocol.Transaction.metrics fb txn i
  let m := m.getD Table.zero
  let d ← Protocol.Metric.data fb m
  -- a metric without data leaves the variable as it was
  let data := d.getD data
  let count ← Protocol.MetricData.count fb data
  let total ← Protocol.MetricData.total fb data
  let exclusive ← Protocol.MetricData.exclusive fb data
  let min ← Protocol.MetricData.min fb data
  let max ← Protocol.MetricData.max fb data
  let sumSquares ← Protocol.MetricData.sumSquares fb data
  let forced ← Protocol.MetricData.forced fb data
  let name ← Protocol.Metric.name fb m
  let inScope ← Protocol.MetricData.«scoped» fb data
  let d := [count,total,exclusive,min,max,sumSquares]
  let unscoped := HarvestCall.addRaw name [] d (boolOfByte forced)
  return (data,if boolOfByte inScope then [unscoped,.addRaw name txnName d (boolOfByte forced)] else [unscoped])

def aggregateMetricsFrom (txn : Table) (txnName : Bytes) : List ℕ → Table → Option (List HarvestCall)
  | [],_ => some []
  | i :: is,data => do
    let (data,calls) ← aggregateMetric fb txn txnName i data
    let rest ← aggregateMetricsFrom txn txnName is data
    return calls++rest

/-- `aggregateMetrics`. -/
def aggregateMetrics (txn : Table) (txnName : Bytes) : Option (List HarvestCall) := do
  let n ← Protocol.Transaction.metricsLength fb txn
  aggregateMetricsFrom fb txn txnName (List.range n) Table.zero

def aggregateError (e : Table) : Option HarvestCall := do
  let priority ← Protocol.Error.priority fb e
  let data ← Protocol.Error.data fb e
  return .addError (int32OfBits priority) data

def aggregateSlowSQL (txnName requestURI : Bytes) (slowSQL : Table) : Option HarvestCall := do
  let id ← Protocol.SlowSQL.id fb slowSQL
  let count ← Protocol.SlowSQL.count fb slowSQL
  let total ← Protocol.SlowSQL.totalMicros fb slowSQL
  let min ← Protocol.SlowSQL.minMicros fb slowSQL
  let max ← Protocol.SlowSQL.maxMicros fb slowSQL
  let metric ← Protocol.SlowSQL.metric fb slowSQL
  let query ← Protocol.SlowSQL.query fb slowSQL
  let params ← Protocol.SlowSQL.params fb slowSQL
  return .observe ⟨UInt32.ofNat id,Int32.ofInt (int32OfBits count),UInt64.ofNat total,UInt64.ofNat min,
    UInt64.ofNat max,stringOf metric,stringOf query,txnName,requestURI,stringOf params⟩

def aggregateEvent (add : Option Bytes → HarvestCall) (e : Table) : Option HarvestCall := do
  let data ← Protocol.Event.data fb e
  return add data

def aggregateTrace (syntheticsResourceID txnName requestURI : Bytes) (trace : Table) :
    Option (List HarvestCall) := do
  let data ← Protocol.Trace.data fb trace
  let timestamp ← Protocol.Trace.timestamp fb trace
  let duration ← Protocol.Trace.duration fb trace
  let guid ← Protocol.Trace.guid fb trace
  let forcePersist ← Protocol.Trace.forcePersist fb trace
  return [.addValue "Supportability/TxnData/TraceSize" (stringOf data).length,
    .addTxnTrace ⟨timestamp,duration,stringOf guid,syntheticsResourceID,boolOfByte forcePersist,txnName,
      requestURI⟩ data]

/-- The transaction of a message: `msg.Data(&tbl)` and `txn.Init`. -/
def transactionOf (data : Bytes) : Option Table := do
  let msg ← Protocol.Message.getRoot fb data
  let tbl ← Protocol.Message.data fb msg
  return tbl.getD Table.zero

/-- `AggregateInto`, from the initialised transaction on. -/
def aggregateTransaction (size : ℕ) (txn : Table) : Option (List HarvestCall) := do
  let customEvents ← Protocol.Transaction.customEventsLength fb txn
  let metrics ← Protocol.Transaction.metricsLength fb txn
  let slowSQLs ← Protocol.Transaction.slowSqlsLength fb txn
  let name ← Protocol.Transaction.name fb txn
  let uri ← Protocol.Transaction.uri fb txn
  let priority ← Protocol.Transaction.samplingPriority fb txn
  let synthetics ← Protocol.Transaction.syntheticsResourceId fb txn
  let pid ← Protocol.Transaction.pid fb txn
  let txnName := stringOf name
  let requestURI := stringOf uri
  let syntheticsResourceID := stringOf synthetics
  let addEvent := fun data : Option Bytes =>
    if syntheticsResourceID = [] then HarvestCall.addTxnEvent data priority
    else .addSyntheticsEvent data priority
  let event ← ifPresent (Protocol.Transaction.txnEvent fb txn) (aggregateEvent fb addEvent)
  let metricCalls ← aggregateMetrics fb txn txnName
  let errors ← forElements (Protocol.Transaction.errorsLength fb txn) (Protocol.Transaction.errors fb txn)
    (aggregateError fb)
  let slows ← forElements (Protocol.Transaction.slowSqlsLength fb txn) (Protocol.Transaction.slowSqls fb txn)
    (aggregateSlowSQL fb txnName requestURI)
  let customs ← forElements (Protocol.Transaction.customEventsLength fb txn)
    (Protocol.Transaction.customEvents fb txn) (aggregateEvent fb fun data => .addCustomEvent data priority)
  let spans ← forElements (Protocol.Transaction.spanEventsLength fb txn)
    (Protocol.Transaction.spanEvents fb txn) (aggregateEvent fb fun data => .addSpanEvent data priority)
  let logs ← forElements (Protocol.Transaction.logEventsLength fb txn)
    (Protocol.Transaction.logEvents fb txn) (aggregateEvent fb fun data => .addLogEvent data priority)
  let labels ← ifPresent (Protocol.Transaction.logForwardingLabels fb txn)
    (aggregateEvent fb .setLogForwardingLabels)
  let packages ← ifPresent (Protocol.Transaction.phpPackages fb txn) (aggregateEvent fb .addPhpPackages)
  let trace ← ifPresent (Protocol.Transaction.trace fb txn)
    (aggregateTrace fb syntheticsResourceID txnName requestURI)
  let errorEvents ← forElements (Protocol.Transaction.errorEventsLength fb txn)
    (Protocol.Transaction.errorEvents fb txn) (aggregateEvent fb fun data => .addErrorEvent data priority)
  return [.addValue "Supportability/TxnData/Size" size,
      .addValue "Supportability/TxnData/CustomEvents" customEvents,
      .addValue "Supportability/TxnData/Metrics" metrics,
      .addValue "Supportability/TxnData/SlowSQL" slowSQLs,.pid (int32OfBits pid)]
    ++event++metricCalls++errors++slows++customs++spans++logs++labels++packages++trace.flatten++errorEvents

/-- `FlatTxn.AggregateInto`. -/
def aggregateInto (t : Bytes) : Option (List HarvestCall) := do
  let txn ← transactionOf fb t
  aggregateTransaction fb t.length txn

/-! ### Messages -/

/-- `AppInfo`, as it is read; JSON texts are not decoded. -/
structure FlatAppInfo where
  supportedPolicies : Option Bytes
  license : Bytes
  appname : Bytes
  agentLanguage : Bytes
  agentVersion : Bytes
  redirectCollector : Bytes
  environment : Option Bytes
  labels : Option Bytes
  metadata : Option Bytes
  hostname : Bytes
  hostDisplayName : Bytes
  securityPolicyToken : Bytes
  traceObserverHost : Bytes
  traceObserverPort : ℕ
  spanQueueSize : ℕ
  highSecurity : Bool
  dockerId : Bytes
  settings : Option Bytes
  spanEventLimit : ℤ
  logEventLimit : ℤ
  customEventLimit : ℤ
deriving DecidableEq

/-- `int(x)` of a `uint64`. -/
def intOfUint64 (n : ℕ) : ℤ := (n : ℤ).bmod (2^64)

/-- `UnmarshalAppInfo`. -/
def unmarshalAppInfo (app : Table) : Option FlatAppInfo := do
  let policies ← Protocol.App.supportedSecurityPolicies fb app
  let license ← Protocol.App.license fb app
  let appName ← Protocol.App.appName fb app
  let agentLanguage ← Protocol.App.agentLanguage fb app
  let agentVersion ← Protocol.App.agentVersion fb app
  let redirectCollector ← Protocol.App.redirectCollector fb app
  let environment ← Protocol.App.environment fb app
  let labels ← Protocol.App.labels fb app
  let metadata ← Protocol.App.metadata fb app
  let host ← Protocol.App.host fb app
  let displayHost ← Protocol.App.displayHost fb app
  let securityPolicyToken ← Protocol.App.securityPolicyToken fb app
  let traceObserverHost ← Protocol.App.traceObserverHost fb app
  let traceObserverPort ← Protocol.App.traceObserverPort fb app
  let spanQueueSize ← Protocol.App.spanQueueSize fb app
  let highSecurity ← Protocol.App.highSecurity fb app
  let dockerId ← Protocol.App.dockerId fb app
  let settings ← Protocol.App.settings fb app
  let span ← Protocol.App.spanEventsMaxSamplesStored fb app
  let log ← Protocol.App.logEventsMaxSamplesStored fb app
  let custom ← Protocol.App.customEventsMaxSamplesStored fb app
  return ⟨policies,stringOf license,stringOf appName,stringOf agentLanguage,stringOf agentVersion,
    stringOf redirectCollector,environment,labels,metadata,stringOf host,stringOf displayHost,
    stringOf securityPolicyToken,stringOf traceObserverHost,traceObserverPort,spanQueueSize,
    boolOfByte highSecurity,stringOf dockerId,settings,intOfUint64 span,intOfUint64 log,intOfUint64 custom⟩

/-- What `processBinary` asks of the handler. -/
inductive HandlerCall
  | incomingTxnData (id : Bytes) (txn : Bytes)
  | incomingAppInfo (id : Option Bytes) (info : FlatAppInfo)
  | incomingSpanBatch (id : Bytes) (count : ℕ) (batch : Option Bytes)

/-- What `processBinary` has asked, and the message or the error that it returns. -/
structure BinaryResult where
  call : Option HandlerCall
  reply : Except String (Option Flatbuf.Slots)

namespace Limits

def minFlatbufferSize : ℕ := 12

end Limits

def failed (error : String) : Option BinaryResult := some ⟨none,.error error⟩
def ignored : Option BinaryResult := some ⟨none,.ok none⟩

def processTransaction (data : Bytes) (msg : Table) : Option BinaryResult := do
  let tbl ← Protocol.Message.data fb msg
  match tbl with
  | none => failed "transaction missing message body"
  | some _ =>
    let id ← Protocol.Message.agentRunId fb msg
    if (stringOf id).length > 0 then some ⟨some (.incomingTxnData (stringOf id) data),.ok none⟩
    else failed "missing agent run id for txn data command"

/-- The application query. `answer` is what the handler gives for it; the builder fails where it has
no slot for a number. -/
def processApp (answer : AppInfoReply) (msg : Table) : Option BinaryResult := do
  let tbl ← Protocol.Message.data fb msg
  match tbl with
  | none => failed "app missing message body"
  | some tbl =>
    let info ← unmarshalAppInfo fb tbl
    let id ← Protocol.Message.agentRunId fb msg
    let reply ← answer.marshal fb
    return ⟨some (.incomingAppInfo id info),.ok (some reply)⟩

def processSpanBatch (msg : Table) : Option BinaryResult := do
  let tbl ← Protocol.Message.data fb msg
  match tbl with
  | none => failed "span batch missing message body"
  | some batch =>
    let id ← Protocol.Message.agentRunId fb msg
    if (stringOf id).length = 0 then failed "missing agent run id for span batch command"
    else do
      let count ← Protocol.SpanBatch.count fb batch
      let encoded ← Protocol.SpanBatch.encodedBytes fb batch
      return ⟨some (.incomingSpanBatch (stringOf id) count encoded),.ok none⟩

/-- The switch on the type of a message. -/
def processMessage (data : Bytes) (answer : AppInfoReply) (msg : Table) : Option BinaryResult := do
  let dataType ← Protocol.Message.dataType fb msg
  if dataType = Protocol.messageBodyTransaction then processTransaction fb data msg
  else if dataType = Protocol.messageBodyApp then processApp fb answer msg
  else if dataType = Protocol.messageBodySpanBatch then processSpanBatch fb msg
  else if dataType = Protocol.messageBodyNONE then ignored
  else if dataType = Protocol.messageBodyAppReply then ignored
  else failed "binary encoding not implemented"

/-- `processBinary`. -/
def processBinary (data : Bytes) (answer : AppInfoReply) : Option BinaryResult :=
  if data.length = 0 then ignored
  else do
    let offset ← fb.getUOffsetT data
    if (data.length : ℤ)-Limits.minFlatbufferSize ≤ offset then
      failed ("offset is too large, len=" ++ toString offset)
    else do
      let msg ← Protocol.Message.getRoot fb data
      processMessage fb data answer msg

end PhpAgent
