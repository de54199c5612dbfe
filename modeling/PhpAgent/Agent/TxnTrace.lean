import PhpAgent.Agent.TraceContext
import PhpAgent.Util.Metrics

/-! Accepting and creating distributed traces on a transaction, after `nr_txn.c`. -/
namespace PhpAgent

/-- The options of a transaction that decide about distributed traces. -/
structure TraceOptions where
  distributedTracingEnabled : Bool
  distributedTracingExcludeNewrelicHeader : Bool
  spanEventsEnabled : Bool
  analyticsEventsEnabled : Bool
  dtSamplerParentSampled : NrDistributedTrace.ParentSampling
  dtSamplerParentNotSampled : NrDistributedTrace.ParentSampling

/-- The members of `nrtxn_t` that the functions below use. -/
structure TraceTxn where
  options : TraceOptions
  appConnectReply : NrObj
  background : Bool
  startTime : UInt64
  dtInbound : Bool
  distributedTrace : Option NrDistributedTrace
  unscopedMetrics : NrmTable

/-- What the functions below take from elsewhere: the hash of a metric name, the parser of JSON
texts, the regular expressions and the rounding to a double. -/
structure TraceEnv where
  hash : Bytes → UInt32
  fromJson : Bytes → Option NrObj
  regex : TraceRegex
  nearest : ℚ≥0 → Double

/-- A segment as a creation sees it: whether it belongs to the transaction, and the identifier that
`nr_segment_ensure_id` gives. -/
structure TraceSegment where
  ownTxn : Bool
  id : Option Bytes

namespace TraceTxn

variable (env : TraceEnv)

/-- `nr_txn_force_single_count`. -/
def forceSingleCount (txn : TraceTxn) (name : Bytes) : TraceTxn :=
  { txn with unscopedMetrics := txn.unscopedMetrics.forceAdd env.hash name 0 }

def isAccountTrustedDt (txn : TraceTxn) (trustedKey : Option Bytes) : Bool :=
  trustedKey ≠ none ∧ trustedKey = txn.appConnectReply.getHashString "trusted_account_key"

/-! ### Creating -/

/-- `nr_txn_create_w3c_traceparent_header`; `guid` is the random identifier that is sent when the
segment has none. -/
def createW3cTraceparentHeader (txn : TraceTxn) (spanId : Option Bytes) (guid : Bytes) :
    Option Bytes × TraceTxn :=
  let header := txn.distributedTrace.bind fun dt =>
    NrDistributedTrace.createW3cTraceparentHeader dt.traceId (some (spanId.getD guid)) dt.sampled
  match header with
  | some header => (some header,txn.forceSingleCount env DtMetric.w3cCreateSuccess)
  | none => (none,txn.forceSingleCount env DtMetric.w3cCreateException)

/-- `nr_txn_create_w3c_tracestate_header`, which changes nothing. -/
def createW3cTracestateHeader (txn : TraceTxn) (spanId : Option Bytes) (now : UInt64) :
    Option Bytes :=
  NrDistributedTrace.createW3cTracestateHeader txn.distributedTrace
    (if txn.options.spanEventsEnabled then spanId else none)
    (if txn.options.analyticsEventsEnabled then txn.distributedTrace.bind (·.txnId) else none) now

/-- `nr_txn_create_distributed_trace_payload`. -/
def createDistributedTracePayload (txn : TraceTxn) (segment : Option TraceSegment)
    (now : UInt64) : Option Bytes × TraceTxn :=
  let text := segment.bind fun segment =>
    if ¬txn.options.distributedTracingEnabled then none
    else if txn.options.distributedTracingExcludeNewrelicHeader then none
    else if ¬txn.options.spanEventsEnabled ∧ ¬txn.options.analyticsEventsEnabled then none
    else if ¬segment.ownTxn then none
    else NrDistributedTrace.payloadAsText ⟨txn.distributedTrace,segment.id,now⟩
  match text with
  | some text => (some text,txn.forceSingleCount env DtMetric.createSuccess)
  | none => (none,txn.forceSingleCount env DtMetric.createException)

/-! ### Accepting -/

/-- `nr_txn_accept_new_relic_header`. -/
def acceptNewRelicHeader (txn : TraceTxn) (nrHeader transportType : Option Bytes) :
    Bool × TraceTxn :=
  match txn.distributedTrace with
  | none => (false,txn)
  | some dt =>
    match NrDistributedTrace.convertPayloadToObject env.fromJson nrHeader with
    | .error e => (false,txn.forceSingleCount env e)
    | .ok payload =>
      let trustedKey := (NrDistributedTrace.objectGetTrustedKey payload).or
        (NrDistributedTrace.objectGetAccountId payload)
      if ¬txn.isAccountTrustedDt trustedKey then
        (false,txn.forceSingleCount env DtMetric.acceptUntrustedAccount)
      else
        match NrDistributedTrace.acceptInboundPayload (some dt) (some payload) transportType with
        | .error e => (false,txn.forceSingleCount env e)
        | .ok dt => (true,{ txn with distributedTrace := some dt })

def countError (txn : TraceTxn) (e : Option Bytes) : TraceTxn := e.elim txn (txn.forceSingleCount env)

/-- `nr_txn_accept_w3c_trace_context_headers`. What the distributed trace answers is not looked at
but for its error metric. -/
def acceptW3cTraceContextHeaders (txn : TraceTxn)
    (traceparent tracestate transportType : Option Bytes) : Bool × TraceTxn :=
  match txn.distributedTrace with
  | none => (false,txn)
  | some dt =>
    if ¬txn.options.distributedTracingEnabled then (false,txn)
    else
      let trustedAccountKey := txn.appConnectReply.getHashString "trusted_account_key"
      let (e,traceHeaders) := NrDistributedTrace.convertW3cHeadersToObject env.regex env.nearest
        traceparent tracestate trustedAccountKey
      let txn := txn.countError env e
      match traceHeaders with
      | none => (false,txn)
      | some traceHeaders =>
        let answer :=
          NrDistributedTrace.acceptInboundW3cPayload (some dt) (some traceHeaders) transportType
        let (e,dt) : Option Bytes × NrDistributedTrace :=
          match answer with
          | .error e => (some e,dt)
          | .ok dt => (none,dt)
        let dt := dt.handleInboundW3cSampledFlag traceHeaders txn.options.dtSamplerParentSampled
          txn.options.dtSamplerParentNotSampled
        let txn := { txn with distributedTrace := some dt }.countError env e
        (true,txn.forceSingleCount env DtMetric.w3cAcceptSuccess)

/-- `nr_txn_create_dt_metrics`. -/
def createDtMetrics (txn : TraceTxn) (metricPrefix : Bytes) (value : ℤ) : TraceTxn :=
  let unknown := ascii "Unknown"
  let slash := fun (a b : Bytes) => a ++ Json.code '/' :: b
  let metricName : Bytes :=
    match txn.distributedTrace with
    | some dt =>
      if dt.inbound.set then
        slash (dt.inbound.type.getD unknown) <| slash (dt.inbound.accountId.getD unknown) <|
          slash (dt.inbound.appId.getD unknown) (dt.inbound.transportType.getD (ascii "(null)"))
      else ascii "Unknown/Unknown/Unknown/Unknown"
    | none => ascii "Unknown/Unknown/Unknown/Unknown"
  let suffix := if txn.background then ascii "allOther" else ascii "allWeb"
  let duration := UInt64.ofNat (toUint64 value)
  let metrics := txn.unscopedMetrics.forceAdd env.hash
    (slash metricPrefix (slash metricName (ascii "all"))) duration
  { txn with
    unscopedMetrics := metrics.forceAdd env.hash
      (slash metricPrefix (slash metricName suffix)) duration }

/-- `nr_distributed_trace_inbound_get_timestamp_delta`. -/
def timestampDelta (txn : TraceTxn) : UInt64 :=
  match txn.distributedTrace with
  | none => 0
  | some dt => if txn.startTime < dt.inbound.timestamp then 0 else txn.startTime-dt.inbound.timestamp

/-- A header map by name. -/
abbrev HeaderMap : Type := List (Bytes × Bytes)

def createSuccessful (txn : TraceTxn) : Bool :=
  (txn.unscopedMetrics.find env.hash DtMetric.createSuccess).isSome ||
    (txn.unscopedMetrics.find env.hash DtMetric.w3cCreateSuccess).isSome

def inboundIsSet (txn : TraceTxn) : Bool := txn.distributedTrace.any (·.inbound.set)

/-- What follows a header that was accepted. -/
def acceptSucceeded (txn : TraceTxn) (transportType : Option Bytes) : TraceTxn :=
  let transportType := transportType.or
    (some (if txn.background then ascii "Unknown" else ascii "HTTP"))
  let txn : TraceTxn := { txn with
    distributedTrace := txn.distributedTrace.map fun dt => dt.inboundSetTransportType transportType }
  let txn := txn.forceSingleCount env DtMetric.acceptSuccess
  let value := toInt (txn.timestampDelta / 1000000).toNat
  let txn := txn.createDtMetrics env (ascii "TransportDuration") value
  { txn with dtInbound := true }

/-- `nr_txn_accept_distributed_trace_payload`. -/
def acceptDistributedTracePayload (txn : TraceTxn) (headerMap : HeaderMap)
    (transportType : Option Bytes) : Bool × TraceTxn :=
  let traceparent := headerMap.lookup (ascii "traceparent")
  let tracestate := headerMap.lookup (ascii "tracestate")
  let nrHeader := headerMap.lookup (ascii "newrelic")
  if txn.distributedTrace = none then (false,txn)
  else if ¬txn.options.distributedTracingEnabled then
    (false,txn.forceSingleCount env DtMetric.acceptException)
  else if txn.inboundIsSet then (false,txn.forceSingleCount env DtMetric.acceptMultiple)
  else if txn.createSuccessful env then
    (false,txn.forceSingleCount env DtMetric.acceptCreateBeforeAccept)
  else
    let (status,txn) :=
      if traceparent.isSome then
        txn.acceptW3cTraceContextHeaders env traceparent tracestate transportType
      else txn.acceptNewRelicHeader env nrHeader transportType
    if ¬status then (false,txn) else (true,txn.acceptSucceeded env transportType)

end TraceTxn
end PhpAgent
