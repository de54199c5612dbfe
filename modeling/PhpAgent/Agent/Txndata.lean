import PhpAgent.Agent.Labels
import PhpAgent.Agent.LogEvents
import PhpAgent.Agent.PhpPackages
import PhpAgent.Agent.TxndataMetrics
import PhpAgent.Agent.TxndataSpans

/-! The transaction message of the agent, after `cmd_txndata_transmit.c`. -/
namespace PhpAgent.Txndata
open Flat FlatBuilder FlatBuilder.Builder BuiltTables AgentMessage

/-! ### The transaction -/

/-- A trace with its JSON. The times are the bits of doubles. -/
structure Trace where
  json : Bytes
  guid : Option Bytes
  forcePersist : ℤ
  durationMs : ℤ
  timestampMs : ℤ

/-- `nrtxn_t`, as far as it is sent. Events, errors and the trace are given by the JSON that is made of
them, and floats by their bits. -/
structure Txn (E β : Type) (mkhash : Bytes → UInt32) where
  trace : Option Trace
  spanEvents : List E
  spanEventLimit : ℕ
  logEvents : Option (LogEvents β)
  logEventLimit : ℕ
  logForwardingLabels : Option NrObj
  errorEvent : Option Bytes
  customEvents : List Bytes
  slowsqls : NrSlowsqls
  error : Option (Bytes × ℤ)
  scopedMetrics : NrmTable
  unscopedMetrics : NrmTable
  phpPackages : Option (NrPhpPackages mkhash)
  txnEvent : Option Bytes
  syntheticsResourceId : Option Bytes
  requestUri : Option Bytes
  name : Option Bytes
  samplingPriority : ℤ
  agentRunId : Option Bytes

/-- What makes the JSON of span and log events, and doubles of times. -/
structure Encoders (E β : Type) where
  span : E → Option Bytes
  log : LogEvent β → Option Bytes
  doubles : Doubles

/-! ### Events -/

/-- A table with the JSON of an event. -/
def prependEvent (malloc : ℕ → ℕ) (json : Bytes) : Builder → Except FlatBuilder.Fault (ℕ × Builder) :=
  prependTextTable malloc fun fb => fb.prependString malloc (some json)

/-- `nr_txndata_prepend_custom_events`, from the last event on. -/
def prependCustomEvents (malloc : ℕ → ℕ) (customEvents : List Bytes) :
    Builder → Except FlatBuilder.Fault (ℕ × Builder) :=
  prependEach malloc (prependEvent malloc) customEvents.reverse

/-- `nr_txndata_prepend_error_events`. -/
def prependErrorEvents (malloc : ℕ → ℕ) (errorEvent : Option Bytes) :
    Builder → Except FlatBuilder.Fault (ℕ × Builder) :=
  prependEach malloc (prependEvent malloc) errorEvent.toList

/-- `nr_txndata_prepend_txn_event`. -/
def prependTxnEvent (malloc : ℕ → ℕ) (txnEvent : Option Bytes) : Builder → Except FlatBuilder.Fault (ℕ × Builder) :=
  prependMaybe (prependEvent malloc) txnEvent

/-- How many log events are sent. -/
def logEventCount {β : Type} (logEvents : Option (LogEvents β)) (logEventLimit : ℕ) : ℕ :=
  if logEventLimit < LogEvents.numberSaved logEvents then logEventLimit else LogEvents.numberSaved logEvents

/-- `nr_txndata_prepend_log_events`. -/
def prependLogEvents {β : Type} [Inhabited β] (malloc : ℕ → ℕ) (encode : LogEvent β → Option Bytes)
    (logEvents : Option (LogEvents β)) (logEventLimit : ℕ) (fb : Builder) : Except FlatBuilder.Fault (ℕ × Builder) :=
  if LogEvents.numberSaved logEvents = 0 then .ok (0,fb)
  else
    let eventCount := logEventCount logEvents logEventLimit
    match LogEvents.toVector logEvents ⟨eventCount,[],Nat.zero_le _⟩ with
    | none => .error .outside
    | some eventsVec => do
      let (offsets,fb) ← (List.range eventCount).foldlM (TxndataSpans.encodeRound malloc encode eventsVec.elements)
        (List.replicate eventCount 0,fb)
      prependVector malloc offsets fb

/-- `nr_txndata_prepend_log_forwarding_labels`. -/
def prependLogForwardingLabels (malloc : ℕ → ℕ) (logLabels : Option NrObj) :
    Builder → Except FlatBuilder.Fault (ℕ × Builder) :=
  prependEvent malloc (Labels.connectorFormat logLabels).toJson

/-- The JSON of the packages, when there are any. -/
def packagesJson {mkhash : Bytes → UInt32} (phpPackages : Option (NrPhpPackages mkhash)) : Option Bytes :=
  (phpPackages.filter fun h => h.data.entries.length ≠ 0).map NrPhpPackages.toJson

/-- `nr_txndata_prepend_php_packages`. -/
def prependPhpPackages {mkhash : Bytes → UInt32} (malloc : ℕ → ℕ) (phpPackages : Option (NrPhpPackages mkhash)) :
    Builder → Except FlatBuilder.Fault (ℕ × Builder) :=
  prependMaybe (prependEvent malloc) (packagesJson phpPackages)

/-! ### Traces, errors and statements -/

/-- The fields of `Trace` in the order in which they are written. -/
def traceFields (malloc : ℕ → ℕ) (trace : Trace) (data guid : ℕ) : List FieldWrite :=
  [.uoffset malloc 4 data,.uoffset malloc 2 guid,.bool malloc 3 trace.forcePersist 0,
    .number malloc .f64 1 trace.durationMs 0,.number malloc .f64 0 trace.timestampMs 0]

/-- `nr_txndata_prepend_trace_to_flatbuffer`. -/
def prependTrace (malloc : ℕ → ℕ) (trace : Trace) (fb : Builder) : Except FlatBuilder.Fault (ℕ × Builder) := do
  let (data,fb) ← fb.prependString malloc (some trace.json)
  let (guid,fb) ← fb.prependString malloc trace.guid
  prependObject malloc 5 ((traceFields malloc trace data guid).map FieldWrite.write) fb

/-- The fields of `Error` in the order in which they are written. -/
def errorFields (malloc : ℕ → ℕ) (priority : ℤ) (data : ℕ) : List FieldWrite :=
  [.uoffset malloc 1 data,.number malloc .i32 0 priority 0]

/-- `nr_txndata_prepend_errors`. There is one error at most. -/
def prependErrors (malloc : ℕ → ℕ) (error : Option (Bytes × ℤ)) : Builder → Except FlatBuilder.Fault (ℕ × Builder) :=
  prependEach malloc (fun e fb => do
    let (data,fb) ← fb.prependString malloc (some e.1)
    prependObject malloc 2 ((errorFields malloc e.2 data).map FieldWrite.write) fb) error.toList

/-- The fields of `SlowSQL` in the order in which they are written. `NR_TIME_DIVISOR_US` is 1. -/
def slowsqlFields (malloc : ℕ → ℕ) (slow : NrSlowsql) (params query metric : ℕ) : List FieldWrite :=
  [.uoffset malloc 7 params,.uoffset malloc 6 query,.uoffset malloc 5 metric,
    .number malloc .u64 4 slow.maxTime.toNat 0,.number malloc .u64 3 slow.minTime.toNat 0,
    .number malloc .u64 2 slow.total.toNat 0,.number malloc .i32 1 slow.count 0,.number malloc .u32 0 slow.sqlId.toNat 0]

def prependSlowsql (malloc : ℕ → ℕ) (slow : NrSlowsql) (fb : Builder) : Except FlatBuilder.Fault (ℕ × Builder) := do
  let (params,fb) ← fb.prependString malloc (some slow.paramsJson)
  let (query,fb) ← fb.prependString malloc (some slow.sql)
  let (metric,fb) ← fb.prependString malloc (some slow.metricName)
  prependObject malloc 8 ((slowsqlFields malloc slow params query metric).map FieldWrite.write) fb

/-- `nr_txndata_prepend_slowsqls`, where both loops go backwards. -/
def prependSlowsqls (malloc : ℕ → ℕ) (slowsqls : NrSlowsqls) (fb : Builder) :
    Except FlatBuilder.Fault (ℕ × Builder) :=
  if slowsqls.slowsqls.length = 0 then .ok (0,fb)
  else do
    let (offsets,fb) ← forEach (prependSlowsql malloc) slowsqls.slowsqls.reverse fb
    prependVector malloc offsets.reverse fb

/-! ### The message -/

/-- What the fields of a transaction lead to. -/
structure Offsets where
  txnTrace : ℕ
  spanEvents : ℕ
  logEvents : ℕ
  logLabels : ℕ
  errorEvents : ℕ
  customEvents : ℕ
  slowsqls : ℕ
  errors : ℕ
  metrics : ℕ
  phpPackages : ℕ
  txnEvent : ℕ
  resourceId : ℕ
  requestUri : ℕ
  name : ℕ

/-- The fields of `Transaction` in the order in which they are written. -/
def transactionFields (malloc : ℕ → ℕ) (samplingPriority pid : ℤ) (x : Offsets) : List FieldWrite :=
  [.number malloc .f64 11 samplingPriority 0,.uoffset malloc 10 x.errorEvents,.uoffset malloc 9 x.txnTrace,
    .uoffset malloc 8 x.customEvents,.uoffset malloc 7 x.slowsqls,.uoffset malloc 6 x.errors,.uoffset malloc 5 x.metrics,
    .uoffset malloc 4 x.txnEvent,.number malloc .i32 3 pid 0,.uoffset malloc 2 x.resourceId,
    .uoffset malloc 1 x.requestUri,.uoffset malloc 0 x.name,.uoffset malloc 12 x.spanEvents,
    .uoffset malloc 13 x.logEvents,.uoffset malloc 14 x.phpPackages,.uoffset malloc 15 x.logLabels]

section Transaction
variable {E β : Type} {mkhash : Bytes → UInt32} [Inhabited β]

/-- The text of `nr_txndata_prepend_request_uri`. -/
def requestUriText (txn : Txn E β mkhash) : Bytes := txn.requestUri.getD (ascii "<unknown>")

/-- `nr_txndata_prepend_transaction`. -/
def prependTransaction (malloc : ℕ → ℕ) (enc : Encoders E β) (txn : Txn E β mkhash) (pid : ℤ) (fb : Builder) :
    Except FlatBuilder.Fault (ℕ × Builder) := do
  let (txnTrace,fb) ← prependMaybe (prependTrace malloc) txn.trace fb
  let (spanEvents,fb) ← TxndataSpans.prependSpanEvents malloc enc.span fb txn.spanEvents txn.spanEventLimit
  let (logEvents,fb) ← prependLogEvents malloc enc.log txn.logEvents txn.logEventLimit fb
  let (logLabels,fb) ← prependLogForwardingLabels malloc txn.logForwardingLabels fb
  let (errorEvents,fb) ← prependErrorEvents malloc txn.errorEvent fb
  let (customEvents,fb) ← prependCustomEvents malloc txn.customEvents fb
  let (slowsqls,fb) ← prependSlowsqls malloc txn.slowsqls fb
  let (errors,fb) ← prependErrors malloc txn.error fb
  let (metrics,fb) ← prependMetrics malloc enc.doubles txn.scopedMetrics txn.unscopedMetrics fb
  let (phpPackages,fb) ← prependPhpPackages malloc txn.phpPackages fb
  let (txnEvent,fb) ← prependTxnEvent malloc txn.txnEvent fb
  let (resourceId,fb) ← fb.prependString malloc txn.syntheticsResourceId
  let (requestUri,fb) ← fb.prependString malloc (some (requestUriText txn))
  let (name,fb) ← fb.prependString malloc txn.name
  let x : Offsets := ⟨txnTrace,spanEvents,logEvents,logLabels,errorEvents,customEvents,slowsqls,errors,metrics,
    phpPackages,txnEvent,resourceId,requestUri,name⟩
  prependObject malloc 16 ((transactionFields malloc txn.samplingPriority pid x).map FieldWrite.write) fb

/-- `nr_txndata_encode`. -/
def encode (malloc : ℕ → ℕ) (enc : Encoders E β) (txn : Txn E β mkhash) (pid : ℤ) : Except FlatBuilder.Fault Bytes :=
  encodeMessage malloc (prependTransaction malloc enc txn pid) .txn txn.agentRunId

/-- The message that `nr_cmd_txndata_tx` writes. -/
def transmit (malloc : ℕ → ℕ) (enc : Encoders E β) (txn : Txn E β mkhash) (pid : ℤ) :
    Except FlatBuilder.Fault Transmission := do
  let msg ← encode malloc enc txn pid
  return checked msg

end Transaction

/-! ### What is in a transaction -/

/-- The fields of a trace. -/
structure TraceAt (trace : Trace) (o : ℕ) (used : Bytes) : Prop where
  data : HasText used o 4 (some trace.json)
  guid : HasText used o 2 trace.guid
  forcePersist : HasNumber used o 3 .u8 (truth trace.forcePersist)
  duration : HasNumber used o 1 .f64 trace.durationMs
  timestamp : HasNumber used o 0 .f64 trace.timestampMs

/-- The fields of an error. -/
structure ErrorAt (e : Bytes × ℤ) (o : ℕ) (used : Bytes) : Prop where
  data : HasText used o 1 (some e.1)
  priority : HasNumber used o 0 .i32 e.2

/-- The fields of a statement. -/
structure SlowsqlAt (slow : NrSlowsql) (o : ℕ) (used : Bytes) : Prop where
  params : HasText used o 7 (some slow.paramsJson)
  query : HasText used o 6 (some slow.sql)
  metric : HasText used o 5 (some slow.metricName)
  max : HasNumber used o 4 .u64 slow.maxTime.toNat
  min : HasNumber used o 3 .u64 slow.minTime.toNat
  total : HasNumber used o 2 .u64 slow.total.toNat
  count : HasNumber used o 1 .i32 slow.count
  id : HasNumber used o 0 .u32 slow.sqlId.toNat

/-- The table of an event. -/
def EventAt (json : Bytes) (o : ℕ) (used : Bytes) : Prop := TextTableAt (some json) o used

lemma lasting_traceAt (trace : Trace) (o : ℕ) : Lasting (TraceAt trace o) := fun _ _ h hused =>
  ⟨lasting_hasText o _ _ h.data hused,lasting_hasText o _ _ h.guid hused,lasting_hasNumber o _ _ _ h.forcePersist hused,
    lasting_hasNumber o _ _ _ h.duration hused,lasting_hasNumber o _ _ _ h.timestamp hused⟩

lemma lasting_errorAt (e : Bytes × ℤ) (o : ℕ) : Lasting (ErrorAt e o) := fun _ _ h hused =>
  ⟨lasting_hasText o _ _ h.data hused,lasting_hasNumber o _ _ _ h.priority hused⟩

lemma lasting_slowsqlAt (slow : NrSlowsql) (o : ℕ) : Lasting (SlowsqlAt slow o) := fun _ _ h hused =>
  ⟨lasting_hasText o _ _ h.params hused,lasting_hasText o _ _ h.query hused,lasting_hasText o _ _ h.metric hused,
    lasting_hasNumber o _ _ _ h.max hused,lasting_hasNumber o _ _ _ h.min hused,lasting_hasNumber o _ _ _ h.total hused,
    lasting_hasNumber o _ _ _ h.count hused,lasting_hasNumber o _ _ _ h.id hused⟩

lemma lasting_eventAt (json : Bytes) (o : ℕ) : Lasting (EventAt json o) := lasting_textTableAt (some json) o

/-- The event of a span or a log is such a table. -/
theorem eventAt_of_encoded {used : Bytes} {o : ℕ} {json : Bytes} (h : TxndataSpans.EventAt used o json) :
    EventAt json o used := by
  obtain ⟨fields,target,htable,⟨place,htarget,hplace,hfield,hlies⟩,hjson⟩ := h
  have hlen := hjson.length_le
  rw [List.length_append,length_lowBytes] at hlen
  refine ⟨target,⟨fields,place,htable,hplace,?_,?_⟩,by omega,hjson⟩
  · rw [if_neg (by omega)]
    exact hfield
  · change Leads used place target
    rw [Leads,if_neg (by omega)]
    exact ⟨htarget,hlies⟩

end PhpAgent.Txndata
