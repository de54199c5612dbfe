import PhpAgent.Daemon.Harvest
import PhpAgent.Lib.JsonStruct

/-! The harvest settings of a connect reply, after `collector/event_data.go`, `app.go` and
`harvest_trigger.go`. -/
namespace PhpAgent

open Json

/-! ### The raw configurations -/

/-- `rawHarvestLimits`. -/
structure RawHarvestLimits where
  errorEventData : Option ℤ := none
  analyticEventData : Option ℤ := none
  customEventData : Option ℤ := none
  spanEventData : Option ℤ := none
  logEventData : Option ℤ := none
deriving DecidableEq

/-- `rawEventHarvestConfig`. -/
structure RawEventHarvestConfig where
  reportPeriodMS : ℕ
  harvestLimits : RawHarvestLimits
deriving DecidableEq

/-- `rawSpanEventHarvestConfig`. -/
structure RawSpanEventHarvestConfig where
  reportPeriodMS : ℕ
  spanEventData : Option ℤ
deriving DecidableEq

def RawHarvestLimits.fields : List (StructField RawHarvestLimits) := [
  ⟨ascii "error_event_data",fun v s => (decodeIntPtr v).map fun x => { s with errorEventData := x }⟩,
  ⟨ascii "analytic_event_data",fun v s => (decodeIntPtr v).map fun x => { s with analyticEventData := x }⟩,
  ⟨ascii "custom_event_data",fun v s => (decodeIntPtr v).map fun x => { s with customEventData := x }⟩,
  ⟨ascii "span_event_data",fun v s => (decodeIntPtr v).map fun x => { s with spanEventData := x }⟩,
  ⟨ascii "log_event_data",fun v s => (decodeIntPtr v).map fun x => { s with logEventData := x }⟩]

def RawEventHarvestConfig.fields : List (StructField RawEventHarvestConfig) := [
  ⟨ascii "report_period_ms",fun v s =>
    (decodeUint64 v s.reportPeriodMS).map fun x => { s with reportPeriodMS := x }⟩,
  ⟨ascii "harvest_limits",fun v s =>
    (decodeStruct RawHarvestLimits.fields v s.harvestLimits).map fun x => { s with harvestLimits := x }⟩]

def RawSpanEventHarvestConfig.fields : List (StructField RawSpanEventHarvestConfig) := [
  ⟨ascii "report_period_ms",fun v s =>
    (decodeUint64 v s.reportPeriodMS).map fun x => { s with reportPeriodMS := x }⟩,
  ⟨ascii "harvest_limit",fun v s => (decodeIntPtr v).map fun x => { s with spanEventData := x }⟩]

/-! ### The configurations -/

/-- `durationToMilliseconds`; none is the error about a negative duration. -/
def durationToMilliseconds (d : Duration) : Option ℕ := if d < 0 then none else some (d.tdiv millisecond).toNat

/-- `time.Duration(ms) * time.Millisecond`, at 64 bits. -/
def ofMilliseconds (ms : ℕ) : Duration := (ms*millisecond).bmod (2^64)

/-- The report period of the collector, which cannot be zero. -/
def collectorPeriod (reportPeriodMS : ℕ) : Duration :=
  if reportPeriodMS = 0 then Limits.defaultReportPeriod else ofMilliseconds reportPeriodMS

/-- `getEventConfig`; none is the error about a negative limit. -/
def getEventConfig (rawLimit : Option ℤ) (collectorRate : Duration) (defaultLimit : ℤ)
    (defaultRate : Duration) : Option EventConfig :=
  match rawLimit with
  | none => some ⟨defaultLimit,defaultRate⟩
  | some limit => if limit < 0 then none else some ⟨min limit defaultLimit,collectorRate⟩

/-- `EventHarvestConfig.UnmarshalJSON`, which sets everything. -/
def EventHarvestConfig.unmarshalJSON (b : Bytes) : Option EventHarvestConfig := do
  let reportPeriodMs ← durationToMilliseconds Limits.defaultReportPeriod
  let rawConfig ← decodeStruct RawEventHarvestConfig.fields b ⟨reportPeriodMs,{}⟩
  let reportPeriod := collectorPeriod rawConfig.reportPeriodMS
  let rawLimits := rawConfig.harvestLimits
  let error ← getEventConfig rawLimits.errorEventData reportPeriod Limits.maxErrorEvents
    Limits.defaultReportPeriod
  let analytic ← getEventConfig rawLimits.analyticEventData reportPeriod Limits.maxTxnEvents
    Limits.defaultReportPeriod
  let custom ← getEventConfig rawLimits.customEventData reportPeriod Limits.maxCustomMaxEvents
    Limits.defaultReportPeriod
  let span ← getEventConfig rawLimits.spanEventData reportPeriod Limits.maxSpanMaxEvents
    Limits.defaultReportPeriod
  let log ← getEventConfig rawLimits.logEventData reportPeriod Limits.maxLogMaxEvents
    Limits.defaultReportPeriod
  return ⟨reportPeriod,⟨error,analytic,custom,span,log⟩⟩

/-- `SpanEventHarvestConfig`. -/
structure SpanEventHarvestConfig where
  spanEventConfig : EventConfig
deriving DecidableEq

/-- `SpanEventHarvestConfig.UnmarshalJSON`, which sets everything. -/
def SpanEventHarvestConfig.unmarshalJSON (b : Bytes) : Option SpanEventHarvestConfig := do
  let reportPeriodMs ← durationToMilliseconds Limits.defaultReportPeriod
  let rawConfig ← decodeStruct RawSpanEventHarvestConfig.fields b
    ⟨reportPeriodMs,some Limits.maxSpanMaxEvents⟩
  let reportPeriod := collectorPeriod rawConfig.reportPeriodMS
  let harvestConfig ← getEventConfig rawConfig.spanEventData reportPeriod Limits.maxSpanMaxEvents
    Limits.defaultReportPeriod
  return ⟨harvestConfig⟩

/-! ### The reply -/

/-- `ConnectReply` while it is decoded. -/
structure RawConnectReply where
  id : Option Bytes
  samplingFrequency : ℤ
  samplingTarget : ℤ
  eventHarvestConfig : EventHarvestConfig
  spanEventHarvestConfig : SpanEventHarvestConfig
  maxPayloadSizeInBytes : ℤ
deriving DecidableEq

/-- A `map[string]string` can be decoded. -/
def isStringMap (b : Bytes) : Bool :=
  isNull b || (members b).any fun ms => ms.all fun member => (decodeStringPtr member.2).isSome

/-- The rules of metric names have no value that is an error. -/
def RawConnectReply.fields : List (StructField RawConnectReply) := [
  ⟨ascii "agent_run_id",fun v s => (decodeStringPtr v).map fun x => { s with id := x }⟩,
  ⟨ascii "metric_name_rules",fun _ s => some s⟩,
  ⟨ascii "sampling_target_period_in_seconds",fun v s =>
    (decodeInt64 v s.samplingFrequency).map fun x => { s with samplingFrequency := x }⟩,
  ⟨ascii "sampling_target",fun v s =>
    (decodeInt64 v s.samplingTarget).map fun x => { s with samplingTarget := x }⟩,
  ⟨ascii "event_harvest_config",fun v s =>
    (EventHarvestConfig.unmarshalJSON v).map fun x => { s with eventHarvestConfig := x }⟩,
  ⟨ascii "span_event_harvest_config",fun v s =>
    (SpanEventHarvestConfig.unmarshalJSON v).map fun x => { s with spanEventHarvestConfig := x }⟩,
  ⟨ascii "request_headers_map",fun v s => if isStringMap v then some s else none⟩,
  ⟨ascii "max_payload_size_in_bytes",fun v s =>
    (decodeInt64 v s.maxPayloadSizeInBytes).map fun x => { s with maxPayloadSizeInBytes := x }⟩]

def EventConfig.zero : EventConfig := ⟨0,0⟩

def EventHarvestConfig.zero : EventHarvestConfig :=
  ⟨0,⟨EventConfig.zero,EventConfig.zero,EventConfig.zero,EventConfig.zero,EventConfig.zero⟩⟩

/-- `combineEventConfig`. -/
def combineEventConfig (ehc : EventHarvestConfig) (sehc : SpanEventHarvestConfig) : EventHarvestConfig :=
  { ehc with eventConfigs := { ehc.eventConfigs with spanEventConfig :=
    ⟨sehc.spanEventConfig.limit,sehc.spanEventConfig.reportPeriod⟩ } }

inductive ConnectReplyError
  | unmarshal
  | missingAgentRunID
deriving DecidableEq

/-- `parseConnectReply`. -/
def parseConnectReply (rawConnectReply : Bytes) : Except ConnectReplyError RawConnectReply :=
  let c : RawConnectReply :=
    ⟨none,0,0,EventHarvestConfig.zero,⟨EventConfig.zero⟩,Limits.defaultMaxPayloadSizeInBytes⟩
  match decodeStruct RawConnectReply.fields rawConnectReply c with
  | none => .error .unmarshal
  | some c =>
    if c.id = none then .error .missingAgentRunID
    else
      .ok { c with eventHarvestConfig := combineEventConfig c.eventHarvestConfig c.spanEventHarvestConfig }

/-! ### Harvest triggers -/

namespace HarvestTrigger

/-- The arguments of `triggerBuilder`. -/
structure Ticker where
  type : HarvestType
  duration : Duration
deriving DecidableEq

/-- A `HarvestTriggerFunc`: one ticker, or a group behind a broadcaster. -/
inductive TriggerFunc
  | one (t : Ticker)
  | group (ts : List Ticker)
deriving DecidableEq

def TriggerFunc.tickers : TriggerFunc → List Ticker
  | .one t => [t]
  | .group ts => ts

def triggerBuilder (type : HarvestType) (duration : Duration) : TriggerFunc := .one ⟨type,duration⟩

def checkReportPeriod (period defaultPeriod : Duration) : Duration :=
  if period = 0 then defaultPeriod else period

lemma defaultReportPeriod_pos : 0 < Limits.defaultReportPeriod := by decide

lemma checkReportPeriod_pos (period : Duration) :
    0 < checkReportPeriod period Limits.defaultReportPeriod ↔ 0 ≤ period := by
  unfold checkReportPeriod
  split_ifs with h
  · rw [h]
    decide
  · exact ⟨le_of_lt,fun hle => lt_of_le_of_ne hle (Ne.symm h)⟩

end HarvestTrigger

namespace EventHarvestConfig

open HarvestTrigger

/-- `isHarvestAll` of a reply with this configuration. -/
def isHarvestAll (config : EventHarvestConfig) : Bool :=
  let eventsConfig := config.eventConfigs
  let collectorReportPeriod := config.reportPeriod
  if eventsConfig.errorEventConfig.reportPeriod ≠ collectorReportPeriod ∨
      eventsConfig.analyticEventConfig.reportPeriod ≠ collectorReportPeriod ∨
      eventsConfig.customEventConfig.reportPeriod ≠ collectorReportPeriod ∨
      eventsConfig.spanEventConfig.reportPeriod ≠ collectorReportPeriod ∨
      eventsConfig.logEventConfig.reportPeriod ≠ collectorReportPeriod then false
  else config.reportPeriod == Limits.defaultReportPeriod

/-- `customTriggerBuilder` of a reply with this configuration. -/
def customTriggerBuilder (config : EventHarvestConfig) : TriggerFunc :=
  let defaultPeriod := Limits.defaultReportPeriod
  let eventConfig := config.eventConfigs
  .group
    [⟨.defaultData,defaultPeriod⟩,
      ⟨.txnEvents,checkReportPeriod eventConfig.analyticEventConfig.reportPeriod defaultPeriod⟩,
      ⟨.customEvents,checkReportPeriod eventConfig.customEventConfig.reportPeriod defaultPeriod⟩,
      ⟨.errorEvents,checkReportPeriod eventConfig.errorEventConfig.reportPeriod defaultPeriod⟩,
      ⟨.spanEvents,checkReportPeriod eventConfig.spanEventConfig.reportPeriod defaultPeriod⟩,
      ⟨.logEvents,checkReportPeriod eventConfig.logEventConfig.reportPeriod defaultPeriod⟩]

/-- The trigger of a reply with this configuration. -/
def trigger (config : EventHarvestConfig) : TriggerFunc :=
  if config.isHarvestAll then triggerBuilder .all Limits.defaultReportPeriod
  else config.customTriggerBuilder

end EventHarvestConfig

/-- The periods of the tickers of `getHarvestTrigger`. -/
def triggerPeriods (config : EventHarvestConfig) : List Duration :=
  config.trigger.tickers.map fun t => t.duration

end PhpAgent
