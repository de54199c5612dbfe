import Mathlib.Data.Finmap
import PhpAgent.Daemon.Metrics

/-! OTLP metrics of the daemon, after `metrics.go` of package `otlp` and `metricTableRecords` of
`otlp_signals.go`. -/
namespace PhpAgent

/-- What is done with a `float64`. -/
class Float64 (F : Type) extends Zero F, NatCast F, OfScientific F, Add F, Sub F, Mul F, Div F,
    LT F, LE F where
  toUInt64 : F → ℕ

/-- Exact numbers. -/
instance : Float64 ℚ where
  toUInt64 q := q.floor.toNat%2^64

namespace Otlp

inductive AttributeValue (F : Type)
  | str (s : Bytes)
  | double (x : F)
deriving DecidableEq

/-- `pcommon.Map`. -/
abbrev Attributes (F : Type) : Type := Finmap fun _ : String => AttributeValue F

structure MetricRecord (F : Type) where
  name : Bytes
  scope : Bytes
  count : F
  total : F
  exclusive : F
  min : F
  max : F
  sumSquares : F
  timestamp : Time

/-- The value of a data point. -/
inductive PointValue (F : Type)
  | histogram (count : ℕ) (sum : F) (explicitBounds : List F) (bucketCounts : List ℕ)
  | gauge (value : F)
  | sum (value : F) (isMonotonic : Bool)

/-- A metric with its one data point. -/
structure Metric (F : Type) where
  name : Bytes
  timestamp : ℕ
  attributes : Attributes F
  value : PointValue F

structure Config where
  serviceName : Bytes
  serviceVersion : Bytes
  environment : Bytes

/-- `pmetric.Metrics` with the one resource and the one scope that are used. -/
structure Metrics (F : Type) where
  resource : Attributes F
  scopeName : String
  scopeVersion : String
  metrics : List (Metric F)

/-- `pcommon.NewTimestampFromTime`. -/
def timestampFromTime (t : Time) : ℕ := (t%2^64).toNat

def hasPrefix (s : Bytes) (start : String) : Bool := (ascii start).isPrefixOf s

def trimPrefix (s : Bytes) (start : String) : Bytes :=
  if hasPrefix s start then s.drop start.length else s

/-- `strings.SplitN(s, "/", 3)`. -/
def splitThree (s : Bytes) : List Bytes :=
  match s.splitOn slash with
  | a :: b :: c :: rest => [a,b,[slash].intercalate (c :: rest)]
  | parts => parts

/-- The cases of the switch over the name of a record. -/
inductive Kind
  | webTransaction
  | otherTransaction
  | external
  | operation
  | statement
  | inst
  | cpu
  | memoryPhysical
  | instanceReporting
  | apdex
  | custom
  | supportability
deriving DecidableEq

def kind (name : Bytes) : Option Kind :=
  if hasPrefix name "WebTransaction/" then some .webTransaction
  else if hasPrefix name "OtherTransaction/" then some .otherTransaction
  else if hasPrefix name "External/" then some .external
  else if hasPrefix name "Datastore/operation/" then some .operation
  else if hasPrefix name "Datastore/statement/" then some .statement
  else if hasPrefix name "Datastore/instance/" then some .inst
  else if hasPrefix name "CPU/" then some .cpu
  else if hasPrefix name "MemoryPhysical/" then some .memoryPhysical
  else if hasPrefix name "Instance/Reporting" then some .instanceReporting
  else if name = ascii "Apdex" then some .apdex
  else if hasPrefix name "Custom/" then some .custom
  else if hasPrefix name "Supportability/" then some .supportability
  else none

section Emitting
variable {F : Type} [Float64 F] [DecidableEq F] [DecidableLT F] [DecidableLE F]

def putStr (attrs : Attributes F) (key : String) (s : Bytes) : Attributes F :=
  attrs.insert key (.str s)

def putDouble (attrs : Attributes F) (key : String) (x : F) : Attributes F :=
  attrs.insert key (.double x)

/-- The attribute of a part of the name, when the part is there and not empty. -/
def putPart (attrs : Attributes F) (key : String) (part : Option Bytes) : Attributes F :=
  match part with
  | some part => if part ≠ [] then putStr attrs key part else attrs
  | none => attrs

def otelLatencyBoundaries : List F :=
  [0,0.005,0.01,0.025,0.05,0.075,0.1,0.25,0.5,0.75,1.0,2.5,5.0,7.5,10.0]

/-- The counts of the buckets, from cumulative counts. -/
def bucketCounts : ℕ → List ℕ → List ℕ
  | _, [] => []
  | prev, c :: cum =>
    let c := if c < prev then prev else c
    (c-prev) :: bucketCounts c cum

/-- The bounds and counts of the buckets. With one sample value the cumulative counts stand for the
counts. -/
def synthesizeBuckets (count lo hi : F) : List F × List ℕ :=
  let bounds : List F := otelLatencyBoundaries
  let all := Float64.toUInt64 count
  if count ≤ 0 ∨ hi ≤ 0 ∨ hi < lo then (bounds,bounds.map (fun _ => 0) ++ [all])
  else if lo = hi then
    (bounds,bounds.map (fun b => if lo ≤ b then all else 0) ++ [all])
  else
    let cum := bounds.map (fun b =>
      if b < lo then 0
      else if hi ≤ b then all
      else min (Float64.toUInt64 ((b-lo)/(hi-lo)*count+0.5)) all) ++ [all]
    (bounds,bucketCounts 0 cum)

def emitLatencyHistogram (dest : List (Metric F)) (name : Bytes) (r : MetricRecord F) (ts : Time)
    (setAttrs : Attributes F → Attributes F) : List (Metric F) :=
  let (bounds,counts) := synthesizeBuckets r.count r.min r.max
  dest ++ [{
    name := name
    timestamp := timestampFromTime ts
    attributes := setAttrs ∅
    value := .histogram (Float64.toUInt64 r.count) r.total bounds counts }]

def emitGaugeBool (dest : List (Metric F)) (name : Bytes) (r : MetricRecord F) (ts : Time) :
    List (Metric F) :=
  dest ++ [{
    name := name
    timestamp := timestampFromTime ts
    attributes := if r.total ≠ 0 then putDouble ∅ "newrelic.total" r.total else ∅
    value := .gauge r.count }]

def emitSumMetric (dest : List (Metric F)) (name : Bytes) (r : MetricRecord F) (ts : Time)
    (setAttrs : Attributes F → Attributes F) : List (Metric F) :=
  dest ++ [{
    name := name
    timestamp := timestampFromTime ts
    attributes := setAttrs (if r.count ≠ 0 then putDouble ∅ "newrelic.count" r.count else ∅)
    value := .sum r.total false }]

def emitApdex (dest : List (Metric F)) (r : MetricRecord F) (ts : Time) : List (Metric F) :=
  let satisfied := r.count
  let tolerated := r.total
  let failed := r.exclusive
  let denom := satisfied+tolerated+failed
  let score := if 0 < denom then (satisfied+tolerated/((2 : ℕ) : F))/denom else 0
  let attrs := putDouble ∅ "apdex.satisfied" satisfied
  let attrs := putDouble attrs "apdex.tolerated" tolerated
  let attrs := putDouble attrs "apdex.failed" failed
  let attrs := putDouble attrs "apdex.threshold_seconds" r.min
  dest ++ [{
    name := ascii "apdex"
    timestamp := timestampFromTime ts
    attributes := attrs
    value := .gauge score }]

/-- The attributes of `External/<host>/<library>`. -/
def externalAttrs (name : Bytes) (attrs : Attributes F) : Attributes F :=
  let attrs := putStr attrs "php.metric.name" name
  let parts := (trimPrefix name "External/").splitOn slash
  let attrs := putPart attrs "net.peer.name" parts[0]?
  if parts[1]? ≠ some (ascii "all") then putPart attrs "http.flavor" parts[1]? else attrs

def operationAttrs (name : Bytes) (attrs : Attributes F) : Attributes F :=
  let parts := (trimPrefix name "Datastore/operation/").splitOn slash
  putPart (putPart attrs "db.system" parts[0]?) "db.operation" parts[1]?

def statementAttrs (name : Bytes) (attrs : Attributes F) : Attributes F :=
  let parts := (trimPrefix name "Datastore/statement/").splitOn slash
  putPart (putPart (putPart attrs "db.system" parts[0]?) "db.collection" parts[1]?)
    "db.operation" parts[2]?

def instanceAttrs (name : Bytes) (attrs : Attributes F) : Attributes F :=
  let parts := (trimPrefix name "Datastore/instance/").splitOn slash
  putPart (putPart attrs "db.system" parts[0]?) "db.instance" parts[1]?

def cpuAttrs (name : Bytes) (attrs : Attributes F) : Attributes F :=
  match splitThree name with
  | [_,state,_] => putStr (putStr attrs "state" state) "mode" (ascii "cpu")
  | _ => attrs

/-- The metrics, and whether the record is of a known kind. -/
def emitMetricRecord (dest : List (Metric F)) (r : MetricRecord F) (defaultTs : Time) :
    List (Metric F) × Bool :=
  let ts := if r.timestamp = Time.zero then defaultTs else r.timestamp
  match kind r.name with
  | some .webTransaction =>
    (emitLatencyHistogram dest (ascii "http.server.request.duration") r ts id,true)
  | some .otherTransaction =>
    (emitLatencyHistogram dest (ascii "http.server.request.duration") r ts
      fun attrs => putStr attrs "rpc.system" (ascii "php-cli"),true)
  | some .external =>
    (emitLatencyHistogram dest (ascii "http.client.request.duration") r ts (externalAttrs r.name),true)
  | some .operation =>
    (emitLatencyHistogram dest (ascii "db.client.operation.duration") r ts (operationAttrs r.name),true)
  | some .statement =>
    (emitLatencyHistogram dest (ascii "db.client.operation.duration") r ts (statementAttrs r.name),true)
  | some .inst =>
    (emitLatencyHistogram dest (ascii "db.client.operation.duration") r ts (instanceAttrs r.name),true)
  | some .cpu => (emitSumMetric dest (ascii "process.cpu.time") r ts (cpuAttrs r.name),true)
  | some .memoryPhysical => (emitGaugeBool dest (ascii "process.memory.usage") r ts,true)
  | some .instanceReporting => (emitGaugeBool dest (ascii "process.uptime") r ts,true)
  | some .apdex => (emitApdex dest r ts,true)
  | some .custom =>
    (emitGaugeBool dest (ascii "custom." ++ trimPrefix r.name "Custom/") r ts,true)
  | some .supportability =>
    (emitGaugeBool dest (ascii "agent.supportability." ++ trimPrefix r.name "Supportability/") r ts,
      true)
  | none => (dest,false)

/-- `prefixMetric`. -/
def prefixMetric (name : Bytes) : Bytes := ascii "newrelic." ++ name

def emitFallbackGauge (dest : List (Metric F)) (r : MetricRecord F) (ts : Time) : List (Metric F) :=
  emitGaugeBool dest (prefixMetric r.name) r ts

/-- The first timestamp there is, else the time `now`. -/
def metricsTimestamp (records : List (MetricRecord F)) (now : Time) : Time :=
  match records.find? fun r => r.timestamp ≠ Time.zero with
  | some r => r.timestamp
  | none => now

/-- One round of the loop of `BuildMetrics`. -/
def emitRecord (ts : Time) (dest : List (Metric F)) (r : MetricRecord F) : List (Metric F) :=
  let (dest,emitted) := emitMetricRecord dest r ts
  if emitted then dest else emitFallbackGauge dest r ts

def resourceAttributes (cfg : Config) : Attributes F :=
  let attrs := putStr ∅ "service.name" cfg.serviceName
  let attrs := putStr attrs "telemetry.sdk.name" (ascii "php")
  let attrs := putStr attrs "telemetry.sdk.language" (ascii "php")
  let attrs := if cfg.serviceVersion ≠ [] then putStr attrs "service.version" cfg.serviceVersion
    else attrs
  if cfg.environment ≠ [] then putStr attrs "deployment.environment" cfg.environment else attrs

/-- `BuildMetrics`; without records there is no resource. -/
def buildMetrics (cfg : Config) (records : List (MetricRecord F)) (now : Time) :
    Option (Metrics F) :=
  if records = [] then none
  else
    some {
      resource := resourceAttributes cfg
      scopeName := "otel.php"
      scopeVersion := "0.1.0"
      metrics := records.foldl (emitRecord (metricsTimestamp records now)) [] }

end Emitting
end Otlp

namespace Otlp

/-- The record of an entry of a table. -/
def tableRecord {F : Type} (harvestStart : Time) (id : MetricID) (m : PhpAgent.Metric (MetricData F)) :
    MetricRecord F where
  name := id.name
  scope := id.scope
  count := m.data.countSatisfied
  total := m.data.totalTolerated
  exclusive := m.data.exclusiveFailed
  min := m.data.min
  max := m.data.max
  sumSquares := m.data.sumSquares
  timestamp := harvestStart

/-- `metricTableRecords`, with the order in which the maps are ranged over. -/
def metricTableRecords {F : Type} (mt : MetricTable (MetricData F)) (harvestStart : Time)
    (order : List MetricID) : List (MetricRecord F) :=
  order.filterMap fun id => (mt.metrics.lookup id).map (tableRecord harvestStart id)

end Otlp
end PhpAgent
