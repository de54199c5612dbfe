import Mathlib.Data.List.AList
import PhpAgent.Lib.Retry
import PhpAgent.Daemon.App
import PhpAgent.Daemon.MetricRules

/-! Metric tables of the daemon, after `metrics.go`. The data of a metric is only ever copied and
aggregated, so a table may hold data of any type that can be aggregated. -/
namespace PhpAgent

inductive MetricForce
  | forced
  | unforced
deriving DecidableEq

structure MetricID where
  name : Bytes
  scope : Bytes
deriving DecidableEq

/-- `metricData`, over a type of numbers. -/
structure MetricData (F : Type) where
  countSatisfied : F
  totalTolerated : F
  exclusiveFailed : F
  min : F
  max : F
  sumSquares : F
deriving DecidableEq

instance {F : Type} [Add F] [LT F] [DecidableLT F] : Aggregate (MetricData F) where
  aggregate data src :=
    { countSatisfied := data.countSatisfied + src.countSatisfied
      totalTolerated := data.totalTolerated + src.totalTolerated
      exclusiveFailed := data.exclusiveFailed + src.exclusiveFailed
      min := if src.min < data.min then src.min else data.min
      max := if data.max < src.max then src.max else data.max
      sumSquares := data.sumSquares + src.sumSquares }

structure Metric (D : Type) where
  forced : MetricForce
  data : D
deriving DecidableEq

/-- `MetricTable`, with its two levels of maps as one. -/
structure MetricTable (D : Type) where
  metricPeriodStart : Time
  failedHarvests : ℕ
  maxTableSize : ℤ
  count : ℕ
  numDropped : ℕ
  metrics : AList (fun _ : MetricID => Metric D)

namespace MetricTable
variable {D : Type}

/-- `NewMetricTable`. -/
def new (maxTableSize : ℤ) (now : Time) : MetricTable D := ⟨now,0,maxTableSize,0,0,∅⟩

def full (mt : MetricTable D) : Bool := mt.maxTableSize ≤ mt.count

def empty (mt : MetricTable D) : Bool := mt.count = 0

def numFailedAttempts (mt : MetricTable D) : ℕ := mt.failedHarvests

section Merging
variable [Aggregate D]

def mergeMetric (mt : MetricTable D) (id : MetricID) (m : Metric D) : MetricTable D :=
  match mt.metrics.lookup id with
  | none =>
    if mt.full ∧ m.forced = .unforced then { mt with numDropped := mt.numDropped+1 }
    else { mt with metrics := mt.metrics.insert id m, count := mt.count+1 }
  | some dst =>
    { mt with
      metrics := mt.metrics.insert id { dst with data := Aggregate.aggregate dst.data m.data } }

/-- `Merge`, with the order in which the maps of `src` are ranged over. -/
def merge (mt src : MetricTable D) (order : List MetricID) : MetricTable D :=
  order.foldl (fun mt id =>
    match src.metrics.lookup id with
    | some m => mt.mergeMetric id m
    | none => mt) mt

def mergeFailed (mt src : MetricTable D) (order : List MetricID) : MetricTable D :=
  let fails := src.failedHarvests+1
  if Limits.failedMetricAttemptsLimit < fails then mt
  else
    let mt := if src.metricPeriodStart < mt.metricPeriodStart then
        { mt with metricPeriodStart := src.metricPeriodStart }
      else mt
    { mt with failedHarvests := fails }.merge src order

def add (mt : MetricTable D) (nameSlice : Option Bytes) (nameString scope : Bytes) (data : D)
    (force : MetricForce) : MetricTable D :=
  mt.mergeMetric ⟨nameSlice.getD nameString,scope⟩ ⟨force,data⟩

/-- `ApplyRules`, with the order in which the maps are ranged over. -/
def applyRules (mt : MetricTable D) (rules : MetricRules) (order : List MetricID) : MetricTable D :=
  if rules.isEmpty then mt
  else
    order.foldl (fun applied id =>
      match mt.metrics.lookup id with
      | some m => applied.mergeMetric ⟨(rules.apply id.name).2,id.scope⟩ m
      | none => applied) (new mt.maxTableSize mt.metricPeriodStart)

end Merging

section Adding
variable {F : Type} [Add F] [LT F] [DecidableLT F]

/-- The data of `AddRaw`, given as an array of six numbers. -/
def rawData (data : Fin 6 → F) : MetricData F := ⟨data 0,data 1,data 2,data 3,data 4,data 5⟩

def countData [Zero F] (count : F) : MetricData F := ⟨count,0,0,0,0,0⟩

def valueData [Zero F] [One F] [Mul F] (value : F) : MetricData F :=
  ⟨1,value,0,value,value,value*value⟩

def addRaw (mt : MetricTable (MetricData F)) (nameSlice : Option Bytes) (nameString scope : Bytes)
    (data : Fin 6 → F) (force : MetricForce) : MetricTable (MetricData F) :=
  mt.add nameSlice nameString scope (rawData data) force

def addCount [Zero F] (mt : MetricTable (MetricData F)) (name scope : Bytes) (count : F)
    (force : MetricForce) : MetricTable (MetricData F) :=
  mt.add none name scope (countData count) force

def addValue [Zero F] [One F] [Mul F] (mt : MetricTable (MetricData F)) (name scope : Bytes)
    (value : F) (force : MetricForce) : MetricTable (MetricData F) :=
  mt.add none name scope (valueData value) force

end Adding
end MetricTable
end PhpAgent
