import PhpAgent.Daemon.App

/-! What a harvest collects and the goroutines that deliver it, after `harvest.go`,
`app_harvest.go` and the harvest part of `processor.go`. -/
namespace PhpAgent

/-- The records of one kind of data, in the form they are delivered. -/
abbrev Payload : Type := List Bytes

/-- `HarvestType`, a set of bits. -/
abbrev HarvestType : Type := BitVec 16

namespace HarvestType

def metrics : HarvestType := 1#16 <<< 0
def errors : HarvestType := 1#16 <<< 1
def slowSQLs : HarvestType := 1#16 <<< 2
def txnTraces : HarvestType := 1#16 <<< 3
def txnEvents : HarvestType := 1#16 <<< 4
def customEvents : HarvestType := 1#16 <<< 5
def errorEvents : HarvestType := 1#16 <<< 6
def spanEvents : HarvestType := 1#16 <<< 7
def logEvents : HarvestType := 1#16 <<< 8
def phpPackages : HarvestType := 1#16 <<< 9
def defaultData : HarvestType := metrics ||| errors ||| slowSQLs ||| txnTraces ||| phpPackages
def all : HarvestType :=
  defaultData ||| txnEvents ||| customEvents ||| errorEvents ||| spanEvents ||| logEvents

/-- `ht & kind == kind`. -/
def includes (ht kind : HarvestType) : Bool := ht &&& kind == kind

end HarvestType

/-- The data of a `Harvest`. The packages are those of the decoded list, nil when there is none. -/
structure HarvestData where
  metrics : Payload
  errors : Payload
  slowSQLs : Payload
  txnTraces : Payload
  txnEvents : Payload
  customEvents : Payload
  errorEvents : Payload
  spanEvents : Payload
  logEvents : Payload
  phpPackages : Option (List PhpPackagesKey)
  commandsProcessed : ℕ
deriving DecidableEq

/-- A `Harvest`; `table` is the identity of its metric table. -/
structure Harvest where
  table : ℕ
  data : HarvestData
deriving DecidableEq

def HarvestData.empty : HarvestData := ⟨[],[],[],[],[],[],[],[],[],none,0⟩

/-- The metric every harvest has. -/
def HarvestData.addInstanceReportingMetric (d : HarvestData) : HarvestData :=
  { d with metrics := d.metrics ++ [ascii "Instance/Reporting"] }

/-- `OTLPConfig`, as far as it decides where data goes. -/
structure OTLPConfig where
  endpoint : String
  serviceName : String
  noPhoneHome : Bool
  emitTraces : Bool
  emitMetrics : Bool
deriving DecidableEq

/-- `otlp.Exporter`. -/
structure Exporter where
  endpoint : String
  serviceName : String
deriving DecidableEq

/-- `otlp.New`. -/
def Exporter.new (endpoint serviceName : String) : Except String Exporter :=
  if endpoint = "" then .error "otlp: empty endpoint"
  else if serviceName = "" then .error "otlp: empty service.name"
  else .ok ⟨endpoint,serviceName⟩

structure HarvestArgs where
  id : AgentRunID
  collector : String
  profileExporter : Option Exporter
  otlpConfig : OTLPConfig
  splitLargePayloads : Bool
  blocking : Bool
deriving DecidableEq

/-- What a goroutine of a harvest is about to do. The metrics of the harvest `h` are taken by
`harvestMetrics`, for a harvest of all data or not; `metricsLocked` holds the lock of the controller
and waits for the deliveries under way. A delivery that has failed is at `harvestError` until the
processor takes its error. -/
inductive HarvestTask
  | harvestAll (h : ℕ)
  | harvestMetrics (h : ℕ) (all : Bool)
  | metricsLocked (h : ℕ) (all : Bool)
  | unlock
  | harvestPayload (cmd : Command) (p : Payload)
  | harvestError
  | harvestProfiles (p : Payload)
  | harvestTraces (p : Payload)
  | harvestMetricsOTLP (p : Payload)
deriving DecidableEq

/-- Exports by OTLP, which run in goroutines of their own even in a blocking harvest. -/
def HarvestTask.otlp : HarvestTask → Bool
  | harvestProfiles _ => true
  | harvestTraces _ => true
  | harvestMetricsOTLP _ => true
  | _ => false

/-- The wait group of the controller counts the goroutines that deliver, until they have reported a
failure. -/
def HarvestTask.waited : HarvestTask → Bool
  | harvestPayload _ _ => true
  | harvestError => true
  | t => t.otlp

/-- `considerHarvestPayload`: nothing is sent for an empty payload. -/
def considerHarvestPayload (cmd : Command) (p : Payload) : List HarvestTask :=
  if p = [] then [] else [.harvestPayload cmd p]

def considerHarvestPayloadTxnEvents (txnEvents : Payload) (args : HarvestArgs) : List HarvestTask :=
  if args.splitLargePayloads ∧ Limits.maxTxnEvents/2 ≤ txnEvents.length then
    considerHarvestPayload .txnEvents (txnEvents.take (txnEvents.length/2)) ++
      considerHarvestPayload .txnEvents (txnEvents.drop (txnEvents.length/2))
  else considerHarvestPayload .txnEvents txnEvents

/-- The payload of packages: one record, their list as JSON. -/
def packagesPayload (pkgs : Option (List PhpPackagesKey)) : Payload :=
  match pkgs with
  | none => []
  | some pkgs =>
    let entry (pkg : PhpPackagesKey) : String :=
      "[\"" ++ pkg.name ++ "\",\"" ++ pkg.version ++ "\",\x7b\x7d]"
    [ascii ("[" ++ ",".intercalate (pkgs.map entry) ++ "]")]

/-- The tasks of `harvestAll`. -/
def harvestAll (h : ℕ) (d : HarvestData) (args : HarvestArgs) : List HarvestTask :=
  match args.profileExporter with
  | some _ =>
    [.harvestProfiles d.txnTraces] ++
      (if args.otlpConfig.emitTraces then [.harvestTraces d.spanEvents] else []) ++
      [.harvestMetrics h true]
  | none =>
    considerHarvestPayload .customEvents d.customEvents ++
      considerHarvestPayload .errorEvents d.errorEvents ++
      considerHarvestPayload .errors d.errors ++
      considerHarvestPayload .slowSQLs d.slowSQLs ++
      considerHarvestPayload .traces d.txnTraces ++
      considerHarvestPayloadTxnEvents d.txnEvents args ++
      considerHarvestPayload .spanEvents d.spanEvents ++
      considerHarvestPayload .logEvents d.logEvents ++
      considerHarvestPayload .phpPackages (packagesPayload d.phpPackages) ++
      [.harvestMetrics h true]

/-- The default data of `harvestByType`: what is left of the harvest, and the tasks. -/
def harvestDefaultData (h : ℕ) (d : HarvestData) (args : HarvestArgs) :
    HarvestData × List HarvestTask :=
  let left : HarvestData := { d with
    errors := []
    slowSQLs := []
    txnTraces := []
    phpPackages := none
    commandsProcessed := 0 }
  let deliveries :=
    match args.profileExporter with
    | none =>
      considerHarvestPayload .errors d.errors ++
        considerHarvestPayload .slowSQLs d.slowSQLs ++
        considerHarvestPayload .traces d.txnTraces ++
        considerHarvestPayload .phpPackages (packagesPayload d.phpPackages)
    | some _ => [.harvestProfiles d.txnTraces]
  (left.addInstanceReportingMetric,deliveries ++ [.harvestMetrics h false])

/-- The events of `harvestByType`, each kind with its own limit. -/
def harvestEvents (d : HarvestData) (args : HarvestArgs) (ht : HarvestType) (limits : EventConfigs) :
    HarvestData × List HarvestTask :=
  let (d,custom) :=
    if ht.includes .customEvents ∧ limits.customEventConfig.limit ≠ 0 then
      ({ d with customEvents := [] },considerHarvestPayload .customEvents d.customEvents)
    else (d,[])
  let (d,error) :=
    if ht.includes .errorEvents ∧ limits.errorEventConfig.limit ≠ 0 then
      ({ d with errorEvents := [] },considerHarvestPayload .errorEvents d.errorEvents)
    else (d,[])
  let (d,txn) :=
    if ht.includes .txnEvents ∧ limits.analyticEventConfig.limit ≠ 0 then
      ({ d with txnEvents := [] },considerHarvestPayloadTxnEvents d.txnEvents args)
    else (d,[])
  let (d,span) :=
    if ht.includes .spanEvents ∧ limits.spanEventConfig.limit ≠ 0 then
      ({ d with spanEvents := [] },
        if args.profileExporter.isSome ∧ args.otlpConfig.emitTraces then
          [.harvestTraces d.spanEvents]
        else considerHarvestPayload .spanEvents d.spanEvents)
    else (d,[])
  let (d,log) :=
    if ht.includes .logEvents ∧ limits.logEventConfig.limit ≠ 0 then
      ({ d with logEvents := [] },considerHarvestPayload .logEvents d.logEvents)
    else (d,[])
  (d,custom ++ error ++ txn ++ span ++ log)

end PhpAgent
