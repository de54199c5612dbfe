import Mathlib.Data.List.AList
import PhpAgent.Daemon.Harvest

/-! The processor of the daemon, after `processor.go`: its tables of applications and of harvests,
the messages it handles one at a time, and the goroutines it starts. Objects that the source shares
by pointer are named by their place in a list. -/
namespace PhpAgent

/-- `AppHarvest`; `locked` is the mutex of its metrics controller. -/
structure AppHarvest where
  app : ℕ
  id : AgentRunID
  harvest : ℕ
  locked : Bool
deriving DecidableEq

/-- A goroutine of the harvest of `ah`. -/
structure Task where
  ah : ℕ
  args : HarvestArgs
  run : HarvestTask
deriving DecidableEq

structure AppInfoReply where
  runIDValid : Bool
  state : AppState
  connectReply : Bytes
  securityPolicies : Bytes
  connectTimestamp : ℤ
  harvestFrequency : ℤ
  samplingTarget : ℕ
deriving DecidableEq

/-- The processor, with the objects it has made, its goroutines, the rest of a harvest that
`CleanExit` runs itself, and three logs: the commands executed, the metric tables taken off by
harvests of all data and the metric tables handed to a delivery. The loop of `Run` receives while
`exiting` is none; afterwards it has the harvests that `CleanExit` has still to do. -/
structure Processor where
  otlp : OTLPConfig
  appTimeout : Duration
  appConnectBackoff : Duration
  otlpExporter : Option Exporter
  util : Bool
  appObjs : List App
  apps : AList (fun _ : AppKey => ℕ)
  appHarvests : List AppHarvest
  harvests : AList (fun _ : AgentRunID => ℕ)
  harvestObjs : List Harvest
  nextTable : ℕ
  connects : List ConnectArgs
  exiting : Option (List ℕ)
  tasks : List Task
  inline : List Task
  executed : List RpmCmd
  detached : List ℕ
  handed : List ℕ

/-- A message to the processor, or a move of one of its goroutines, with what its environment
answers. The error that the processor takes is that of the goroutine `i`; a harvest is blocking in
`CleanExit`; a move `failed` when what it delivers is not accepted. At an `exit` the process ends. -/
inductive ProcessorEvent
  | util
  | appInfo (id : Option AgentRunID) (info : AppInfo) (now : Time)
  | txnData (id : AgentRunID) (sample : HarvestData → HarvestData) (now : Time)
  | connected (i : ℕ) (env : ConnectAnswers) (localId : AgentRunID) (body : Bytes) (now : Time)
  | harvest (ah : ℕ) (type : HarvestType) (blocking : Bool) (now : Time)
  | harvestError (i : ℕ) (reply : RPMResponse) (data : HarvestData → HarvestData) (now : Time)
  | cleanExit
  | exit
  | task (i : ℕ) (final : Payload) (failed : Bool)
  | inline (final : Payload) (failed : Bool)

namespace Processor

/-! ### The exporter -/

def buildOtlpExporter (p : Processor) (svc : String) : Processor :=
  match Exporter.new p.otlp.endpoint svc with
  | .error _ => p
  | .ok exp => { p with otlpExporter := some exp }

def otlpServiceName (p : Processor) : String :=
  if p.otlp.serviceName ≠ "" then p.otlp.serviceName else "php"

/-- The first name of an application that may have several. -/
def firstAppName (appname : String) : String :=
  let name := String.ofList (appname.toList.takeWhile (· ≠ ';'))
  if name = "" then "php" else name

def ensureOtlpExporterForApp (p : Processor) (appname : String) : Processor :=
  if p.otlpExporter ≠ none then p
  else if p.otlp.endpoint = "" then p
  else if p.otlp.serviceName ≠ "" then p.buildOtlpExporter p.otlp.serviceName
  else p.buildOtlpExporter (firstAppName appname)

/-- A processor that has no exporter yet. -/
def bare (otlp : OTLPConfig) (appTimeout : Duration) : Processor where
  otlp := otlp
  appTimeout := appTimeout
  appConnectBackoff := Limits.appConnectAttemptBackoff
  otlpExporter := none
  util := false
  appObjs := []
  apps := ∅
  appHarvests := []
  harvests := ∅
  harvestObjs := []
  nextTable := 0
  connects := []
  exiting := none
  tasks := []
  inline := []
  executed := []
  detached := []
  handed := []

/-- `NewProcessor`. -/
def new (otlp : OTLPConfig) (appTimeout : Duration) : Processor :=
  let p := bare otlp appTimeout
  if otlp.endpoint ≠ "" then p.buildOtlpExporter p.otlpServiceName else p

lemma buildOtlpExporter_eq (p : Processor) (svc : String) :
    ∃ exp, p.buildOtlpExporter svc = { p with otlpExporter := exp } := by
  unfold buildOtlpExporter
  split
  · exact ⟨p.otlpExporter,rfl⟩
  · exact ⟨_,rfl⟩

lemma ensureOtlpExporterForApp_eq (p : Processor) (appname : String) :
    ∃ exp, p.ensureOtlpExporterForApp appname = { p with otlpExporter := exp } := by
  unfold ensureOtlpExporterForApp
  split
  · exact ⟨p.otlpExporter,rfl⟩
  · split
    · exact ⟨p.otlpExporter,rfl⟩
    · split
      · exact buildOtlpExporter_eq _ _
      · exact buildOtlpExporter_eq _ _

lemma new_eq (otlp : OTLPConfig) (appTimeout : Duration) :
    ∃ exp, new otlp appTimeout = { bare otlp appTimeout with otlpExporter := exp } := by
  unfold new
  split
  · exact buildOtlpExporter_eq _ _
  · exact ⟨none,rfl⟩

/-! ### Applications -/

def updateApp (p : Processor) (a : ℕ) (f : App → App) : Processor :=
  { p with appObjs := p.appObjs.modify a f }

def shouldConnect (p : Processor) (app : App) (now : Time) : Bool :=
  p.util && app.needsConnectAttempt now p.appConnectBackoff

/-- Start a goroutine that connects, if it is time. -/
def considerConnect (p : Processor) (a : ℕ) (now : Time) : Processor :=
  match p.appObjs[a]? with
  | none => p
  | some app =>
    if p.shouldConnect app now then
      { p.updateApp a fun app => { app with lastConnectAttempt := now } with
        connects := p.connects ++ [⟨app.info.redirectCollector,app.info.license,app.key,
          app.info.securityPolicyToken⟩] }
    else p

/-- The answer about an application. -/
def appInfoReply (app : App) : AppInfoReply :=
  if app.state = .connected then
    { runIDValid := false
      state := app.state
      connectReply := app.rawConnectReply
      securityPolicies := app.rawSecurityPolicies
      connectTimestamp := app.connectTime/second
      harvestFrequency := app.harvestFrequency/second % 2^16
      samplingTarget := app.samplingTarget }
  else ⟨false,app.state,[],[],0,0,0⟩

def processAppInfo (p : Processor) (id : Option AgentRunID) (info : AppInfo) (now : Time) :
    Processor × Option AppInfoReply :=
  if (id.bind p.harvests.lookup).isSome then
    (p,some ⟨true,.unknown,[],[],0,0,0⟩)
  else
    match p.apps.lookup info.key with
    | some a =>
      let p := p.updateApp a fun app => { app with lastActivity := now }
      (p.considerConnect a now,p.appObjs[a]?.map appInfoReply)
    | none =>
      if Limits.appLimit ≤ p.apps.entries.length then (p,some ⟨false,.unknown,[],[],0,0,0⟩)
      else
        let a := p.appObjs.length
        let app := App.new info now
        let p := { p with
          appObjs := p.appObjs ++ [app]
          apps := p.apps.insert info.key a }
        (p.considerConnect a now,some (appInfoReply app))

/-- No event reservoir can be made with a negative limit. -/
def EventConfigs.valid (limits : EventConfigs) : Bool :=
  0 ≤ limits.errorEventConfig.limit && 0 ≤ limits.analyticEventConfig.limit &&
    0 ≤ limits.customEventConfig.limit && 0 ≤ limits.spanEventConfig.limit &&
    0 ≤ limits.logEventConfig.limit

/-- A new `AppHarvest` with a new `Harvest`, under its run id. -/
def addHarvest (p : Processor) (a : ℕ) (id : AgentRunID) : Processor :=
  { p with
    harvests := p.harvests.insert id p.appHarvests.length
    appHarvests := p.appHarvests ++ [⟨a,id,p.harvestObjs.length,false⟩]
    harvestObjs := p.harvestObjs ++ [⟨p.nextTable,.empty⟩]
    nextTable := p.nextTable+1 }

/-- The application after a successful connect. -/
def connectApp (app : App) (rep : ConnectAttempt) (reply : ConnectReply) (now : Time) : App :=
  let app := { app with
    connectReply := some reply
    state := .connected
    collector := rep.collector
    rawSecurityPolicies := rep.rawSecurityPolicies
    connectTime := now
    harvestFrequency := reply.samplingFrequency*second
    samplingTarget := (reply.samplingTarget % 2^16).toNat }
  let app := app.processLogEventLimits
  { app with
    samplingTarget := if app.samplingTarget = 0 then 10 else app.samplingTarget
    harvestFrequency := if app.harvestFrequency = 0 then 60*second else app.harvestFrequency }

/-- `processConnectAttempt`. It fails where the source dereferences nil or makes a reservoir of
negative size. -/
def processConnectAttempt (p : Processor) (rep : ConnectAttempt) (now : Time) : Option Processor :=
  match p.apps.lookup rep.key with
  | none => some p
  | some a =>
    let p := p.updateApp a fun app => { app with rawConnectReply := rep.rawReply.body }
    if rep.rawReply.isDisconnect then
      some (p.updateApp a fun app => { app with state := .disconnected })
    else if rep.rawReply.isRestartException then
      if rep.rawReply.isInvalidLicense then
        some (p.updateApp a fun app => { app with state := .invalidLicense })
      else
        some (p.updateApp a fun app => { app with state := .restart })
    else if rep.err ≠ none then
      some (p.updateApp a fun app => { app with state := .unknown })
    else do
      let reply ← rep.reply
      let p := p.updateApp a fun app => connectApp app rep reply now
      let app ← p.appObjs[a]?
      let limits ← app.connectReply.map fun reply => reply.eventHarvestConfig.eventConfigs
      if EventConfigs.valid limits then some (p.addHarvest a reply.id) else none

/-! ### Harvests -/

def shutdownAppHarvest (p : Processor) (id : AgentRunID) : Processor :=
  { p with harvests := p.harvests.erase id }

def updateHarvest (p : Processor) (h : ℕ) (f : HarvestData → HarvestData) : Processor :=
  { p with harvestObjs := p.harvestObjs.modify h fun x => { x with data := f x.data } }

def updateAppHarvest (p : Processor) (ah : ℕ) (f : AppHarvest → AppHarvest) : Processor :=
  { p with appHarvests := p.appHarvests.modify ah f }

/-- Go on with `ts`: in goroutines of their own, or in a blocking harvest one after the other. -/
def spawn (p : Processor) (ah : ℕ) (args : HarvestArgs) (blocking : Bool) (ts : List HarvestTask) :
    Processor :=
  let task := fun run => (⟨ah,args,run⟩ : Task)
  if blocking then
    { p with
      tasks := p.tasks ++ (ts.filter HarvestTask.otlp).map task
      inline := (ts.filter fun t => !t.otlp).map task ++ p.inline }
  else { p with tasks := p.tasks ++ ts.map task }

def processTxnData (p : Processor) (id : AgentRunID) (sample : HarvestData → HarvestData)
    (now : Time) : Processor :=
  match (p.harvests.lookup id).bind fun ah => p.appHarvests[ah]? with
  | none => p
  | some ah =>
    (p.updateApp ah.app fun app => { app with lastActivity := now }).updateHarvest ah.harvest
      fun d => sample { d with commandsProcessed := d.commandsProcessed+1 }

/-- A new harvest takes the place of the one with the metric table `table`. -/
def detachHarvest (p : Processor) (i table : ℕ) : Processor :=
  { p with
    harvestObjs := p.harvestObjs ++ [⟨p.nextTable,.empty⟩]
    nextTable := p.nextTable+1
    detached := p.detached ++ [table]
    appHarvests := p.appHarvests.modify i fun ah => { ah with harvest := p.harvestObjs.length } }

/-- A harvest of all data: the whole harvest is taken. -/
def harvestByTypeAll (p : Processor) (i : ℕ) (ah : AppHarvest) (args : HarvestArgs) :
    Option Processor := do
  let harvest ← p.harvestObjs[ah.harvest]?
  let app ← p.appObjs[ah.app]?
  let filtered := app.filterPhpPackages harvest.data.phpPackages
  let p := (p.updateApp ah.app fun _ => filtered.1).updateHarvest ah.harvest
    fun d => { d with phpPackages := filtered.2 }
  return (p.detachHarvest i harvest.table).spawn i args args.blocking [.harvestAll ah.harvest]

/-- A harvest of some kinds of data: the harvest stays, without them. -/
def harvestByTypeSome (p : Processor) (i : ℕ) (ah : AppHarvest) (args : HarvestArgs)
    (type : HarvestType) : Option Processor := do
  let harvest ← p.harvestObjs[ah.harvest]?
  let app ← p.appObjs[ah.app]?
  let reply ← app.connectReply
  let limits := reply.eventHarvestConfig.eventConfigs
  if type.includes .defaultData then
    let filtered := app.filterPhpPackages harvest.data.phpPackages
    let default := harvestDefaultData ah.harvest { harvest.data with phpPackages := filtered.2 } args
    let events := harvestEvents default.1 args type limits
    let p := (p.updateApp ah.app fun _ => filtered.1).updateHarvest ah.harvest fun _ => events.1
    return p.spawn i args args.blocking (default.2 ++ events.2)
  else
    let events := harvestEvents harvest.data args type limits
    return (p.updateHarvest ah.harvest fun _ => events.1).spawn i args args.blocking events.2

def harvestByType (p : Processor) (i : ℕ) (ah : AppHarvest) (args : HarvestArgs)
    (type : HarvestType) : Option Processor :=
  if type.includes .all then p.harvestByTypeAll i ah args
  else p.harvestByTypeSome i ah args type

/-- `doHarvest`: an inactive application is removed instead. -/
def doHarvest (p : Processor) (i : ℕ) (type : HarvestType) (blocking : Bool) (now : Time) :
    Option Processor := do
  let ah ← p.appHarvests[i]?
  let app ← p.appObjs[ah.app]?
  if 0 < p.appTimeout ∧ app.inactive p.appTimeout now then
    let p := p.shutdownAppHarvest ah.id
    return { p with apps := p.apps.erase app.key }
  else
    let args : HarvestArgs :=
      { id := ah.id
        collector := app.collector
        profileExporter := p.otlpExporter
        otlpConfig := p.otlp
        splitLargePayloads := app.info.distributedTracingEnabled
        blocking := blocking }
    p.harvestByType i ah args type

/-- The harvest with the run id, and its application. -/
def findHarvest (p : Processor) (id : AgentRunID) : Option (AppHarvest × App) := do
  let ah ← p.appHarvests[← p.harvests.lookup id]?
  return (ah,← p.appObjs[ah.app]?)

def processHarvestError (p : Processor) (id : AgentRunID) (reply : RPMResponse)
    (data : HarvestData → HarvestData) (now : Time) : Processor :=
  match p.findHarvest id with
  | none => p
  | some (ah,app) =>
    let p := if reply.shouldSaveHarvestData then p.updateHarvest ah.harvest data else p
    if reply.isDisconnect ∨ app.state = .disconnected then
      (p.updateApp ah.app fun app => { app with state := .disconnected }).shutdownAppHarvest id
    else if reply.isRestartException ∨ app.state = .restart then
      let p := p.updateApp ah.app fun app => { app with state := .unknown, phpPackages := [] }
      (p.shutdownAppHarvest id).considerConnect ah.app now
    else p

/-! ### Goroutines -/

/-- Somebody still delivers for `ah`, or has not got rid of its error. -/
def waiting (p : Processor) (ah : ℕ) : Bool :=
  (p.tasks.any fun t => t.ah = ah && t.run.waited) ||
    p.inline.any fun t => t.ah = ah && t.run = .harvestError

/-- The harvest `h` gets a new metric table, and a delivery the old one. -/
def handOver (p : Processor) (h table : ℕ) : Processor :=
  { p with
    harvestObjs := p.harvestObjs.modify h fun x =>
      { x with table := p.nextTable, data := { x.data with metrics := [] } }
    nextTable := p.nextTable+1
    handed := p.handed ++ [table] }

/-- The next move of a goroutine, with what it does after it. `final` are the metrics that
`createFinalMetrics` and `harvestDataUsage` add. Without the lock the metrics are skipped. An error
is not got rid of without the processor. -/
def perform (p : Processor) (t : Task) (final : Payload) (failed : Bool) :
    Option (Processor × List HarvestTask) := do
  let ah ← p.appHarvests[t.ah]?
  match t.run with
  | .harvestAll h => do
    let p := p.updateHarvest h .addInstanceReportingMetric
    let harvest ← p.harvestObjs[h]?
    return (p,PhpAgent.harvestAll h harvest.data t.args)
  | .harvestMetrics h all =>
    if ah.locked then some (p,[])
    else some (p.updateAppHarvest t.ah fun ah => { ah with locked := true },[.metricsLocked h all])
  | .metricsLocked h _ =>
    if p.waiting t.ah then none
    else do
      let harvest ← p.harvestObjs[h]?
      let metrics := harvest.data.metrics ++ final
      return (p.handOver h harvest.table,
        (if t.args.profileExporter.isSome ∧ t.args.otlpConfig.emitMetrics then
          [.harvestMetricsOTLP metrics]
        else considerHarvestPayload .metrics metrics) ++ [.unlock])
  | .unlock => some (p.updateAppHarvest t.ah fun ah => { ah with locked := false },[])
  | .harvestPayload cmd _ =>
    some ({ p with executed := p.executed ++ [⟨cmd,t.args.collector,t.args.id⟩] },
      if failed then [.harvestError] else [])
  | .harvestError => none
  | .harvestProfiles _ => some (p,[])
  | .harvestTraces _ => some (p,[])
  | .harvestMetricsOTLP _ => some (p,[])

/-- A connect goroutine ends, and the processor takes what it found. -/
def connected (p : Processor) (i : ℕ) (env : ConnectAnswers) (localId : AgentRunID) (body : Bytes)
    (now : Time) : Option Processor := do
  let args ← p.connects[i]?
  let p := { p with connects := p.connects.eraseIdx i }
  let p := p.ensureOtlpExporterForApp args.appKey.appname
  if p.otlp.noPhoneHome then
    p.processConnectAttempt (localConnect args localId body) now
  else
    let (rep,cmds) := connectApplication args env
    { p with executed := p.executed ++ cmds }.processConnectAttempt rep now

/-- `CleanExit` ends the loop of `Run`. -/
def cleanExit (p : Processor) : Processor :=
  { p with exiting := some (p.harvests.entries.map Sigma.snd) }

/-- The process ends, and its goroutines with it. -/
def exit (p : Processor) : Processor :=
  { p with
    connects := []
    exiting := some []
    tasks := []
    inline := [] }

/-- `CleanExit` goes on with one of the harvests it has still to do. -/
def exitHarvest (p : Processor) (i : ℕ) (type : HarvestType) (now : Time) : Option Processor := do
  let left ← p.exiting
  if p.inline = [] ∧ i ∈ left ∧ type = .all then
    doHarvest { p with exiting := some (left.erase i) } i type true now
  else none

/-- The processor takes the error of the goroutine `i`. -/
def receiveError (p : Processor) (i : ℕ) (reply : RPMResponse) (data : HarvestData → HarvestData)
    (now : Time) : Option Processor := do
  let t ← p.tasks[i]?
  if t.run = .harvestError ∧ reply.err ≠ none then
    return processHarvestError { p with tasks := p.tasks.eraseIdx i } t.args.id reply data now
  else none

/-- What `Run` does with a message. -/
def receive (p : Processor) : ProcessorEvent → Option Processor
  | .util => some { p with util := true }
  | .appInfo id info now => some (p.processAppInfo id info now).1
  | .txnData id sample now => some (p.processTxnData id sample now)
  | .connected i env localId body now => p.connected i env localId body now
  | .harvest ah type _ now => p.doHarvest ah type false now
  | .harvestError i reply data now => p.receiveError i reply data now
  | .cleanExit => some p.cleanExit
  | _ => none

/-- One move. -/
def step (p : Processor) (e : ProcessorEvent) : Option Processor :=
  match e with
  | .task i final failed => do
    let t ← p.tasks[i]?
    let p := { p with tasks := p.tasks.eraseIdx i }
    let (p,next) ← p.perform t final failed
    return p.spawn t.ah t.args false next
  | .inline final failed =>
    match p.inline with
    | [] => none
    | t :: rest => do
      let p := { p with inline := rest }
      let (p,next) ← p.perform t final failed
      return p.spawn t.ah t.args true next
  | .exit => some p.exit
  | .harvest i type true now => p.exitHarvest i type now
  | e => if p.exiting = none then p.receive e else none

/-! ### What a move can be -/

/-- The moves of a goroutine, one constructor each. -/
inductive Performs (p : Processor) (t : Task) (failed : Bool) :
    Processor → List HarvestTask → Prop
  | harvestAll {h : ℕ} {harvest : Harvest} (hrun : t.run = .harvestAll h)
      (hharvest : (p.updateHarvest h .addInstanceReportingMetric).harvestObjs[h]? = some harvest) :
      Performs p t failed (p.updateHarvest h .addInstanceReportingMetric)
        (PhpAgent.harvestAll h harvest.data t.args)
  | skip {h : ℕ} {all : Bool} {ah : AppHarvest} (hrun : t.run = .harvestMetrics h all)
      (hah : p.appHarvests[t.ah]? = some ah) (hlocked : ah.locked = true) : Performs p t failed p []
  | lock {h : ℕ} {all : Bool} (hrun : t.run = .harvestMetrics h all) :
      Performs p t failed (p.updateAppHarvest t.ah fun ah => { ah with locked := true })
        [.metricsLocked h all]
  | metricsOTLP {h : ℕ} {all : Bool} {harvest : Harvest} {metrics : Payload}
      (hrun : t.run = .metricsLocked h all) (hharvest : p.harvestObjs[h]? = some harvest)
      (hexporter : t.args.profileExporter.isSome ∧ t.args.otlpConfig.emitMetrics) :
      Performs p t failed (p.handOver h harvest.table) [.harvestMetricsOTLP metrics,.unlock]
  | metrics {h : ℕ} {all : Bool} {harvest : Harvest} {metrics : Payload}
      (hrun : t.run = .metricsLocked h all) (hharvest : p.harvestObjs[h]? = some harvest)
      (hexporter : ¬ (t.args.profileExporter.isSome ∧ t.args.otlpConfig.emitMetrics)) :
      Performs p t failed (p.handOver h harvest.table)
        (considerHarvestPayload .metrics metrics ++ [.unlock])
  | unlock (hrun : t.run = .unlock) :
      Performs p t failed (p.updateAppHarvest t.ah fun ah => { ah with locked := false }) []
  | harvestPayload {cmd : Command} {pl : Payload} (hrun : t.run = .harvestPayload cmd pl) :
      Performs p t failed { p with executed := p.executed ++ [⟨cmd,t.args.collector,t.args.id⟩] }
        (if failed then [.harvestError] else [])
  | exported (hrun : t.run.otlp = true) : Performs p t failed p []

variable {p p' : Processor}

lemma perform_performs {t : Task} {final : Payload} {failed : Bool}
    {next : List HarvestTask} (h : p.perform t final failed = some (p',next)) :
    Performs p t failed p' next := by
  unfold perform at h
  obtain ⟨ah,hah,h⟩ := Option.bind_eq_some_iff.mp h
  cases hrun : t.run with
  | harvestAll c =>
    rw [hrun] at h
    obtain ⟨harvest,hharvest,h⟩ := Option.bind_eq_some_iff.mp h
    cases h
    exact .harvestAll hrun hharvest
  | harvestMetrics c all =>
    simp only [hrun] at h
    split at h
    · rename_i hlocked
      cases h
      exact .skip hrun hah hlocked
    · cases h
      exact .lock hrun
  | metricsLocked c all =>
    simp only [hrun] at h
    split at h
    · cases h
    · obtain ⟨harvest,hharvest,h⟩ := Option.bind_eq_some_iff.mp h
      cases h
      split
      · rename_i hexporter
        exact .metricsOTLP hrun hharvest hexporter
      · rename_i hexporter
        exact .metrics hrun hharvest hexporter
  | unlock =>
    rw [hrun] at h
    cases h
    exact .unlock hrun
  | harvestPayload cmd pl =>
    rw [hrun] at h
    cases h
    exact .harvestPayload hrun
  | harvestError =>
    rw [hrun] at h
    cases h
  | harvestProfiles pl =>
    rw [hrun] at h
    cases h
    exact .exported (by rw [hrun]; rfl)
  | harvestTraces pl =>
    rw [hrun] at h
    cases h
    exact .exported (by rw [hrun]; rfl)
  | harvestMetricsOTLP pl =>
    rw [hrun] at h
    cases h
    exact .exported (by rw [hrun]; rfl)

/-- The application of the harvest `i` has been inactive too long: it is removed, not harvested. -/
def Removes (p : Processor) (i : ℕ) (now : Time) : Prop :=
  ∃ ah app, p.appHarvests[i]? = some ah ∧ p.appObjs[ah.app]? = some app ∧ 0 < p.appTimeout ∧
    app.inactive p.appTimeout now

/-- What `doHarvest` does, one constructor for each kind of harvest. -/
inductive Harvests (p : Processor) (i : ℕ) (type : HarvestType) (blocking : Bool) (now : Time) :
    Processor → Prop
  | remove {id : AgentRunID} {key : AppKey} (hremove : Removes p i now) :
      Harvests p i type blocking now { p.shutdownAppHarvest id with apps := p.apps.erase key }
  | all {ah : AppHarvest} {harvest : Harvest} {a : ℕ} {f : App → App} {g : HarvestData → HarvestData}
      {args : HarvestArgs} (hkeep : ¬ Removes p i now) (hah : p.appHarvests[i]? = some ah)
      (hharvest : p.harvestObjs[ah.harvest]? = some harvest) (hall : type.includes .all = true) :
      Harvests p i type blocking now
        ((((p.updateApp a f).updateHarvest ah.harvest g).detachHarvest i harvest.table).spawn i args
          blocking [.harvestAll ah.harvest])
  | defaultData {ah : AppHarvest} {harvest : Harvest} {a : ℕ} {f : App → App}
      {g : HarvestData → HarvestData} {d d' : HarvestData} {args : HarvestArgs} {limits : EventConfigs}
      (hah : p.appHarvests[i]? = some ah) (hharvest : p.harvestObjs[ah.harvest]? = some harvest)
      (hall : ¬ type.includes .all = true) :
      Harvests p i type blocking now
        (((p.updateApp a f).updateHarvest ah.harvest g).spawn i args blocking
          ((harvestDefaultData ah.harvest d args).2 ++ (harvestEvents d' args type limits).2))
  | events {ah : AppHarvest} {g : HarvestData → HarvestData} {d : HarvestData} {args : HarvestArgs}
      {limits : EventConfigs} (hah : p.appHarvests[i]? = some ah)
      (hall : ¬ type.includes .all = true) :
      Harvests p i type blocking now
        ((p.updateHarvest ah.harvest g).spawn i args blocking (harvestEvents d args type limits).2)

lemma doHarvest_harvests {i : ℕ} {type : HarvestType} {blocking : Bool}
    {now : Time} (h : p.doHarvest i type blocking now = some p') :
    Harvests p i type blocking now p' := by
  obtain ⟨ah,hah,h⟩ := Option.bind_eq_some_iff.mp h
  obtain ⟨app,happ,h⟩ := Option.bind_eq_some_iff.mp h
  split at h
  · rename_i hremove
    cases h
    exact .remove ⟨ah,app,hah,happ,hremove.1,hremove.2⟩
  rename_i hkeep
  have hkeep : ¬ Removes p i now := by
    rintro ⟨ah',app',hah',happ',hremove⟩
    rw [hah,Option.some_inj] at hah'
    subst hah'
    rw [happ,Option.some_inj] at happ'
    subst happ'
    exact hkeep hremove
  dsimp only at h
  unfold harvestByType at h
  split at h
  · rename_i hall
    obtain ⟨harvest,hharvest,h⟩ := Option.bind_eq_some_iff.mp h
    obtain ⟨app,-,h⟩ := Option.bind_eq_some_iff.mp h
    cases h
    exact .all hkeep hah hharvest hall
  · rename_i hall
    obtain ⟨harvest,hharvest,h⟩ := Option.bind_eq_some_iff.mp h
    obtain ⟨app,-,h⟩ := Option.bind_eq_some_iff.mp h
    obtain ⟨reply,-,h⟩ := Option.bind_eq_some_iff.mp h
    split at h
    · cases h
      exact .defaultData hah hharvest hall
    · cases h
      exact .events hah hall

/-- The moves, one constructor each. -/
inductive Moves (p : Processor) : ProcessorEvent → Processor → Prop
  | task {i : ℕ} {final : Payload} {failed : Bool} {t : Task} {p₁ : Processor}
      {next : List HarvestTask} (ht : p.tasks[i]? = some t)
      (hperform : perform { p with tasks := p.tasks.eraseIdx i } t final failed = some (p₁,next)) :
      Moves p (.task i final failed) (p₁.spawn t.ah t.args false next)
  | inline {final : Payload} {failed : Bool} {t : Task} {rest : List Task} {p₁ : Processor}
      {next : List HarvestTask} (hinline : p.inline = t :: rest)
      (hperform : perform { p with inline := rest } t final failed = some (p₁,next)) :
      Moves p (.inline final failed) (p₁.spawn t.ah t.args true next)
  | exit : Moves p .exit p.exit
  | exitHarvest {i : ℕ} {now : Time} {left : List ℕ} {p' : Processor} (hleft : p.exiting = some left)
      (hinline : p.inline = []) (hi : i ∈ left)
      (h : doHarvest { p with exiting := some (left.erase i) } i .all true now = some p') :
      Moves p (.harvest i .all true now) p'
  | util (hrun : p.exiting = none) : Moves p .util { p with util := true }
  | appInfo {id : Option AgentRunID} {info : AppInfo} {now : Time} (hrun : p.exiting = none) :
      Moves p (.appInfo id info now) (p.processAppInfo id info now).1
  | txnData {id : AgentRunID} {sample : HarvestData → HarvestData} {now : Time}
      (hrun : p.exiting = none) : Moves p (.txnData id sample now) (p.processTxnData id sample now)
  | connected {i : ℕ} {env : ConnectAnswers} {localId : AgentRunID} {body : Bytes} {now : Time}
      {p' : Processor} (hrun : p.exiting = none) (h : p.connected i env localId body now = some p') :
      Moves p (.connected i env localId body now) p'
  | harvest {i : ℕ} {type : HarvestType} {now : Time} {p' : Processor} (hrun : p.exiting = none)
      (h : p.doHarvest i type false now = some p') : Moves p (.harvest i type false now) p'
  | harvestError {i : ℕ} {reply : RPMResponse} {data : HarvestData → HarvestData} {now : Time}
      {t : Task} (hrun : p.exiting = none) (ht : p.tasks[i]? = some t) (hwaits : t.run = .harvestError) :
      Moves p (.harvestError i reply data now)
        (processHarvestError { p with tasks := p.tasks.eraseIdx i } t.args.id reply data now)
  | cleanExit (hrun : p.exiting = none) : Moves p .cleanExit p.cleanExit

lemma step_moves {e : ProcessorEvent} (h : p.step e = some p') : Moves p e p' := by
  have hreceive : ∀ {r : Option Processor},
      (if p.exiting = none then r else none) = some p' → p.exiting = none ∧ r = some p' := by
    intro r h
    split at h
    · exact ⟨by assumption,h⟩
    · cases h
  cases e with
  | task i final failed =>
    obtain ⟨t,ht,h⟩ := Option.bind_eq_some_iff.mp h
    obtain ⟨⟨p₁,next⟩,hperform,h⟩ := Option.bind_eq_some_iff.mp h
    cases h
    exact .task ht hperform
  | inline final failed =>
    simp only [step] at h
    split at h
    · cases h
    · rename_i t rest hinline
      obtain ⟨⟨p₁,next⟩,hperform,h⟩ := Option.bind_eq_some_iff.mp h
      cases h
      exact .inline hinline hperform
  | exit =>
    cases h
    exact .exit
  | util =>
    obtain ⟨hrun,h⟩ := hreceive h
    cases h
    exact .util hrun
  | appInfo id info now =>
    obtain ⟨hrun,h⟩ := hreceive h
    cases h
    exact .appInfo hrun
  | txnData id sample now =>
    obtain ⟨hrun,h⟩ := hreceive h
    cases h
    exact .txnData hrun
  | connected i env localId body now =>
    obtain ⟨hrun,h⟩ := hreceive h
    exact .connected hrun h
  | harvest i type blocking now =>
    cases blocking with
    | true =>
      obtain ⟨left,hleft,h⟩ := Option.bind_eq_some_iff.mp h
      split at h
      · rename_i hok
        obtain ⟨hinline,hi,rfl⟩ := hok
        exact .exitHarvest hleft hinline hi h
      · cases h
    | false =>
      obtain ⟨hrun,h⟩ := hreceive h
      exact .harvest hrun h
  | harvestError i reply data now =>
    obtain ⟨hrun,h⟩ := hreceive h
    obtain ⟨t,ht,h⟩ := Option.bind_eq_some_iff.mp h
    split at h
    · rename_i hok
      cases h
      exact .harvestError hrun ht hok.1
    · cases h
  | cleanExit =>
    obtain ⟨hrun,h⟩ := hreceive h
    cases h
    exact .cleanExit hrun

/-! ### Runs -/

/-- The states of the runs from `p₀` whose moves all meet `ok`. -/
inductive Run (ok : Processor → ProcessorEvent → Prop) (p₀ : Processor) : Processor → Prop
  | init : Run ok p₀ p₀
  | step {p p' : Processor} (e : ProcessorEvent) : Run ok p₀ p → ok p e → p.step e = some p' →
      Run ok p₀ p'

/-- The run of a list of moves. -/
def exec : List ProcessorEvent → Processor → Option Processor
  | [], p => some p
  | e :: es, p => (p.step e).bind (exec es)

lemma Run.of_exec {p₀ p p' : Processor} {es : List ProcessorEvent}
    (hp : Run (fun _ _ => True) p₀ p) (h : exec es p = some p') :
    Run (fun _ _ => True) p₀ p' := by
  induction es generalizing p with
  | nil =>
    cases h
    exact hp
  | cons e es ih =>
    obtain ⟨p₁,hstep,h⟩ := Option.bind_eq_some_iff.mp h
    exact ih (.step e hp trivial hstep) h

end Processor
end PhpAgent
