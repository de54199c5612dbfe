import PhpAgent.Daemon.Collector

/-! Applications of the daemon and how they connect, after `app.go` and the connect part of
`processor.go` and `otlp_harvest.go`. -/
namespace PhpAgent

abbrev AgentRunID : Type := String

/-- A point in time, in nanoseconds since the epoch. -/
abbrev Time : Type := ℤ

namespace Time

/-- `time.Time{}`. -/
def zero : Time := -62135596800*second

/-- `t.Sub(u)`, which saturates. -/
def sub (t u : Time) : Duration := max (-(2^63)) (min (2^63-1) (t-u))

end Time

inductive AppState
  | unknown
  | connected
  | disconnected
  | restart
  | invalidLicense
  | invalidSecurityPolicies
deriving DecidableEq

structure AppKey where
  license : String
  appname : String
  redirectCollector : String
  highSecurity : Bool
  agentLanguage : String
  agentPolicies : String
  agentHostname : String
  traceObserverHost : String
  traceObserverPort : ℕ
deriving DecidableEq

/-- `AppInfo`, with the hash of the supported policies in their place. -/
structure AppInfo where
  license : String
  appname : String
  redirectCollector : String
  highSecurity : Bool
  agentLanguage : String
  supportedPoliciesHash : String
  securityPolicyToken : String
  hostname : String
  traceObserverHost : String
  traceObserverPort : ℕ
  logEventLimit : ℤ
  distributedTracingEnabled : Bool
deriving DecidableEq

def AppInfo.key (info : AppInfo) : AppKey where
  license := info.license
  appname := info.appname
  redirectCollector := info.redirectCollector
  highSecurity := info.highSecurity
  agentLanguage := info.agentLanguage
  agentPolicies := info.supportedPoliciesHash
  agentHostname := info.hostname
  traceObserverHost := info.traceObserverHost
  traceObserverPort := info.traceObserverPort

/-- `ConnectReply`, once `parseConnectReply` has found the run id. -/
structure ConnectReply where
  id : AgentRunID
  samplingFrequency : ℤ
  samplingTarget : ℤ
  eventHarvestConfig : EventHarvestConfig
  maxPayloadSizeInBytes : ℤ
deriving DecidableEq

structure PhpPackagesKey where
  name : String
  version : String
deriving DecidableEq

structure App where
  state : AppState
  collector : String
  lastConnectAttempt : Time
  connectTime : Time
  harvestFrequency : Duration
  samplingTarget : ℕ
  info : AppInfo
  connectReply : Option ConnectReply
  rawSecurityPolicies : Bytes
  rawConnectReply : Bytes
  lastActivity : Time
  phpPackages : List PhpPackagesKey
deriving DecidableEq

namespace App

def key (app : App) : AppKey := app.info.key

/-- `NewApp`. -/
def new (info : AppInfo) (now : Time) : App where
  state := .unknown
  collector := ""
  lastConnectAttempt := .zero
  connectTime := .zero
  harvestFrequency := 0
  samplingTarget := 0
  info := info
  connectReply := none
  rawSecurityPolicies := []
  rawConnectReply := []
  lastActivity := now
  phpPackages := []

def needsConnectAttempt (app : App) (now : Time) (backoff : Duration) : Bool :=
  if app.state ≠ .unknown then false
  else if backoff ≤ Time.sub now app.lastConnectAttempt then true
  else false

/-- `Inactive`, for a threshold that is not negative. -/
def inactive (app : App) (threshold : Duration) (now : Time) : Bool :=
  threshold < Time.sub now app.lastActivity

/-- The new packages of a decoded list; nil when there is none. -/
def filterPhpPackages (app : App) (data : Option (List PhpPackagesKey)) :
    App × Option (List PhpPackagesKey) :=
  match data with
  | none => (app,none)
  | some pkgs =>
    let (seen,fresh) := pkgs.foldl
      (fun (seen,fresh) pkg => if pkg ∈ seen then (seen,fresh) else (pkg :: seen,fresh ++ [pkg]))
      (app.phpPackages,[])
    ({ app with phpPackages := seen },if fresh = [] then none else some fresh)

/-- `processLogEventLimits`: the smaller of the limits of the agent and of the collector. -/
def processLogEventLimits (app : App) : App :=
  match app.connectReply with
  | none => app
  | some reply =>
    let config := reply.eventHarvestConfig.eventConfigs.logEventConfig
    let agentLogLimit := (app.info.logEventLimit*config.reportPeriod).tdiv Limits.defaultReportPeriod
    let finalLogLimit := if agentLogLimit < config.limit then agentLogLimit else config.limit
    { app with
      connectReply := some { reply with
        eventHarvestConfig.eventConfigs.logEventConfig.limit := finalLogLimit } }

end App

/-! ### Connecting -/

structure ConnectAttempt where
  key : AppKey
  collector : String
  reply : Option ConnectReply
  rawReply : RPMResponse
  err : Option String
  rawSecurityPolicies : Bytes
deriving DecidableEq

structure ConnectArgs where
  redirectCollector : String
  license : String
  appKey : AppKey
  securityPolicyToken : String
deriving DecidableEq

/-- What the collector and the JSON library answer to one `ConnectApplication`. -/
structure ConnectAnswers where
  encodePreconnect : Option String
  preconnect : RPMResponse
  preconnectReply : Except String String
  verifySecurityPolicies : Option String
  marshalPolicies : Except String Bytes
  addPoliciesToPayload : Option String
  encodeConnect : Option String
  connect : RPMResponse
  parseConnectReply : Except String ConnectReply

/-- `CalculatePreconnectHost`: the region is the part of the licence before an `x`. -/
def calculatePreconnectHost (license overrideHost : String) : String :=
  if overrideHost ≠ "" then overrideHost
  else
    match license.toList with
    | [] => "collector.newrelic.com"
    | c :: rest =>
      let region := c :: rest.takeWhile (· ≠ 'x')
      if 'x' ∈ rest ∧ '\n' ∉ region then
        "collector." ++ String.ofList region ++ ".nr-data.net"
      else "collector.newrelic.com"

/-- The attempt, with the commands it executed. `preconnectReply` is the redirect host. -/
def connectApplication (args : ConnectArgs) (env : ConnectAnswers) : ConnectAttempt × List RpmCmd :=
  let preconnect : RpmCmd :=
    ⟨.preconnect,calculatePreconnectHost args.license args.redirectCollector,""⟩
  let rep : ConnectAttempt := ⟨args.appKey,"",none,⟨0,[],none,false⟩,none,[]⟩
  match env.encodePreconnect with
  | some err => ({ rep with err := some err },[])
  | none =>
    let rep := { rep with rawReply := env.preconnect }
    match env.preconnect.err with
    | some err => ({ rep with err := some err },[preconnect])
    | none =>
      match env.preconnectReply with
      | .error err => ({ rep with err := some err },[preconnect])
      | .ok host =>
        match if args.securityPolicyToken ≠ "" then env.verifySecurityPolicies else none with
        | some err => ({ rep with err := some err },[preconnect])
        | none =>
          match env.marshalPolicies with
          | .error err => ({ rep with err := some err },[preconnect])
          | .ok policies =>
            let rep := { rep with rawSecurityPolicies := policies }
            match if args.securityPolicyToken ≠ "" then env.addPoliciesToPayload else none with
            | some err => ({ rep with err := some err },[preconnect])
            | none =>
              match env.encodeConnect with
              | some err => ({ rep with err := some err },[preconnect])
              | none =>
                let rep := { rep with collector := host, rawReply := env.connect }
                match env.connect.err with
                | some err => ({ rep with err := some err },[preconnect,⟨.connect,host,""⟩])
                | none =>
                  match env.parseConnectReply with
                  | .error err => ({ rep with err := some err },[preconnect,⟨.connect,host,""⟩])
                  | .ok reply => ({ rep with reply := some reply },[preconnect,⟨.connect,host,""⟩])

/-- The answers to a connect that ends with `connect`, and with `reply` if that is no error. -/
def ConnectAnswers.ending (connect : RPMResponse) (reply : ConnectReply) : ConnectAnswers where
  encodePreconnect := none
  preconnect := ⟨200,[],none,false⟩
  preconnectReply := .ok "collector.example"
  verifySecurityPolicies := none
  marshalPolicies := .ok []
  addPoliciesToPayload := none
  encodeConnect := none
  connect := connect
  parseConnectReply := .ok reply

/-- What `parseConnectReply` makes of `syntheticConnectReply`: no events but spans. -/
def localReply (id : AgentRunID) : ConnectReply where
  id := id
  samplingFrequency := 60
  samplingTarget := 10
  eventHarvestConfig :=
    { reportPeriod := Limits.defaultReportPeriod
      eventConfigs :=
        { errorEventConfig := ⟨0,Limits.defaultReportPeriod⟩
          analyticEventConfig := ⟨0,Limits.defaultReportPeriod⟩
          customEventConfig := ⟨0,Limits.defaultReportPeriod⟩
          spanEventConfig := ⟨Limits.maxSpanMaxEvents,Limits.defaultReportPeriod⟩
          logEventConfig := ⟨0,Limits.defaultReportPeriod⟩ } }
  maxPayloadSizeInBytes := Limits.defaultMaxPayloadSizeInBytes

/-- `localConnect`, with the run id it draws and the body it writes. -/
def localConnect (args : ConnectArgs) (id : AgentRunID) (body : Bytes) : ConnectAttempt where
  key := args.appKey
  collector := "local"
  reply := some (localReply id)
  rawReply := ⟨200,body,none,false⟩
  err := none
  rawSecurityPolicies := [0x7b,0x7d]

end PhpAgent
