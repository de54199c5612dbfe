import PhpAgent.Agent.Rules
import PhpAgent.Util.Flatbuffers

/-! The agent's side of the appinfo command, after `cmd_appinfo_transmit.c`, with what it uses of
`nr_app_harvest.c`. -/
namespace PhpAgent

/-! ### The application -/

inductive NrAppState
  | unknown
  | invalid
  | ok
deriving DecidableEq

inductive Status
  | success
  | failure
deriving DecidableEq

def Status.isFailure : Status → Bool
  | .success => false
  | .failure => true

/-- `nr_app_harvest_t`, with times in microseconds. The threshold is left out: it is a double that
only the sampler uses. -/
structure NrAppHarvest where
  connectTimestamp : ℕ
  frequency : ℕ
  targetTransactionsPerCycle : ℕ
  nextHarvest : ℕ
  prevTransactionsSeen : ℕ
  transactionsSeen : ℕ
  transactionsSampled : ℕ
deriving DecidableEq

/-- `nr_app_limits_t`. -/
structure NrAppLimits where
  analyticsEvents : ℤ
  customEvents : ℤ
  errorEvents : ℤ
  spanEvents : ℤ
  logEvents : ℤ
deriving DecidableEq

/-- The settings of `nr_app_info_t` that bound the events. -/
structure AppInfoMax where
  customEvents : ℕ
  spanEvents : ℕ
  logEvents : ℕ
deriving DecidableEq

/-- `nrapp_t`, for any type of rules and of segment terms. -/
structure NrApp (R T : Type) where
  state : NrAppState
  info : AppInfoMax
  agentRunId : Option Bytes
  connectReply : Option NrObj
  urlRules : Option R
  txnRules : Option R
  segmentTerms : Option T
  entityGuid : Option Bytes
  securityPolicies : Option NrObj
  limits : NrAppLimits
  harvest : NrAppHarvest

/-- What the handler of a reply calls: `nro_create_from_json`, `nr_rules_create_from_obj` and
`nr_segment_terms_create_from_obj`. -/
structure Makers (R T : Type) where
  fromJson : Bytes → Option NrObj
  rules : Option NrObj → Option R
  segmentTerms : Option NrObj → Option T

/-! ### Reading the connect reply -/

def NrObj.getHashHash (o : NrObj) (key : String) : Option NrObj :=
  match o.getHashValue key with
  | some (.hash entries) => some (.hash entries)
  | _ => Option.none

def NrObj.getHashInt (o : NrObj) (key : String) : Option ℤ :=
  match o.getHashValue key with
  | some (.int i _) => some i
  | _ => Option.none

namespace NrApp

def maxAnalyticEvents : ℤ := 10000
def maxErrors : ℤ := 20
def maxSpanEvents : ℕ := 10000
def defaultCustomEvents : ℤ := 30000
def timeDivisor : ℕ := 1000000

/-- `nr_cmd_appinfo_process_get_harvest_limit`. -/
def getHarvestLimit (limits : Option NrObj) (key : String) (dflt : ℤ) : ℤ :=
  (limits.bind (·.getHashInt key)).getD dflt

/-- The smaller of a setting and the limit the collector gave, compared as 64-bit numbers. -/
def smallerLimit (harvest : ℤ) (setting : ℕ) : ℤ :=
  if toUint64 harvest < setting then toInt (toUint64 harvest) else toInt setting

/-- `nr_cmd_appinfo_process_event_harvest_config`. -/
def processEventHarvestConfig (config : Option NrObj) (info : AppInfoMax) : NrAppLimits :=
  let harvestLimits := config.bind (·.getHashHash "harvest_limits")
  { analyticsEvents := getHarvestLimit harvestLimits "analytic_event_data" maxAnalyticEvents
    errorEvents := getHarvestLimit harvestLimits "error_event_data" maxErrors
    spanEvents := getHarvestLimit harvestLimits "span_event_data"
      (toInt (if info.spanEvents = 0 then maxSpanEvents else info.spanEvents))
    customEvents := smallerLimit
      (getHarvestLimit harvestLimits "custom_event_data" defaultCustomEvents) info.customEvents
    logEvents := smallerLimit
      (getHarvestLimit harvestLimits "log_event_data" (toInt info.logEvents)) info.logEvents }

/-! ### Harvest timing -/

/-- `nr_app_harvest_calculate_next_harvest_time`. -/
def nextHarvestTime (connectTimestamp frequency now : ℕ) : ℕ :=
  if now < connectTimestamp then connectTimestamp
  else if frequency = 0 then connectTimestamp
  else (connectTimestamp+frequency*((now-connectTimestamp)/frequency+1)) % 2^64

/-- `nr_app_harvest_private_init`. -/
def harvestInit (ah : NrAppHarvest) (connectTimestamp frequency target now : ℕ) : NrAppHarvest :=
  if connectTimestamp ≠ ah.connectTimestamp ∨ frequency ≠ ah.frequency then
    { connectTimestamp := connectTimestamp
      frequency := frequency
      targetTransactionsPerCycle := target
      nextHarvest := nextHarvestTime connectTimestamp frequency now
      prevTransactionsSeen := 0
      transactionsSeen := 0
      transactionsSampled := 0 }
  else { ah with targetTransactionsPerCycle := target }

/-- `nr_cmd_appinfo_process_harvest_timing`; `now` is what `nr_get_time` returns. -/
def processHarvestTiming (reply : Flat.Table) (now : ℕ) (ah : NrAppHarvest) : NrAppHarvest :=
  let timestamp := Flat.tableReadU64 reply 3 0
  let frequency := Flat.tableReadU16 reply 4 60
  let target := Flat.tableReadU16 reply 5 10
  harvestInit ah (if timestamp = 0 then now else timestamp*timeDivisor % 2^64)
    (frequency*timeDivisor) target now

/-! ### Replies -/

section Replies
variable {R T : Type} (makers : Makers R T)

/-- `nro_create_from_json_unterminated` on a vector of the reply; its length becomes an `int`. -/
def createFromJson (reply : Flat.Table) (i : ℕ) : Option NrObj :=
  let len := toInt (Flat.tableReadVectorLen reply i)
  match Flat.tableReadBytes reply i with
  | none => none
  | some pos =>
    if len ≤ 0 then none else makers.fromJson (cstr (Flat.bytesAt reply.data pos len.toNat))

/-- What a full reply does once its connect reply is parsed. -/
def connected (app : NrApp R T) (reply : Flat.Table) (now : ℕ) (obj : NrObj) : NrApp R T :=
  { app with
    state := .ok
    connectReply := some obj
    agentRunId := some ((obj.getHashString "agent_run_id").getD [])
    urlRules := makers.rules (obj.getHashArray "url_rules")
    txnRules := makers.rules (obj.getHashArray "transaction_name_rules")
    segmentTerms := makers.segmentTerms (obj.getHashArray "transaction_segment_terms")
    entityGuid := obj.getHashString "entity_guid"
    securityPolicies := createFromJson makers reply 2
    limits := processEventHarvestConfig (obj.getHashHash "event_harvest_config") app.info
    harvest := processHarvestTiming reply now app.harvest }

/-- The switch over the status of a reply. -/
def processStatus (app : NrApp R T) (reply : Flat.Table) (now : ℕ) : ℤ → Status × NrApp R T
  | 0 => (.success,{ app with state := .unknown })
  | 1 => (.success,{ app with state := .invalid })
  | 2 => (.success,{ app with state := .invalid })
  | 3 =>
    -- the old connect reply goes before the new one is known to be good
    match createFromJson makers reply 1 with
    | none => (.failure,{ app with connectReply := none })
    | some obj => (.success,connected makers app reply now obj)
  | 4 => (.success,{ app with state := .ok })
  | _ => (.failure,app)

/-- The body of a reply, if the message is one. -/
def replyBody (data : Option Memory) (len : ℤ) : Option Flat.Table :=
  match data with
  | none => none
  | some data =>
    if len = 0 then none
    else
      let msg := Flat.tableInitRoot data
      if Flat.tableReadU8 msg 1 0 ≠ 2 then none else Flat.tableReadUnion msg 2

/-- `nr_cmd_appinfo_process_reply`. -/
def processReply (data : Option Memory) (len : ℤ) (now : ℕ) (app : NrApp R T) :
    Status × NrApp R T :=
  match replyBody data len with
  | none => (.failure,app)
  | some reply => processStatus makers app reply now (Flat.tableReadI8 reply 0 0)

/-- `nr_cmd_appinfo_tx` without a hook. `received` is the message from the daemon when the query
could be written and answered. -/
def tx (daemonFd : ℤ) (queryInvalid : Bool) (received : Option (Memory × ℤ)) (now : ℕ)
    (app : NrApp R T) : Status × NrApp R T :=
  if daemonFd < 0 then (.failure,app)
  else
    let app := { app with state := NrAppState.unknown }
    if queryInvalid then (.failure,app)
    else
      match processReply makers (received.map Prod.fst) ((received.map Prod.snd).getD 0) now app with
      | (.success,app) => (.success,app)
      | (.failure,app) => (.failure,{ app with state := .unknown })

end Replies
end NrApp
end PhpAgent
