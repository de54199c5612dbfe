import PhpAgent.Util.Object

/-! Commands to the collector and its responses, after `collector/client.go`, and the limits of the
event harvest, after `collector/event_data.go`. -/
namespace PhpAgent

/-! ### Responses -/

structure RPMResponse where
  statusCode : ℤ
  body : Bytes
  err : Option String
  disconnectSecurityPolicy : Bool
deriving DecidableEq

def getStatusCodeMessage (statusCode : ℤ) : String :=
  if statusCode = 400 then "Invalid request formatting"
  else if statusCode = 401 then "Authentication failure"
  else if statusCode = 403 then "Forbidden"
  else if statusCode = 404 then "Not found"
  else if statusCode = 405 then "HTTP method not found"
  else if statusCode = 407 then "Proxy authentication failure (misconfigured)"
  else if statusCode = 408 then "Timeout"
  else if statusCode = 409 then "Conflict: you should reconnect"
  else if statusCode = 410 then "Gone: you should disconnect"
  else if statusCode = 411 then "Content-length required"
  else if statusCode = 413 then "Payload too large"
  else if statusCode = 414 then "URI too large"
  else if statusCode = 415 then "Content-type or content-encoding is wrong"
  else if statusCode = 417 then "Expectation failed"
  else if statusCode = 429 then "Too many requests"
  else if statusCode = 431 then "Request headers too large"
  else if statusCode = 500 then "NR server internal error"
  else if statusCode = 503 then "NR service unavailable"
  else "Unknown response code"

namespace RPMResponse

/-- `newRPMResponse`: every code but 200 and 202 is an error. -/
def ofStatusCode (statusCode : ℤ) : RPMResponse where
  statusCode := statusCode
  body := []
  err :=
    if statusCode ≠ 200 ∧ statusCode ≠ 202 then
      some ("response code: " ++ toString statusCode ++ ": " ++ getStatusCodeMessage statusCode)
    else none
  disconnectSecurityPolicy := false

def isDisconnect (r : RPMResponse) : Bool := r.statusCode = 410 || r.disconnectSecurityPolicy
def isRestartException (r : RPMResponse) : Bool := r.statusCode = 401 || r.statusCode = 409
def isInvalidLicense (r : RPMResponse) : Bool := r.statusCode = 401
def shouldSaveHarvestData (r : RPMResponse) : Bool :=
  r.statusCode = 408 || r.statusCode = 429 || r.statusCode = 500 || r.statusCode = 503

end RPMResponse

/-! ### Commands -/

inductive Command
  | metrics
  | errors
  | traces
  | slowSQLs
  | customEvents
  | errorEvents
  | txnEvents
  | connect
  | preconnect
  | spanEvents
  | logEvents
  | phpPackages
deriving DecidableEq

def Command.name : Command → String
  | metrics => "metric_data"
  | errors => "error_data"
  | traces => "transaction_sample_data"
  | slowSQLs => "sql_trace_data"
  | customEvents => "custom_event_data"
  | errorEvents => "error_event_data"
  | txnEvents => "analytic_event_data"
  | connect => "connect"
  | preconnect => "preconnect"
  | spanEvents => "span_event_data"
  | logEvents => "log_event_data"
  | phpPackages => "update_loaded_modules"

structure RpmCmd where
  name : Command
  collector : String
  runID : String
deriving DecidableEq

/-! ### Limits -/

/-- A duration in nanoseconds. -/
abbrev Duration : Type := ℤ

def second : Duration := 10^9
def millisecond : Duration := 10^6

/-- `Event`: the limit and the report period of one kind of event. -/
structure EventConfig where
  limit : ℤ
  reportPeriod : Duration
deriving DecidableEq

structure EventConfigs where
  errorEventConfig : EventConfig
  analyticEventConfig : EventConfig
  customEventConfig : EventConfig
  spanEventConfig : EventConfig
  logEventConfig : EventConfig
deriving DecidableEq

structure EventHarvestConfig where
  reportPeriod : Duration
  eventConfigs : EventConfigs
deriving DecidableEq

namespace Limits

def appLimit : ℕ := 250
def appConnectAttemptBackoff : Duration := 30*second
def defaultReportPeriod : Duration := 60*second
def maxTxnEvents : ℕ := 10*1000
def maxSpanMaxEvents : ℤ := 10000
def maxCustomMaxEvents : ℤ := 100*1000
def maxErrorEvents : ℤ := 100
def maxLogMaxEvents : ℤ := 20*1000
def defaultMaxPayloadSizeInBytes : ℤ := 1000*1000
def maxMetrics : ℤ := 2*1000
def failedEventsAttemptsLimit : ℕ := 10
def failedMetricAttemptsLimit : ℕ := 5

end Limits
end PhpAgent
