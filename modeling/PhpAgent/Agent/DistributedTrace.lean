import PhpAgent.Agent.AppInfo
import PhpAgent.Util.Json

/-! Distributed trace metadata and New Relic payloads, after `nr_distributed_trace.c`. The parser of
JSON texts is a parameter. -/
namespace PhpAgent

/-! ### Reading objects -/

/-- `nro_get_long` reads eight bytes also of an `int`, which has set the lower four. -/
def NrObj.getLong : NrObj → Option ℤ
  | .long i => some i
  | .int i above => some (((above.toNat : ℤ) * 2^32 + i % 2^32).bmod (2^64))
  | _ => Option.none

def NrObj.getDouble : NrObj → Option Double
  | .double d => some d
  | _ => Option.none

def NrObj.getBoolean : NrObj → Option Bool
  | .boolean b => some b
  | _ => Option.none

def NrObj.getHashLong (o : NrObj) (key : String) : Option ℤ :=
  (o.getHashValue key).bind NrObj.getLong

def NrObj.getHashDouble (o : NrObj) (key : String) : Option Double :=
  (o.getHashValue key).bind NrObj.getDouble

def NrObj.getHashBoolean (o : NrObj) (key : String) : Option Bool :=
  (o.getHashValue key).bind NrObj.getBoolean

/-- `nro_get_array_int`; positions count from one. -/
def NrObj.getArrayInt : NrObj → ℕ → Option ℤ
  | .array elements, i+1 =>
    match elements[i]? with
    | some (.int n _) => some n
    | _ => Option.none
  | _, _ => Option.none

/-! ### Supportability metrics -/

namespace DtMetric

def acceptSuccess : Bytes := ascii "Supportability/DistributedTrace/AcceptPayload/Success"
def acceptException : Bytes := ascii "Supportability/DistributedTrace/AcceptPayload/Exception"
def acceptParseException : Bytes :=
  ascii "Supportability/DistributedTrace/AcceptPayload/ParseException"
def acceptCreateBeforeAccept : Bytes :=
  ascii "Supportability/DistributedTrace/AcceptPayload/Ignored/CreateBeforeAccept"
def acceptMultiple : Bytes :=
  ascii "Supportability/DistributedTrace/AcceptPayload/Ignored/Multiple"
def acceptMajorVersion : Bytes :=
  ascii "Supportability/DistributedTrace/AcceptPayload/Ignored/MajorVersion"
def acceptNull : Bytes := ascii "Supportability/DistributedTrace/AcceptPayload/Ignored/Null"
def acceptUntrustedAccount : Bytes :=
  ascii "Supportability/DistributedTrace/AcceptPayload/Ignored/UntrustedAccount"
def createSuccess : Bytes := ascii "Supportability/DistributedTrace/CreatePayload/Success"
def createException : Bytes := ascii "Supportability/DistributedTrace/CreatePayload/Exception"
def w3cCreateSuccess : Bytes := ascii "Supportability/TraceContext/Create/Success"
def w3cCreateException : Bytes := ascii "Supportability/TraceContext/Create/Exception"
def w3cAcceptSuccess : Bytes := ascii "Supportability/TraceContext/Accept/Success"
def w3cTraceparentParseException : Bytes :=
  ascii "Supportability/TraceContext/TraceParent/Parse/Exception"
def w3cTracestateNoNrEntry : Bytes := ascii "Supportability/TraceContext/TraceState/NoNrEntry"
def w3cTracestateInvalidNrEntry : Bytes :=
  ascii "Supportability/TraceContext/TraceState/InvalidNrEntry"
def w3cTracecontextAcceptException : Bytes := ascii "Supportability/TraceContext/Accept/Exception"

end DtMetric

/-! ### Metadata -/

/-- What an accepted trace has set. A NULL string is `none`. -/
structure NrInbound where
  set : Bool
  type : Option Bytes
  appId : Option Bytes
  accountId : Option Bytes
  transportType : Option Bytes
  timestamp : UInt64
  guid : Option Bytes
  txnId : Option Bytes
  tracingVendors : Option Bytes
  rawTracingVendors : Option Bytes
  trustedParentId : Option Bytes
deriving DecidableEq

/-- `nr_distributed_trace_t`. -/
structure NrDistributedTrace where
  accountId : Option Bytes
  appId : Option Bytes
  txnId : Option Bytes
  priority : Double
  sampled : Bool
  traceId : Option Bytes
  trustedKey : Option Bytes
  inbound : NrInbound
deriving DecidableEq

namespace NrDistributedTrace

def noInbound : NrInbound :=
  ⟨false,none,none,none,none,0,none,none,none,none,none⟩

/-- `nr_distributed_trace_create`. -/
def create : NrDistributedTrace := ⟨none,none,none,.finite false 0,false,none,none,noInbound⟩

/-- `set_dt_field`: an empty value counts as none. -/
def setDtField (value : Option Bytes) : Option Bytes := value.filter (· ≠ [])

lemma setDtField_some (b : Bytes) : setDtField (some b) = if b = [] then none else some b := by
  by_cases hb : b = [] <;> simp [setDtField,Option.filter_some,hb]

def timeDivisorMs : UInt64 := 1000

def supportedTypes : List Bytes :=
  ["Unknown","HTTP","HTTPS","Kafka","JMS","IronMQ","AMQP","Queue","Other"].map ascii

/-- `nr_distributed_trace_inbound_set_transport_type`. -/
def inboundSetTransportType (dt : NrDistributedTrace) (value : Option Bytes) :
    NrDistributedTrace :=
  let supported := value.filter (· ∈ supportedTypes)
  { dt with
    inbound := { dt.inbound with
      transportType := setDtField (some (supported.getD (ascii "Unknown"))) } }

/-! ### Accepting a payload -/

/-- A time in milliseconds as microseconds; a missing one is read as -1. -/
def timestampOf (ms : Option ℤ) : UInt64 := UInt64.ofNat (toUint64 (ms.getD (-1))) * timeDivisorMs

/-- The members of `nr_distributed_trace_accept_inbound_payload` taken from the payload's data. -/
def acceptData (dt : NrDistributedTrace) (data : NrObj) : NrDistributedTrace :=
  { dt with
    traceId := setDtField (data.getHashString "tr")
    priority := (data.getHashDouble "pr").getD dt.priority
    sampled := (data.getHashBoolean "sa").getD dt.sampled
    inbound := { dt.inbound with
      type := setDtField (data.getHashString "ty")
      accountId := setDtField (data.getHashString "ac")
      appId := setDtField (data.getHashString "ap")
      guid := setDtField (data.getHashString "id")
      txnId := setDtField (data.getHashString "tx")
      timestamp := timestampOf (data.getHashLong "ti") } }

def setInbound (dt : NrDistributedTrace) : NrDistributedTrace :=
  { dt with inbound := { dt.inbound with set := true } }

/-- The object under `d`, or one without members. -/
def payloadData (payload : NrObj) : NrObj := (payload.getHashHash "d").getD .none

/-- `nr_distributed_trace_accept_inbound_payload`, called with no earlier error. -/
def acceptInboundPayload (dt : Option NrDistributedTrace) (payload : Option NrObj)
    (transportType : Option Bytes) : Except Bytes NrDistributedTrace :=
  match dt, payload with
  | none, _ => .error DtMetric.acceptException
  | some _, none => .error DtMetric.acceptParseException
  | some dt, some payload =>
    .ok ((dt.acceptData (payloadData payload)).inboundSetTransportType transportType).setInbound

def versionMajor : ℤ := 0
def versionMinor : ℤ := 1

def requiredDataFields : List String := ["ty","ac","ap","tr","ti"]

/-- A required field is a string or a number. -/
def hasField (data : NrObj) (key : String) : Bool :=
  (data.getHashString key).isSome || (data.getHashLong key).isSome

/-- `nr_distributed_trace_convert_payload_to_object`, called with no earlier error. -/
def convertPayloadToObject (fromJson : Bytes → Option NrObj) (payload : Option Bytes) :
    Except Bytes NrObj :=
  match payload.filter (· ≠ []) with
  | none => .error DtMetric.acceptNull
  | some text =>
    match fromJson text with
    | none => .error DtMetric.acceptParseException
    | some obj =>
      match obj.getHashArray "v" with
      | none => .error DtMetric.acceptParseException
      | some version =>
        if versionMajor < (version.getArrayInt 1).getD (-1) then .error DtMetric.acceptMajorVersion
        else
          let data := payloadData obj
          if (data.getHashString "id").isNone ∧ (data.getHashString "tx").isNone then
            .error DtMetric.acceptParseException
          else if requiredDataFields.all (hasField data) then .ok obj
          else .error DtMetric.acceptParseException

def objectGetAccountId (payload : NrObj) : Option Bytes := (payloadData payload).getHashString "ac"
def objectGetTrustedKey (payload : NrObj) : Option Bytes := (payloadData payload).getHashString "tk"

/-! ### Creating a payload -/

/-- `nr_distributed_trace_payload_t`. -/
structure Payload where
  metadata : Option NrDistributedTrace
  parentId : Option Bytes
  timestamp : UInt64

/-- The members under `d`. The trusted key is left out when it is the account. -/
def payloadMembers (dt : NrDistributedTrace) (parentId : Option Bytes) (timestamp : UInt64) :
    NrHash :=
  let data := (NrHash.setString [] "ty" (some (ascii "App")))
    |>.setString "ac" dt.accountId
    |>.setString "ap" dt.appId
    |>.setString "id" parentId
    |>.setString "tr" dt.traceId
    |>.setString "tx" dt.txnId
    |>.set (ascii "pr") (.double dt.priority)
    |>.set (ascii "sa") (.boolean dt.sampled)
    |>.set (ascii "ti") (.long (timestamp / timeDivisorMs).toNat)
  if dt.trustedKey = dt.accountId then data else data.setString "tk" dt.trustedKey

/-- `nr_distributed_trace_payload_as_text`. -/
def payloadAsText (payload : Payload) : Option Bytes :=
  match payload.metadata with
  | none => none
  | some dt =>
    if payload.parentId = none ∧ dt.txnId = none then none
    else
      let version := NrObj.array [.int versionMajor,.int versionMinor]
      let obj := NrHash.set [] (ascii "v") version
      let data := payloadMembers dt payload.parentId payload.timestamp
      some (NrObj.hash (obj.set (ascii "d") (.hash data))).toJson

/-! ### What is set -/

@[simp] lemma inbound_set_setInbound (dt : NrDistributedTrace) :
    dt.setInbound.inbound.set = true := rfl

@[simp] lemma inbound_set_inboundSetTransportType (dt : NrDistributedTrace)
    (value : Option Bytes) :
    (dt.inboundSetTransportType value).inbound.set = dt.inbound.set := rfl

lemma acceptInboundPayload_set {dt dt' : NrDistributedTrace} {payload : Option NrObj}
    {transportType : Option Bytes}
    (h : acceptInboundPayload (some dt) payload transportType = .ok dt') :
    dt'.inbound.set = true := by
  cases payload with
  | none => simp [acceptInboundPayload] at h
  | some payload =>
    simp only [acceptInboundPayload,Except.ok.injEq] at h
    rw [← h,inbound_set_setInbound]

end NrDistributedTrace
end PhpAgent
