import PhpAgent.Segment.Data

/-! Span events: the setters of `nr_span_event.c` and `nr_segment_to_span_event`. -/
namespace PhpAgent

namespace SpanEvent

def create : SpanEvent where
  traceId := none
  intrinsics :=
    [(ascii "category",.string (ascii "generic")),(ascii "type",.string (ascii "Span"))]
  agentAttributes := []
  userAttributes := []

/-- The setters of string intrinsics differ in their key only. -/
def setIntrinsic (key : String) (e : SpanEvent) (value : Option Bytes) : SpanEvent :=
  { e with intrinsics := e.intrinsics.setString key value }

/-- The setters of string agent attributes differ in their key only. -/
def setAgentString (key : String) (e : SpanEvent) (value : Option Bytes) : SpanEvent :=
  { e with agentAttributes := e.agentAttributes.setString key value }

def setGuid : SpanEvent → Option Bytes → SpanEvent := setIntrinsic "guid"
def setParentId : SpanEvent → Option Bytes → SpanEvent := setIntrinsic "parentId"
def setTransactionId : SpanEvent → Option Bytes → SpanEvent := setIntrinsic "transactionId"
def setName : SpanEvent → Option Bytes → SpanEvent := setIntrinsic "name"
def setTransactionName : SpanEvent → Option Bytes → SpanEvent := setIntrinsic "transaction.name"
def setTracingVendors : SpanEvent → Option Bytes → SpanEvent := setIntrinsic "tracingVendors"
def setTrustedParentId : SpanEvent → Option Bytes → SpanEvent := setIntrinsic "trustedParentId"
def setComponent : SpanEvent → Option Bytes → SpanEvent := setIntrinsic "component"
def setErrorMessage : SpanEvent → Option Bytes → SpanEvent := setAgentString "error.message"
def setErrorClass : SpanEvent → Option Bytes → SpanEvent := setAgentString "error.class"

/-- The setters of other intrinsics. -/
def setIntrinsicObj (key : String) (e : SpanEvent) (value : NrObj) : SpanEvent :=
  { e with intrinsics := e.intrinsics.set (ascii key) value }

/-- Unlike the string setters, a NULL trace id clears the cached copy. -/
def setTraceId (e : SpanEvent) (traceId : Option Bytes) : SpanEvent :=
  { setIntrinsic "traceId" e traceId with traceId := traceId }

/-- Microseconds to milliseconds. -/
def setTimestamp (e : SpanEvent) (time : ℕ) : SpanEvent :=
  setIntrinsicObj "timestamp" e (.ulong (time/1000))

/-- Microseconds to seconds; the quotient is not rounded here. -/
def setDuration (e : SpanEvent) (duration : ℕ) : SpanEvent :=
  setIntrinsicObj "duration" e (.double (.ofRat ((duration : ℚ)/1000000)))

def setPriority (e : SpanEvent) (priority : Double) : SpanEvent :=
  setIntrinsicObj "priority" e (.double priority)

def setSampled (e : SpanEvent) (sampled : Bool) : SpanEvent :=
  setIntrinsicObj "sampled" e (.boolean sampled)

/-- Only entry points carry the intrinsic. -/
def setEntryPoint (e : SpanEvent) (entryPoint : Bool) : SpanEvent :=
  if entryPoint then setIntrinsicObj "nr.entryPoint" e (.boolean entryPoint) else e

def setSpankind (e : SpanEvent) (spankind : SpanKind) : SpanEvent :=
  match spankind with
  | .producer => setIntrinsic "span.kind" e (some (ascii "producer"))
  | .client => setIntrinsic "span.kind" e (some (ascii "client"))
  | .consumer => setIntrinsic "span.kind" e (some (ascii "consumer"))
  | .noSpankind =>
    if (e.intrinsics.get? (ascii "span.kind")).isSome then setIntrinsicObj "span.kind" e .none else e

def setCategory (e : SpanEvent) (category : SegmentType) : SpanEvent :=
  match category with
  | .datastore => setSpankind (setIntrinsic "category" e (some (ascii "datastore"))) .client
  | .custom => setSpankind (setIntrinsic "category" e (some (ascii "generic"))) .noSpankind
  | .external => setSpankind (setIntrinsic "category" e (some (ascii "http"))) .client
  | .message => setSpankind (setIntrinsic "category" e (some (ascii "message"))) .noSpankind

/-- A span has at most `NR_ATTRIBUTE_USER_LIMIT` user attributes. -/
def userLimit : ℕ := 64

/-- The event and how many user attributes it may still take. `nro_set_hash` copies the value. -/
def addUserAttribute (ec : SpanEvent × ℕ) (entry : Bytes × NrObj) : SpanEvent × ℕ :=
  if 0 < ec.2 then
    ({ ec.1 with userAttributes := ec.1.userAttributes.set entry.1 entry.2.copy },ec.2-1)
  else ec

def ignoredAttributes : List Bytes :=
  [ascii "errorType",ascii "errorMessage",ascii "error.class",ascii "error.message"]

def addAgentAttribute (e : SpanEvent) (entry : Bytes × NrObj) : SpanEvent :=
  if entry.1 ∈ ignoredAttributes then e
  else { e with agentAttributes := e.agentAttributes.set entry.1 entry.2.copy }

def populateDatastore (e : SpanEvent) (s : Segment) : SpanEvent :=
  let e := e.setCategory .datastore
  match s.typedAttributes with
  | some (.datastore d) =>
    let e := e.setComponent d.component
    let e := setAgentString "db.system" e d.dbSystem
    let e := setAgentString "peer.hostname" e d.inst.host
    -- a missing host or port is unknown in the address, but stays unset on its own
    let host := d.inst.host.getD (ascii "unknown")
    let port := d.inst.portPathOrId.getD (ascii "unknown")
    let e := setAgentString "peer.address" e (some (host ++ ascii ":" ++ port))
    let e := setAgentString "db.instance" e d.inst.databaseName
    setAgentString "db.statement" e (d.sql.or d.sqlObfuscated)
  | _ => e

def populateHttp (e : SpanEvent) (s : Segment) : SpanEvent :=
  let e := e.setCategory .external
  match s.typedAttributes with
  | some (.external x) =>
    let e := setAgentString "http.method" e x.procedure
    let e := setAgentString "http.url" e x.uri
    let e := e.setComponent x.library
    { e with
      agentAttributes := e.agentAttributes.set (ascii "http.statusCode") (.ulong x.status) }
  | _ => e

def populateMessage (e : SpanEvent) (s : Segment) : SpanEvent :=
  let e := e.setCategory .message
  match s.typedAttributes with
  | some (.message m) =>
    let e := e.setSpankind m.messageAction
    let e := setAgentString "messaging.destination.name" e m.destinationName
    let e := setAgentString "messaging.system" e m.messagingSystem
    let e := setAgentString "server.address" e m.serverAddress
    let e := setAgentString "messaging.rabbitmq.destination.routing_key" e
      m.messagingDestinationRoutingKey
    let e := setAgentString "messaging.destination_publish.name" e
      m.messagingDestinationPublishName
    if m.serverPort = 0 then e
    else { e with
      agentAttributes := e.agentAttributes.set (ascii "server.port") (.ulong m.serverPort) }
  | _ => e

end SpanEvent

namespace Txn

def shouldCreateSpanEvents (t : Txn) : Bool :=
  (t.spanQueue.isSome || (t.distributedTrace.map (·.sampled)).getD false) &&
    t.options.distributedTracingEnabled && t.options.spanEventsEnabled

/-- The parts of a root span that come from the transaction and its inbound payload. -/
def populateRootSpan (t : Txn) (e : SpanEvent) : SpanEvent :=
  let dt := t.distributedTrace
  let e := e.setEntryPoint true
  let e := e.setTracingVendors (dt.bind (·.tracingVendors))
  let e := e.setTrustedParentId (dt.bind (·.trustedParentId))
  let e := e.setParentId (dt.bind (·.inboundGuid))
  let e := e.setTransactionName t.name
  let e :=
    if t.dtInbound then
      let e := SpanEvent.setAgentString "parent.type" e (dt.bind (·.inboundType))
      let e := SpanEvent.setAgentString "parent.app" e (dt.bind (·.inboundAppId))
      let e := SpanEvent.setAgentString "parent.account" e (dt.bind (·.inboundAccountId))
      let e := SpanEvent.setAgentString "parent.transportType" e (dt.bind (·.inboundTransportType))
      match dt with
      | some d =>
        if d.inboundTimestamp ≠ 0 then
          let seconds : ℚ := timeDuration d.inboundTimestamp t.absStartTime/1000000
          { e with
            agentAttributes :=
              e.agentAttributes.set (ascii "parent.transportDuration") (.double (.ofRat seconds)) }
        else e
      | none => e
    else e
  (((t.attributes.bind (·.agentToObj Attributes.destinationTxnEvent)).getD []).foldl
    SpanEvent.addAgentAttribute e)

/-- The event of a segment that has an id. `parentId` is the id of its parent, if it has one. -/
def spanOfSegment (t : Txn) (s : Segment) (parentId : Option (Option Bytes)) : SpanEvent :=
  let dt := t.distributedTrace
  let traceId := if t.options.distributedTracingEnabled then dt.bind (·.traceId) else none
  let e := SpanEvent.create.setGuid s.id
  let e := e.setTraceId traceId
  let e := e.setTransactionId (dt.bind (·.txnId))
  let e := e.setName (t.traceStrings.get s.name)
  let e := e.setTimestamp (t.absStartTime+s.startTime)
  let e := e.setDuration (timeDuration s.startTime s.stopTime)
  let e := e.setPriority ((dt.map (·.priority)).getD (.ofRat (-1)))
  let e := e.setSampled ((dt.map (·.sampled)).getD false)
  let e :=
    match parentId with
    | some id => (e.setParentId id).setEntryPoint false
    | none => t.populateRootSpan e
  let e :=
    match s.error with
    | some err => (e.setErrorMessage err.errorMessage).setErrorClass err.errorClass
    | none => e
  let e :=
    match s.type with
    | .datastore => e.populateDatastore s
    | .external => e.populateHttp s
    | .message => e.populateMessage s
    | .custom => e.setCategory .custom
  let ec := ((s.attributes.bind (·.userToObj Attributes.destinationSpan)).getD []).foldl
    SpanEvent.addUserAttribute (e,SpanEvent.userLimit)
  let ec := (((s.attributes.bind (·.agentToObj Attributes.destinationSpan)).getD []).foldl
    SpanEvent.addAgentAttribute ec.1,ec.2)
  (((s.attributesTxnEvent.bind (·.userToObj Attributes.destinationSpan)).getD []).foldl
    SpanEvent.addUserAttribute ec).1

/-- `nr_segment_ensure_id`: create the id if there is none and spans are wanted. -/
def ensureId (t : Txn) (p : SegPtr) : Option (Option Bytes × Txn) := do
  let s ← t.segs p
  if s.id = none ∧ t.shouldCreateSpanEvents then
    let id := some (t.guids t.guidsUsed)
    let t ← { t with guidsUsed := t.guidsUsed+1 }.update p fun s => { s with id := id }
    return (id,t)
  else
    return (s.id,t)

/-- `nr_segment_to_span_event`, NULL for an active segment, one that stops before it starts and
one that cannot be given an id. -/
def toSpanEvent (t : Txn) (p : SegPtr) : Option (Option SpanEvent × Txn) := do
  let s ← t.segs p
  if s.stopTime = 0 ∨ s.stopTime < s.startTime then
    return (none,t)
  let (id,t) ← t.ensureId p
  if id = none then
    return (none,t)
  match s.parent with
  | some parent =>
    let (parentId,t) ← t.ensureId parent
    return (some (t.spanOfSegment { s with id := id } (some parentId)),t)
  | none => return (some (t.spanOfSegment { s with id := id } none),t)

end Txn
end PhpAgent
