import PhpAgent.Segment.Iterate
import PhpAgent.Util.Json

/-! The second pass over the segment tree, after `nr_segment_traces.c`: the text of the transaction
trace and the span events. -/
namespace PhpAgent
open Json

/-- `nr_segment_userdata_trace_t`. -/
structure TraceUserdata where
  buf : Option Bytes
  sample : Option (Finset SegPtr)
  currentPath : NrVector SegPtr
  sampledAncestorsWithChild : Finset SegPtr

/-- `nr_segment_userdata_spans_t`. -/
structure SpansUserdata where
  events : Option (List SpanEvent)
  sample : Option (Finset SegPtr)
  parentIds : NrStack (Option Bytes)

structure SegmentUserdata where
  segmentNames : StringPool
  success : Bool
  trace : TraceUserdata
  spans : SpansUserdata

/-- `nr_segment_is_sampled`: without a set every segment is. -/
def isSampled (segment : SegPtr) (sample : Option (Finset SegPtr)) : Bool :=
  match sample with
  | none => true
  | some sample => segment ∈ sample

/-! ### The parameters of a segment -/

def addHashKeyValueToBuffer (buf : Bytes) (key : String) (value : Option Bytes) (rawJson : Bool) :
    Bytes :=
  match value with
  | none => buf
  | some value =>
    buf ++ separator buf ++ (quoted (ascii key) ++ code ':' ::
      if rawJson then value else jsonEscape value)

def addHashKeyValueToBufferInt (buf : Bytes) (key : String) (value : ℕ) : Bytes :=
  buf ++ separator buf ++ (quoted (ascii key) ++ code ':' :: decimal value)

/-- The name of a string, for a string that may be missing. -/
def nameOr (pool : StringPool) (idx : ℕ) : Bytes := (pool.get idx).getD (ascii "<unknown>")

/-- The pool counts from 1, the trace from 0. -/
def addAsyncAttributeToBuffer (buf : Bytes) (s : Segment) (traceStrings segmentNames : StringPool) :
    Bytes × StringPool :=
  let (idx,segmentNames) := segmentNames.add (nameOr traceStrings s.asyncContext)
  (addHashKeyValueToBuffer buf "async_context" (some (code '`' :: decimal (idx-1))) false,
    segmentNames)

/-- The members of a hash, without the braces. -/
def addAttributeHashToBuffer (buf : Bytes) (attributes : Option NrHash) : Bytes :=
  match attributes with
  | none => buf
  | some attributes =>
    let json := (NrObj.hash attributes).toJson
    if 2 < json.length then buf ++ separator buf ++ json.tail.dropLast else buf

def addTypedAttributesToBuffer (buf : Bytes) (s : Segment) : Bytes :=
  match s.type, s.typedAttributes with
  | .datastore, some (.datastore data) =>
    let buf := addHashKeyValueToBuffer buf "host" data.inst.host false
    let buf := addHashKeyValueToBuffer buf "database_name" data.inst.databaseName false
    let buf := addHashKeyValueToBuffer buf "port_path_or_id" data.inst.portPathOrId false
    let buf := addHashKeyValueToBuffer buf "backtrace" data.backtraceJson true
    let buf := addHashKeyValueToBuffer buf "explain_plan" data.explainPlanJson true
    let buf := addHashKeyValueToBuffer buf "sql" data.sql false
    let buf := addHashKeyValueToBuffer buf "sql_obfuscated" data.sqlObfuscated false
    addHashKeyValueToBuffer buf "input_query" data.inputQueryJson true
  | .external, some (.external ext) =>
    let buf := addHashKeyValueToBuffer buf "uri" ext.uri false
    let buf := addHashKeyValueToBuffer buf "library" ext.library false
    let buf := addHashKeyValueToBuffer buf "procedure" ext.procedure false
    let buf := addHashKeyValueToBuffer buf "transaction_guid" ext.transactionGuid false
    addHashKeyValueToBufferInt buf "status" ext.status
  | .message, some (.message message) =>
    let buf := addHashKeyValueToBuffer buf "destination_name" message.destinationName false
    let buf := addHashKeyValueToBuffer buf "messaging_system" message.messagingSystem false
    let buf := addHashKeyValueToBuffer buf "server_address" message.serverAddress false
    let buf := addHashKeyValueToBuffer buf "messaging_destination_publish_name"
      message.messagingDestinationPublishName false
    let buf := addHashKeyValueToBuffer buf "messaging_destination_routing_key"
      message.messagingDestinationRoutingKey false
    if message.serverPort ≠ 0 then
      addHashKeyValueToBufferInt buf "server_port" message.serverPort
    else buf
  | _, _ => buf

/-- The parameters of a segment, after the opening brace. -/
def addSegmentParams (buf : Bytes) (s : Segment) (traceStrings segmentNames : StringPool) :
    Bytes × StringPool :=
  let buf := addTypedAttributesToBuffer buf s
  let (buf,segmentNames) :=
    if s.asyncContext ≠ 0 then addAsyncAttributeToBuffer buf s traceStrings segmentNames
    else (buf,segmentNames)
  let buf :=
    match s.attributes with
    | none => buf
    | some attributes =>
      let buf := addAttributeHashToBuffer buf (attributes.userToObj Attributes.destinationTxnTrace)
      addAttributeHashToBuffer buf (attributes.agentToObj Attributes.destinationTxnTrace)
  (buf,segmentNames)

/-! ### The passes -/

namespace Txn

/-- The text of a segment up to the opening bracket of its children. -/
def addSegmentToBuffer (t : Txn) (buf : Bytes) (s : Segment) (segmentNames : StringPool) :
    Bytes × StringPool :=
  let (idx,segmentNames) := segmentNames.add (nameOr t.traceStrings s.name)
  let startMs := s.startTime/1000
  let stopMs := max startMs (s.stopTime/1000)
  let buf := buf ++ (code '[' :: decimal startMs) ++ (code ',' :: decimal stopMs) ++
    (code ',' :: code '"' :: code '`' :: decimal (idx-1)) ++ [code '"',code ',',0x7b]
  let (buf,segmentNames) := addSegmentParams buf s t.traceStrings segmentNames
  (buf ++ [0x7d,code ',',code '['],segmentNames)

/-- `nr_segment_iteration_pass_trace`. NULL is never an ancestor with a child. -/
def passTrace (t : Txn) (u : SegmentUserdata) (buf : Bytes) (segment : SegPtr) (s : Segment) :
    SegmentUserdata :=
  if isSampled segment u.trace.sample then
    let parent := u.trace.currentPath.get 0
    let currentPath := u.trace.currentPath.pushFront segment
    let (buf,ancestors) :=
      match parent with
      | none => (buf,u.trace.sampledAncestorsWithChild)
      | some parent =>
        (if parent ∈ u.trace.sampledAncestorsWithChild then buf ++ [code ','] else buf,
          insert parent u.trace.sampledAncestorsWithChild)
    let (buf,segmentNames) := t.addSegmentToBuffer buf s u.segmentNames
    { u with
      segmentNames := segmentNames
      trace := { u.trace with
        buf := some buf
        currentPath := currentPath
        sampledAncestorsWithChild := ancestors } }
  else u

/-- `nr_segment_iteration_pass_span`. The id goes on the stack whether or not there is an event. -/
def passSpan (t : Txn) (u : SegmentUserdata) (events : List SpanEvent) (segment : SegPtr)
    (name : Bytes) : Option (Txn × SegmentUserdata) := do
  if isSampled segment u.spans.sample then
    let (span,t) ← t.toSpanEvent segment
    let events :=
      match span with
      | none => events
      | some span =>
        let span := span.setName (some name)
        let span :=
          if t.segmentRoot = some segment then
            let dt := t.distributedTrace
            let span := span.setEntryPoint true
            let span := span.setParentId (dt.bind (·.inboundGuid))
            let span := span.setTracingVendors (dt.bind (·.tracingVendors))
            span.setTrustedParentId (dt.bind (·.trustedParentId))
          else span.setParentId (NrStack.getTop u.spans.parentIds).join
        events ++ [span]
    let s ← t.segs segment
    return (t,{ u with
      spans := { u.spans with
        events := some events
        parentIds := NrStack.push u.spans.parentIds s.id } })
  else
    return (t,u)

/-- `nr_segment_traces_stot_iterator_post_callback`. -/
def stotPost : PostIter SegmentUserdata := fun segment (t,u) =>
  let trace :=
    match u.trace.buf with
    | none => u.trace
    | some buf =>
      if u.trace.currentPath.get 0 = some segment then
        { u.trace with
          buf := some (buf ++ [code ']',code ']'])
          currentPath := u.trace.currentPath.remove 0 }
      else u.trace
  let spans :=
    if isSampled segment u.spans.sample then
      { u.spans with parentIds := NrStack.pop u.spans.parentIds }
    else u.spans
  some (t,{ u with trace := trace, spans := spans })

/-- `nr_segment_traces_stot_iterator_callback`. Segments of no duration are skipped, and one that
stops before it starts makes the whole walk fail. -/
def stot : Iter SegmentUserdata := fun segment (t,u) => do
  let s ← t.segs segment
  if s.startTime = s.stopTime then
    return (none,t,u)
  if s.stopTime < s.startTime then
    return (none,t,{ u with success := false })
  let name := nameOr t.traceStrings s.name
  let (t,u) ←
    match u.spans.events with
    | none => some (t,u)
    | some events => t.passSpan u events segment name
  let u :=
    match u.trace.buf with
    | none => u
    | some buf => t.passTrace u buf segment s
  return (some stotPost,t,u)

/-- `nr_segment_traces_json_print_segments`, with the buffer, the events and the names it leaves. -/
def jsonPrintSegments (t : Txn) (buf : Option Bytes) (spanEvents : Option (List SpanEvent))
    (traceSet spanSet : Option (Finset SegPtr)) (root : Option SegPtr) (segmentNames : StringPool) :
    Option (Bool × Txn × SegmentUserdata) :=
  let u : SegmentUserdata :=
    { segmentNames := segmentNames
      success := true
      trace := ⟨buf,traceSet,.init 12,∅⟩
      spans := ⟨spanEvents,spanSet,.init 12⟩ }
  if buf = none ∧ spanEvents.isNone then some (false,t,u)
  else if root = none then some (false,t,u)
  else do
    let (t,u) ← t.iterate root stot u
    return (u.success,t,u)

end Txn

/-! ### The output -/

structure TxnFinal where
  traceJson : Option Bytes
  spanEvents : Option (List SpanEvent)
  totalTime : ℕ

/-- `nr_segment_tree_sampling_metadata_t` without its output. -/
structure SamplingMetadata where
  traceSet : Option (Finset SegPtr)
  spanSet : Option (Finset SegPtr)

namespace Txn

/-- `NR_MAX_SEGMENTS`. -/
def maxTraceSegments : ℕ := 2000

/-- The text before the segments. Only the first byte of the timestamp is written. -/
def traceHeader (duration : ℕ) : Bytes :=
  ascii "[[0,\x7b\x7d,\x7b\x7d,[0," ++ decimal (duration/1000) ++ ascii ",\"ROOT\",\x7b\x7d,["

/-- The hash at the end of the trace. -/
def traceAttributes (agentAttributes userAttributes : Option NrHash) (intrinsics : NrHash) : NrHash :=
  let hash : NrHash := []
  let hash := (agentAttributes.map fun a => hash.set (ascii "agentAttributes") (.hash a)).getD hash
  let hash := (userAttributes.map fun a => hash.set (ascii "userAttributes") (.hash a)).getD hash
  hash.set (ascii "intrinsics") (.hash intrinsics)

/-- The text after the segments. -/
def addTraceFooter (buf : Bytes) (attributes : NrHash) (segmentNames : StringPool) : Bytes :=
  addAttributeHashToBuffer (buf ++ ascii "]],\x7b") (some attributes) ++ ascii "\x7d]," ++
    segmentNames.toJson ++ ascii "]"

/-- `nr_segment_traces_create_data`. -/
def createData (t : Txn) (duration : ℕ) (metadata : SamplingMetadata)
    (agentAttributes userAttributes : Option NrHash) (intrinsics : NrHash)
    (createTrace createSpans : Bool) (out : TxnFinal) : Option (Txn × TxnFinal) :=
  if t.segmentCount = 0 ∨ duration = 0 ∨
      maxTraceSegments < (metadata.traceSet.map Finset.card).getD 0 then
    some (t,out)
  else do
    let buf := if createTrace then some (traceHeader duration) else none
    let spanEvents := if createSpans then some [] else none
    let (success,t,u) ← t.jsonPrintSegments buf spanEvents metadata.traceSet metadata.spanSet
      t.segmentRoot []
    if success then
      let attributes := traceAttributes agentAttributes userAttributes intrinsics
      return (t,{ out with
        traceJson := u.trace.buf.map fun buf => addTraceFooter buf attributes u.segmentNames
        spanEvents := u.spans.events })
    else
      return (t,out)

end Txn
end PhpAgent
