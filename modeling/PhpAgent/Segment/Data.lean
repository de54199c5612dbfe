import PhpAgent.Segment.ExclusiveTime
import PhpAgent.Util.MinmaxHeap
import PhpAgent.Util.StringPool
import PhpAgent.Util.Vector

/-! Segments and transactions, after `nr_segment.h`, `nr_segment_children.h` and `nr_txn.h`.
Pointers to segments are addresses into a memory owned by the transaction; an address that is not
live has no segment, so every use of a released segment has no result. -/
namespace PhpAgent

/-- The address of a segment. NULL is `none` of `Option SegPtr`. -/
abbrev SegPtr : Type := ℕ

inductive SegmentColor
  | white
  | grey
  deriving DecidableEq

inductive SegmentType
  | custom
  | datastore
  | external
  | message
  deriving DecidableEq

/-- `NR_SEGMENT_CHILDREN_PACKED_LIMIT`. -/
def packedLimit : ℕ := 8

/-- Children live in an array inside the segment until they no longer fit, then in a vector. -/
inductive SegmentChildren
  | packed (elements : List SegPtr) (fits : elements.length ≤ packedLimit)
  | vector (v : NrVector SegPtr)
  deriving DecidableEq

namespace SegmentChildren

def elements : SegmentChildren → List SegPtr
  | packed es _ => es
  | vector v => v.elements

def init : SegmentChildren := packed [] (Nat.zero_le _)

def size (c : SegmentChildren) : ℕ := c.elements.length
def get (c : SegmentChildren) (i : ℕ) : Option SegPtr := c.elements[i]?

/-- `nr_segment_children_migrate_to_vector`. -/
def migrateToVector : SegmentChildren → NrVector SegPtr
  | vector v => v
  | packed [] _ => .init packedLimit
  | packed (e :: es) _ => ⟨(e :: es).length*2,e :: es,by omega⟩

/-- The new children and the `child_ix` the added child is given. -/
def add (c : SegmentChildren) (child : SegPtr) : SegmentChildren × ℕ :=
  match c with
  | packed es _ =>
    if h : packedLimit < es.length+1 then
      (vector (c.migrateToVector.pushBack child),c.migrateToVector.size)
    else (packed (es ++ [child]) (by simpa using h),es.length)
  | vector v => (vector (v.pushBack child),v.size)

/-- Swap and pop: the last child takes the place of the removed one. The result is the new
children and the child whose `child_ix` is now `ix`, or `none` for a refused removal. -/
def remove (c : SegmentChildren) (ix : ℕ) : Option (SegmentChildren × SegPtr) :=
  match c.elements.getLast? with
  | none => none
  | some temp =>
    match c with
    | packed es h =>
      if es.length-1 < ix then none
      else some (packed (es.set ix temp).dropLast
        (by rw [List.length_dropLast,List.length_set]; omega),temp)
    | vector v =>
      if v.size ≤ ix then none else some (vector (v.replace ix temp).popBack,temp)

/-- The children of the new parent once it has taken over `es`. -/
def adopt (c : SegmentChildren) (es : List SegPtr) : SegmentChildren :=
  match c with
  | packed cs _ =>
    if h : packedLimit < es.length+cs.length then vector (c.migrateToVector.extend es)
    else packed (cs ++ es) (by rw [List.length_append]; omega)
  | vector v => vector (v.extend es)

end SegmentChildren

structure SegmentMetric where
  name : Bytes
  isScoped : Bool
  deriving DecidableEq

inductive SpanKind
  | producer
  | client
  | consumer
  | noSpankind
  deriving DecidableEq

structure DatastoreInstance where
  host : Option Bytes
  portPathOrId : Option Bytes
  databaseName : Option Bytes
  deriving DecidableEq

structure SegmentDatastore where
  component : Option Bytes
  sql : Option Bytes
  sqlObfuscated : Option Bytes
  inputQueryJson : Option Bytes
  backtraceJson : Option Bytes
  explainPlanJson : Option Bytes
  dbSystem : Option Bytes
  inst : DatastoreInstance
  deriving DecidableEq

structure SegmentExternal where
  transactionGuid : Option Bytes
  uri : Option Bytes
  library : Option Bytes
  procedure : Option Bytes
  status : ℕ
  deriving DecidableEq

structure SegmentMessage where
  messageAction : SpanKind
  destinationName : Option Bytes
  messagingSystem : Option Bytes
  serverAddress : Option Bytes
  messagingDestinationPublishName : Option Bytes
  messagingDestinationRoutingKey : Option Bytes
  serverPort : ℕ
  deriving DecidableEq

/-- The union of the source, tagged: the setters of `nr_segment.c` change the type and the
attributes together, so the tag and `type` agree. -/
inductive TypedAttributes
  | datastore (d : SegmentDatastore)
  | external (e : SegmentExternal)
  | message (m : SegmentMessage)
  deriving DecidableEq

structure SegmentError where
  errorMessage : Option Bytes
  errorClass : Option Bytes
  deriving DecidableEq

/-- One attribute with the destinations it may go to, as a bit set. -/
structure Attribute where
  key : Bytes
  value : NrObj
  destinations : ℕ

structure Attributes where
  agentAttributeList : List Attribute
  userAttributeList : List Attribute

namespace Attributes

def destinationTxnEvent : ℕ := 1
def destinationTxnTrace : ℕ := 2
def destinationSpan : ℕ := 16

/-- `nr_attributes_to_obj_internal`, NULL for an empty list. -/
def toObj (attributes : List Attribute) (destination : ℕ) : Option NrHash :=
  if attributes = [] then none
  else some (attributes.foldl
    (fun h a => if a.destinations &&& destination = 0 then h else h.set a.key a.value) [])

def userToObj (a : Attributes) (destination : ℕ) : Option NrHash :=
  toObj a.userAttributeList destination
def agentToObj (a : Attributes) (destination : ℕ) : Option NrHash :=
  toObj a.agentAttributeList destination

end Attributes

structure Segment where
  type : SegmentType
  txn : ℕ
  parent : Option SegPtr
  children : SegmentChildren
  childIx : ℕ
  color : SegmentColor
  startTime : ℕ
  stopTime : ℕ
  name : ℕ
  asyncContext : ℕ
  id : Option Bytes
  metrics : List SegmentMetric
  exclusiveTime : Option ExclusiveTime
  attributes : Option Attributes
  attributesTxnEvent : Option Attributes
  priority : ℕ
  typedAttributes : Option TypedAttributes
  error : Option SegmentError

/-- The zeroed memory the slab hands out. -/
def Segment.zero : Segment where
  type := .custom
  txn := 0
  parent := none
  children := .init
  childIx := 0
  color := .white
  startTime := 0
  stopTime := 0
  name := 0
  asyncContext := 0
  id := none
  metrics := []
  exclusiveTime := none
  attributes := none
  attributesTxnEvent := none
  priority := 0
  typedAttributes := none
  error := none

/-- One call of the `nrm_add` family. -/
structure MetricCall where
  name : Bytes
  duration : ℕ
  exclusive : ℕ
  forced : Bool
  deriving DecidableEq

/-- What the walk and the span events read of `nr_distributed_trace_t`. -/
structure DistributedTrace where
  txnId : Option Bytes
  traceId : Option Bytes
  priority : Double
  sampled : Bool
  inboundGuid : Option Bytes
  tracingVendors : Option Bytes
  trustedParentId : Option Bytes
  inboundType : Option Bytes
  inboundAppId : Option Bytes
  inboundAccountId : Option Bytes
  inboundTransportType : Option Bytes
  inboundTimestamp : ℕ

structure SpanEvent where
  traceId : Option Bytes
  intrinsics : NrHash
  agentAttributes : NrHash
  userAttributes : NrHash

structure TxnOptions where
  maxSegments : ℕ
  discountMainContextBlocking : Bool
  ttThreshold : ℕ
  distributedTracingEnabled : Bool
  spanEventsEnabled : Bool
  deriving DecidableEq

/-- `nr_slab_t`: released objects are handed out again, the last one first. -/
structure Slab where
  freeList : List SegPtr
  next : SegPtr
  count : ℕ
  deriving DecidableEq

/-- A transaction together with the memory its segments live in. `self` is its address, `guids`
what its random generator will return, and the metric tables are the calls made on them. -/
structure Txn where
  self : ℕ
  segs : SegPtr → Option Segment
  slab : Slab
  absStartTime : ℕ
  recording : Bool
  options : TxnOptions
  name : Option Bytes
  dtInbound : Bool
  isSynthetics : Bool
  traceStrings : StringPool
  defaultParentStack : NrStack SegPtr
  parentStacks : ℕ → Option (NrStack SegPtr)
  forceCurrentSegment : Option SegPtr
  segmentCount : ℕ
  segmentHeap : Option (MinmaxHeap SegPtr)
  segmentRoot : Option SegPtr
  scopedMetrics : List MetricCall
  unscopedMetrics : List MetricCall
  attributes : Option Attributes
  intrinsics : NrHash
  distributedTrace : Option DistributedTrace
  spanQueue : Option (List SpanEvent)
  guids : ℕ → Bytes
  guidsUsed : ℕ

namespace Txn

/-- Write to a live segment. -/
def update (t : Txn) (p : SegPtr) (f : Segment → Segment) : Option Txn := do
  let s ← t.segs p
  return { t with segs := Function.update t.segs p (some (f s)) }

end Txn
end PhpAgent
