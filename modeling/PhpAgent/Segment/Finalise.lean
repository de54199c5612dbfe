import PhpAgent.Segment.SampleHeap
import PhpAgent.Segment.Traces

/-! `nr_segment_tree_finalise`: the two passes over the segment tree. -/
namespace PhpAgent
namespace Txn
open MinmaxHeap
variable {t : Txn}

/-- `nr_txn_duration`. -/
def duration? (t : Txn) : Option ℕ := do
  match t.segmentRoot with
  | none => return 0
  | some root =>
    let s ← t.segs root
    return timeDuration s.startTime s.stopTime

/-- `nr_txn_should_save_trace`. -/
def shouldSaveTrace (t : Txn) (duration : ℕ) : Bool :=
  1 ≤ t.segmentCount && (t.isSynthetics || t.options.ttThreshold ≤ duration)

/-- `nr_segment_heap_to_set` into a new set; no heap gives the empty set. -/
def heapToSet (heap : Option (MinmaxHeap SegPtr)) : Option (Finset SegPtr) :=
  match heap with
  | none => some ∅
  | some heap => heap.iterate.map List.toFinset

/-- What the limits decide before the first pass. -/
structure SamplingPlan where
  saveTrace : Bool
  sampleTrace : Bool
  saveSpans : Bool
  sampleSpans : Bool

def samplingPlan (t : Txn) (traceLimit spanLimit duration : ℕ) : SamplingPlan where
  saveTrace := 0 < traceLimit && t.shouldSaveTrace duration
  sampleTrace := traceLimit < t.segmentCount
  saveSpans := 0 < spanLimit && t.shouldCreateSpanEvents && t.spanQueue.isNone
  sampleSpans := spanLimit < t.segmentCount

/-- `first_pass_metadata`, with the heaps the plan asks for. -/
def firstPassMetadata (t : Txn) (plan : SamplingPlan) (traceLimit spanLimit duration : ℕ) :
    TreeToHeapMetadata where
  traceHeap := if plan.saveTrace && plan.sampleTrace then segmentHeapCreate traceLimit else none
  spanHeap := if plan.saveSpans && plan.sampleSpans then segmentHeapCreate spanLimit else none
  totalTime := 0
  mainContext :=
    if t.options.discountMainContextBlocking then some (.create t.segmentCount 0 duration)
    else none

def firstPass (t : Txn) (plan : SamplingPlan) (traceLimit spanLimit duration : ℕ) :
    Option (Txn × TreeToHeapMetadata) :=
  t.treeToHeap t.segmentRoot (t.firstPassMetadata plan traceLimit spanLimit duration)

/-- The set of one kind of output; NULL takes every segment. -/
def samplingSet (sample : Bool) (heap : Option (MinmaxHeap SegPtr)) :
    Option (Option (Finset SegPtr)) :=
  if sample then (heapToSet heap).map some else some none

def samplingSets (plan : SamplingPlan) (metadata : TreeToHeapMetadata) : Option SamplingMetadata := do
  let traceSet ← samplingSet plan.sampleTrace metadata.traceHeap
  let spanSet ← samplingSet plan.sampleSpans metadata.spanHeap
  return ⟨traceSet,spanSet⟩

/-- The time the main context was blocked is taken off; times are unsigned 64-bit numbers. -/
def discountMainContext (mainContext : Option ExclusiveTime) (totalTime duration : ℕ) : ℕ :=
  match mainContext with
  | none => totalTime
  | some mainContext =>
    let blocked := (duration+2^64-mainContext.calculate.1%2^64)%2^64
    (totalTime+2^64-blocked)%2^64

/-- The second pass, if one is wanted. -/
def secondPass (t : Txn) (plan : SamplingPlan) (metadata : TreeToHeapMetadata) (duration : ℕ)
    (out : TxnFinal) : Option (Txn × TxnFinal) := do
  if plan.saveTrace || plan.saveSpans then
    let sets ← samplingSets plan metadata
    t.createData duration sets (t.attributes.bind (·.agentToObj Attributes.destinationTxnTrace))
      (t.attributes.bind (·.userToObj Attributes.destinationTxnTrace)) t.intrinsics plan.saveTrace
      plan.saveSpans out
  else
    return (t,out)

/-- `nr_segment_tree_finalise`. The callback may change the transaction. -/
def finalise (t : Txn) (traceLimit spanLimit : ℕ) (totalTimeCb : Option (Txn → ℕ → Option Txn)) :
    Option (Txn × TxnFinal) := do
  if t.segmentRoot = none then
    return (t,⟨none,none,0⟩)
  let duration ← t.duration?
  let plan := t.samplingPlan traceLimit spanLimit duration
  let (t,metadata) ← t.firstPass plan traceLimit spanLimit duration
  let totalTime := discountMainContext metadata.mainContext metadata.totalTime duration
  let t ←
    match totalTimeCb with
    | none => some t
    | some cb => cb t totalTime
  t.secondPass plan metadata duration ⟨none,none,totalTime⟩

end Txn
end PhpAgent
