import PhpAgent.Segment.SpanEvent

/-! The operations on the segments of a transaction, after `nr_segment.c`,
`nr_segment_children.[ch]`, `nr_txn.c` and `util_slab.c`. A result of `none` is a use of a segment
that is not live, or a loop that does not end; NULL and false of the source are values of the
result. The clock is read through the argument `now`. -/
namespace PhpAgent
namespace Txn

/-- `nr_slab_next` on the slab of segments. -/
def allocateSegment (t : Txn) : SegPtr × Txn :=
  match t.slab.freeList.getLast? with
  | some p => (p,{ t with
      segs := Function.update t.segs p (some .zero)
      slab := { t.slab with freeList := t.slab.freeList.dropLast, count := t.slab.count+1 } })
  | none => (t.slab.next,{ t with
      segs := Function.update t.segs t.slab.next (some .zero)
      slab := { t.slab with next := t.slab.next+1, count := t.slab.count+1 } })

/-- `nr_slab_release` on the slab of segments. -/
def releaseSegment (t : Txn) (p : SegPtr) : Txn :=
  { t with
    segs := Function.update t.segs p none
    slab := { t.slab with freeList := t.slab.freeList ++ [p] } }

/-! ### The parent stacks -/

def getCurrentSegment (t : Txn) (asyncContext : Option Bytes) : Option SegPtr :=
  match asyncContext with
  | some context =>
    let idx := t.traceStrings.find context
    if idx = 0 then none else (t.parentStacks idx).bind NrStack.getTop
  | none =>
    match t.forceCurrentSegment with
    | some p => some p
    | none => NrStack.getTop t.defaultParentStack

/-- The stack of an execution context, the default one for context 0. -/
def stackOf (t : Txn) (context : ℕ) : Option (NrStack SegPtr) :=
  if context = 0 then some t.defaultParentStack else t.parentStacks context

def setStackOf (t : Txn) (context : ℕ) (stack : NrStack SegPtr) : Txn :=
  if context = 0 then { t with defaultParentStack := stack }
  else { t with parentStacks := Function.update t.parentStacks context (some stack) }

def setCurrentSegment (t : Txn) (p : SegPtr) : Option Txn := do
  let s ← t.segs p
  let stack := (t.stackOf s.asyncContext).getD (.init NrStack.defaultCapacity)
  return t.setStackOf s.asyncContext (stack.push p)

/-- Take the segment off the stack of its context. -/
def unstack (t : Txn) (context : ℕ) (p : SegPtr) : Txn :=
  match t.stackOf context with
  | some stack => t.setStackOf context (stack.removeTopmost p)
  | none => t

/-- The part of `nr_txn_retire_current_segment` that feeds the span queue. -/
def enqueueSpan (t : Txn) (p : SegPtr) : Option Txn := do
  let s ← t.segs p
  match t.spanQueue with
  | none => return t
  | some q =>
    if s.name = 0 then
      return t
    match ← t.toSpanEvent p with
    | (none,t) => return t
    | (some e,t) => return { t with
        spanQueue := some (q ++ [e])
        unscopedMetrics := t.unscopedMetrics ++
          [⟨ascii "Supportability/InfiniteTracing/Span/Seen",0,0,true⟩] }

def retireCurrentSegment (t : Txn) (p : SegPtr) : Option Txn := do
  let s ← t.segs p
  (t.unstack s.asyncContext p).enqueueSpan p

/-! ### Children -/

/-- `nr_segment_children_add(&parent->children, child)`. -/
def childrenAdd (t : Txn) (parent child : SegPtr) : Option Txn := do
  let s ← t.segs parent
  let (children,ix) := s.children.add child
  let t ← t.update parent fun s => { s with children := children }
  t.update child fun c => { c with childIx := ix }

/-- `nr_segment_children_remove(&parent->children, child)`. -/
def childrenRemove (t : Txn) (parent child : SegPtr) : Option (Bool × Txn) := do
  let s ← t.segs parent
  let c ← t.segs child
  match s.children.remove c.childIx with
  | none => return (false,t)
  | some (children,temp) =>
    let t ← t.update temp fun x => { x with childIx := c.childIx }
    let t ← t.update parent fun s => { s with children := children }
    return (true,t)

/-- The loop of `nr_segment_children_reparent`, from index `i` on. -/
def reparentLoop (newParent parentSize : ℕ) : List SegPtr → ℕ → Txn → Option Txn
  | [], _, t => some t
  | child :: rest, i, t => do
    let t ← t.update child fun c => { c with parent := some newParent, childIx := parentSize+i }
    reparentLoop newParent parentSize rest (i+1) t

/-- `nr_segment_children_reparent(&segment->children, newParent)`. -/
def childrenReparent (t : Txn) (segment newParent : SegPtr) : Option Txn := do
  let s ← t.segs segment
  if s.children.size = 0 then
    return t
  let n ← t.segs newParent
  let t ← reparentLoop newParent n.children.size s.children.elements 0 t
  let t ← t.update newParent fun n => { n with children := n.children.adopt s.children.elements }
  t.update segment fun s => { s with children := .init }

/-! ### Starting and parenting -/

/-- The parent of a segment started without one. -/
def implicitParent (t : Txn) (asyncContext : Option Bytes) : Option SegPtr :=
  match t.getCurrentSegment asyncContext with
  | some p => some p
  | none => if asyncContext.isSome then t.getCurrentSegment none else none

/-- `nr_string_add` of the context name; no name is context 0. -/
def internContext (t : Txn) (asyncContext : Option Bytes) : ℕ × Txn :=
  match asyncContext with
  | none => (0,t)
  | some context =>
    let (idx,pool) := t.traceStrings.add context
    (idx,{ t with traceStrings := pool })

/-- `nr_segment_init`. Only a segment started without an explicit parent becomes current. -/
def init (t : Txn) (now : ℕ) (segment : SegPtr) (parent : Option SegPtr)
    (asyncContext : Option Bytes) : Option Txn := do
  let (context,t) := t.internContext asyncContext
  let t ← t.update segment fun s =>
    { s with
      color := .white
      type := .custom
      txn := t.self
      error := none
      startTime := timeDuration t.absStartTime now
      asyncContext := context
      children := .init }
  let above := parent.or (t.implicitParent asyncContext)
  let t ← t.update segment fun s => { s with parent := above }
  let t ←
    match above with
    | some above => t.childrenAdd above segment
    | none => some t
  if parent = none then t.setCurrentSegment segment else some t

/-- NULL when the transaction is not recording. -/
def start (t : Txn) (now : ℕ) (parent : Option SegPtr) (asyncContext : Option Bytes) :
    Option (Option SegPtr × Txn) := do
  if !t.recording then
    return (none,t)
  let (segment,t) := t.allocateSegment
  let t ← t.init now segment parent asyncContext
  return (some segment,t)

/-- Whether the walk up from `ancestor` meets `segment`. -/
def isAncestor (t : Txn) (segment : SegPtr) : ℕ → Option SegPtr → Option Bool
  | _, none => some false
  | 0, some _ => none
  | fuel+1, some ancestor =>
    if ancestor = segment then some true
    else do
      let a ← t.segs ancestor
      isAncestor t segment fuel a.parent

/-- Leave the children of the present parent, if there is one. The result of the removal is not
checked. -/
def leaveParent (t : Txn) (segment : SegPtr) (parent : Option SegPtr) : Option Txn :=
  match parent with
  | some parent => (t.childrenRemove parent segment).map Prod.snd
  | none => some t

/-- There are fewer than `slab.next` addresses, so a longer walk up would go round for ever. A NULL
parent for a segment that has one is dereferenced. -/
def setParent (t : Txn) (segment : SegPtr) (parent : Option SegPtr) : Option (Bool × Txn) := do
  let s ← t.segs segment
  match parent with
  | none => if s.parent = none then return (true,t) else none
  | some parent =>
    let p ← t.segs parent
    if s.txn ≠ p.txn then
      return (false,t)
    if s.parent = some parent then
      return (true,t)
    if ← t.isAncestor segment t.slab.next (some parent) then
      return (false,t)
    let t ← t.leaveParent segment s.parent
    let t ← t.childrenAdd parent segment
    let t ← t.update segment fun s => { s with parent := some parent }
    return (true,t)

/-- The result does not tell whether the child was moved. -/
def addChild (t : Txn) (parent child : SegPtr) : Option (Bool × Txn) := do
  let (_,t) ← t.setParent child (some parent)
  return (true,t)

def setName (t : Txn) (segment : SegPtr) (name : Bytes) : Option Txn :=
  let (idx,pool) := t.traceStrings.add name
  { t with traceStrings := pool }.update segment fun s => { s with name := idx }

def setTiming (t : Txn) (segment : SegPtr) (start duration : ℕ) : Option Txn :=
  t.update segment fun s => { s with startTime := start, stopTime := (start+duration)%2^64 }

def addMetric (t : Txn) (segment : SegPtr) (name : Bytes) (isScoped : Bool) : Option Txn :=
  t.update segment fun s => { s with metrics := s.metrics ++ [⟨name,isScoped⟩] }

/-! ### Discarding -/

/-- `nrm_add_ex` for each metric of a segment. -/
def addMetrics (t : Txn) (metrics : List SegmentMetric) (duration exclusive : ℕ) : Txn :=
  metrics.foldl (fun t m =>
    let call : MetricCall := ⟨m.name,duration,exclusive,false⟩
    if m.isScoped then { t with scopedMetrics := t.scopedMetrics ++ [call] }
    else { t with unscopedMetrics := t.unscopedMetrics ++ [call] }) t

/-- Add the children in the segment's own context to its exclusive time. -/
def addChildTimes (t : Txn) (context : ℕ) : List SegPtr → ExclusiveTime → Option ExclusiveTime
  | [], et => some et
  | child :: rest, et => do
    let c ← t.segs child
    let et := if c.asyncContext = context then (et.addChild c.startTime c.stopTime).2 else et
    addChildTimes t context rest et

/-- The exclusive time of a segment that is discarded: its duration less its children and the
children already recorded. The calculation sorts the record in place. -/
def discardedExclusiveTime (t : Txn) (segment : SegPtr) (s : Segment) : Option (ℕ × Txn) := do
  let numChildren := s.children.size
  let et ←
    if numChildren = 0 then some s.exclusiveTime
    else
      let et := ExclusiveTime.ensure s.exclusiveTime numChildren s.startTime s.stopTime
      (t.addChildTimes s.asyncContext s.children.elements et).map some
  match et with
  | none => return (timeDuration s.startTime s.stopTime,t)
  | some et =>
    let (exclusive,et) := et.calculate
    let t ← t.update segment fun s => { s with exclusiveTime := some et }
    return (exclusive,t)

/-- Record a discarded segment as a child of its parent, if both run in the same context. -/
def recordChild (t : Txn) (parent : SegPtr) (s : Segment) : Option Txn := do
  let p ← t.segs parent
  if p.asyncContext = s.asyncContext then
    let et := ExclusiveTime.ensure p.exclusiveTime p.children.size p.startTime p.stopTime
    t.update parent fun p => { p with exclusiveTime := some (et.addChild s.startTime s.stopTime).2 }
  else
    return t

/-- `nr_segment_discard_merge_metrics`. -/
def discardMergeMetrics (t : Txn) (segment : SegPtr) : Option Txn := do
  let s ← t.segs segment
  match s.parent with
  | none => return t
  | some parent =>
    if s.stopTime < s.startTime then
      return t
    let duration := timeDuration s.startTime s.stopTime
    if 1 < t.options.maxSegments then
      return t.addMetrics s.metrics duration 0
    let (exclusive,t) ← t.discardedExclusiveTime segment s
    let t ← t.recordChild parent s
    return t.addMetrics s.metrics duration exclusive

/-- Release a segment whose children have been taken over: `nr_segment_children_deinit`,
`nr_segment_destroy_fields` and the slab. A released object is zeroed. -/
def destroy (t : Txn) (segment : SegPtr) : Txn := t.releaseSegment segment

/-- False for a segment without a parent. -/
def discard (t : Txn) (segment : SegPtr) : Option (Bool × Txn) := do
  let s ← t.segs segment
  match s.parent with
  | none => return (false,t)
  | some parent =>
    let t ← t.retireCurrentSegment segment
    let t ← if s.metrics ≠ [] then t.discardMergeMetrics segment else some t
    match ← t.childrenRemove parent segment with
    | (false,t) => return (false,t)
    | (true,t) =>
      let t ← t.childrenReparent segment parent
      return (true,t.destroy segment)

/-! ### Ending -/

/-- Durations are unsigned 64-bit differences. -/
def unsignedDuration (s : Segment) : ℕ := (s.stopTime+2^64-s.startTime%2^64)%2^64

def durationComparator (a b : Segment) : ℤ :=
  if unsignedDuration a < unsignedDuration b then -1
  else if unsignedDuration b < unsignedDuration a then 1
  else 0

def spanPriorityComparator (a b : Segment) : ℤ :=
  if b.priority < a.priority then 1
  else if a.priority < b.priority then -1
  else durationComparator a b

/-- A comparator on pointers reads both segments. A pointer that is not live reads as a zeroed
segment here; no heap of a reachable state holds one. -/
def wrapped (comparator : Segment → Segment → ℤ) (t : Txn) (a b : SegPtr) : ℤ :=
  comparator ((t.segs a).getD .zero) ((t.segs b).getD .zero)

/-- `nr_segment_discard_wrapper`, the destructor of the segment heap. -/
def discardWrapper (segment : SegPtr) (t : Txn) : Option Txn := do
  match ← t.discard segment with
  | (false,t) => return t
  | (true,t) => return { t with segmentCount := t.segmentCount-1 }

/-- `nr_segment_end`. Without a heap the insertion does nothing. -/
def endSegment (t : Txn) (now : ℕ) (segment : SegPtr) : Option Txn := do
  let t ← t.update segment fun s =>
    { s with stopTime := if s.stopTime = 0 then timeDuration t.absStartTime now else s.stopTime }
  let t := { t with segmentCount := t.segmentCount+1 }
  let t ← t.retireCurrentSegment segment
  match t.segmentHeap with
  | none => return t
  | some heap =>
    let (heap,t) ← heap.insert (wrapped spanPriorityComparator) discardWrapper segment t
    return { t with segmentHeap := some heap }

/-! ### Beginning a transaction -/

/-- `NR_SEGMENT_PRIORITY_ROOT`. -/
def priorityRoot : ℕ := 1 <<< 16

/-- A transaction before its root segment is started. -/
def blank (self absStartTime : ℕ) (options : TxnOptions) (dt : Option DistributedTrace)
    (spanQueue : Bool) (guids : ℕ → Bytes) : Txn where
  self := self
  segs := fun _ => none
  slab := ⟨[],1,0⟩
  absStartTime := absStartTime
  recording := true
  options := options
  name := none
  dtInbound := false
  isSynthetics := false
  traceStrings := []
  defaultParentStack := .init NrStack.defaultCapacity
  parentStacks := fun _ => none
  forceCurrentSegment := none
  segmentCount := 0
  segmentHeap := none
  segmentRoot := none
  scopedMetrics := []
  unscopedMetrics := []
  attributes := none
  intrinsics := []
  distributedTrace := dt
  spanQueue := if spanQueue then some [] else none
  guids := guids
  guidsUsed := 0

/-- The part of `nr_txn_begin` that sets up the segments. -/
def begin (self absStartTime now : ℕ) (options : TxnOptions) (dt : Option DistributedTrace)
    (spanQueue : Bool) (guids : ℕ → Bytes) : Option Txn := do
  match ← (blank self absStartTime options dt spanQueue guids).start now none none with
  | (none,_) => none
  | (some root,t) =>
    let t ← t.update root fun s => { s with startTime := 0, priority := s.priority ||| priorityRoot }
    return { t with
      segmentRoot := some root
      segmentHeap := if 1 < options.maxSegments then MinmaxHeap.create options.maxSegments else none }

end Txn
end PhpAgent
