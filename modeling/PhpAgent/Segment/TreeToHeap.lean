import PhpAgent.Segment.Iterate
import PhpAgent.Util.MinmaxHeapCorrect

/-! The first pass over the segment tree, `nr_segment_tree_to_heap`: exclusive times, the total time
and the heaps of segments to sample. -/
namespace PhpAgent

/-- `nr_segment_tree_to_heap_metadata_t`. -/
structure TreeToHeapMetadata where
  traceHeap : Option (MinmaxHeap SegPtr)
  spanHeap : Option (MinmaxHeap SegPtr)
  totalTime : ℕ
  mainContext : Option ExclusiveTime

namespace Txn

/-- `nr_segment_heap_create`; the heap has no destructor. -/
def segmentHeapCreate (bound : ℕ) : Option (MinmaxHeap SegPtr) := MinmaxHeap.create bound

/-- `nr_minmax_heap_insert` into a heap that may be NULL. -/
def heapInsert (comparator : Segment → Segment → ℤ) (t : Txn) (heap : Option (MinmaxHeap SegPtr))
    (p : SegPtr) : Option (Option (MinmaxHeap SegPtr)) :=
  match heap with
  | none => some none
  | some heap => do
    let (heap,_) ← heap.insert (wrapped comparator) (fun _ t => some t) p t
    return some heap

/-- Adjust the exclusive time of the parent, if it runs in the same context. -/
def stohAdjustParent (t : Txn) (s : Segment) : Option Txn :=
  match s.parent with
  | none => some t
  | some parent => do
    let y ← t.segs parent
    if y.asyncContext = s.asyncContext then
      t.update parent fun y => { y with
        exclusiveTime := y.exclusiveTime.map fun et => (et.addChild s.startTime s.stopTime).2 }
    else
      return t

/-- The main context, told about an asynchronous segment. -/
def stohMainContext (s : Segment) (mainContext : Option ExclusiveTime) : Option ExclusiveTime :=
  if s.asyncContext ≠ 0 then mainContext.map fun et => (et.addChild s.startTime s.stopTime).2
  else mainContext

/-- `nr_segment_stoh_post_iterator_callback`. Only the root keeps its exclusive time. -/
def stohPost : PostIter TreeToHeapMetadata := fun p (t,m) => do
  let s ← t.segs p
  let exclusive := ExclusiveTime.calculate? s.exclusiveTime
  let t ← t.update p fun s => { s with
    exclusiveTime :=
      if s.parent = none then s.exclusiveTime.map fun et => et.calculate.2 else none }
  return (t.addMetrics s.metrics (timeDuration s.startTime s.stopTime) exclusive,
    { m with totalTime := (m.totalTime+exclusive)%2^64 })

/-- `nr_segment_stoh_iterator_callback`. -/
def stoh : Iter TreeToHeapMetadata := fun p (t,m) => do
  let s ← t.segs p
  let t ← t.update p fun s => { s with
    exclusiveTime := some (.ensure s.exclusiveTime s.children.size s.startTime s.stopTime) }
  let t ← t.stohAdjustParent s
  let traceHeap ← heapInsert durationComparator t m.traceHeap p
  let spanHeap ← heapInsert spanPriorityComparator t m.spanHeap p
  return (some stohPost,t,{ m with
    traceHeap := traceHeap
    spanHeap := spanHeap
    mainContext := stohMainContext s m.mainContext })

def treeToHeap (t : Txn) (root : Option SegPtr) (metadata : TreeToHeapMetadata) :
    Option (Txn × TreeToHeapMetadata) := t.iterate root stoh metadata

/-! ### The pass leaves the tree alone -/

variable {t t' : Txn} {p : SegPtr}

lemma update_time_shape {f : Segment → Option ExclusiveTime}
    (h : t.update p (fun s => { s with exclusiveTime := f s }) = some t') : t'.shape = t.shape := by
  obtain ⟨s,hs,rfl⟩ := update_eq_some h
  funext q
  by_cases hq : q = p
  · subst hq
    simp [shape,hs]
  · simp [shape,Function.update_of_ne hq]

lemma addMetrics_shape (t : Txn) (metrics : List SegmentMetric) (duration exclusive : ℕ) :
    (t.addMetrics metrics duration exclusive).shape = t.shape := by
  rw [addMetrics_rest]
  rfl

lemma stohAdjustParent_shape {s : Segment} (h : t.stohAdjustParent s = some t') :
    t'.shape = t.shape := by
  unfold stohAdjustParent at h
  split at h
  · cases h
    rfl
  · obtain ⟨y,-,h⟩ := Option.bind_eq_some_iff.mp h
    split at h
    · exact update_time_shape h
    · cases h
      rfl

lemma stoh_frame : stoh.Frame := by
  rintro p ⟨t,m⟩ post ⟨t',m'⟩ h
  obtain ⟨s,-,h⟩ := Option.bind_eq_some_iff.mp h
  obtain ⟨t₁,ht₁,h⟩ := Option.bind_eq_some_iff.mp h
  obtain ⟨t₂,ht₂,h⟩ := Option.bind_eq_some_iff.mp h
  obtain ⟨traceHeap,-,h⟩ := Option.bind_eq_some_iff.mp h
  obtain ⟨spanHeap,-,h⟩ := Option.bind_eq_some_iff.mp h
  simp only [Option.pure_def,Option.some.injEq,Prod.mk.injEq] at h
  obtain ⟨rfl,rfl,rfl⟩ := h
  refine ⟨(stohAdjustParent_shape ht₂).trans (update_time_shape ht₁),?_⟩
  rintro q ⟨t,m⟩ ⟨t',m'⟩ h
  obtain ⟨s,-,h⟩ := Option.bind_eq_some_iff.mp h
  obtain ⟨t₁,ht₁,h⟩ := Option.bind_eq_some_iff.mp h
  simp only [Option.pure_def,Option.some.injEq,Prod.mk.injEq] at h
  obtain ⟨rfl,rfl⟩ := h
  rw [addMetrics_shape]
  exact update_time_shape ht₁

end Txn
end PhpAgent
