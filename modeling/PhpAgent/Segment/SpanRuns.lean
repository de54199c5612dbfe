import PhpAgent.Segment.SpanQueue

/-! The span events of each segment over whole runs. A segment is known by the number of its start,
since its address may be used again. -/
namespace PhpAgent
namespace Txn
open MinmaxHeap

/-! ### The calls with a log -/

/-- Every event that came to the queue is put down to the segment. -/
def logged (serial : SegPtr → ℕ) (p : SegPtr) (t t' : Txn) (log : List ℕ) : List ℕ :=
  log ++ List.replicate (t'.queued-t.queued) (serial p)

/-- `discardWrapper` with the log. -/
def discardWrapperLogged (serial : SegPtr → ℕ) (p : SegPtr) (tl : Txn × List ℕ) :
    Option (Txn × List ℕ) :=
  (discardWrapper p tl.1).map fun t' => (t',logged serial p tl.1 t' tl.2)

/-- `endSegment` with the log. -/
def endSegmentLogged (serial : SegPtr → ℕ) (now : ℕ) (p : SegPtr) (tl : Txn × List ℕ) :
    Option (Txn × List ℕ) :=
  (tl.1.endRetire now p).bind fun t' =>
    let tl' := (t',logged serial p tl.1 t' tl.2)
    match t'.segmentHeap with
    | none => some tl'
    | some heap =>
      (heap.insert (fun tl => wrapped spanPriorityComparator tl.1) (discardWrapperLogged serial) p
        tl').map fun r => ({ r.2.1 with segmentHeap := some r.1 },r.2.2)

lemma endSegmentLogged_txn (serial : SegPtr → ℕ) (now : ℕ) (p : SegPtr) (tl : Txn × List ℕ) :
    (endSegmentLogged serial now p tl).map Prod.fst = tl.1.endSegment now p := by
  rw [endSegment_eq,endSegmentLogged,Option.map_bind]
  apply congrArg
  funext t'
  simp only [Function.comp_apply]
  cases t'.segmentHeap with
  | none => rfl
  | some heap =>
    have hdestructor : ∀ (x : SegPtr) (tl : Txn × List ℕ),
        (discardWrapperLogged serial x tl).map Prod.fst = discardWrapper x tl.1 := by
      intro x tl
      rw [discardWrapperLogged,Option.map_map]
      exact Option.map_id' ..
    have herase : (heap.insert (fun tl => wrapped spanPriorityComparator tl.1)
        (discardWrapperLogged serial) p (t',logged serial p tl.1 t' tl.2)).map (Prod.map id Prod.fst) =
          heap.insert (wrapped spanPriorityComparator) discardWrapper p t' :=
      insert_map Prod.fst (wrapped spanPriorityComparator) hdestructor heap p _
    dsimp only
    rw [← herase,Option.map_map,Option.map_map]
    rfl

end Txn

/-- A transaction with the number of the start that made each segment, the number of starts, the
segments that the events of the queue came from, and the segments that were ended, each with
whether it had a name. -/
structure Traced where
  txn : Txn
  serial : SegPtr → ℕ
  started : ℕ
  log : List ℕ
  ended : List (ℕ × Bool)

inductive SpanOp
  | start (now : ℕ) (parent : Option SegPtr) (asyncContext : Option Bytes)
  | setName (segment : SegPtr) (name : Bytes)
  | setTiming (segment : SegPtr) (startTime duration : ℕ)
  | discard (segment : SegPtr)
  | finish (now : ℕ) (segment : SegPtr)

namespace Traced
open Txn MinmaxHeap

/-- The root is the first segment. -/
def initial (t : Txn) : Traced where
  txn := t
  serial := fun _ => 0
  started := 1
  log := []
  ended := []

def HasEnded (g : Traced) (p : SegPtr) : Prop := g.serial p ∈ g.ended.map Prod.fst

/-- Each segment has one event at most, and exactly one if it was ended with a name. -/
def Sound (g : Traced) : Prop :=
  (∀ k, g.log.count k ≤ 1) ∧ ∀ k, (k,true) ∈ g.ended → g.log.count k = 1

/-- The log accounts for every event of the queue. -/
def Complete (g : Traced) : Prop := g.log.length = g.txn.queued

end Traced

namespace SpanOp
open Txn MinmaxHeap

def step (g : Traced) : SpanOp → Option Traced
  | start now parent asyncContext => do
    match ← g.txn.start now parent asyncContext with
    | (none,t) => return { g with txn := t }
    | (some p,t) => return { g with
        txn := t
        serial := Function.update g.serial p g.started
        started := g.started+1 }
  | setName segment name => (g.txn.setName segment name).map fun t => { g with txn := t }
  | setTiming segment startTime duration =>
    (g.txn.setTiming segment startTime duration).map fun t => { g with txn := t }
  | discard segment => (g.txn.discard segment).map fun r =>
      { g with txn := r.2, log := logged g.serial segment g.txn r.2 g.log }
  | finish now segment => do
    let s ← g.txn.segs segment
    let (t,log) ← endSegmentLogged g.serial now segment (g.txn,g.log)
    return { g with txn := t, log := log, ended := g.ended ++ [(g.serial segment,decide (s.name ≠ 0))] }

/-- Segments handed to a call are live. No segment is ended twice, or changed once it was ended; a
segment in the heap is not discarded by hand. -/
def Live (g : Traced) : SpanOp → Prop
  | start _ parent _ => ∀ q, parent = some q → ∃ x, g.txn.segs q = some x
  | setName segment _ => (∃ s, g.txn.segs segment = some s) ∧ ¬ g.HasEnded segment
  | setTiming segment _ _ => (∃ s, g.txn.segs segment = some s) ∧ ¬ g.HasEnded segment
  | discard segment => (∃ s, g.txn.segs segment = some s) ∧
      ∀ heap, g.txn.segmentHeap = some heap → segment ∉ heap.stored
  | finish _ segment => (∃ s, g.txn.segs segment = some s) ∧ ¬ g.HasEnded segment

/-- The segment a full heap destroys when it is given `p`. -/
def loser (heap : MinmaxHeap SegPtr) (t : Txn) (p : SegPtr) : Option SegPtr :=
  if heap.used = heap.bound then
    some (if 0 < wrapped spanPriorityComparator t (heap.vals 1) p then p else heap.vals 1)
  else none

/-- The transaction with a segment stopped. -/
def stopAt (t : Txn) (now : ℕ) (p : SegPtr) : Txn :=
  { t with segs := Function.update t.segs p ((t.segs p).map (t.stopped now)) }

/-- An event can be made of a segment that is ended with a name; a segment that a full heap destroys
for it, or that is discarded after it was ended, has no name or no parent. -/
def Meets (g : Traced) : SpanOp → Prop
  | discard segment => ∀ s, g.txn.segs segment = some s → g.HasEnded segment →
      s.name = 0 ∨ s.parent = none
  | finish now segment =>
      (∀ s, g.txn.segs segment = some s → s.name ≠ 0 → g.txn.Spannable (g.txn.stopped now s)) ∧
      ∀ heap x s, g.txn.segmentHeap = some heap → loser heap (stopAt g.txn now segment) segment = some x →
        g.txn.segs x = some s → s.name = 0 ∨ s.parent = none
  | _ => True

/-- A run whose calls all meet the condition `ok`. -/
inductive Run (ok : Traced → SpanOp → Prop) : Traced → List SpanOp → Traced → Prop
  | nil (g : Traced) : Run ok g [] g
  | cons {g g₁ g' : Traced} {op : SpanOp} {ops : List SpanOp} : op.Live g → ok g op →
      op.step g = some g₁ → Run ok g₁ ops g' → Run ok g (op :: ops) g'

end SpanOp

/-! ### What a call leaves alone -/

namespace Txn
open MinmaxHeap
variable {t t' : Txn} {x : SegPtr} {s : Segment}

/-- Something was done to the segment `x`, which may be gone. -/
structure Touched (t : Txn) (x : SegPtr) (t' : Txn) : Prop where
  inv : Inv t'
  kept : ∀ q y, q ≠ x → t.segs q = some y → ∃ y', t'.segs q = some y' ∧ y'.fixed = y.fixed
  back : ∀ q y', t'.segs q = some y' → ∃ y, t.segs q = some y
  recording : t'.recording = t.recording
  heap : t'.segmentHeap = t.segmentHeap
  queue : t'.spanQueue.isSome = t.spanQueue.isSome

lemma Touched.valid (h : Touched t x t') {heap : MinmaxHeap SegPtr}
    (hv : Valid (wrapped spanPriorityComparator t) heap) (hx : x ∉ heap.stored)
    (hlive : ∀ y ∈ heap.stored, ∃ s, t.segs y = some s) :
    Valid (wrapped spanPriorityComparator t') heap := by
  apply valid_of_fixed hv
  intro y hy
  obtain ⟨s,hs⟩ := hlive y hy
  obtain ⟨s',hs',hfix⟩ := h.kept y s (fun heq => hx (heq ▸ hy)) hs
  exact ⟨s,s',hs,hs',hfix⟩

lemma touched_refl (h : Inv t) (x : SegPtr) : Touched t x t :=
  ⟨h,fun _ y _ hy => ⟨y,hy,rfl⟩,fun _ y' hy' => ⟨y',hy'⟩,rfl,rfl,rfl⟩

/-- A write to `x` that leaves its place in the tree. -/
theorem update_touched (h : Inv t) {f : Segment → Segment} (hupd : t.update x f = some t')
    (hf : ∀ s, (f s).node = s.node ∧ (f s).txn = s.txn ∧ (f s).asyncContext = s.asyncContext) :
    Touched t x t' := by
  have hinv := h.update hupd hf
  obtain ⟨s,hs,rfl⟩ := update_eq_some hupd
  refine ⟨hinv,?_,?_,rfl,rfl,rfl⟩
  · intro q y hq hy
    exact ⟨y,(Function.update_of_ne hq ..).trans hy,rfl⟩
  · intro q y' hy'
    by_cases hq : q = x
    · exact ⟨s,hq ▸ hs⟩
    · exact ⟨y',(Function.update_of_ne hq ..).symm.trans hy'⟩

lemma setName_touched (h : Inv t) (hs : t.segs x = some s) (name : Bytes) :
    ∃ t', t.setName x name = some t' ∧ Touched t x t' ∧ t'.spanQueue = t.spanQueue := by
  let t₁ : Txn := { t with traceStrings := (t.traceStrings.add name).2 }
  have hinv : Inv t₁ := h.congr (fun _ => rfl) rfl rfl (fun _ => rfl) rfl rfl
  have hs₁ : t₁.segs x = some s := hs
  have hupd := update_eq hs₁ fun s => { s with name := (t.traceStrings.add name).1 }
  have ht := update_touched hinv hupd fun s => ⟨rfl,rfl,rfl⟩
  exact ⟨_,hupd,⟨ht.inv,ht.kept,ht.back,rfl,rfl,rfl⟩,rfl⟩

lemma setTiming_touched (h : Inv t) (hs : t.segs x = some s) (start duration : ℕ) :
    ∃ t', t.setTiming x start duration = some t' ∧ Touched t x t' ∧ t'.spanQueue = t.spanQueue := by
  have hupd := update_eq hs
    fun s => { s with startTime := start, stopTime := (start+duration)%2^64 }
  exact ⟨_,hupd,update_touched h hupd fun s => ⟨rfl,rfl,rfl⟩,rfl⟩

lemma Discarded.touched (hinv : Inv t) {q : SegPtr} (hs : t.segs x = some s)
    (hpar : s.parent = some q) (h : Discarded t x q s t')
    (hqueue : t'.spanQueue.isSome = t.spanQueue.isSome) : Touched t x t' := by
  refine ⟨h.inv hinv hs hpar,?_,?_,by rw [h.rest],by rw [h.rest],hqueue⟩
  · intro r y hr hy
    obtain ⟨y',hy',hfix,-⟩ := h.kept r y hr hy
    exact ⟨y',hy',hfix⟩
  · intro r y' hy'
    obtain ⟨-,y,hy,-⟩ := h.back hy'
    exact ⟨y,hy⟩

lemma Stopped.touched {now : ℕ} (h : Stopped t now x s t')
    (hqueue : t'.spanQueue.isSome = t.spanQueue.isSome) : Touched t x t' := by
  refine ⟨h.inv,?_,?_,by rw [h.rest],by rw [h.rest],hqueue⟩
  · intro q y hq hy
    obtain ⟨y',hy',hkept⟩ := h.kept q y hq hy
    exact ⟨y',hy',hkept.1⟩
  · intro q y' hy'
    cases hq : t.segs q with
    | some y => exact ⟨y,rfl⟩
    | none =>
      rw [h.dead q hq] at hy'
      cases hy'

/-- What the segment adds to the queue when it is discarded. -/
def discardAdds (t : Txn) (s : Segment) : ℕ := if s.parent = none then 0 else t.contributes s

lemma discardAdds_le (t : Txn) (s : Segment) : t.discardAdds s ≤ 1 := by
  unfold discardAdds
  split_ifs
  · exact Nat.zero_le _
  · exact t.contributes_le s

lemma discardAdds_zero (h : s.name = 0 ∨ s.parent = none) : t.discardAdds s = 0 := by
  unfold discardAdds
  rcases h with h | h
  · rw [contributes_unnamed h,ite_self]
  · rw [if_pos h]

/-- A discard returns; a segment with a parent is gone, one without is left alone. -/
theorem discard_touched (h : Inv t) (hs : t.segs x = some s) :
    ∃ b t', t.discard x = some (b,t') ∧ Touched t x t' ∧ t'.queued = t.queued+t.discardAdds s ∧
      (t'.segs x = none ∨ t.discardAdds s = 0) := by
  unfold discardAdds
  cases hpar : s.parent with
  | none =>
    refine ⟨_,_,discard_parentless hs hpar,touched_refl h x,?_,.inr ?_⟩ <;> simp
  | some q =>
    obtain ⟨t',hdis,hd⟩ := discard_spec h hs hpar
    have hgrew := discard_grew h hs hpar hdis
    refine ⟨_,t',hdis,hd.touched h hs hpar hgrew.isSome,?_,.inl hd.gone⟩
    simpa using hgrew.queued

lemma discardWrapper_touched (h : Inv t) (hs : t.segs x = some s) :
    ∃ t', discardWrapper x t = some t' ∧ Touched t x t' ∧ t'.queued = t.queued+t.discardAdds s := by
  obtain ⟨b,t',hdis,ht,hq,-⟩ := discard_touched h hs
  cases b with
  | false => exact ⟨t',by simp [discardWrapper,hdis],ht,hq⟩
  | true =>
    refine ⟨{ t' with segmentCount := t'.segmentCount-1 },by simp [discardWrapper,hdis],?_,hq⟩
    exact ⟨ht.inv.congr (fun _ => rfl) rfl rfl (fun _ => rfl) rfl rfl,ht.kept,ht.back,ht.recording,
      ht.heap,ht.queue⟩

lemma logged_eq (serial : SegPtr → ℕ) {n : ℕ} (h : t'.queued = t.queued+n) (log : List ℕ) :
    logged serial x t t' log = log ++ List.replicate n (serial x) := by
  rw [logged,h,Nat.add_sub_cancel_left]

end Txn
end PhpAgent
