import PhpAgent.Segment.ExclusiveRuns
import PhpAgent.Segment.TreeToHeap

/-! What the first pass computes: for each segment the time that its children in the same context
leave over, summed over the tree, and the insertions into the heaps in pre-order. -/
namespace PhpAgent

namespace Segment

/-- The interval a child leaves in the exclusive time of a parent in context `context`. -/
def childInterval (context : ℕ) (c : Segment) : List (ℕ × ℕ) :=
  if c.asyncContext = context ∧ c.startTime ≤ c.stopTime then [(c.startTime,c.stopTime)] else []

lemma childInterval_length (context : ℕ) (c : Segment) : (c.childInterval context).length ≤ 1 := by
  unfold childInterval
  split <;> simp

end Segment

namespace Txn
open PointerTree Forest
variable {t t' t₀ : Txn} {p : SegPtr} {s : Segment} {m : TreeToHeapMetadata} {mark : SegmentColor}
  {traceHeap spanHeap : Option (MinmaxHeap SegPtr)} {o : Option SegPtr}

/-- The intervals that the segments `ps` leave in a parent in context `context`. -/
def childIntervals (t : Txn) (context : ℕ) (ps : List SegPtr) : List (ℕ × ℕ) :=
  ps.flatMap fun p => ((t.segs p).map (Segment.childInterval context)).getD []

@[simp] lemma childIntervals_nil (t : Txn) (context : ℕ) : t.childIntervals context [] = [] := rfl

lemma childIntervals_cons (t : Txn) (context : ℕ) (p : SegPtr) (ps : List SegPtr) :
    t.childIntervals context (p :: ps) = t.childIntervals context [p] ++
      t.childIntervals context ps := by
  simp [childIntervals]

lemma childIntervals_singleton (hs : t.segs p = some s) (context : ℕ) :
    t.childIntervals context [p] = s.childInterval context := by
  simp [childIntervals,hs]

/-- The parent of `ps` after the pre-order callbacks on them. -/
def fed (t : Txn) (ps : List SegPtr) (y : Segment) : Segment :=
  { y with exclusiveTime := y.exclusiveTime.map (·.feed (t.childIntervals y.asyncContext ps)) }

@[simp] lemma fed_nil (t : Txn) (y : Segment) : t.fed [] y = y := by simp [fed]

lemma fed_fed (t : Txn) (p : SegPtr) (ps : List SegPtr) (y : Segment) :
    t.fed ps (t.fed [p] y) = t.fed (p :: ps) y := by
  simp only [fed,Option.map_map,Function.comp_def,ExclusiveTime.feed_feed,← childIntervals_cons]

/-- The exclusive time of a segment as the post-order callback finds it. -/
def stohTime (t : Txn) (s : Segment) : ExclusiveTime :=
  (ExclusiveTime.ensure s.exclusiveTime s.children.size s.startTime s.stopTime).feed
    (t.childIntervals s.asyncContext s.children.elements)

/-- What a segment adds to the total time. -/
def exclusive (t : Txn) (p : SegPtr) : ℕ :=
  ((t.segs p).map fun s => (t.stohTime s).calculate.1).getD 0

lemma exclusive_eq (hs : t.segs p = some s) : t.exclusive p = (t.stohTime s).calculate.1 := by
  rw [exclusive,hs,Option.map_some,Option.getD_some]

/-- A segment after the pass. -/
def stohDone (t : Txn) (mark : SegmentColor) (s : Segment) : Segment :=
  { s with
    color := mark
    exclusiveTime := if s.parent = none then some (t.stohTime s).calculate.2 else none }

/-- What the comparators read. -/
def keyOf (t : Txn) (p : SegPtr) : Option (ℕ × ℕ × ℕ) :=
  (t.segs p).map fun s => (s.priority,s.startTime,s.stopTime)

/-- Comparators that read no more than that see no difference. -/
theorem wrapped_congr {comparator : Segment → Segment → ℤ}
    (hcmp : ∀ a a' b b' : Segment, a'.priority = a.priority → a'.startTime = a.startTime →
      a'.stopTime = a.stopTime → b'.priority = b.priority → b'.startTime = b.startTime →
      b'.stopTime = b.stopTime → comparator a' b' = comparator a b) (h : t'.keyOf = t.keyOf) :
    wrapped comparator t' = wrapped comparator t := by
  have hget : ∀ q, ((t'.segs q).getD .zero).priority = ((t.segs q).getD .zero).priority ∧
      ((t'.segs q).getD .zero).startTime = ((t.segs q).getD .zero).startTime ∧
      ((t'.segs q).getD .zero).stopTime = ((t.segs q).getD .zero).stopTime := by
    intro q
    have hq := congrFun h q
    unfold keyOf at hq
    cases ht : t.segs q with
    | none =>
      rw [ht,Option.map_none,Option.map_eq_none_iff] at hq
      simp [hq]
    | some s =>
      rw [ht,Option.map_some,Option.map_eq_some_iff] at hq
      obtain ⟨s',hs',hkey⟩ := hq
      rw [hs']
      simp only [Prod.mk.injEq] at hkey
      exact hkey
  funext a b
  obtain ⟨ha,ha',ha''⟩ := hget a
  obtain ⟨hb,hb',hb''⟩ := hget b
  exact hcmp _ _ _ _ ha ha' ha'' hb hb' hb''

lemma durationComparator_congr (a a' b b' : Segment) (_ : a'.priority = a.priority)
    (ha : a'.startTime = a.startTime) (ha' : a'.stopTime = a.stopTime)
    (_ : b'.priority = b.priority) (hb : b'.startTime = b.startTime)
    (hb' : b'.stopTime = b.stopTime) : durationComparator a' b' = durationComparator a b := by
  have hda : unsignedDuration a' = unsignedDuration a := by rw [unsignedDuration,ha,ha']; rfl
  have hdb : unsignedDuration b' = unsignedDuration b := by rw [unsignedDuration,hb,hb']; rfl
  rw [durationComparator,hda,hdb]
  rfl

lemma spanPriorityComparator_congr (a a' b b' : Segment) (hpa : a'.priority = a.priority)
    (ha : a'.startTime = a.startTime) (ha' : a'.stopTime = a.stopTime)
    (hpb : b'.priority = b.priority) (hb : b'.startTime = b.startTime)
    (hb' : b'.stopTime = b.stopTime) :
    spanPriorityComparator a' b' = spanPriorityComparator a b := by
  rw [spanPriorityComparator,hpa,hpb,durationComparator_congr a a' b b' hpa ha ha' hpb hb hb']
  rfl

lemma heapInsert_congr {comparator : Segment → Segment → ℤ}
    (h : wrapped comparator t' = wrapped comparator t) (heap : Option (MinmaxHeap SegPtr))
    (p : SegPtr) : heapInsert comparator t' heap p = heapInsert comparator t heap p := by
  cases heap with
  | none => rfl
  | some heap =>
    have hfst : (heap.insert (wrapped comparator) (fun _ t => some t) p t').map Prod.fst =
        (heap.insert (wrapped comparator) (fun _ t => some t) p t).map Prod.fst :=
      MinmaxHeap.insert_fst_congr h (fun _ => ⟨t',rfl,rfl⟩) (fun _ => ⟨t,rfl,rfl⟩) heap p
    have hmap : ∀ o : Option (MinmaxHeap SegPtr × Txn),
        (o.bind fun r => some (some r.1)) = (o.map Prod.fst).map some := by
      intro o
      cases o <;> rfl
    simp only [heapInsert,Option.bind_eq_bind,Option.pure_def]
    rw [hmap,hmap,hfst]

/-! ### One segment -/

/-- There is room for `n` more children in the exclusive time of the parent, if there is one. -/
def RoomFor (t : Txn) (o : Option SegPtr) (n : ℕ) : Prop :=
  ∀ q, o = some q → ∃ y et, t.segs q = some y ∧ y.exclusiveTime = some et ∧ et.Room n

lemma stohAdjustParent_spec (hs₀ : t₀.segs p = some s) (hroom : t.RoomFor s.parent 1) :
    t.stohAdjustParent s = some { t with
      segs := fun q => if s.parent = some q then (t.segs q).map (t₀.fed [p]) else t.segs q } := by
  unfold stohAdjustParent
  cases hpar : s.parent with
  | none => simp
  | some q =>
    obtain ⟨y,et,hy,het,hr⟩ := hroom q hpar
    have hfed : t₀.fed [p] y = if y.asyncContext = s.asyncContext then { y with
        exclusiveTime := y.exclusiveTime.map fun et => (et.addChild s.startTime s.stopTime).2 }
        else y := by
      simp only [fed,childIntervals_singleton hs₀,Segment.childInterval,het,Option.map_some,
        ExclusiveTime.addChild_eq hr]
      by_cases hctx : y.asyncContext = s.asyncContext
      · simp [hctx]
      · simp [hctx,Ne.symm hctx,← het]
    simp only [hy,Option.bind_eq_bind,Option.bind_some]
    split_ifs at hfed ⊢ with hctx
    · rw [update_eq hy]
      congr 2
      funext q'
      by_cases hq : q' = q
      · subst hq
        simp [hy,hfed]
      · simp [Function.update_of_ne hq,Ne.symm hq]
    · have hsegs : (fun q' => if some q = some q' then (t.segs q').map (t₀.fed [p]) else t.segs q') =
          t.segs := by
        funext q'
        by_cases hq : q = q'
        · subst hq
          simp [hy,hfed]
        · simp [hq]
      rw [hsegs]
      rfl

/-- The segment as its children find it. -/
def stohReady (mark : SegmentColor) (s : Segment) : Segment :=
  { s with
    color := mark
    exclusiveTime := some (.ensure s.exclusiveTime s.children.size s.startTime s.stopTime) }

/-- The pre-order callback, after the segment has been coloured. -/
theorem stoh_pre (hs₀ : t₀.segs p = some s)
    (hs : t.segs p = some { s with color := mark }) (hne : s.parent ≠ some p)
    (hkey : t.keyOf = t₀.keyOf) (hroom : t.RoomFor s.parent 1)
    (htrace : heapInsert durationComparator t₀ m.traceHeap p = some traceHeap)
    (hspan : heapInsert spanPriorityComparator t₀ m.spanHeap p = some spanHeap) :
    ∃ t', stoh p (t,m) = some (some stohPost,t',{ m with
        traceHeap := traceHeap
        spanHeap := spanHeap
        mainContext := stohMainContext s m.mainContext }) ∧
      t' = { t with segs := t'.segs } ∧ t'.keyOf = t₀.keyOf ∧
      t'.segs p = some (stohReady mark s) ∧
      ∀ q, q ≠ p → t'.segs q = if s.parent = some q then (t.segs q).map (t₀.fed [p]) else t.segs q := by
  set t₁ : Txn := { t with segs := Function.update t.segs p (some (stohReady mark s)) } with ht₁
  have hupd : t.update p (fun s => { s with
      exclusiveTime := some (.ensure s.exclusiveTime s.children.size s.startTime s.stopTime) }) =
      some t₁ := update_eq hs _
  have hroom₁ : t₁.RoomFor s.parent 1 := by
    intro q hq
    obtain ⟨y,et,hy,het,hr⟩ := hroom q hq
    have hqp : q ≠ p := by
      rintro rfl
      exact hne hq
    exact ⟨y,et,(Function.update_of_ne hqp _ _).trans hy,het,hr⟩
  have hadj : t₁.stohAdjustParent { s with color := mark } = t₁.stohAdjustParent s := rfl
  have hspec := stohAdjustParent_spec hs₀ hroom₁
  set t₂ : Txn := { t₁ with
    segs := fun q => if s.parent = some q then (t₁.segs q).map (t₀.fed [p]) else t₁.segs q } with ht₂
  have hself : t₂.segs p = some (stohReady mark s) := by
    simp [ht₂,hne,ht₁]
  have hother : ∀ q, q ≠ p →
      t₂.segs q = if s.parent = some q then (t.segs q).map (t₀.fed [p]) else t.segs q := by
    intro q hq
    simp [ht₂,ht₁,Function.update_of_ne hq]
  have hkey₂ : t₂.keyOf = t₀.keyOf := by
    rw [← hkey]
    funext q
    by_cases hq : q = p
    · subst hq
      simp [keyOf,hself,hs,stohReady]
    · rw [keyOf,keyOf,hother q hq]
      split
      · rw [Option.map_map]
        rfl
      · rfl
  refine ⟨t₂,?_,rfl,hkey₂,hself,hother⟩
  have htrace₂ := (heapInsert_congr (wrapped_congr durationComparator_congr hkey₂) m.traceHeap p).trans
    htrace
  have hspan₂ := (heapInsert_congr (wrapped_congr spanPriorityComparator_congr hkey₂) m.spanHeap
    p).trans hspan
  simp only [stoh,hs,hupd,hadj,hspec,htrace₂,hspan₂,Option.bind_eq_bind,Option.bind_some,
    Option.pure_def]
  rfl

/-- The post-order callback, after the children have been visited. -/
theorem stoh_post (hs₀ : t₀.segs p = some s)
    (hs : t.segs p = some (t₀.fed s.children.elements (stohReady mark s))) :
    ∃ t', stohPost p (t,m) = some (t',{ m with totalTime := (m.totalTime+t₀.exclusive p)%2^64 }) ∧
      t' = { t with
        segs := Function.update t.segs p (some (t₀.stohDone mark s))
        scopedMetrics := t'.scopedMetrics
        unscopedMetrics := t'.unscopedMetrics } := by
  have htime : (t₀.fed s.children.elements (stohReady mark s)).exclusiveTime = some (t₀.stohTime s) :=
    rfl
  have hexcl : ExclusiveTime.calculate? (t₀.fed s.children.elements (stohReady mark s)).exclusiveTime =
      t₀.exclusive p := by
    rw [htime,exclusive_eq hs₀]
    rfl
  have hdone : { t₀.fed s.children.elements (stohReady mark s) with
      exclusiveTime := if (t₀.fed s.children.elements (stohReady mark s)).parent = none then
        (t₀.fed s.children.elements (stohReady mark s)).exclusiveTime.map fun et => et.calculate.2
        else none } = t₀.stohDone mark s := rfl
  refine ⟨{ t with segs := Function.update t.segs p (some (t₀.stohDone mark s)) }.addMetrics s.metrics
    (timeDuration s.startTime s.stopTime) (t₀.exclusive p),?_,addMetrics_rest _ _ _ _⟩
  simp only [stohPost,hs,update_eq hs,hexcl,hdone,Option.bind_eq_bind,Option.bind_some,
    Option.pure_def]
  rfl

/-! ### The whole pass -/

/-- What the pass over the forest `f` below `o` makes of the segments. -/
structure Passed (t₀ t : Txn) (mark : SegmentColor) (o : Option SegPtr) (f : Forest SegPtr)
    (t' : Txn) : Prop where
  done : ∀ q ∈ f.toList, t'.segs q = (t₀.segs q).map (t₀.stohDone mark)
  other : ∀ q, q ∉ f.toList → t'.segs q =
    if o = some q then (t.segs q).map (t₀.fed f.roots) else t.segs q
  rest : t' = { t with
    segs := t'.segs
    scopedMetrics := t'.scopedMetrics
    unscopedMetrics := t'.unscopedMetrics }

lemma Passed.keyOf_eq {f : Forest SegPtr}
    (h : Passed t₀ t mark o f t') (hkey : t.keyOf = t₀.keyOf) : t'.keyOf = t₀.keyOf := by
  funext q
  by_cases hq : q ∈ f.toList
  · rw [keyOf,keyOf,h.done q hq,Option.map_map]
    rfl
  · rw [← hkey,keyOf,keyOf,h.other q hq]
    split
    · rw [Option.map_map]
      rfl
    · rfl

/-- What colouring a segment and its pre-order callback make of the segments. -/
structure Entered (t₀ t : Txn) (mark : SegmentColor) (p : SegPtr) (s : Segment) (t' : Txn) : Prop where
  self : t'.segs p = some (stohReady mark s)
  other : ∀ q, q ≠ p →
    t'.segs q = if s.parent = some q then (t.segs q).map (t₀.fed [p]) else t.segs q
  rest : t' = { t with segs := t'.segs }
  keyOf : t'.keyOf = t₀.keyOf

lemma enter_spec (mark : SegmentColor)
    (hs₀ : t₀.segs p = some s) (hs : t.segs p = some s) (hne : s.parent ≠ some p) (hkey : t.keyOf = t₀.keyOf)
    (hroom : t.RoomFor s.parent 1)
    (htrace : heapInsert durationComparator t₀ m.traceHeap p = some traceHeap)
    (hspan : heapInsert spanPriorityComparator t₀ m.spanHeap p = some spanHeap) :
    ∃ t₁ t₂, t.update p (fun s => { s with color := mark }) = some t₁ ∧
      stoh p (t₁,m) = some (some stohPost,t₂,{ m with
        traceHeap := traceHeap
        spanHeap := spanHeap
        mainContext := stohMainContext s m.mainContext }) ∧ Entered t₀ t mark p s t₂ := by
  set t₁ : Txn := { t with segs := Function.update t.segs p (some { s with color := mark }) } with ht₁
  have hseg₁ : ∀ q, q ≠ p → t₁.segs q = t.segs q := fun q hq => Function.update_of_ne hq _ _
  have hkey₁ : t₁.keyOf = t₀.keyOf := by
    rw [← hkey]
    funext q
    by_cases hq : q = p
    · subst hq
      simp [keyOf,t₁,hs]
    · rw [keyOf,keyOf,hseg₁ q hq]
  have hroom₁ : t₁.RoomFor s.parent 1 := by
    intro q hq
    obtain ⟨y,et,hy,het,hr⟩ := hroom q hq
    have hqp : q ≠ p := by
      rintro rfl
      exact hne hq
    exact ⟨y,et,(hseg₁ q hqp).trans hy,het,hr⟩
  obtain ⟨t₂,hpre,hrest₂,hkey₂,hself₂,hother₂⟩ := stoh_pre (t := t₁) hs₀ (Function.update_self ..) hne
    hkey₁ hroom₁ htrace hspan
  refine ⟨t₁,t₂,update_eq hs _,hpre,hself₂,fun q hq => ?_,hrest₂,hkey₂⟩
  rw [hother₂ q hq,hseg₁ q hq]

/-- A segment that was entered, whose children were passed, and that was left is passed with them. -/
lemma Passed.tree {kids : Forest SegPtr} {t₂ t₃ t₄ : Txn} (hs₀ : t₀.segs p = some s) (hp : p ∉ kids.toList)
    (henter : Entered t₀ t mark p s t₂) (hkids : Passed t₀ t₂ mark (some p) kids t₃)
    (hleave : t₄ = { t₃ with
      segs := Function.update t₃.segs p (some (t₀.stohDone mark s))
      scopedMetrics := t₄.scopedMetrics
      unscopedMetrics := t₄.unscopedMetrics }) :
    Passed t₀ t mark s.parent (.node p kids .nil) t₄ := by
  have hself : t₄.segs p = some (t₀.stohDone mark s) := by
    rw [hleave]
    exact Function.update_self ..
  have hseg : ∀ q, q ≠ p → t₄.segs q = t₃.segs q := by
    intro q hq
    rw [hleave]
    exact Function.update_of_ne hq _ _
  refine ⟨fun q hq => ?_,fun q hq => ?_,?_⟩
  · rw [toList,toList,List.append_nil] at hq
    obtain rfl | hqk := List.mem_cons.mp hq
    · rw [hself,hs₀,Option.map_some]
    · have hqp : q ≠ p := by
        rintro rfl
        exact hp hqk
      rw [hseg q hqp,hkids.done q hqk]
  · simp only [toList,List.append_nil,List.mem_cons,not_or] at hq
    obtain ⟨hqp,hqk⟩ := hq
    rw [hseg q hqp,hkids.other q hqk,if_neg (fun hpq => hqp (Option.some_inj.mp hpq).symm),
      henter.other q hqp]
    rfl
  · rw [hleave,hkids.rest,henter.rest]

/-- One tree after the other. -/
lemma Passed.next {kids rest : Forest SegPtr} {t₄ t₅ : Txn}
    (ho : ∀ q, o = some q → q ∉ (Forest.node p kids rest).toList)
    (htree : Passed t₀ t mark o (.node p kids .nil) t₄) (hrest : Passed t₀ t₄ mark o rest t₅) :
    Passed t₀ t mark o (.node p kids rest) t₅ := by
  have hmem : ∀ q, q ∈ (Forest.node p kids rest).toList ↔
      q ∈ (Forest.node p kids .nil).toList ∨ q ∈ rest.toList := by
    intro q
    simp [toList,or_assoc]
  refine ⟨fun q hq => ?_,fun q hq => ?_,by rw [hrest.rest,htree.rest]⟩
  · by_cases hqr : q ∈ rest.toList
    · exact hrest.done q hqr
    · have hqt := ((hmem q).mp hq).resolve_right hqr
      rw [hrest.other q hqr,if_neg (fun hoq => ho q hoq hq),htree.done q hqt]
  · obtain ⟨hqt,hqr⟩ := not_or.mp (mt (hmem q).mpr hq)
    rw [hrest.other q hqr,htree.other q hqt]
    split
    · rw [Option.map_map]
      congr 1
      funext y
      exact fed_fed t₀ p rest.roots y
    · rfl

/-- A tree that was passed took room for one child of its parent. -/
lemma Passed.room {kids : Forest SegPtr} {n : ℕ}
    (hs₀ : t₀.segs p = some s) (ho : ∀ q, o = some q → q ∉ (Forest.node p kids .nil).toList)
    (h : Passed t₀ t mark o (.node p kids .nil) t') (hroom : t.RoomFor o (n+1)) : t'.RoomFor o n := by
  intro q hq
  obtain ⟨y,et,hy,het,hr⟩ := hroom q hq
  refine ⟨t₀.fed [p] y,et.feed (t₀.childIntervals y.asyncContext [p]),?_,by rw [fed,het]; rfl,hr.feed ?_⟩
  · rw [h.other q (ho q hq),if_pos hq,hy]
    rfl
  · rw [childIntervals_singleton hs₀]
    exact Segment.childInterval_length _ s

/-- The metadata after the pass. -/
def passedMetadata (t₀ : Txn) (m : TreeToHeapMetadata) (ps : List SegPtr)
    (traceHeap spanHeap : Option (MinmaxHeap SegPtr)) : TreeToHeapMetadata where
  traceHeap := traceHeap
  spanHeap := spanHeap
  totalTime := (m.totalTime+(ps.map t₀.exclusive).sum)%2^64
  mainContext := ps.foldl (fun mc p => ((t₀.segs p).map (stohMainContext · mc)).getD mc) m.mainContext

lemma walk_stoh (h : Inv t₀) {f : Forest SegPtr} {ps : List SegPtr}
    (hspan : Spans t₀.kids ps f) (hnd : f.toList.Nodup)
    (hpar : ∀ p ∈ ps, ∀ s, t₀.segs p = some s → s.parent = o) (ho : ∀ q, o = some q → q ∉ f.toList)
    (hsame : ∀ q ∈ f.toList, t.segs q = t₀.segs q) (hkey : t.keyOf = t₀.keyOf)
    (hroom : t.RoomFor o ps.length) (hm : m.totalTime < 2^64)
    (htrace : f.toList.foldlM (heapInsert durationComparator t₀) m.traceHeap = some traceHeap)
    (hspans : f.toList.foldlM (heapInsert spanPriorityComparator t₀) m.spanHeap = some spanHeap) :
    ∃ t', walk stoh mark f (t,m) =
        some (t',t₀.passedMetadata m f.toList traceHeap spanHeap) ∧ Passed t₀ t mark o f t' := by
  induction f generalizing ps o t m traceHeap spanHeap with
  | nil =>
    cases hspan
    obtain rfl : m.traceHeap = traceHeap := Option.some_inj.mp htrace
    obtain rfl : m.spanHeap = spanHeap := Option.some_inj.mp hspans
    refine ⟨t,?_,fun q hq => absurd hq List.not_mem_nil,fun q _ => ?_,rfl⟩
    · have hmod : m.totalTime%2^64 = m.totalTime := Nat.mod_eq_of_lt hm
      simp only [walk,passedMetadata,toList,List.map_nil,List.sum_nil,List.foldl_nil,Nat.add_zero,hmod]
    · have hfed : t₀.fed (Forest.nil : Forest SegPtr).roots = id := funext (fed_nil t₀)
      rw [hfed,Option.map_id]
      exact (ite_self _).symm
  | node p kids rest ihk ihr =>
    cases hspan with
    | @node _ ks ps _ _ hks hkids hrest =>
    obtain ⟨s,hs₀,rfl⟩ := Option.map_eq_some_iff.mp hks
    obtain rfl : s.parent = o := hpar p List.mem_cons_self s hs₀
    obtain ⟨hpnot,hnd⟩ := List.nodup_cons.mp hnd
    rw [List.mem_append,not_or] at hpnot
    obtain ⟨hndk,hndr,hdisj⟩ := List.nodup_append.mp hnd
    have hmemk : ∀ q ∈ kids.toList, q ∈ (Forest.node p kids rest).toList := fun q hq =>
      mem_kids hq
    have hmemr : ∀ q ∈ rest.toList, q ∈ (Forest.node p kids rest).toList := fun q hq =>
      mem_rest hq
    have hmemt : ∀ q ∈ (Forest.node p kids .nil).toList, q ∈ (Forest.node p kids rest).toList := by
      intro q hq
      simp only [toList,List.append_nil] at hq
      obtain rfl | hqk := List.mem_cons.mp hq
      · exact List.mem_cons_self
      · exact hmemk q hqk
    rw [toList,List.foldlM_cons] at htrace hspans
    obtain ⟨tr₁,htr₁,htrace⟩ := Option.bind_eq_some_iff.mp htrace
    obtain ⟨sp₁,hsp₁,hspans⟩ := Option.bind_eq_some_iff.mp hspans
    rw [List.foldlM_append] at htrace hspans
    obtain ⟨tr₂,htr₂,htr₃⟩ := Option.bind_eq_some_iff.mp htrace
    obtain ⟨sp₂,hsp₂,hsp₃⟩ := Option.bind_eq_some_iff.mp hspans
    have hs : t.segs p = some s := (hsame p List.mem_cons_self).trans hs₀
    have hoff : ∀ q ∈ (Forest.node p kids rest).toList, s.parent ≠ some q := fun q hq hpq => ho q hpq hq
    -- before the children
    obtain ⟨t₁,t₂,hupd,hpre,henter⟩ := enter_spec mark hs₀ hs (h.parent_ne hs₀) hkey
      (fun q hq => by
        obtain ⟨y,et,hy,het,hr⟩ := hroom q hq
        exact ⟨y,et,hy,het,hr.mono (by simp)⟩) htr₁ hsp₁
    -- the children
    set m₁ : TreeToHeapMetadata := { m with
      traceHeap := tr₁
      spanHeap := sp₁
      mainContext := stohMainContext s m.mainContext } with hm₁
    obtain ⟨t₃,hw₃,hp₃⟩ := ihk (o := some p) (t := t₂) (m := m₁) hkids hndk
      (fun c hc x hx => by
        obtain ⟨x',hx',hcp⟩ := h.child_live hs₀ hc
        rw [hx,Option.some_inj] at hx'
        exact hx' ▸ hcp)
      (fun q hq => by
        rw [← Option.some_inj.mp hq]
        exact hpnot.1)
      (fun q hq => by
        rw [henter.other q (fun hqp => hpnot.1 (hqp ▸ hq)),if_neg (hoff q (hmemk q hq))]
        exact hsame q (hmemk q hq)) henter.keyOf
      (fun q hq => by
        rw [← Option.some_inj.mp hq]
        exact ⟨_,_,henter.self,rfl,ExclusiveTime.room_ensure _ _ _ _⟩) hm htr₂ hsp₂
    have hself₃ : t₃.segs p = some (t₀.fed s.children.elements (stohReady mark s)) := by
      rw [hp₃.other p hpnot.1,if_pos rfl,henter.self,hkids.roots_eq,Option.map_some]
    -- after the children
    obtain ⟨t₄,hpost,ht₄⟩ := stoh_post (m := t₀.passedMetadata m₁ kids.toList tr₂ sp₂) hs₀ hself₃
    set m₂ : TreeToHeapMetadata := { t₀.passedMetadata m₁ kids.toList tr₂ sp₂ with
      totalTime := ((t₀.passedMetadata m₁ kids.toList tr₂ sp₂).totalTime+t₀.exclusive p)%2^64 } with hm₂
    have htree : Passed t₀ t mark s.parent (.node p kids .nil) t₄ :=
      .tree hs₀ hpnot.1 henter hp₃ ht₄
    -- the trees that follow
    obtain ⟨t₅,hw₅,hp₅⟩ := ihr (o := s.parent) (t := t₄) (m := m₂) hrest hndr
      (fun q hq => hpar q (List.mem_cons_of_mem _ hq)) (fun q hq hqr => ho q hq (hmemr q hqr))
      (fun q hq => by
        have hqt : q ∉ (Forest.node p kids .nil).toList := by
          simp only [toList,List.append_nil,List.mem_cons,not_or]
          exact ⟨fun hqp => hpnot.2 (hqp ▸ hq),fun hqk => hdisj q hqk q hq rfl⟩
        rw [htree.other q hqt,if_neg (hoff q (hmemr q hq))]
        exact hsame q (hmemr q hq)) (htree.keyOf_eq hkey)
      (htree.room hs₀ (fun q hq hqt => ho q hq (hmemt q hqt)) hroom) (Nat.mod_lt _ (by norm_num))
      htr₃ hsp₃
    refine ⟨t₅,?_,htree.next ho hp₅⟩
    have hmeta : t₀.passedMetadata m₂ rest.toList traceHeap spanHeap =
        t₀.passedMetadata m (Forest.node p kids rest).toList traceHeap spanHeap := by
      simp only [passedMetadata,hm₂,hm₁,toList,List.map_cons,List.map_append,List.sum_cons,
        List.sum_append,List.foldl_cons,List.foldl_append,hs₀,Option.map_some,Option.getD_some,
        TreeToHeapMetadata.mk.injEq,true_and,and_true]
      omega
    simp only [walk,hupd,hpre,hw₃,hpost,hw₅,runPost,hmeta,Option.bind_eq_bind,Option.bind_some]

/-- The pass over the tree of a root of one colour. -/
theorem treeToHeap_spec (h : Inv t) {r : SegPtr} {x : Segment} (hr : t.segs r = some x)
    (hpar : x.parent = none) (hcol : ∀ q, t.InTree r q → t.color q = some x.color) :
    ∃ f, Spans t.kids [r] f ∧ f.toList.Nodup ∧ (∀ q, q ∈ f.toList ↔ t.InTree r q) ∧
      ∀ {m : TreeToHeapMetadata}, m.totalTime < 2^64 →
        ∀ {traceHeap spanHeap : Option (MinmaxHeap SegPtr)},
        f.toList.foldlM (heapInsert durationComparator t) m.traceHeap = some traceHeap →
        f.toList.foldlM (heapInsert spanPriorityComparator t) m.spanHeap = some spanHeap →
        ∃ t', t.treeToHeap (some r) m = some (t',t.passedMetadata m f.toList traceHeap spanHeap) ∧
          Passed t t x.color.toggle none f t' := by
  obtain ⟨f,hspan,hdepth,hnd,hmem⟩ := h.exists_tree hr hpar
  refine ⟨f,hspan,hnd,hmem,fun hm _ _ htrace hspans => ?_⟩
  have hroot : ∀ p ∈ [r], ∀ s, t.segs p = some s → s.parent = none := by
    intro p hp s hs
    rw [List.mem_singleton.mp hp,hr,Option.some_inj] at hs
    exact hs ▸ hpar
  obtain ⟨t',hw,hpassed⟩ := walk_stoh h hspan hnd hroot
    (fun q hq => absurd hq (by simp)) (fun _ _ => rfl) rfl (fun q hq => absurd hq (by simp)) hm
    htrace hspans
  refine ⟨t',?_,hpassed⟩
  rw [treeToHeap,iterate_eq_walk stoh_frame hr hspan hdepth hnd
    fun q hq => hcol q ((hmem q).mp hq)]
  exact hw

end Txn
end PhpAgent
