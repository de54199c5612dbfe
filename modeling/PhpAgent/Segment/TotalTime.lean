import PhpAgent.Segment.SampleHeap

/-! The total time of a tree of properly nested segments. It falls short of the duration of the root
exactly by what earlier discards have recorded. -/
namespace PhpAgent

namespace Segment

/-- The ticks of a segment. -/
def span (s : Segment) : Finset ℕ := Finset.Ico s.startTime s.stopTime

/-- The record of discarded children that a segment carries. -/
def RecordedAs (s : Segment) (ivs : List (ℕ × ℕ)) : Prop :=
  match s.exclusiveTime with
  | none => ivs = []
  | some et => et.Recorded ivs

end Segment

namespace Txn
open PointerTree Forest Intervals
variable {t t' : Txn} {p r : SegPtr} {rec : SegPtr → List (ℕ × ℕ)} {s : Segment}

/-- The intervals of two segments do not overlap. -/
def Apart (t : Txn) (a b : SegPtr) : Prop :=
  ∀ y z, t.segs a = some y → t.segs b = some z → Disjoint y.span z.span

lemma Apart.symm {a b : SegPtr} (h : t.Apart a b) : t.Apart b a :=
  fun y z hy hz => (h z y hz hy).symm

/-- One context, children inside their parents, siblings apart. -/
structure Nested (t : Txn) (r : SegPtr) : Prop where
  valid : ∀ {p x}, t.InTree r p → t.segs p = some x → x.startTime ≤ x.stopTime
  context : ∀ {p q x y}, t.InTree r p → t.InTree r q → t.segs p = some x → t.segs q = some y →
    x.asyncContext = y.asyncContext
  inside : ∀ {p c x y}, t.InTree r p → t.segs p = some x → c ∈ x.children.elements →
    t.segs c = some y → x.startTime ≤ y.startTime ∧ y.stopTime ≤ x.stopTime
  apart : ∀ {p x}, t.InTree r p → t.segs p = some x → x.children.elements.Pairwise t.Apart

/-- Every record of the tree is made of discarded children: `rec p` are those of `p`. -/
def Recording (t : Txn) (r : SegPtr) (rec : SegPtr → List (ℕ × ℕ)) : Prop :=
  ∀ p x, t.InTree r p → t.segs p = some x → x.RecordedAs (rec p)

/-- The ticks the children of a segment cover. -/
def childTicks (t : Txn) (s : Segment) : Finset ℕ :=
  ticks (t.childIntervals s.asyncContext s.children.elements)

/-- The ticks of a segment that are recorded but not covered by its children. -/
def lostTicks (t : Txn) (ivs : List (ℕ × ℕ)) (s : Segment) : Finset ℕ :=
  (s.span ∩ ticks ivs) \ t.childTicks s

lemma mem_ticks_childIntervals {context : ℕ} {ps : List SegPtr} {a : ℕ} :
    a ∈ ticks (t.childIntervals context ps) ↔
      ∃ q ∈ ps, ∃ y, t.segs q = some y ∧ y.asyncContext = context ∧ a ∈ y.span := by
  simp only [mem_ticks,childIntervals,List.mem_flatMap,Segment.span,Finset.mem_Ico]
  constructor
  · rintro ⟨iv,⟨q,hq,hiv⟩,ha⟩
    cases hy : t.segs q with
    | none => simp [hy] at hiv
    | some y =>
      rw [hy,Option.map_some,Option.getD_some,Segment.childInterval] at hiv
      split at hiv
      · rename_i hctx
        rw [List.mem_singleton.mp hiv] at ha
        exact ⟨q,hq,y,hy,hctx.1,ha⟩
      · cases hiv
  · rintro ⟨q,hq,y,hy,hctx,ha⟩
    refine ⟨(y.startTime,y.stopTime),⟨q,hq,?_⟩,ha⟩
    rw [hy,Option.map_some,Option.getD_some,Segment.childInterval,if_pos ⟨hctx,by omega⟩]
    exact List.mem_singleton_self _

lemma childIntervals_valid (t : Txn) (context : ℕ) (ps : List SegPtr) :
    ∀ iv ∈ t.childIntervals context ps, iv.1 ≤ iv.2 := by
  intro iv hiv
  obtain ⟨c,-,hc⟩ := List.mem_flatMap.mp hiv
  cases hs : t.segs c with
  | none => simp [hs] at hc
  | some s =>
    rw [hs,Option.map_some,Option.getD_some,Segment.childInterval] at hc
    split at hc
    · rename_i hle
      rw [List.mem_singleton.mp hc]
      exact hle.2
    · cases hc

lemma ensure_times (et : Option ExclusiveTime) (n start stop : ℕ) :
    (ExclusiveTime.ensure et n start stop).startTime = start ∧
      (ExclusiveTime.ensure et n start stop).stopTime = stop := by
  cases et <;> exact ⟨rfl,rfl⟩

/-- Making room for children keeps what is recorded, and then they are recorded too. -/
theorem recorded_ensure_feed {ivs new : List (ℕ × ℕ)} (hrec : s.RecordedAs ivs)
    (hnew : ∀ iv ∈ new, iv.1 ≤ iv.2) (n start stop : ℕ) :
    ((ExclusiveTime.ensure s.exclusiveTime n start stop).feed new).Recorded (ivs ++ new) := by
  have hby : ExclusiveTime.RecordedBy s.exclusiveTime ivs := hrec
  exact ExclusiveTime.recorded_feed (ExclusiveTime.recorded_ensure hby n start stop) hnew

/-- The exclusive time of a segment counts the ticks that neither its children nor its record
cover. -/
theorem exclusive_eq_card {ivs : List (ℕ × ℕ)} (hs : t.segs p = some s)
    (hrec : s.RecordedAs ivs) : t.exclusive p = (s.span \ (ticks ivs ∪ t.childTicks s)).card := by
  obtain ⟨hstart,hstop⟩ := ensure_times s.exclusiveTime s.children.size s.startTime s.stopTime
  have hrecorded : (t.stohTime s).Recorded
      (ivs ++ t.childIntervals s.asyncContext s.children.elements) :=
    recorded_ensure_feed hrec (childIntervals_valid t _ _) _ _ _
  rw [exclusive_eq hs,ExclusiveTime.calculate_eq hrecorded,ticks_append]
  simp only [stohTime,ExclusiveTime.feed,hstart,hstop]
  rfl

/-! ### Properly nested trees -/

/-- The interval of a segment, empty when there is none. -/
def interval (t : Txn) (p : SegPtr) : ℕ × ℕ :=
  ((t.segs p).map fun s => (s.startTime,s.stopTime)).getD (0,0)

/-- The duration of a segment. -/
def duration (t : Txn) (p : SegPtr) : ℕ := (t.interval p).2-(t.interval p).1

lemma interval_eq (hs : t.segs p = some s) : t.interval p = (s.startTime,s.stopTime) := by
  rw [interval,hs,Option.map_some,Option.getD_some]

lemma duration_eq (hs : t.segs p = some s) : t.duration p = s.span.card := by
  rw [duration,interval_eq hs,Segment.span,Nat.card_Ico]

section Tree
variable {x : Segment} (h : Inv t) (hn : t.Nested r) (hp : t.InTree r p) (hx : t.segs p = some x)
include h hn hp hx

lemma Nested.childIntervals_eq : t.childIntervals x.asyncContext x.children.elements =
    x.children.elements.map t.interval := by
  have hone : ∀ c ∈ x.children.elements,
      ((t.segs c).map (Segment.childInterval x.asyncContext)).getD [] = [t.interval c] := by
    intro c hc
    obtain ⟨y,hy,hpar⟩ := h.child_live hx hc
    have hin : t.InTree r c := hp.tail ⟨y,hy,hpar⟩
    rw [hy,Option.map_some,Option.getD_some,interval_eq hy,Segment.childInterval,
      if_pos ⟨hn.context hin hp hy hx,hn.valid hin hy⟩]
  rw [childIntervals,List.flatMap_congr hone]
  exact List.flatMap_pure_eq_map _ _

lemma Nested.childTicks_subset : t.childTicks x ⊆ x.span := by
  intro a ha
  rw [childTicks,hn.childIntervals_eq h hp hx,mem_ticks] at ha
  obtain ⟨iv,hiv,ha⟩ := ha
  obtain ⟨c,hc,rfl⟩ := List.mem_map.mp hiv
  obtain ⟨y,hy,-⟩ := h.child_live hx hc
  have hin := hn.inside hp hx hc hy
  rw [interval_eq hy] at ha
  rw [Segment.span,Finset.mem_Ico]
  simp only at ha
  omega

lemma Nested.card_childTicks :
    (t.childTicks x).card = (x.children.elements.map t.duration).sum := by
  rw [childTicks,hn.childIntervals_eq h hp hx,card_ticks,List.map_map]
  · rfl
  · rw [List.pairwise_map]
    refine (hn.apart hp hx).imp_of_mem ?_
    intro a b ha hb hab
    obtain ⟨y,hy,-⟩ := h.child_live hx ha
    obtain ⟨z,hz,-⟩ := h.child_live hx hb
    rw [interval_eq hy,interval_eq hz]
    exact hab y z hy hz

end Tree

/-- What a segment loses to its record. -/
def lost (t : Txn) (rec : SegPtr → List (ℕ × ℕ)) (p : SegPtr) : ℕ :=
  ((t.segs p).map fun s => (t.lostTicks (rec p) s).card).getD 0

lemma lost_eq (hs : t.segs p = some s) : t.lost rec p = (t.lostTicks (rec p) s).card := by
  rw [lost,hs,Option.map_some,Option.getD_some]

/-- Exclusive times and losses add up to the duration of the root. -/
theorem Nested.sum_exclusive (h : Inv t) (hn : t.Nested r) (hrec : t.Recording r rec)
    {f : Forest SegPtr} (hspan : Spans t.kids [r] f) (hmem : ∀ q, q ∈ f.toList ↔ t.InTree r q) :
    (f.toList.map t.exclusive).sum+(f.toList.map (t.lost rec)).sum = t.duration r := by
  have hnode : ∀ p ∈ f.toList, ∀ ks, t.kids p = some ks →
      t.exclusive p+t.lost rec p+(ks.map t.duration).sum = t.duration p := by
    intro p hp ks hks
    obtain ⟨x,hx,rfl⟩ := Option.map_eq_some_iff.mp hks
    have hin := (hmem p).mp hp
    rw [exclusive_eq_card hx (hrec p x hin hx),lost_eq hx,duration_eq hx,
      ← hn.card_childTicks h hin hx]
    exact card_split _ (hn.childTicks_subset h hin hx)
  simpa using hspan.sum_telescope hnode

/-- The first pass over a properly nested tree, with heaps of any bound. -/
theorem Nested.treeToHeap_total (h : Inv t) {x : Segment} (hr : t.segs r = some x)
    (hpar : x.parent = none) (hcol : ∀ q, t.InTree r q → t.color q = some x.color)
    (hn : t.Nested r) (hrec : t.Recording r rec) (h64 : x.stopTime < 2^64) (traceBound spanBound : ℕ)
    (mainContext : Option ExclusiveTime) :
    ∃ ps w', List.Nodup ps ∧ (∀ q, q ∈ ps ↔ t.InTree r q) ∧
      t.treeToHeap (some r) ⟨segmentHeapCreate traceBound,segmentHeapCreate spanBound,0,mainContext⟩ =
        some w' ∧
      w'.2.totalTime+(ps.map (t.lost rec)).sum = timeDuration x.startTime x.stopTime := by
  obtain ⟨f,hspan,hnd,hmem,hpass⟩ := treeToHeap_spec h hr hpar hcol
  obtain ⟨traceHeap,htrace⟩ := segmentHeapCreate_returns (wrapped_duration_isComparator t) traceBound
    f.toList
  obtain ⟨spanHeap,hspans⟩ := segmentHeapCreate_returns (wrapped_spanPriority_isComparator t) spanBound
    f.toList
  obtain ⟨t',hrun,-⟩ := hpass (m := ⟨segmentHeapCreate traceBound,segmentHeapCreate spanBound,0,
    mainContext⟩) (by norm_num) htrace hspans
  refine ⟨f.toList,_,hnd,hmem,hrun,?_⟩
  have hsum := hn.sum_exclusive h hrec hspan hmem
  have hdur : t.duration r = x.stopTime-x.startTime := by rw [duration,interval_eq hr]
  have htotal : (t.passedMetadata ⟨segmentHeapCreate traceBound,segmentHeapCreate spanBound,0,
      mainContext⟩ f.toList traceHeap spanHeap).totalTime = (f.toList.map t.exclusive).sum := by
    rw [passedMetadata,Nat.zero_add,Nat.mod_eq_of_lt (by omega)]
  rw [timeDuration_eq,← hdur,← hsum,← htotal]

/-- The total time of a properly nested tree is the duration of its root exactly when no segment
has recorded discarded children outside its present ones. -/
theorem treeToHeap_total_iff (h : Inv t) {x : Segment} (hr : t.segs r = some x)
    (hpar : x.parent = none) (hcol : ∀ q, t.InTree r q → t.color q = some x.color)
    (hn : t.Nested r) (hrec : t.Recording r rec) (h64 : x.stopTime < 2^64) (traceBound spanBound : ℕ)
    (mainContext : Option ExclusiveTime) :
    ∃ w', t.treeToHeap (some r)
        ⟨segmentHeapCreate traceBound,segmentHeapCreate spanBound,0,mainContext⟩ = some w' ∧
      (w'.2.totalTime = timeDuration x.startTime x.stopTime ↔
        ∀ q y, t.InTree r q → t.segs q = some y → y.span ∩ ticks (rec q) ⊆ t.childTicks y) := by
  obtain ⟨ps,w',-,hmem,hrun,htotal⟩ := hn.treeToHeap_total h hr hpar hcol hrec h64 traceBound spanBound
    mainContext
  refine ⟨w',hrun,?_⟩
  have hzero : w'.2.totalTime = timeDuration x.startTime x.stopTime ↔
      (ps.map (t.lost rec)).sum = 0 := by omega
  rw [hzero,List.sum_eq_zero_iff]
  constructor
  · intro hlost q y hq hy
    have := hlost (t.lost rec q) (List.mem_map_of_mem ((hmem q).mpr hq))
    rwa [lost_eq hy,Finset.card_eq_zero,lostTicks,Finset.sdiff_eq_empty_iff_subset] at this
  · intro hsub n hmemn
    obtain ⟨q,hq,rfl⟩ := List.mem_map.mp hmemn
    obtain ⟨y,hy⟩ := ((hmem q).mp hq).live hr
    rw [lost_eq hy,Finset.card_eq_zero,lostTicks,Finset.sdiff_eq_empty_iff_subset]
    exact hsub q y ((hmem q).mp hq) hy

/-- A root over `[0,10)` with one child over `[2,6)` that has a metric. -/
def rootAndChild (maxSegments : ℕ) : Option Txn := do
  let t ← begin 1 0 0 ⟨maxSegments,false,0,false,false⟩ none false fun _ => []
  let (_,t) ← t.start 2 (some 1) none
  let t ← t.setTiming 2 2 4
  let t ← t.addMetric 2 (ascii "Custom/child") true
  t.setTiming 1 0 10

lemma rootAndChild_inv {maxSegments : ℕ} (h : rootAndChild maxSegments = some t) : Inv t := by
  unfold rootAndChild at h
  obtain ⟨t₀,hbegin,h⟩ := Option.bind_eq_some_iff.mp h
  obtain ⟨⟨p,t₁⟩,hstart,h⟩ := Option.bind_eq_some_iff.mp h
  obtain ⟨t₂,htiming,h⟩ := Option.bind_eq_some_iff.mp h
  obtain ⟨t₃,hmetric,h⟩ := Option.bind_eq_some_iff.mp h
  have hinv₀ : Inv t₀ := begin_inv hbegin
  have hlive : (TreeOp.start 2 (some 1) none).Live t₀ := by
    intro q hq
    cases hq
    cases hbegin
    exact ⟨_,rfl⟩
  obtain ⟨t₁',hstep,hinv₁⟩ := TreeOp.step_spec hinv₀ hlive
  simp only [TreeOp.step,hstart,Option.map_some,Option.some_inj] at hstep
  subst hstep
  have hkeep : ∀ {f : Segment → Segment}, (∀ s, f s = { s with
      startTime := (f s).startTime, stopTime := (f s).stopTime, metrics := (f s).metrics }) →
      ∀ s, (f s).node = s.node ∧ (f s).txn = s.txn ∧ (f s).asyncContext = s.asyncContext := by
    intro f hf s
    rw [hf]
    exact ⟨rfl,rfl,rfl⟩
  have hinv₂ := hinv₁.update htiming (hkeep fun _ => rfl)
  have hinv₃ := hinv₂.update hmetric (hkeep fun _ => rfl)
  exact hinv₃.update h (hkeep fun _ => rfl)

/-- The segments of the pair. -/
theorem rootAndChild_segs (maxSegments : ℕ) : ∃ t x y, rootAndChild maxSegments = some t ∧
    t.segmentRoot = some 1 ∧ t.options.maxSegments = maxSegments ∧
    t.segs 1 = some x ∧ x.parent = none ∧ x.children.elements = [2] ∧ x.color = .white ∧
    x.startTime = 0 ∧ x.stopTime = 10 ∧ x.asyncContext = 0 ∧ x.exclusiveTime = none ∧
    t.segs 2 = some y ∧ y.parent = some 1 ∧ y.children.elements = [] ∧ y.color = .white ∧
    y.startTime = 2 ∧ y.stopTime = 6 ∧ y.asyncContext = 0 ∧ y.exclusiveTime = none ∧
    y.metrics = [⟨ascii "Custom/child",true⟩] :=
  ⟨_,_,_,rfl,rfl,rfl,rfl,rfl,rfl,rfl,rfl,rfl,rfl,rfl,rfl,rfl,rfl,rfl,rfl,rfl,rfl,rfl,rfl⟩

/-- A tree of two segments, the child inside the root. -/
theorem nested_pair (h : Inv t) {x y : Segment} (hx : t.segs 1 = some x) (hxp : x.parent = none)
    (hxc : x.children.elements = [2]) (hy : t.segs 2 = some y) (hyc : y.children.elements = [])
    (hctx : x.asyncContext = y.asyncContext) (hxv : x.startTime ≤ x.stopTime)
    (hyv : y.startTime ≤ y.stopTime) (hin : x.startTime ≤ y.startTime ∧ y.stopTime ≤ x.stopTime) :
    t.Nested 1 ∧ ∀ q, t.InTree 1 q ↔ q = 1 ∨ q = 2 := by
  have hspan : Spans t.kids [1] (.node 1 (.node 2 .nil .nil) .nil) := by
    have hone : t.kids 1 = some [2] := by rw [kids,hx,Option.map_some,hxc]
    have htwo : t.kids 2 = some [] := by rw [kids,hy,Option.map_some,hyc]
    exact .node hone (.node htwo .nil .nil) .nil
  have hmem : ∀ q, t.InTree 1 q ↔ q = 1 ∨ q = 2 := by
    intro q
    rw [h.inTree_iff_mem hx hxp hspan]
    simp [toList]
  refine ⟨⟨?_,?_,?_,?_⟩,hmem⟩
  · intro p z hp hz
    rcases (hmem p).mp hp with rfl | rfl
    · rw [hx,Option.some_inj] at hz
      exact hz ▸ hxv
    · rw [hy,Option.some_inj] at hz
      exact hz ▸ hyv
  · intro p q z w hp hq hz hw
    rcases (hmem p).mp hp with rfl | rfl <;> rcases (hmem q).mp hq with rfl | rfl <;>
      simp_all
  · intro p c z w hp hz hc hw
    rcases (hmem p).mp hp with rfl | rfl
    · rw [hx,Option.some_inj] at hz
      subst hz
      rw [hxc,List.mem_singleton] at hc
      subst hc
      rw [hy,Option.some_inj] at hw
      exact hw ▸ hin
    · rw [hy,Option.some_inj] at hz
      subst hz
      rw [hyc] at hc
      cases hc
  · intro p z hp hz
    rcases (hmem p).mp hp with rfl | rfl
    · rw [hx,Option.some_inj] at hz
      subst hz
      rw [hxc]
      exact List.pairwise_singleton _ _
    · rw [hy,Option.some_inj] at hz
      subst hz
      rw [hyc]
      exact List.Pairwise.nil

lemma nested_single (h : Inv t) {x : Segment} (hx : t.segs 1 = some x) (hxp : x.parent = none)
    (hxc : x.children.elements = []) (hxv : x.startTime ≤ x.stopTime) :
    t.Nested 1 ∧ ∀ q, t.InTree 1 q ↔ q = 1 := by
  have hone : t.kids 1 = some [] := by rw [kids,hx,Option.map_some,hxc]
  have hspan : Spans t.kids [1] (.node 1 .nil .nil) := .node hone .nil .nil
  have hmem : ∀ q, t.InTree 1 q ↔ q = 1 := by
    intro q
    rw [h.inTree_iff_mem hx hxp hspan]
    simp [toList]
  have heq : ∀ {p z}, t.InTree 1 p → t.segs p = some z → z = x := by
    intro p z hp hz
    rw [(hmem p).mp hp,hx,Option.some_inj] at hz
    exact hz.symm
  refine ⟨⟨?_,?_,?_,?_⟩,hmem⟩
  · intro p z hp hz
    exact heq hp hz ▸ hxv
  · intro p q z w hp hq hz hw
    rw [heq hp hz,heq hq hw]
  · intro p c z w hp hz hc
    rw [heq hp hz,hxc] at hc
    cases hc
  · intro p z hp hz
    rw [heq hp hz,hxc]
    exact List.Pairwise.nil

/-- All that the statements about the total time ask for. -/
theorem rootAndChild_spec (maxSegments : ℕ) : ∃ t x y, rootAndChild maxSegments = some t ∧ Inv t ∧
    t.options.maxSegments = maxSegments ∧ t.segs 1 = some x ∧ x.parent = none ∧ x.startTime = 0 ∧
    x.stopTime = 10 ∧ t.segs 2 = some y ∧ y.parent = some 1 ∧ t.InTree 1 2 ∧
    (∀ q, t.InTree 1 q → t.color q = some x.color) ∧ t.Nested 1 ∧ t.Recording 1 fun _ => [] := by
  obtain ⟨t,x,y,ht,-,hmax,hx,hxp,hxc,hxcol,hx0,hx10,hxctx,hxet,hy,hyp,hyc,hycol,hy2,hy6,hyctx,hyet,-⟩ :=
    rootAndChild_segs maxSegments
  have hinv := rootAndChild_inv ht
  obtain ⟨hn,hmem⟩ := nested_pair hinv hx hxp hxc hy hyc (by omega) (by omega) (by omega) (by omega)
  refine ⟨t,x,y,ht,hinv,hmax,hx,hxp,hx0,hx10,hy,hyp,(hmem 2).mpr (.inr rfl),?_,hn,?_⟩
  · intro q hq
    rcases (hmem q).mp hq with rfl | rfl
    · rw [color,hx,Option.map_some]
    · rw [color,hy,Option.map_some,hycol,hxcol]
  · intro q z hq hz
    rcases (hmem q).mp hq with rfl | rfl
    · rw [hx,Option.some_inj] at hz
      subst hz
      simp [Segment.RecordedAs,hxet]
    · rw [hy,Option.some_inj] at hz
      subst hz
      simp [Segment.RecordedAs,hyet]

theorem treeToHeap_total_iff_pair : ∃ t w', rootAndChild 0 = some t ∧
    t.treeToHeap (some 1) ⟨segmentHeapCreate 2,segmentHeapCreate 2,0,none⟩ = some w' ∧
    w'.2.totalTime = 10 := by
  obtain ⟨t,x,y,ht,hinv,-,hx,hxp,hx0,hx10,-,-,-,hcol,hn,hrec⟩ := rootAndChild_spec 0
  obtain ⟨w',hw',hiff⟩ := treeToHeap_total_iff hinv hx hxp hcol hn hrec (by omega) 2 2 none
  refine ⟨t,w',ht,hw',?_⟩
  rw [hiff.mpr (fun q z _ _ => by simp),hx0,hx10]
  rfl

/-- After the child has been discarded the root alone is left, and 4 of its 10 ticks are lost. -/
theorem treeToHeap_total_after_discard : ∃ t t' x w', rootAndChild 0 = some t ∧
    t.discard 2 = some (true,t') ∧ Inv t' ∧ t'.segs 1 = some x ∧ x.parent = none ∧
    timeDuration x.startTime x.stopTime = 10 ∧ t'.Nested 1 ∧
    (∀ q, t'.InTree 1 q → t'.color q = some x.color) ∧
    t'.treeToHeap (some 1) ⟨segmentHeapCreate 2,segmentHeapCreate 2,0,none⟩ = some w' ∧
    w'.2.totalTime = 6 := by
  have hrun : ∃ t t' y x w', rootAndChild 0 = some t ∧ t.segs 2 = some y ∧ y.parent = some 1 ∧
      t.discard 2 = some (true,t') ∧ t'.segs 1 = some x ∧ x.parent = none ∧
      x.children.elements = [] ∧ x.startTime = 0 ∧ x.stopTime = 10 ∧
      t'.treeToHeap (some 1) ⟨segmentHeapCreate 2,segmentHeapCreate 2,0,none⟩ = some w' ∧
      w'.2.totalTime = 6 :=
    ⟨_,_,_,_,_,rfl,rfl,rfl,rfl,rfl,rfl,rfl,rfl,rfl,rfl,rfl⟩
  obtain ⟨t,t',y,x,w',ht,hy,hyp,hdis,hx,hxp,hxc,hx0,hx10,hw',htotal⟩ := hrun
  have hinv' : Inv t' := by
    obtain ⟨t'',hdis',hd⟩ := discard_spec (rootAndChild_inv ht) hy hyp
    rw [hdis,Option.some_inj,Prod.mk.injEq] at hdis'
    exact hdis'.2 ▸ hd.inv (rootAndChild_inv ht) hy hyp
  obtain ⟨hn,hmem⟩ := nested_single hinv' hx hxp hxc (by omega)
  refine ⟨t,t',x,w',ht,hdis,hinv',hx,hxp,by rw [hx0,hx10]; rfl,hn,?_,hw',htotal⟩
  intro q hq
  rw [(hmem q).mp hq,color,hx,Option.map_some]

end Txn
end PhpAgent
