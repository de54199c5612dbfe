import PhpAgent.Lib.PointerTree
import PhpAgent.Segment.Store

/-! What each operation on segments does to the memory, when the segments it reads are live. -/
namespace PhpAgent

namespace SegmentChildren

@[simp] lemma elements_init : init.elements = [] := rfl

@[simp] lemma elements_migrateToVector (c : SegmentChildren) :
    c.migrateToVector.elements = c.elements := by
  cases c with
  | packed es h => cases es <;> rfl
  | vector v => rfl

@[simp] lemma elements_add (c : SegmentChildren) (x : SegPtr) :
    (c.add x).1.elements = c.elements ++ [x] := by
  cases c with
  | packed es h =>
    simp only [add]
    split
    · exact congrArg (· ++ [x]) (elements_migrateToVector (packed es h))
    · rfl
  | vector v => rfl

@[simp] lemma ix_add (c : SegmentChildren) (x : SegPtr) : (c.add x).2 = c.elements.length := by
  cases c with
  | packed es h =>
    simp only [add]
    split
    · exact congrArg List.length (elements_migrateToVector (packed es h))
    · rfl
  | vector v => rfl

@[simp] lemma elements_adopt (c : SegmentChildren) (es : List SegPtr) :
    (c.adopt es).elements = c.elements ++ es := by
  cases c with
  | packed cs h =>
    simp only [adopt]
    split
    · exact congrArg (· ++ es) (elements_migrateToVector (packed cs h))
    · rfl
  | vector v => rfl

/-- A removal inside the children succeeds. -/
theorem remove_eq {c : SegmentChildren} {l : SegPtr} {ix : ℕ} (hl : c.elements.getLast? = some l)
    (hix : ix < c.elements.length) :
    ∃ c', c.remove ix = some (c',l) ∧ c'.elements = (c.elements.set ix l).dropLast := by
  unfold remove
  rw [hl]
  cases c with
  | packed es h =>
    simp only [elements] at hix ⊢
    rw [if_neg (by omega)]
    exact ⟨_,rfl,rfl⟩
  | vector v =>
    simp only [elements] at hix ⊢
    rw [if_neg (by rw [NrVector.size]; omega)]
    exact ⟨_,rfl,by simp⟩

end SegmentChildren

namespace Segment

/-- The place of a segment in the tree. -/
def node (s : Segment) : PointerTree.Node SegPtr := ⟨s.parent,s.children.elements,s.childIx⟩

@[simp] lemma node_parent (s : Segment) : s.node.parent = s.parent := rfl
@[simp] lemma node_kids (s : Segment) : s.node.kids = s.children.elements := rfl
@[simp] lemma node_ix (s : Segment) : s.node.ix = s.childIx := rfl

/-- `s'` is `s` but for its id. -/
def SameButId (s s' : Segment) : Prop := s' = { s with id := s'.id }

/-- `s'` is `s` but for its exclusive time. -/
def SameButTime (s s' : Segment) : Prop := s' = { s with exclusiveTime := s'.exclusiveTime }

/-- `s'` is `s` but for its children. -/
def SameButChildren (s s' : Segment) : Prop := s' = { s with children := s'.children }

/-- All of a segment but its place in the tree, its id and its exclusive time: what no operation
on the tree writes once the segment is initialised. -/
def fixed (s : Segment) : Segment :=
  { s with parent := none, children := .init, childIx := 0, id := none, exclusiveTime := none }

/-- Any other field of two segments with the same fixed part agrees. -/
theorem eq_of_fixed {β : Type} (f : Segment → β) (hf : ∀ s, f s.fixed = f s) {s s' : Segment}
    (h : s'.fixed = s.fixed) : f s' = f s := by
  rw [← hf s',h,hf]

end Segment

namespace Txn
open PointerTree
variable {t t' : Txn} {p c : SegPtr} {s : Segment}

/-- The tree a transaction's memory holds. -/
def view (t : Txn) : View SegPtr := fun p => (t.segs p).map Segment.node

lemma view_eq_some {n : Node SegPtr} :
    t.view p = some n ↔ ∃ s, t.segs p = some s ∧ s.node = n := by
  simp [view]

lemma view_of_segs (h : t.segs p = some s) : t.view p = some s.node := by
  simp [view,h]

lemma view_eq_none : t.view p = none ↔ t.segs p = none := by simp [view]

/-- The segments of two memories agree but for the fields `fixed` leaves out. -/
def SameFixed (t t' : Txn) : Prop :=
  ∀ q, (t'.segs q).map Segment.fixed = (t.segs q).map Segment.fixed

lemma SameFixed.refl (t : Txn) : SameFixed t t := fun _ => rfl

lemma SameFixed.some (h : SameFixed t t') (hs : t.segs p = some s) :
    ∃ s', t'.segs p = some s' ∧ s'.fixed = s.fixed := by
  have := h p
  rw [hs,Option.map_some,Option.map_eq_some_iff] at this
  exact this

lemma SameFixed.symm (h : SameFixed t t') : SameFixed t' t := fun q => (h q).symm

lemma update_eq (h : t.segs p = some s) (f : Segment → Segment) :
    t.update p f = some { t with segs := Function.update t.segs p (some (f s)) } := by
  simp [update,h]

lemma update_eq_some {f : Segment → Segment} (h : t.update p f = some t') :
    ∃ s, t.segs p = some s ∧ t' = { t with segs := Function.update t.segs p (some (f s)) } := by
  obtain ⟨s,hs,h⟩ := Option.bind_eq_some_iff.mp h
  exact ⟨s,hs,(Option.some_inj.mp h).symm⟩

/-! ### Children -/

lemma childrenAdd_eq {s x : Segment} (hp : t.segs p = some s) (hc : t.segs c = some x)
    (hne : p ≠ c) : t.childrenAdd p c = some { t with
      segs := Function.update
        (Function.update t.segs p (some { s with children := (s.children.add c).1 }))
        c (some { x with childIx := s.children.elements.length }) } := by
  simp [childrenAdd,hp,update,Function.update_of_ne hne.symm,hc]

lemma childrenRemove_eq {s x y : Segment} {l : SegPtr} (hp : t.segs p = some s)
    (hc : t.segs c = some x) (hlast : s.children.elements.getLast? = some l)
    (hl : t.segs l = some y) (hlp : l ≠ p) (hix : x.childIx < s.children.elements.length) :
    ∃ children, children.elements = (s.children.elements.set x.childIx l).dropLast ∧
      t.childrenRemove p c = some (true,{ t with
        segs := Function.update
          (Function.update t.segs l (some { y with childIx := x.childIx }))
          p (some { s with children := children }) }) := by
  obtain ⟨children,hrem,helem⟩ := SegmentChildren.remove_eq hlast hix
  refine ⟨children,helem,?_⟩
  simp [childrenRemove,hp,hc,hrem,update,hl,Function.update_of_ne hlp.symm]

/-- The memory after the loop that reparents `es`. -/
def reparented (newParent parentSize : ℕ) (es : List SegPtr) (i : ℕ)
    (segs : SegPtr → Option Segment) : SegPtr → Option Segment := fun q =>
  if q ∈ es then (segs q).map fun c =>
    { c with parent := some newParent, childIx := parentSize+i+es.idxOf q }
  else segs q

lemma reparentLoop_eq (newParent parentSize : ℕ) {es : List SegPtr} (hnd : es.Nodup) (i : ℕ)
    (hlive : ∀ c ∈ es, ∃ x, t.segs c = some x) : reparentLoop newParent parentSize es i t =
      some { t with segs := reparented newParent parentSize es i t.segs } := by
  induction es generalizing t i with
  | nil =>
    have hsegs : reparented newParent parentSize [] i t.segs = t.segs := by
      funext q
      simp [reparented]
    rw [reparentLoop,hsegs]
  | cons e es ih =>
    obtain ⟨he,hnd⟩ := List.nodup_cons.mp hnd
    obtain ⟨x,hx⟩ := hlive e (by simp)
    simp only [reparentLoop,update_eq hx,Option.bind_eq_bind,Option.bind_some]
    rw [ih hnd]
    · congr 2
      funext q
      unfold reparented
      by_cases hqe : q = e
      · subst hqe
        simp [he,hx]
      · simp only [Function.update_of_ne hqe,List.mem_cons,hqe,false_or]
        split_ifs with hq
        · rw [List.idxOf_cons_ne _ (Ne.symm hqe)]
          congr 1
          funext y
          congr 1
          omega
        · rfl
    · intro c hc
      have hne : c ≠ e := by rintro rfl; exact he hc
      simpa [Function.update_of_ne hne] using hlive c (by simp [hc])

/-- The children of `c`, which is `s`, have become children of `p`, which is `n`. -/
structure Reparented (t : Txn) (c p : SegPtr) (s n : Segment) (t' : Txn) : Prop where
  rest : t' = { t with segs := t'.segs }
  parent : ∃ n', t'.segs p = some n' ∧
    n'.children.elements = n.children.elements ++ s.children.elements ∧ n.SameButChildren n'
  emptied : ∃ s', t'.segs c = some s' ∧ s'.children.elements = [] ∧ s.SameButChildren s'
  kid : ∀ i x y, s.children.elements[i]? = some x → t.segs x = some y → t'.segs x =
    some { y with parent := some p, childIx := n.children.elements.length+i }
  other : ∀ q, q ≠ p → q ≠ c → q ∉ s.children.elements → t'.segs q = t.segs q

lemma childrenReparent_eq {s n : Segment} (hs : t.segs c = some s) (hn : t.segs p = some n)
    (hne : p ≠ c) (hnd : s.children.elements.Nodup)
    (hlive : ∀ x ∈ s.children.elements, x ≠ p ∧ x ≠ c ∧ ∃ y, t.segs x = some y) :
    ∃ t', t.childrenReparent c p = some t' ∧ Reparented t c p s n t' := by
  have hpk : p ∉ s.children.elements := fun h => (hlive p h).1 rfl
  have hck : c ∉ s.children.elements := fun h => (hlive c h).2.1 rfl
  by_cases hempty : s.children.elements = []
  · refine ⟨t,by simp [childrenReparent,hs,SegmentChildren.size,hempty],rfl,⟨n,hn,by simp [hempty],rfl⟩,
      ⟨s,hs,hempty,rfl⟩,?_,fun _ _ _ _ => rfl⟩
    intro i x y hx
    rw [hempty] at hx
    cases hx
  · have hloop := reparentLoop_eq p n.children.elements.length hnd 0
      (fun x hx => (hlive x hx).2.2)
    have hp' : reparented p n.children.elements.length s.children.elements 0 t.segs p = some n := by
      rw [reparented,if_neg hpk,hn]
    have hc' : reparented p n.children.elements.length s.children.elements 0 t.segs c = some s := by
      rw [reparented,if_neg hck,hs]
    refine ⟨{ t with
        segs := Function.update
          (Function.update (reparented p n.children.elements.length s.children.elements 0 t.segs)
            p (some { n with children := n.children.adopt s.children.elements }))
          c (some { s with children := .init }) },?_,rfl,
      ⟨{ n with children := n.children.adopt s.children.elements },?_,?_,rfl⟩,
      ⟨{ s with children := .init },?_,rfl,rfl⟩,?_,?_⟩
    · simp [childrenReparent,hs,SegmentChildren.size,hempty,hn,hloop,update,hp',hc',
        Function.update_of_ne hne.symm]
    · simp [Function.update_of_ne hne]
    · simp
    · simp
    · intro i x y hx hy
      have hmem := List.mem_of_getElem? hx
      obtain ⟨hxp,hxc,-⟩ := hlive x hmem
      have hidx : s.children.elements.idxOf x = i := by
        have hlt : s.children.elements.idxOf x < s.children.elements.length :=
          List.idxOf_lt_length_of_mem hmem
        rw [← List.getElem?_inj hlt hnd,hx,List.getElem?_eq_getElem hlt,List.getElem_idxOf]
      simp [Function.update_of_ne hxc,Function.update_of_ne hxp,reparented,hmem,hy,hidx]
    · intro q hqp hqc hqk
      simp [Function.update_of_ne hqc,Function.update_of_ne hqp,reparented,hqk]

/-! ### Retiring -/

/-- What a span event may write: ids, and the queue with its metric. -/
structure Enqueued (t t' : Txn) : Prop where
  rest : t' = { t with
    segs := t'.segs
    guidsUsed := t'.guidsUsed
    spanQueue := t'.spanQueue
    unscopedMetrics := t'.unscopedMetrics }
  segs : ∀ q, (t'.segs q).map (fun s => { s with id := none }) =
    (t.segs q).map fun s => { s with id := none }

lemma Enqueued.refl (t : Txn) : Enqueued t t := ⟨rfl,fun _ => rfl⟩

lemma Enqueued.trans {t'' : Txn} (h : Enqueued t t') (h' : Enqueued t' t'') : Enqueued t t'' where
  rest := by rw [h'.rest,h.rest]
  segs q := (h'.segs q).trans (h.segs q)

lemma Enqueued.some (h : Enqueued t t') (hs : t.segs p = some s) :
    ∃ s', t'.segs p = some s' ∧ s.SameButId s' := by
  have := h.segs p
  rw [hs,Option.map_some,Option.map_eq_some_iff] at this
  obtain ⟨s',hs',heq⟩ := this
  refine ⟨s',hs',?_⟩
  unfold Segment.SameButId
  cases s
  cases s'
  simp_all

lemma Enqueued.none (h : Enqueued t t') (hs : t.segs p = none) : t'.segs p = none := by
  have := h.segs p
  rw [hs,Option.map_none,Option.map_eq_none_iff] at this
  exact this

lemma ensureId_spec (hs : t.segs p = some s) : ∃ id t', t.ensureId p = some (id,t') ∧ Enqueued t t' := by
  unfold ensureId
  simp only [hs,Option.bind_eq_bind,Option.bind_some]
  split_ifs with h
  · rw [update_eq (t := { t with guidsUsed := t.guidsUsed+1 }) hs]
    refine ⟨_,_,rfl,rfl,fun q => ?_⟩
    by_cases hq : q = p
    · subst hq
      simp [hs]
    · simp [Function.update_of_ne hq]
  · exact ⟨_,_,rfl,.refl t⟩

lemma toSpanEvent_spec (hs : t.segs p = some s) (hpar : ∀ q, s.parent = some q → ∃ x, t.segs q = some x) :
    ∃ e t', t.toSpanEvent p = some (e,t') ∧ Enqueued t t' := by
  unfold toSpanEvent
  simp only [hs,Option.bind_eq_bind,Option.bind_some]
  split_ifs with hstop
  · exact ⟨_,_,rfl,.refl t⟩
  obtain ⟨id,t₁,hid,he⟩ := ensureId_spec hs
  simp only [hid,Option.bind_some]
  split_ifs with hnone
  · exact ⟨_,_,rfl,he⟩
  cases hp : s.parent with
  | none => exact ⟨_,_,rfl,he⟩
  | some q =>
    obtain ⟨x,hx⟩ := hpar q hp
    obtain ⟨x',hx',-⟩ := he.some hx
    obtain ⟨id',t₂,hid',he'⟩ := ensureId_spec hx'
    simp only [hid',Option.bind_some]
    exact ⟨_,_,rfl,he.trans he'⟩

lemma enqueueSpan_spec (hs : t.segs p = some s) (hpar : ∀ q, s.parent = some q → ∃ x, t.segs q = some x) :
    ∃ t', t.enqueueSpan p = some t' ∧ Enqueued t t' := by
  unfold enqueueSpan
  simp only [hs,Option.bind_eq_bind,Option.bind_some]
  cases hq : t.spanQueue with
  | none => exact ⟨t,rfl,.refl t⟩
  | some q =>
    simp only
    split_ifs with hname
    · exact ⟨t,rfl,.refl t⟩
    obtain ⟨e,t₁,he,hframe⟩ := toSpanEvent_spec hs hpar
    simp only [he,Option.bind_some]
    cases e with
    | none => exact ⟨t₁,rfl,hframe⟩
    | some e => exact ⟨_,rfl,by rw [hframe.rest],hframe.segs⟩

@[simp] lemma segs_setStackOf (t : Txn) (context : ℕ) (stack : NrStack SegPtr) :
    (t.setStackOf context stack).segs = t.segs := by
  unfold setStackOf
  split <;> rfl

@[simp] lemma segs_unstack (t : Txn) (context : ℕ) : (t.unstack context p).segs = t.segs := by
  unfold unstack
  split <;> simp

lemma retireCurrentSegment_spec (hs : t.segs p = some s)
    (hpar : ∀ q, s.parent = some q → ∃ x, t.segs q = some x) :
    ∃ t', t.retireCurrentSegment p = some t' ∧ Enqueued (t.unstack s.asyncContext p) t' := by
  simp only [retireCurrentSegment,hs,Option.bind_eq_bind,Option.bind_some]
  apply enqueueSpan_spec (s := s)
  · simpa using hs
  · simpa using hpar

/-! ### Merging metrics -/

lemma addMetrics_rest (t : Txn) (metrics : List SegmentMetric) (d e : ℕ) :
    t.addMetrics metrics d e = { t with
      scopedMetrics := (t.addMetrics metrics d e).scopedMetrics
      unscopedMetrics := (t.addMetrics metrics d e).unscopedMetrics } := by
  unfold addMetrics
  induction metrics generalizing t with
  | nil => rfl
  | cons m metrics ih =>
    rw [List.foldl_cons,ih]
    split <;> rfl

lemma addChildTimes_isSome (context : ℕ) {es : List SegPtr}
    (hlive : ∀ c ∈ es, ∃ x, t.segs c = some x) (et : ExclusiveTime) :
    ∃ et', t.addChildTimes context es et = some et' := by
  induction es generalizing et with
  | nil => exact ⟨et,rfl⟩
  | cons c es ih =>
    obtain ⟨x,hx⟩ := hlive c (by simp)
    simp only [addChildTimes,hx,Option.bind_eq_bind,Option.bind_some]
    exact ih (fun c hc => hlive c (by simp [hc])) _

lemma discardedExclusiveTime_spec (hs : t.segs c = some s)
    (hlive : ∀ k ∈ s.children.elements, ∃ y, t.segs k = some y) :
    ∃ exclusive t', t.discardedExclusiveTime c s = some (exclusive,t') ∧
      t' = { t with segs := t'.segs } ∧
      (∃ s', t'.segs c = some s' ∧ s.SameButTime s') ∧
      ∀ q, q ≠ c → t'.segs q = t.segs q := by
  have hwrite : ∀ et : ExclusiveTime, ∃ exclusive t',
      (t.update c (fun s => { s with exclusiveTime := some et.calculate.2 })).bind
        (fun t => some (et.calculate.1,t)) = some (exclusive,t') ∧ t' = { t with segs := t'.segs } ∧
      (∃ s', t'.segs c = some s' ∧ s.SameButTime s') ∧
      ∀ q, q ≠ c → t'.segs q = t.segs q := by
    intro et
    rw [update_eq hs]
    exact ⟨_,_,rfl,rfl,⟨_,Function.update_self ..,rfl⟩,fun q hq => Function.update_of_ne hq ..⟩
  unfold discardedExclusiveTime
  simp only [Option.bind_eq_bind]
  split_ifs with hempty
  · cases het : s.exclusiveTime with
    | none => exact ⟨_,_,rfl,rfl,⟨s,hs,rfl⟩,fun _ _ => rfl⟩
    | some et => simpa using hwrite et
  · obtain ⟨et,het⟩ := addChildTimes_isSome s.asyncContext hlive
      (ExclusiveTime.ensure s.exclusiveTime s.children.size s.startTime s.stopTime)
    rw [het]
    simpa using hwrite et

/-- The exclusive time the parent `x` is left with when `s` is recorded as its child. -/
def recordedTime (s x : Segment) : Option ExclusiveTime :=
  if x.asyncContext = s.asyncContext then
    some ((ExclusiveTime.ensure x.exclusiveTime x.children.size x.startTime x.stopTime).addChild
      s.startTime s.stopTime).2
  else x.exclusiveTime

lemma recordChild_eq {s x : Segment} (hx : t.segs p = some x) :
    t.recordChild p s = some { t with
      segs := Function.update t.segs p (some { x with exclusiveTime := recordedTime s x }) } := by
  simp only [recordChild,recordedTime,hx,Option.bind_eq_bind,Option.bind_some]
  split_ifs with hctx
  · rw [update_eq hx]
  · have hsame : Function.update t.segs p (some { x with exclusiveTime := x.exclusiveTime }) =
        t.segs := Function.update_eq_self_iff.mpr hx.symm
    rw [hsame]
    rfl

/-- The exclusive time the parent `x` is left with when the metrics of `s` are merged: without a
segment limit, `s` is recorded as a child of its parent. -/
def mergedTime (maxSegments : ℕ) (s x : Segment) : Option ExclusiveTime :=
  if s.stopTime < s.startTime ∨ 1 < maxSegments then x.exclusiveTime else recordedTime s x

lemma discardMergeMetrics_spec {s x : Segment} (hs : t.segs c = some s) (hpar : s.parent = some p)
    (hx : t.segs p = some x) (hne : p ≠ c)
    (hlive : ∀ k ∈ s.children.elements, ∃ y, t.segs k = some y) :
    ∃ t', t.discardMergeMetrics c = some t' ∧
      t' = { t with
        segs := t'.segs
        scopedMetrics := t'.scopedMetrics
        unscopedMetrics := t'.unscopedMetrics } ∧
      (∃ s', t'.segs c = some s' ∧ s.SameButTime s') ∧
      t'.segs p = some { x with exclusiveTime := mergedTime t.options.maxSegments s x } ∧
      ∀ q, q ≠ p → q ≠ c → t'.segs q = t.segs q := by
  unfold discardMergeMetrics mergedTime
  simp only [hs,Option.bind_eq_bind,Option.bind_some,hpar]
  by_cases hstop : s.stopTime < s.startTime
  · rw [if_pos hstop,if_pos (Or.inl hstop)]
    exact ⟨t,rfl,rfl,⟨s,hs,rfl⟩,hx,fun _ _ _ => rfl⟩
  by_cases hlimit : 1 < t.options.maxSegments
  · rw [if_neg hstop,if_pos hlimit,if_pos (Or.inr hlimit)]
    refine ⟨_,rfl,?_⟩
    rw [addMetrics_rest]
    exact ⟨rfl,⟨s,hs,rfl⟩,hx,fun _ _ _ => rfl⟩
  · rw [if_neg hstop,if_neg hlimit,if_neg (not_or.mpr ⟨hstop,hlimit⟩)]
    obtain ⟨exclusive,t₁,h₁,hrest,⟨s',hs',hs'eq⟩,hother⟩ := discardedExclusiveTime_spec hs hlive
    have hx₁ : t₁.segs p = some x := (hother p hne).trans hx
    simp only [h₁,Option.bind_some,recordChild_eq hx₁]
    refine ⟨_,rfl,?_⟩
    rw [addMetrics_rest]
    refine ⟨by rw [hrest],⟨s',?_,hs'eq⟩,Function.update_self ..,fun q hqp hqc => ?_⟩
    · exact (Function.update_of_ne hne.symm ..).trans hs'
    · exact (Function.update_of_ne hqp ..).trans (hother q hqc)

end Txn
end PhpAgent
