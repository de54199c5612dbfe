import PhpAgent.Segment.SampleHeap

/-! Ending a segment: it is stopped, taken off its stack and handed to the segment heap, which may
discard one segment. -/
namespace PhpAgent

/-- `s'` is `s` but for its children, its position among its siblings, its id and its exclusive
time. -/
def Segment.Kept (s s' : Segment) : Prop := s'.fixed = s.fixed ∧ s'.parent = s.parent

namespace Txn
open PointerTree MinmaxHeap
variable {t t' : Txn} {p : SegPtr} {s : Segment}

/-! ### Retiring -/

lemma Enqueued.sameOwner (h : Enqueued t t') : SameOwner t t' := by
  intro q
  have := congrArg (Option.map fun s : Segment => (s.txn,s.asyncContext)) (h.segs q)
  rw [Option.map_map,Option.map_map] at this
  exact this

lemma Inv.unstack (h : Inv t) (hs : t.segs p = some s) : Inv (t.unstack s.asyncContext p) := by
  have hsegs : (t.unstack s.asyncContext p).segs = t.segs := segs_unstack ..
  have hself : (t.unstack s.asyncContext p).self = t.self := by rw [unstack_rest]
  have hslab : (t.unstack s.asyncContext p).slab = t.slab := by rw [unstack_rest]
  have hview : (t.unstack s.asyncContext p).view = t.view := by unfold view; rw [hsegs]
  refine ⟨⟨?_,?_,?_,?_,?_,?_,?_,?_⟩,hview ▸ h.linked,hview ▸ h.rooted⟩
  · rw [hsegs,hself]
    exact h.owned
  · rw [hsegs,hslab]
    exact h.live_lt
  · rw [hsegs,hslab]
    exact h.live_notMem
  · rw [hslab]
    exact h.free_lt
  · rw [hslab]
    exact h.free_nodup
  · intro k stack' hk
    obtain ⟨stack,hst,hsub,-⟩ := h.unstack_spec hs hk
    exact (h.stack_nodup hst).sublist hsub
  · intro k stack' q hk hq
    obtain ⟨stack,hst,hsub,-⟩ := h.unstack_spec hs hk
    rw [hsegs]
    exact h.stack_live hst (hsub.subset hq)
  · rw [unstack_rest]
    exact h.unforced

lemma Enqueued.inv (h : Enqueued t t') (hinv : Inv t) : Inv t' :=
  hinv.congr h.sameOwner (by rw [h.rest]) (by rw [h.rest]) (fun k => by rw [h.rest]; rfl)
    (by rw [h.rest]) h.view_eq

/-! ### The end of a segment before it enters the heap -/

/-- The segment as it is ended at the time `now`. -/
def stopped (t : Txn) (now : ℕ) (s : Segment) : Segment :=
  { s with stopTime := if s.stopTime = 0 then timeDuration t.absStartTime now else s.stopTime }

/-- What `nr_segment_end` has done when it reaches the heap. -/
structure Stopped (t : Txn) (now : ℕ) (p : SegPtr) (s : Segment) (t' : Txn) : Prop where
  ended : ∃ s', t'.segs p = some s' ∧ (t.stopped now s).Kept s'
  kept : ∀ q y, q ≠ p → t.segs q = some y → ∃ y', t'.segs q = some y' ∧ y.Kept y'
  dead : ∀ q, t.segs q = none → t'.segs q = none
  inv : Inv t'
  rest : t' = { t with
    segs := t'.segs
    segmentCount := t.segmentCount+1
    defaultParentStack := t'.defaultParentStack
    parentStacks := t'.parentStacks
    guidsUsed := t'.guidsUsed
    spanQueue := t'.spanQueue
    unscopedMetrics := t'.unscopedMetrics }

/-- The part of `nr_segment_end` before the heap. -/
def endRetire (t : Txn) (now : ℕ) (segment : SegPtr) : Option Txn := do
  let t ← t.update segment (t.stopped now)
  { t with segmentCount := t.segmentCount+1 }.retireCurrentSegment segment

lemma endSegment_eq (t : Txn) (now : ℕ) (p : SegPtr) :
    t.endSegment now p = (t.endRetire now p).bind fun t' => match t'.segmentHeap with
      | none => some t'
      | some heap => (heap.insert (wrapped spanPriorityComparator) discardWrapper p t').map
          fun r => { r.2 with segmentHeap := some r.1 } := by
  simp only [endSegment,endRetire,Option.bind_eq_bind,Option.bind_assoc]
  apply congrArg
  funext t₁
  apply congrArg
  funext t₂
  cases t₂.segmentHeap with
  | none => rfl
  | some heap => exact Option.map_eq_bind.symm

lemma endRetire_stops (h : Inv t) (hs : t.segs p = some s) (now : ℕ) :
    ∃ t', t.endRetire now p = some t' ∧ Stopped t now p s t' := by
  have hupd := update_eq hs (t.stopped now)
  have hinv₁ := h.update hupd fun s => ⟨rfl,rfl,rfl⟩
  set t₁ : Txn := { t with
    segs := Function.update t.segs p (some (t.stopped now s))
    segmentCount := t.segmentCount+1 } with ht₁
  have hinv₂ : Inv t₁ := hinv₁.congr (fun _ => rfl) rfl rfl (fun _ => rfl) rfl rfl
  have hs₁ : t₁.segs p = some (t.stopped now s) := Function.update_self ..
  have hother : ∀ q, q ≠ p → t₁.segs q = t.segs q := fun q hq => Function.update_of_ne hq ..
  have hpar : ∀ q, (t.stopped now s).parent = some q → ∃ x, t₁.segs q = some x := by
    intro q hq
    obtain ⟨x,hx,-⟩ := hinv₂.parent_live hs₁ hq
    exact ⟨x,hx⟩
  obtain ⟨t₂,hret,henq⟩ := retireCurrentSegment_spec hs₁ hpar
  have hsegs : (t₁.unstack (t.stopped now s).asyncContext p).segs = t₁.segs := segs_unstack ..
  have hkept : ∀ {q y}, t₁.segs q = some y → ∃ y', t₂.segs q = some y' ∧ y.Kept y' := by
    intro q y hy
    obtain ⟨y',hy',hsame⟩ := henq.some (hsegs.symm ▸ hy)
    exact ⟨y',hy',by rw [hsame]; rfl,by rw [hsame]⟩
  refine ⟨t₂,?_,⟨hkept hs₁,?_,?_,henq.inv (hinv₂.unstack hs₁),?_⟩⟩
  · simp only [endRetire,hupd,Option.bind_eq_bind,Option.bind_some]
    exact hret
  · intro q y hq hy
    exact hkept ((hother q hq).trans hy)
  · intro q hq
    have hqp : q ≠ p := by
      rintro rfl
      rw [hs] at hq
      cases hq
    exact henq.none (hsegs ▸ (hother q hqp).trans hq)
  · rw [henq.rest,unstack_rest]

lemma endSegment_stops (h : Inv t) (hs : t.segs p = some s) (now : ℕ) :
    ∃ t', Stopped t now p s t' ∧ t.endSegment now p = (match t'.segmentHeap with
      | none => some t'
      | some heap => (heap.insert (wrapped spanPriorityComparator) discardWrapper p t').map
          fun r => { r.2 with segmentHeap := some r.1 }) := by
  obtain ⟨t',hret,hstop⟩ := endRetire_stops h hs now
  exact ⟨t',hstop,by rw [endSegment_eq,hret,Option.bind_some]⟩

/-! ### The segment heap -/

/-- What the comparator of the segment heap compares. -/
def spanKeyAt (t : Txn) (p : SegPtr) : ℕ ×ₗ ℕ := spanKey ((t.segs p).getD .zero)

lemma wrapped_le {a b : SegPtr} :
    wrapped spanPriorityComparator t a b ≤ 0 ↔ t.spanKeyAt a ≤ t.spanKeyAt b :=
  spanPriorityComparator_le _ _

lemma spanKeyAt_eq (hs : t.segs p = some s) : t.spanKeyAt p = spanKey s := by
  simp [spanKeyAt,hs]

lemma spanKey_of_fixed {s s' : Segment} (h : s'.fixed = s.fixed) : spanKey s' = spanKey s :=
  Segment.eq_of_fixed spanKey (fun _ => rfl) h

lemma wrapped_of_fixed {a a' b b' : Segment} (ha : a'.fixed = a.fixed) (hb : b'.fixed = b.fixed) :
    spanPriorityComparator a' b' = spanPriorityComparator a b := by
  have hf : ∀ {s s' : Segment}, s'.fixed = s.fixed → s'.priority = s.priority ∧
      s'.startTime = s.startTime ∧ s'.stopTime = s.stopTime := fun h =>
    ⟨Segment.eq_of_fixed Segment.priority (fun _ => rfl) h,
      Segment.eq_of_fixed Segment.startTime (fun _ => rfl) h,
      Segment.eq_of_fixed Segment.stopTime (fun _ => rfl) h⟩
  obtain ⟨ha₁,ha₂,ha₃⟩ := hf ha
  obtain ⟨hb₁,hb₂,hb₃⟩ := hf hb
  exact spanPriorityComparator_congr a a' b b' ha₁ ha₂ ha₃ hb₁ hb₂ hb₃

/-- The heap stays valid when its segments keep what is compared. -/
theorem valid_of_fixed {heap : MinmaxHeap SegPtr} (hv : Valid (wrapped spanPriorityComparator t) heap)
    (hkept : ∀ x ∈ heap.stored, ∃ s s', t.segs x = some s ∧ t'.segs x = some s' ∧
      s'.fixed = s.fixed) : Valid (wrapped spanPriorityComparator t') heap := by
  apply hv.congr
  intro x hx y hy
  obtain ⟨s,s',hs,hs',hsf⟩ := hkept x hx
  obtain ⟨u,u',hu,hu',huf⟩ := hkept y hy
  simp only [wrapped,hs,hs',hu,hu',Option.getD_some]
  exact wrapped_of_fixed hsf huf

/-- What the heap has done with the segment it was given when it had to discard `x`. -/
structure Evicted (t : Txn) (p : SegPtr) (heap : MinmaxHeap SegPtr) (x : SegPtr)
    (heap' : MinmaxHeap SegPtr) (t' : Txn) : Prop where
  discarded : ∃ s q t₁, t.segs x = some s ∧ s.parent = some q ∧ Discarded t x q s t₁ ∧
    t' = { t₁ with segmentCount := t₁.segmentCount-1 }
  stored : x ::ₘ heap'.stored = p ::ₘ heap.stored
  least : ∀ y ∈ p ::ₘ heap.stored, t.spanKeyAt x ≤ t.spanKeyAt y

lemma discardWrapper_spec (h : Inv t) {q : SegPtr} (hs : t.segs p = some s)
    (hpar : s.parent = some q) : ∃ t₁, Discarded t p q s t₁ ∧
      discardWrapper p t = some { t₁ with segmentCount := t₁.segmentCount-1 } := by
  obtain ⟨t₁,hdis,hd⟩ := discard_spec h hs hpar
  exact ⟨t₁,hd,by simp [discardWrapper,hdis]⟩

/-- The heap takes the segment while there is room; after that some segment with the least key
is discarded. A segment without a parent cannot be discarded, so it must not be the least one. -/
theorem insert_spec {m : ℕ} (hm : 2 ≤ m) (h : Inv t) {heap : MinmaxHeap SegPtr}
    (hv : Valid (wrapped spanPriorityComparator t) heap) (hb : heap.bound = m)
    (hlive : ∀ x ∈ p ::ₘ heap.stored, ∃ s, t.segs x = some s) (hnd : (p ::ₘ heap.stored).Nodup)
    (htop : ∀ x s, t.segs x = some s → s.parent = none →
      ∀ y ∈ p ::ₘ heap.stored, y ≠ x → t.spanKeyAt y < t.spanKeyAt x) :
    ∃ heap' t', heap.insert (wrapped spanPriorityComparator) discardWrapper p t = some (heap',t') ∧
      Valid (wrapped spanPriorityComparator t') heap' ∧ heap'.bound = m ∧
      ((heap.used < m ∧ t' = t ∧ heap'.stored = p ::ₘ heap.stored) ∨
        heap.used = m ∧ ∃ x, Evicted t p heap x heap' t') := by
  have hc := wrapped_spanPriority_isComparator t
  have hle : heap.used ≤ m := hb ▸ (hv.bounded (by omega)).1
  by_cases hfree : heap.used < m
  · obtain ⟨heap',happ,hv',hb',hst⟩ := append_spec hc hv (fun _ => hb ▸ hfree) p
    refine ⟨heap',t,?_,hv',hb'.trans hb,.inl ⟨hfree,rfl,hst⟩⟩
    rw [insert_of_free _ _ p t (fun _ => hb ▸ hfree),happ]
    rfl
  have hfull : heap.used = heap.bound := by omega
  have hmin := hv.vals_one_le hc
  have hone : heap.vals 1 ∈ heap.stored := mem_stored.mpr ⟨1,le_rfl,by omega,rfl⟩
  -- a least segment that is not alone has a parent
  have hparent : ∀ x ∈ p ::ₘ heap.stored, (∃ y ∈ p ::ₘ heap.stored, y ≠ x ∧
      t.spanKeyAt x ≤ t.spanKeyAt y) → ∃ s q, t.segs x = some s ∧ s.parent = some q := by
    rintro x hx ⟨y,hy,hyx,hle⟩
    obtain ⟨s,hs⟩ := hlive x hx
    cases hpar : s.parent with
    | some q => exact ⟨s,q,hs,hpar⟩
    | none => exact absurd (htop x s hs hpar y hy hyx) (not_lt.mpr hle)
  have hpst : p ∉ heap.stored := (Multiset.nodup_cons.mp hnd).1
  by_cases hcmp : 0 < wrapped spanPriorityComparator t (heap.vals 1) p
  · -- the new segment is the least
    have hlow : t.spanKeyAt p ≤ t.spanKeyAt (heap.vals 1) :=
      wrapped_le.mp ((hc.pos_iff _ _).mp hcmp).le
    obtain ⟨s,q,hs,hpar⟩ := hparent p (Multiset.mem_cons_self ..)
      ⟨_,Multiset.mem_cons_of_mem hone,fun heq => hpst (heq ▸ hone),hlow⟩
    obtain ⟨t₁,hd,hwrap⟩ := discardWrapper_spec h hs hpar
    refine ⟨heap,_,?_,?_,hb,.inr ⟨by omega,p,⟨s,q,t₁,hs,hpar,hd,rfl⟩,rfl,?_⟩⟩
    · rw [insert_refuses (wrapped spanPriorityComparator) discardWrapper hv (hb ▸ hm) hfull p hcmp,
        hwrap]
      rfl
    · apply valid_of_fixed hv
      intro x hx
      obtain ⟨y,hy⟩ := hlive x (Multiset.mem_cons_of_mem hx)
      obtain ⟨y',hy',hfix,-⟩ := hd.kept x y (fun heq => hpst (heq ▸ hx)) hy
      exact ⟨y,y',hy,hy',hfix⟩
    · intro y hy
      rcases Multiset.mem_cons.mp hy with rfl | hy
      · exact le_rfl
      · exact hlow.trans (wrapped_le.mp (hmin y hy))
  · -- the least of the stored segments makes room
    have hge := not_lt.mp hcmp
    obtain ⟨heap₁,hv₁,hb₁,hst₁,hins⟩ := insert_evicts (wrapped spanPriorityComparator) discardWrapper
      hv (hb ▸ hm) hfull hc p hge
    have hx : heap.vals 1 ≠ p := fun heq => hpst (heq ▸ hone)
    obtain ⟨s,q,hs,hpar⟩ := hparent (heap.vals 1) (Multiset.mem_cons_of_mem hone)
      ⟨p,Multiset.mem_cons_self ..,hx.symm,wrapped_le.mp hge⟩
    obtain ⟨t₁,hd,hwrap⟩ := discardWrapper_spec h hs hpar
    have hnd₁ : (heap.vals 1 ::ₘ heap₁.stored).Nodup := hst₁ ▸ (Multiset.nodup_cons.mp hnd).2
    have hkept : ∀ y ∈ heap₁.stored, ∃ u u', t.segs y = some u ∧ t₁.segs y = some u' ∧
        u'.fixed = u.fixed := by
      intro y hy
      obtain ⟨u,hu⟩ := hlive y (Multiset.mem_cons_of_mem (hst₁ ▸ Multiset.mem_cons_of_mem hy))
      have hyx : y ≠ heap.vals 1 := fun heq => (Multiset.nodup_cons.mp hnd₁).1 (heq ▸ hy)
      obtain ⟨u',hu',hfix,-⟩ := hd.kept y u hyx hu
      exact ⟨u,u',hu,hu',hfix⟩
    have hu₁ : heap₁.used+1 = heap.used := by
      rw [← card_stored,← card_stored,← hst₁,Multiset.card_cons]
    have hv₁' : Valid (wrapped spanPriorityComparator { t₁ with segmentCount := t₁.segmentCount-1 })
        heap₁ := valid_of_fixed hv₁ hkept
    obtain ⟨heap',happ,hv',hb',hst'⟩ :=
      append_spec (wrapped_spanPriority_isComparator _) hv₁' (fun _ => by omega) p
    refine ⟨heap',_,?_,hv',hb'.trans (hb₁.trans hb),.inr ⟨by omega,heap.vals 1,
      ⟨s,q,t₁,hs,hpar,hd,rfl⟩,?_,?_⟩⟩
    · rw [hins,hwrap,Option.bind_some,happ]
      rfl
    · rw [hst',Multiset.cons_swap,hst₁]
    · intro y hy
      rcases Multiset.mem_cons.mp hy with rfl | hy
      · exact wrapped_le.mp hge
      · exact wrapped_le.mp (hmin y hy)

end Txn
end PhpAgent
