import PhpAgent.Segment.EndRuns
import PhpAgent.Segment.Finalise

/-! How many segments are sampled, and which: for each kind of output exactly the best ones up to
the limit, unless the limit is one of those the heap does not accept. -/
namespace PhpAgent
namespace Txn
open MinmaxHeap
variable {t : Txn} {r : SegPtr}

/-- The segments of the tree below `r`. -/
def treeSet (t : Txn) (r : SegPtr) : Set SegPtr := {q | t.InTree r q}

/-- Those of them a set selects. -/
def sampledSet (t : Txn) (r : SegPtr) (sample : Option (Finset SegPtr)) : Set SegPtr :=
  {q | t.InTree r q ∧ isSampled q sample = true}

/-- The sample has the size the limit allows, and nothing left out is better than anything in it. -/
structure SamplesBest (t : Txn) (r : SegPtr) (comparator : Segment → Segment → ℤ) (limit : ℕ)
    (sample : Option (Finset SegPtr)) : Prop where
  size : (t.sampledSet r sample).ncard = min (t.treeSet r).ncard limit
  best : ∀ p q, t.InTree r p → t.InTree r q → isSampled p sample = true →
    isSampled q sample = false → wrapped comparator t q p ≤ 0

/-- A limit that is exceeded is not 1, and a limit that is not exceeded is enough for the tree. -/
def LimitFits (t : Txn) (r : SegPtr) (limit : ℕ) : Prop :=
  (limit < t.segmentCount → limit ≠ 1) ∧ (t.segmentCount ≤ limit → (t.treeSet r).ncard ≤ limit)

section Kind
variable {comparator : Segment → Segment → ℤ} {ps : List SegPtr} {limit : ℕ}

lemma treeSet_ncard (hnd : ps.Nodup) (hmem : ∀ q, q ∈ ps ↔ t.InTree r q) :
    (t.treeSet r).ncard = ps.length := by
  have hset : t.treeSet r = (ps.toFinset : Set SegPtr) := by
    ext q
    simp [treeSet,hmem]
  rw [hset,Set.ncard_coe_finset,List.toFinset_card_of_nodup hnd]

/-- Without a set everything is sampled. -/
theorem samplesBest_none :
    SamplesBest t r comparator limit none ↔ (t.treeSet r).ncard ≤ limit := by
  have hall : t.sampledSet r none = t.treeSet r := by
    ext q
    simp [sampledSet,treeSet,isSampled]
  constructor
  · intro h
    have := h.size
    rw [hall] at this
    omega
  · intro h
    refine ⟨by rw [hall]; omega,?_⟩
    intro p q _ _ _ hq
    cases hq

/-- An empty sample of a tree is too small. -/
theorem not_samplesBest_empty (hnd : ps.Nodup) (hmem : ∀ q, q ∈ ps ↔ t.InTree r q)
    (hlimit : 0 < limit) : ¬ SamplesBest t r comparator limit (some ∅) := by
  intro h
  have hsize := h.size
  have hempty : t.sampledSet r (some ∅) = ∅ := by
    ext q
    simp [sampledSet,isSampled]
  have hroot : r ∈ ps := (hmem r).mpr .refl
  have hpos : 0 < ps.length := List.length_pos_of_mem hroot
  rw [hempty,Set.ncard_empty,treeSet_ncard hnd hmem] at hsize
  omega

/-- A heap that accepts its bound samples the best. -/
theorem samplesBest_heap (hnd : ps.Nodup) (hmem : ∀ q, q ∈ ps ↔ t.InTree r q) {heap : MinmaxHeap SegPtr} {left : List SegPtr}
    (hlimit : 2 ≤ limit) (k : KeepsBest (wrapped comparator t) limit ps heap left) :
    ∃ sample, heapToSet (some heap) = some sample ∧
      SamplesBest t r comparator limit (some sample) := by
  obtain ⟨l,hiter,hl⟩ := k.valid.iterate_spec
  refine ⟨l.toFinset,by rw [heapToSet,hiter]; rfl,?_⟩
  have hpart : (l : Multiset SegPtr) + left = ps := hl.symm ▸ k.partition
  have hperm : (l ++ left).Perm ps := Multiset.coe_eq_coe.mp hpart
  have hlnd : l.Nodup := (List.nodup_append.mp (hperm.nodup_iff.mpr hnd)).1
  have hsub : ∀ q ∈ l, t.InTree r q := fun q hq =>
    (hmem q).mp (hperm.subset (List.mem_append_left _ hq))
  have hlen : l.length+left.length = ps.length := by
    rw [← List.length_append,hperm.length_eq]
  have hused : l.length = heap.used := by
    rw [← card_stored,← hl,Multiset.coe_card]
  have hfilled := k.used_eq hlimit
  rw [Multiset.coe_card] at hfilled
  have hset : t.sampledSet r (some l.toFinset) = (l.toFinset : Set SegPtr) := by
    ext q
    simp only [sampledSet,isSampled,Set.mem_ofPred_eq,decide_eq_true_eq,List.mem_toFinset,
      List.coe_toFinset]
    exact ⟨fun h => h.2,fun h => ⟨hsub q h,h⟩⟩
  constructor
  · rw [hset,Set.ncard_coe_finset,List.toFinset_card_of_nodup hlnd,treeSet_ncard hnd hmem]
    omega
  · intro p q hp hq hsp hsq
    simp only [isSampled,decide_eq_true_eq,decide_eq_false_iff_not,List.mem_toFinset] at hsp hsq
    apply k.best
    · rw [← hl]
      exact hsp
    · have hqps : q ∈ l ++ left := hperm.mem_iff.mpr ((hmem q).mpr hq)
      exact (List.mem_append.mp hqps).resolve_left hsq

/-- One kind of output: the heap that was filled, the set made of it, and the condition. -/
theorem samplesBest_iff (hc : IsComparator (wrapped comparator t)) (hnd : ps.Nodup)
    (hmem : ∀ q, q ∈ ps ↔ t.InTree r q) (hlimit : 0 < limit) (save : Bool) :
    ∃ heap sample, ps.foldlM (heapInsert comparator t)
        (if save && decide (limit < t.segmentCount) then segmentHeapCreate limit else none) = some heap ∧
      samplingSet (decide (limit < t.segmentCount)) heap = some sample ∧
      (save = true → (SamplesBest t r comparator limit sample ↔ t.LimitFits r limit)) := by
  by_cases hcount : limit < t.segmentCount
  · have hdec : decide (limit < t.segmentCount) = true := by simpa using hcount
    have hfits : t.LimitFits r limit ↔ limit ≠ 1 := by
      unfold LimitFits
      constructor
      · exact fun h => h.1 hcount
      · exact fun h => ⟨fun _ => h,fun hle => absurd hle (by omega)⟩
    rw [hdec,hfits]
    cases save with
    | false => exact ⟨none,some ∅,heapInsert_none ps,rfl,fun h => by cases h⟩
    | true =>
      by_cases hone : limit = 1
      · subst hone
        refine ⟨none,some ∅,heapInsert_none ps,rfl,fun _ => ?_⟩
        exact iff_of_false (not_samplesBest_empty hnd hmem Nat.one_pos) (by simp)
      · obtain ⟨heap,left,hfill,k⟩ := segmentHeapCreate_keepsBest hc (by omega : 2 ≤ limit) ps
        obtain ⟨sample,hset,hbest⟩ := samplesBest_heap hnd hmem (by omega) k
        refine ⟨some heap,some sample,hfill,?_,fun _ => iff_of_true hbest hone⟩
        rw [samplingSet,if_pos rfl,hset]
        rfl
  · have hdec : decide (limit < t.segmentCount) = false := by simpa using hcount
    have hfits : t.LimitFits r limit ↔ (t.treeSet r).ncard ≤ limit := by
      unfold LimitFits
      constructor
      · exact fun h => h.2 (by omega)
      · exact fun h => ⟨fun hlt => absurd hlt hcount,fun _ => h⟩
    rw [hdec,hfits]
    refine ⟨none,none,?_,rfl,fun _ => samplesBest_none⟩
    rw [Bool.and_false]
    exact heapInsert_none ps

end Kind

/-- For each kind of output that is saved, `nr_segment_tree_finalise` samples the best segments up
to the limit exactly when the limit fits; these are the sets it hands to the second pass. -/
theorem finalise_samples_iff (h : Inv t) (hroot : t.segmentRoot = some r) {x : Segment}
    (hr : t.segs r = some x) (hpar : x.parent = none)
    (hcol : ∀ q, t.InTree r q → t.color q = some x.color) {traceLimit spanLimit : ℕ}
    (htrace : 0 < traceLimit) (hspan : 0 < spanLimit) :
    ∃ d t' metadata sets, t.duration? = some d ∧
      t.firstPass (t.samplingPlan traceLimit spanLimit d) traceLimit spanLimit d =
        some (t',metadata) ∧
      samplingSets (t.samplingPlan traceLimit spanLimit d) metadata = some sets ∧
      (∀ cb, t.finalise traceLimit spanLimit cb =
        (match cb with
          | none => some t'
          | some cb => cb t' (discountMainContext metadata.mainContext metadata.totalTime d)).bind
        fun t₁ => t₁.secondPass (t.samplingPlan traceLimit spanLimit d) metadata d
          ⟨none,none,discountMainContext metadata.mainContext metadata.totalTime d⟩) ∧
      ((t.samplingPlan traceLimit spanLimit d).saveTrace = true →
        (SamplesBest t r durationComparator traceLimit sets.traceSet ↔ t.LimitFits r traceLimit)) ∧
      ((t.samplingPlan traceLimit spanLimit d).saveSpans = true →
        (SamplesBest t r spanPriorityComparator spanLimit sets.spanSet ↔
          t.LimitFits r spanLimit)) := by
  have hd : t.duration? = some (timeDuration x.startTime x.stopTime) := by
    simp [duration?,hroot,hr]
  generalize timeDuration x.startTime x.stopTime = d at hd
  obtain ⟨f,-,hnd,hmem,hpass⟩ := treeToHeap_spec h hr hpar hcol
  obtain ⟨traceHeap,traceSet,hfillt,hsett,hifft⟩ := samplesBest_iff
    (wrapped_duration_isComparator t) hnd hmem htrace (t.samplingPlan traceLimit spanLimit d).saveTrace
  obtain ⟨spanHeap,spanSet,hfills,hsets,hiffs⟩ := samplesBest_iff
    (wrapped_spanPriority_isComparator t) hnd hmem hspan (t.samplingPlan traceLimit spanLimit d).saveSpans
  let m := t.firstPassMetadata (t.samplingPlan traceLimit spanLimit d) traceLimit spanLimit d
  obtain ⟨t',hrun,-⟩ := hpass (m := m) (by norm_num [m,firstPassMetadata]) hfillt hfills
  have hfirst : t.firstPass (t.samplingPlan traceLimit spanLimit d) traceLimit spanLimit d =
      some (t',t.passedMetadata m f.toList traceHeap spanHeap) := by
    rw [firstPass,hroot]
    exact hrun
  refine ⟨d,t',_,⟨traceSet,spanSet⟩,hd,hfirst,?_,?_,hifft,hiffs⟩
  · have ht : samplingSet (t.samplingPlan traceLimit spanLimit d).sampleTrace traceHeap =
        some traceSet := hsett
    have hs : samplingSet (t.samplingPlan traceLimit spanLimit d).sampleSpans spanHeap =
        some spanSet := hsets
    simp only [samplingSets,passedMetadata,ht,hs,Option.bind_eq_bind,Option.bind_some]
    rfl
  · intro cb
    have hne : t.segmentRoot ≠ none := by rw [hroot]; simp
    simp only [finalise,if_neg hne,hd,hfirst,Option.bind_eq_bind,Option.bind_some]
    cases cb <;> rfl

/-- A root with two children, all of them ended. -/
theorem endedTriple : ∃ t x, Inv t ∧ t.segmentRoot = some 1 ∧ t.segs 1 = some x ∧ x.parent = none ∧
    (∀ q, t.InTree 1 q → t.color q = some x.color) ∧ t.segmentCount = 3 ∧
    t.duration? = some 10 ∧ (∀ traceLimit d, (t.samplingPlan (traceLimit+1) 1 d).saveTrace = true) ∧
    ∃ w, (t.firstPass (t.samplingPlan 1 1 10) 1 1 10).bind
        (fun r => samplingSets (t.samplingPlan 1 1 10) r.2) = some w ∧ w.traceSet = some ∅ := by
  have hrun : ∃ t₀ t js x, begin 1 0 0 ⟨10,false,0,false,false⟩ none false (fun _ => []) = some t₀ ∧
      EndOp.Run (fun t op => op.Parented t) t₀ [] [.start 1 (some 1) none,.start 2 (some 1) none,
        .finish 6 2,.finish 8 3,.finish 10 1] t js ∧ t.segs 1 = some x ∧ x.parent = none ∧
      x.color = .white ∧ t.slab.next = 4 ∧ t.segs 0 = none ∧ t.color 2 = some .white ∧
      t.color 3 = some .white ∧ t.segmentCount = 3 ∧ t.duration? = some 10 ∧ t.isSynthetics = false ∧
      t.options.ttThreshold = 0 ∧ ∃ w, (t.firstPass (t.samplingPlan 1 1 10) 1 1 10).bind
        (fun r => samplingSets (t.samplingPlan 1 1 10) r.2) = some w ∧ w.traceSet = some ∅ := by
    refine ⟨_,_,_,_,rfl,.cons ?_ ?_ rfl (.cons ?_ ?_ rfl (.cons ⟨⟨_,rfl⟩,?_⟩ trivial rfl
      (.cons ⟨⟨_,rfl⟩,?_⟩ trivial rfl (.cons ⟨⟨_,rfl⟩,?_⟩ trivial rfl (.nil _ _))))),
      rfl,rfl,rfl,rfl,rfl,rfl,rfl,rfl,rfl,rfl,rfl,_,rfl,rfl⟩
    · intro q hq
      cases hq
      exact ⟨_,rfl⟩
    · exact Option.some_ne_none 1
    · intro q hq
      cases hq
      exact ⟨_,rfl⟩
    · exact Option.some_ne_none 1
    · decide
    · decide
    · decide
  obtain ⟨t₀,t,js,x,hbegin,hrun,hx,hxp,hxc,hnext,h0,h2,h3,hcount,hd,hsyn,htt,hw⟩ := hrun
  have hend := hrun.ending (by decide) (begin_ending (by decide) hbegin)
  refine ⟨t,x,hend.toInv,hend.isRoot,hx,hxp,?_,hcount,hd,?_,hw⟩
  · intro q hq
    obtain ⟨y,hy⟩ := hq.live hx
    have hlt := hend.live_lt hy
    rw [hnext] at hlt
    rw [hxc]
    interval_cases q
    · rw [h0] at hy
      cases hy
    · rw [color,hx,Option.map_some,hxc]
    · exact h2
    · exact h3
  · intro traceLimit d
    simp [samplingPlan,shouldSaveTrace,hcount,hsyn,htt]

/-- With a limit of 2 the two longest of the three segments are sampled. -/
theorem finalise_samples_iff_triple : ∃ t d sets, t.segmentCount = 3 ∧ t.segmentRoot = some 1 ∧
    t.duration? = some d ∧ (t.samplingPlan 2 1 d).saveTrace = true ∧
    (∃ t' metadata, t.firstPass (t.samplingPlan 2 1 d) 2 1 d = some (t',metadata) ∧
      samplingSets (t.samplingPlan 2 1 d) metadata = some sets) ∧
    SamplesBest t 1 durationComparator 2 sets.traceSet := by
  obtain ⟨t,x,hinv,hroot,hx,hxp,hcol,hcount,-,hsave,-⟩ := endedTriple
  obtain ⟨d,t',metadata,sets,hd,hfirst,hsets,-,htrace,-⟩ :=
    finalise_samples_iff hinv hroot hx hxp hcol (by decide : 0 < 2) (by decide : 0 < 1)
  refine ⟨t,d,sets,hcount,hroot,hd,hsave 1 d,⟨t',metadata,hfirst,hsets⟩,?_⟩
  exact (htrace (hsave 1 d)).mpr ⟨fun _ => by decide,fun hle => absurd hle (by omega)⟩

/-- With a limit of 1 nothing is sampled: a heap of bound 1 cannot be created. -/
theorem finalise_samples_none : ∃ t sets, t.segmentCount = 3 ∧ t.segmentRoot = some 1 ∧ Inv t ∧
    t.duration? = some 10 ∧ (t.samplingPlan 1 1 10).saveTrace = true ∧
    (t.firstPass (t.samplingPlan 1 1 10) 1 1 10).bind
      (fun r => samplingSets (t.samplingPlan 1 1 10) r.2) = some sets ∧
    sets.traceSet = some ∅ ∧ ¬ SamplesBest t 1 durationComparator 1 sets.traceSet := by
  obtain ⟨t,x,hinv,hroot,hx,hxp,hcol,hcount,hd,hsave,sets,hsets,hempty⟩ := endedTriple
  obtain ⟨f,-,hnd,hmem,-⟩ := treeToHeap_spec hinv hx hxp hcol
  refine ⟨t,sets,hcount,hroot,hinv,hd,hsave 0 10,hsets,hempty,?_⟩
  rw [hempty]
  exact not_samplesBest_empty hnd hmem Nat.one_pos

end Txn
end PhpAgent
