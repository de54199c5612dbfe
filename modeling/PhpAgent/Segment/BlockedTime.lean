import PhpAgent.Segment.Finalise
import PhpAgent.Segment.TotalTime

/-! The time the main context was blocked, which `nr_segment_tree_finalise` takes off the total time.
A tick that asynchronous segments cover is blocked; some segment has it to itself, unless a discarded
child has been recorded for it. -/
namespace PhpAgent

/-- The interval an asynchronous segment leaves in the exclusive time of the main context. -/
def Segment.asyncInterval (s : Segment) : List (ℕ × ℕ) :=
  if s.asyncContext ≠ 0 ∧ s.startTime ≤ s.stopTime then [(s.startTime,s.stopTime)] else []

namespace Txn
open PointerTree Forest Intervals
variable {t : Txn} {p r : SegPtr} {rec : SegPtr → List (ℕ × ℕ)} {et : ExclusiveTime} {ivs : List (ℕ × ℕ)}
  {f : Forest SegPtr} {ps : List SegPtr} {x : Segment}

/-- The time the main context was blocked, an unsigned 64-bit number. -/
def mainBlocked (mainContext : ExclusiveTime) (duration : ℕ) : ℕ :=
  (duration+2^64-mainContext.calculate.1%2^64)%2^64

/-- What is taken off is no more than the total time of the first pass. -/
def NoUnderflow (t : Txn) (traceLimit spanLimit : ℕ) : Prop :=
  ∃ duration w mainContext, t.duration? = some duration ∧
    t.firstPass (t.samplingPlan traceLimit spanLimit duration) traceLimit spanLimit duration = some w ∧
    w.2.mainContext = some mainContext ∧ mainBlocked mainContext duration ≤ w.2.totalTime

def asyncIntervals (t : Txn) (ps : List SegPtr) : List (ℕ × ℕ) :=
  ps.flatMap fun p => ((t.segs p).map Segment.asyncInterval).getD []

/-- The ticks of the transaction that asynchronous segments cover. There is room for as many of them as
segments have been ended. -/
def blockedTicks (t : Txn) (ps : List SegPtr) (duration : ℕ) : Finset ℕ :=
  Finset.Ico 0 duration ∩ ticks ((t.asyncIntervals ps).take t.segmentCount)

/-- The ticks a segment has to itself: neither its children nor its record cover them. -/
def ownTicks (t : Txn) (rec : SegPtr → List (ℕ × ℕ)) (p : SegPtr) : Finset ℕ :=
  ((t.segs p).map fun s => s.span \ (ticks (rec p) ∪ t.childTicks s)).getD ∅

lemma ownTicks_eq {s : Segment} (hs : t.segs p = some s) :
    t.ownTicks rec p = s.span \ (ticks (rec p) ∪ t.childTicks s) := by
  rw [ownTicks,hs,Option.map_some,Option.getD_some]

/-! ### The exclusive time of the main context -/

lemma length_transitions (h : et.Recorded ivs) : et.transitions.length = 2*ivs.length := by
  rw [h.perm.length_eq]
  simp [ExclusiveTime.transitionsOf,Nat.mul_comm]

lemma asyncIntervals_cons {s : Segment} (hs : t.segs p = some s) (ps : List SegPtr) :
    t.asyncIntervals (p :: ps) = s.asyncInterval ++ t.asyncIntervals ps := by
  rw [asyncIntervals,List.flatMap_cons,hs,Option.map_some,Option.getD_some]
  rfl

/-- The main context records asynchronous segments as long as there is room. -/
theorem mainContext_fold (ps : List SegPtr) {n : ℕ}
    (hrec : et.Recorded ivs) (hcap : et.capacity = n*2) (hlen : ivs.length ≤ n) :
    ∃ et', ps.foldl (fun mc p => ((t.segs p).map (stohMainContext · mc)).getD mc) (some et) = some et' ∧
      et'.startTime = et.startTime ∧ et'.stopTime = et.stopTime ∧
      et'.Recorded (ivs ++ (t.asyncIntervals ps).take (n-ivs.length)) := by
  induction ps generalizing et ivs with
  | nil => exact ⟨et,rfl,rfl,rfl,by simpa [asyncIntervals] using hrec⟩
  | cons p ps ih =>
    rw [List.foldl_cons]
    cases hs : t.segs p with
    | none =>
      have hskip : t.asyncIntervals (p :: ps) = t.asyncIntervals ps := by
        rw [asyncIntervals,List.flatMap_cons,hs,Option.map_none,Option.getD_none,List.nil_append]
        rfl
      rw [hskip]
      exact ih hrec hcap hlen
    | some s =>
      rw [Option.map_some,Option.getD_some,asyncIntervals_cons hs,Segment.asyncInterval,
        stohMainContext]
      by_cases hasync : s.asyncContext ≠ 0
      · rw [if_pos hasync,Option.map_some]
        have hcount := length_transitions hrec
        by_cases hroom : ivs.length < n
        · have hfree : et.Room 1 := by
            intro _
            omega
          rw [ExclusiveTime.addChild_eq hfree]
          by_cases hvalid : s.startTime ≤ s.stopTime
          · rw [if_pos hvalid,if_pos ⟨hasync,hvalid⟩]
            have hnew : ∀ iv ∈ [(s.startTime,s.stopTime)], iv.1 ≤ iv.2 := by simpa using hvalid
            obtain ⟨et',hfold,hstart,hstop,hrec'⟩ := ih (ExclusiveTime.recorded_feed hrec hnew) hcap
              (by simpa using hroom)
            refine ⟨et',hfold,hstart,hstop,?_⟩
            have hleft : n-ivs.length = n-(ivs ++ [(s.startTime,s.stopTime)]).length+1 := by
              rw [List.length_append,List.length_singleton]
              omega
            rw [hleft,List.singleton_append,List.take_succ_cons,List.append_cons]
            exact hrec'
          · rw [if_neg hvalid,if_neg fun h => hvalid h.2,ExclusiveTime.feed_nil,List.nil_append]
            exact ih hrec hcap hlen
        · -- there is no room any more
          have hfull : (et.addChild s.startTime s.stopTime).2 = et := by
            rw [ExclusiveTime.addChild,if_pos (by omega)]
          have hdone : n-ivs.length = 0 := by omega
          have hrest := ih hrec hcap hlen
          rw [hdone,List.take_zero] at hrest ⊢
          rw [hfull]
          exact hrest
      · rw [if_neg hasync,if_neg fun h => hasync h.1,List.nil_append]
        exact ih hrec hcap hlen

lemma mainBlocked_eq {duration : ℕ} (hrec : et.Recorded ivs)
    (hstart : et.startTime = 0) (hstop : et.stopTime = duration) (h64 : duration < 2^64) :
    mainBlocked et duration = (Finset.Ico 0 duration ∩ ticks ivs).card := by
  have hsplit := Finset.card_sdiff_add_card_inter (Finset.Ico 0 duration) (ticks ivs)
  rw [Nat.card_Ico,Nat.sub_zero] at hsplit
  rw [mainBlocked,ExclusiveTime.calculate_eq hrec,hstart,hstop]
  generalize (Finset.Ico 0 duration \ ticks ivs).card = kept at hsplit ⊢
  have hkept : kept%2^64 = kept := Nat.mod_eq_of_lt (by omega)
  rw [hkept]
  omega

/-! ### Ticks that a segment has to itself -/

/-- In contexts without records each tick of a segment belongs to some segment of its context: to the
segment itself, or to one below it. -/
theorem exists_ownTicks (contexts : Set ℕ) (hspan : Spans t.kids ps f)
    (hfree : ∀ q ∈ f.toList, ∀ y, t.segs q = some y → y.asyncContext ∈ contexts → rec q = [])
    {a : ℕ} (hp : p ∈ f.toList) (hx : t.segs p = some x) (hctx : x.asyncContext ∈ contexts)
    (ha : a ∈ x.span) : ∃ q ∈ f.toList, a ∈ t.ownTicks rec q := by
  induction hspan generalizing p x with
  | nil => cases hp
  | @node p' ks ps f g hks hkids hrest ihk ihr =>
    have hfreeK : ∀ q ∈ f.toList, ∀ y, t.segs q = some y → y.asyncContext ∈ contexts → rec q = [] :=
      fun q hq => hfree q (mem_kids hq)
    have hfreeR : ∀ q ∈ g.toList, ∀ y, t.segs q = some y → y.asyncContext ∈ contexts → rec q = [] :=
      fun q hq => hfree q (mem_rest hq)
    obtain rfl | hp := List.mem_cons.mp hp
    · by_cases hchild : a ∈ t.childTicks x
      · -- a child of the same context covers the tick
        obtain ⟨c,hc,y,hy,hyctx,hay⟩ := mem_ticks_childIntervals.mp hchild
        have hcks : c ∈ ks := by
          rw [kids,hx,Option.map_some,Option.some_inj] at hks
          rw [← hks]
          exact hc
        have hroot : c ∈ f.toList := by
          apply mem_toList_of_mem_roots
          rw [hkids.roots_eq]
          exact hcks
        rw [← hyctx] at hctx
        obtain ⟨q,hq,haq⟩ := ihk hfreeK hroot hy hctx hay
        exact ⟨q,mem_kids hq,haq⟩
      · refine ⟨p,List.mem_cons_self,?_⟩
        rw [ownTicks_eq hx,hfree p List.mem_cons_self x hx hctx,ticks_nil,Finset.empty_union]
        exact Finset.mem_sdiff.mpr ⟨ha,hchild⟩
    · obtain hp | hp := List.mem_append.mp hp
      · obtain ⟨q,hq,haq⟩ := ihk hfreeK hp hx hctx ha
        exact ⟨q,mem_kids hq,haq⟩
      · obtain ⟨q,hq,haq⟩ := ihr hfreeR hp hx hctx ha
        exact ⟨q,mem_rest hq,haq⟩

/-- Ticks that segments have to themselves are at most as many as all such ticks, counted for each
segment. -/
theorem card_le_sum_ownTicks {A : Finset ℕ} (h : ∀ a ∈ A, ∃ q ∈ ps, a ∈ t.ownTicks rec q) :
    A.card ≤ (ps.map fun q => (t.ownTicks rec q).card).sum := by
  have hsub : A ⊆ ps.foldr (fun q s => t.ownTicks rec q ∪ s) ∅ := by
    intro a ha
    obtain ⟨q,hq,haq⟩ := h a ha
    clear h ha
    induction ps with
    | nil => cases hq
    | cons p ps ih =>
      rw [List.foldr_cons,Finset.mem_union]
      obtain rfl | hq := List.mem_cons.mp hq
      · exact .inl haq
      · exact .inr (ih hq)
  refine (Finset.card_le_card hsub).trans ?_
  clear h hsub
  induction ps with
  | nil => exact le_rfl
  | cons p ps ih =>
    rw [List.foldr_cons,List.map_cons,List.sum_cons]
    exact (Finset.card_union_le _ _).trans (Nat.add_le_add_left ih _)

/-! ### The first pass -/

lemma heapInsert_foldlM (b : Bool) (bound : ℕ) {comparator : Segment → Segment → ℤ}
    (hc : IsComparator (wrapped comparator t)) (l : List SegPtr) :
    ∃ heap, l.foldlM (heapInsert comparator t) (if b then segmentHeapCreate bound else none) =
      some heap := by
  cases b with
  | true => exact segmentHeapCreate_returns hc bound l
  | false => exact ⟨none,heapInsert_none l⟩

/-- The total time and the blocked time of the first pass. -/
theorem firstPass_times (h : Inv t) (hroot : t.segmentRoot = some r)
    (hr : t.segs r = some x) (hpar : x.parent = none)
    (hcol : ∀ q, t.InTree r q → t.color q = some x.color) (hrec : t.Recording r rec)
    (h64 : x.stopTime < 2^64) (hopt : t.options.discountMainContextBlocking = true)
    (hspan : Spans t.kids [r] f) (traceLimit spanLimit : ℕ) :
    ∃ w et, t.duration? = some (timeDuration x.startTime x.stopTime) ∧
      t.firstPass (t.samplingPlan traceLimit spanLimit (timeDuration x.startTime x.stopTime)) traceLimit
        spanLimit (timeDuration x.startTime x.stopTime) = some w ∧
      w.2.mainContext = some et ∧
      mainBlocked et (timeDuration x.startTime x.stopTime) =
        (t.blockedTicks f.toList (timeDuration x.startTime x.stopTime)).card ∧
      w.2.totalTime = (f.toList.map fun q => (t.ownTicks rec q).card).sum%2^64 := by
  have hdur64 : timeDuration x.startTime x.stopTime < 2^64 := by
    rw [timeDuration_eq]
    omega
  have hdur : t.duration? = some (timeDuration x.startTime x.stopTime) := by
    simp only [duration?,hroot,hr,Option.bind_eq_bind,Option.bind_some,Option.pure_def]
  generalize timeDuration x.startTime x.stopTime = duration at hdur64 hdur ⊢
  obtain ⟨f',hspan',-,hmem,hpass⟩ := treeToHeap_spec h hr hpar hcol
  obtain rfl := hspan.unique hspan'
  generalize t.samplingPlan traceLimit spanLimit duration = plan
  obtain ⟨traceHeap,htrace⟩ := heapInsert_foldlM (plan.saveTrace && plan.sampleTrace) traceLimit
    (wrapped_duration_isComparator t) f.toList
  obtain ⟨spanHeap,hspans⟩ := heapInsert_foldlM (plan.saveSpans && plan.sampleSpans) spanLimit
    (wrapped_spanPriority_isComparator t) f.toList
  have hzero : (t.firstPassMetadata plan traceLimit spanLimit duration).totalTime < 2^64 :=
    Nat.two_pow_pos 64
  obtain ⟨t',hrun,-⟩ := hpass hzero htrace hspans
  have hempty : (ExclusiveTime.create t.segmentCount 0 duration).Recorded [] :=
    ⟨.refl _,fun iv hiv => absurd hiv List.not_mem_nil⟩
  obtain ⟨et,hfold,hstart,hstop,hrecorded⟩ := mainContext_fold (t := t) f.toList hempty rfl
    (Nat.zero_le _)
  rw [List.nil_append] at hrecorded
  have hmain : (t.firstPassMetadata plan traceLimit spanLimit duration).mainContext =
      some (.create t.segmentCount 0 duration) := if_pos hopt
  refine ⟨(t',t.passedMetadata (t.firstPassMetadata plan traceLimit spanLimit duration) f.toList traceHeap
    spanHeap),et,hdur,?_,?_,mainBlocked_eq hrecorded hstart hstop hdur64,?_⟩
  · rw [firstPass,hroot]
    exact hrun
  · rw [passedMetadata,hmain]
    exact hfold
  · have hown : ∀ q ∈ f.toList, t.exclusive q = (t.ownTicks rec q).card := by
      intro q hq
      obtain ⟨y,hy⟩ := ((hmem q).mp hq).live hr
      rw [exclusive_eq_card hy (hrec q y ((hmem q).mp hq) hy),ownTicks_eq hy]
    have hsum : (t.passedMetadata (t.firstPassMetadata plan traceLimit spanLimit duration) f.toList
        traceHeap spanHeap).totalTime = (0+(f.toList.map t.exclusive).sum)%2^64 := rfl
    rw [hsum,Nat.zero_add,List.map_congr_left hown]

/-- The blocked time does not exceed the total time exactly when the ticks that asynchronous segments
cover are no more than the ticks that segments have to themselves. -/
theorem noUnderflow_iff (h : Inv t) (hroot : t.segmentRoot = some r)
    (hr : t.segs r = some x) (hpar : x.parent = none)
    (hcol : ∀ q, t.InTree r q → t.color q = some x.color) (hrec : t.Recording r rec)
    (h64 : x.stopTime < 2^64) (hopt : t.options.discountMainContextBlocking = true)
    (hspan : Spans t.kids [r] f) (traceLimit spanLimit : ℕ) :
    t.NoUnderflow traceLimit spanLimit ↔
      (t.blockedTicks f.toList (timeDuration x.startTime x.stopTime)).card ≤
        (f.toList.map fun q => (t.ownTicks rec q).card).sum%2^64 := by
  obtain ⟨w,et,hdur,hrun,hmain,hblocked,htotal⟩ := firstPass_times h hroot hr hpar hcol hrec h64 hopt
    hspan traceLimit spanLimit
  rw [← hblocked,← htotal]
  constructor
  · rintro ⟨duration,w',et',hdur',hrun',hmain',hle⟩
    rw [hdur] at hdur'
    cases hdur'
    rw [hrun] at hrun'
    cases hrun'
    rw [hmain] at hmain'
    cases hmain'
    exact hle
  · intro hle
    exact ⟨_,w,et,hdur,hrun,hmain,hle⟩

lemma mem_blockedTicks {duration a : ℕ} (ha : a ∈ t.blockedTicks ps duration) :
    ∃ q ∈ ps, ∃ y, t.segs q = some y ∧ y.asyncContext ≠ 0 ∧ a ∈ y.span := by
  obtain ⟨iv,hiv,haiv⟩ := mem_ticks.mp (Finset.mem_inter.mp ha).2
  obtain ⟨q,hq,hmem⟩ := List.mem_flatMap.mp (List.mem_of_mem_take hiv)
  refine ⟨q,hq,?_⟩
  cases hy : t.segs q with
  | none =>
    rw [hy] at hmem
    cases hmem
  | some y =>
    rw [hy,Option.map_some,Option.getD_some,Segment.asyncInterval] at hmem
    split_ifs at hmem with hasync
    · obtain rfl := List.mem_singleton.mp hmem
      exact ⟨y,rfl,hasync.1,Finset.mem_Ico.mpr haiv⟩
    · cases hmem

/-- Without records of asynchronous segments each blocked tick belongs to one of them; without records
of the main context, and with a root that starts with the transaction, to a segment of that. -/
theorem noUnderflow_of_free (h : Inv t) (hroot : t.segmentRoot = some r)
    (hr : t.segs r = some x) (hpar : x.parent = none)
    (hcol : ∀ q, t.InTree r q → t.color q = some x.color) (hrec : t.Recording r rec)
    (h64 : x.stopTime < 2^64) (hopt : t.options.discountMainContextBlocking = true)
    (hspan : Spans t.kids [r] f)
    (hsum : (f.toList.map fun q => (t.ownTicks rec q).card).sum < 2^64)
    (hfree : (∀ q ∈ f.toList, ∀ y, t.segs q = some y → y.asyncContext ≠ 0 → rec q = []) ∨
      ((∀ q ∈ f.toList, ∀ y, t.segs q = some y → y.asyncContext = 0 → rec q = []) ∧
        x.asyncContext = 0 ∧ x.startTime = 0)) (traceLimit spanLimit : ℕ) :
    t.NoUnderflow traceLimit spanLimit := by
  rw [noUnderflow_iff h hroot hr hpar hcol hrec h64 hopt hspan,Nat.mod_eq_of_lt hsum]
  apply card_le_sum_ownTicks
  intro a ha
  obtain hasync | ⟨hmain,hctx,hstart⟩ := hfree
  · obtain ⟨q,hq,y,hy,hyctx,hay⟩ := mem_blockedTicks ha
    exact exists_ownTicks {0}ᶜ hspan hasync hq hy hyctx hay
  · have hmem : r ∈ f.toList := by
      apply mem_toList_of_mem_roots
      rw [hspan.roots_eq]
      exact List.mem_singleton_self r
    have hay : a ∈ x.span := by
      have hdur := (Finset.mem_inter.mp ha).1
      rw [timeDuration_eq,hstart] at hdur
      rw [Segment.span,hstart]
      exact hdur
    exact exists_ownTicks {0} hspan hmain hmem hr hctx hay

end Txn
end PhpAgent
