import PhpAgent.Segment.TotalTime

/-! What discarding a segment does to the total time of the tree. -/
namespace PhpAgent
namespace Txn
open PointerTree Forest Intervals
variable {t t' : Txn} {p r c : SegPtr} {rec : SegPtr → List (ℕ × ℕ)} {s : Segment}

/-- The tree after a discard is the tree before it without the discarded segment. -/
theorem Discarded.inTree_iff (h : Inv t) (hs : t.segs c = some s) (hpar : s.parent = some p)
    (hd : Discarded t c p s t') (hrc : r ≠ c) (q : SegPtr) :
    t'.InTree r q ↔ t.InTree r q ∧ q ≠ c := by
  have hpc : p ≠ c := fun heq => h.parent_ne hs (heq ▸ hpar)
  constructor
  · intro hq
    induction hq with
    | refl => exact ⟨.refl,hrc⟩
    | @tail a b _ hab ih =>
      obtain ⟨y',hy',hya⟩ := hab
      obtain ⟨hbc,y,hy,-⟩ := hd.back hy'
      obtain ⟨y'',hy'',-,hypar,-⟩ := hd.kept b y hbc hy
      rw [hy',Option.some_inj] at hy''
      subst hy''
      rw [hypar] at hya
      refine ⟨?_,hbc⟩
      split_ifs at hya with hyc
      · -- a child of the discarded segment was one step further down
        obtain rfl := Option.some_inj.mp hya
        exact (ih.1.tail ⟨s,hs,hpar⟩).tail ⟨y,hy,hyc⟩
      · exact ih.1.tail ⟨y,hy,hya⟩
  · rintro ⟨hq,hqc⟩
    have hall : (q ≠ c → t'.InTree r q) ∧ (q = c → t'.InTree r p) := by
      clear hqc
      induction hq with
      | refl => exact ⟨fun _ => .refl,fun heq => absurd heq hrc⟩
      | @tail a b _ hab ih =>
        obtain ⟨y,hy,hya⟩ := hab
        refine ⟨fun hbc => ?_,fun hbc => ?_⟩
        · obtain ⟨y',hy',-,hypar,-⟩ := hd.kept b y hbc hy
          by_cases hac : a = c
          · refine (ih.2 hac).tail ⟨y',hy',?_⟩
            rw [hypar,if_pos (hac ▸ hya)]
          · refine (ih.1 hac).tail ⟨y',hy',?_⟩
            rw [hypar,if_neg (fun hyc => hac (Option.some_inj.mp (hya.symm.trans hyc))),hya]
        · subst hbc
          rw [hs,Option.some_inj] at hy
          subst hy
          obtain rfl : p = a := Option.some_inj.mp (hpar.symm.trans hya)
          exact ih.1 hpc
    exact hall.1 hqc

/-- A segment that is still there, with the data it keeps. -/
theorem Discarded.kept_data (hd : Discarded t c p s t') {q : SegPtr} {y : Segment} (hqc : q ≠ c)
    (hy : t.segs q = some y) : ∃ y', t'.segs q = some y' ∧ y'.startTime = y.startTime ∧
      y'.stopTime = y.stopTime ∧ y'.asyncContext = y.asyncContext ∧ y'.color = y.color ∧
      (q ≠ p → y'.children = y.children) := by
  obtain ⟨y',hy',hfix,-,hch,-⟩ := hd.kept q y hqc hy
  exact ⟨y',hy',Segment.eq_of_fixed Segment.startTime (fun _ => rfl) hfix,
    Segment.eq_of_fixed Segment.stopTime (fun _ => rfl) hfix,
    Segment.eq_of_fixed Segment.asyncContext (fun _ => rfl) hfix,
    Segment.eq_of_fixed Segment.color (fun _ => rfl) hfix,hch⟩

/-- What the data of a segment that is still there were before. -/
theorem Discarded.back_data (hd : Discarded t c p s t') {q : SegPtr} {y' : Segment}
    (hy' : t'.segs q = some y') : q ≠ c ∧ ∃ y, t.segs q = some y ∧ y'.startTime = y.startTime ∧
      y'.stopTime = y.stopTime ∧ y'.asyncContext = y.asyncContext ∧ y'.color = y.color ∧
      (q ≠ p → y'.children = y.children) := by
  obtain ⟨hqc,y,hy,-⟩ := hd.back hy'
  obtain ⟨y'',hy'',hdata⟩ := hd.kept_data hqc hy
  rw [hy',Option.some_inj] at hy''
  subst hy''
  exact ⟨hqc,y,hy,hdata⟩

/-- Whether a segment that is still there covers a tick in a context. -/
theorem Discarded.covers_iff (hd : Discarded t c p s t') {k : SegPtr} (hkc : k ≠ c)
    {context a : ℕ} :
    (∃ z, t'.segs k = some z ∧ z.asyncContext = context ∧ a ∈ z.span) ↔
      ∃ z, t.segs k = some z ∧ z.asyncContext = context ∧ a ∈ z.span := by
  constructor
  · rintro ⟨z',hz',hzctx,ha⟩
    obtain ⟨-,z,hz,hzs,hzt,hzc,-⟩ := hd.back_data hz'
    refine ⟨z,hz,hzc ▸ hzctx,?_⟩
    rwa [Segment.span,hzs,hzt] at ha
  · rintro ⟨z,hz,hzctx,ha⟩
    obtain ⟨z',hz',hzs,hzt,hzc,-⟩ := hd.kept_data hkc hz
    refine ⟨z',hz',hzc ▸ hzctx,?_⟩
    rwa [Segment.span,hzs,hzt]

section Discard
variable (h : Inv t) (hs : t.segs c = some s) (hpar : s.parent = some p)
  (hd : Discarded t c p s t')
include h hs hpar hd

/-- The children of the parent after the discard, up to their order. -/
theorem Discarded.children_perm : ∃ x x', t.segs p = some x ∧ t'.segs p = some x' ∧ p ≠ c ∧
    c ∈ x.children.elements ∧
    x'.children.elements.Perm (x.children.elements.erase c ++ s.children.elements) := by
  obtain ⟨x,hx,hget⟩ := h.parent_live hs hpar
  have hpc : p ≠ c := fun heq => h.parent_ne hs (heq ▸ hpar)
  obtain ⟨x',hx',-⟩ := hd.kept_data hpc hx
  exact ⟨x,x',hx,hx',hpc,List.mem_of_getElem? hget,hd.kids x x' hx hx'⟩

variable {z : Segment} (hr : t.segs r = some z) (hroot : z.parent = none) (hin : t.InTree r c)
  (hn : t.Nested r)
include hr hroot hin hn

omit h hin hn in
lemma Discarded.root_ne : r ≠ c := by
  rintro rfl
  rw [hs,Option.some_inj] at hr
  rw [hr,hroot] at hpar
  cases hpar

/-- The tree stays properly nested: the children of the discarded segment go where it was. -/
theorem Discarded.nested : t'.Nested r := by
  have hrc := hd.root_ne hs hpar hr hroot
  have htree := hd.inTree_iff h hs hpar hrc
  obtain ⟨x,x',hx,hx',hpc,hcx,hperm⟩ := hd.children_perm h hs hpar
  have hpin : t.InTree r p := (inTree_parent_iff hr hroot hs hpar).mp hin
  have hspan : ∀ {q y y'}, t.segs q = some y → t'.segs q = some y' → y'.span = y.span := by
    intro q y y' hy hy'
    obtain ⟨-,y₀,hy₀,hstart,hstop,-⟩ := hd.back_data hy'
    rw [hy,Option.some_inj] at hy₀
    rw [Segment.span,Segment.span,hy₀,hstart,hstop]
  have hchild : ∀ {a}, a ∈ x'.children.elements →
      a ∈ x.children.elements ∨ a ∈ s.children.elements := by
    intro a ha
    rcases List.mem_append.mp (hperm.mem_iff.mp ha) with ha | ha
    · exact .inl (List.mem_of_mem_erase ha)
    · exact .inr ha
  refine ⟨?_,?_,?_,?_⟩
  · intro q y' hq hy'
    obtain ⟨-,y,hy,hstart,hstop,-⟩ := hd.back_data hy'
    rw [hstart,hstop]
    exact hn.valid ((htree q).mp hq).1 hy
  · intro q q' y' z' hq hq' hy' hz'
    obtain ⟨-,y,hy,-,-,hyc,-⟩ := hd.back_data hy'
    obtain ⟨-,z,hz,-,-,hzc,-⟩ := hd.back_data hz'
    rw [hyc,hzc]
    exact hn.context ((htree q).mp hq).1 ((htree q').mp hq').1 hy hz
  · intro q a y' z' hq hy' ha hz'
    obtain ⟨-,y,hy,hys,hyt,-,-,hych⟩ := hd.back_data hy'
    obtain ⟨-,z,hz,hzs,hzt,-⟩ := hd.back_data hz'
    rw [hys,hyt,hzs,hzt]
    by_cases hqp : q = p
    · subst hqp
      rw [hx',Option.some_inj] at hy'
      rw [hx,Option.some_inj] at hy
      subst hy' hy
      rcases hchild ha with ha | ha
      · exact hn.inside hpin hx ha hz
      · have hsin := hn.inside hpin hx hcx hs
        have hain := hn.inside hin hs ha hz
        omega
    · rw [hych hqp] at ha
      exact hn.inside ((htree q).mp hq).1 hy ha hz
  · intro q y' hq hy'
    obtain ⟨-,y,hy,-,-,-,-,hych⟩ := hd.back_data hy'
    have hlift : ∀ {l : List SegPtr}, l.Pairwise t.Apart → l.Pairwise t'.Apart := by
      intro l hl
      refine hl.imp ?_
      intro a b hab y z hy hz
      obtain ⟨-,y₀,hy₀,-⟩ := hd.back_data hy
      obtain ⟨-,z₀,hz₀,-⟩ := hd.back_data hz
      rw [hspan hy₀ hy,hspan hz₀ hz]
      exact hab y₀ z₀ hy₀ hz₀
    by_cases hqp : q = p
    · subst hqp
      rw [hx',Option.some_inj] at hy'
      subst hy'
      apply hlift
      have hcons : (c :: x.children.elements.erase c).Pairwise t.Apart :=
        (List.perm_cons_erase hcx).pairwise (hn.apart hpin hx) Apart.symm
      obtain ⟨hhead,htail⟩ := List.pairwise_cons.mp hcons
      refine hperm.symm.pairwise (List.pairwise_append.mpr ⟨htail,hn.apart hin hs,?_⟩) Apart.symm
      -- the children of the discarded segment lie inside it, so its siblings are apart from them
      intro a ha b hb y z hy hz
      have hbin := hn.inside hin hs hb hz
      exact ((hhead a ha).symm y s hy hs).mono_right (Finset.Ico_subset_Ico hbin.1 hbin.2)
    · rw [hych hqp]
      exact hlift (hn.apart ((htree q).mp hq).1 hy)

/-- What is recorded after the discard: with metrics and without a segment limit, the discarded
segment is recorded in its parent. -/
def recAfter (t : Txn) (p : SegPtr) (s : Segment) (rec : SegPtr → List (ℕ × ℕ)) (q : SegPtr) :
    List (ℕ × ℕ) :=
  if q = p ∧ s.metrics ≠ [] ∧ t.options.maxSegments ≤ 1 then rec p ++ [(s.startTime,s.stopTime)]
  else rec q

lemma Discarded.recording (hrec : t.Recording r rec) : t'.Recording r (t.recAfter p s rec) := by
  have hrc := hd.root_ne hs hpar hr hroot
  have htree := hd.inTree_iff h hs hpar hrc
  have hpin : t.InTree r p := (inTree_parent_iff hr hroot hs hpar).mp hin
  have hvalid := hn.valid hin hs
  intro q y' hq hy'
  obtain ⟨hqin,hqc⟩ := (htree q).mp hq
  obtain ⟨-,y,hy,-⟩ := hd.back hy'
  obtain ⟨y'',hy'',-,-,-,het⟩ := hd.kept q y hqc hy
  rw [hy',Option.some_inj] at hy''
  subst hy''
  have hold := hrec q y hqin hy
  unfold recAfter
  by_cases hmerge : q = p ∧ s.metrics ≠ []
  · obtain ⟨rfl,hmet⟩ := hmerge
    rw [if_pos ⟨rfl,hmet⟩,mergedTime] at het
    by_cases hlimit : 1 < t.options.maxSegments
    · rw [if_pos (Or.inr hlimit)] at het
      rw [if_neg (by omega)]
      unfold Segment.RecordedAs at hold ⊢
      rwa [het]
    · rw [if_neg (by omega),recordedTime,if_pos (hn.context hpin hin hy hs)] at het
      rw [if_pos ⟨rfl,hmet,not_lt.mp hlimit⟩]
      -- the parent still counts the discarded segment among its children, so there is room for it
      obtain ⟨x,hx,hget⟩ := h.parent_live hs hpar
      rw [hy,Option.some_inj] at hx
      subst hx
      have hsize : 1 ≤ y.children.size := by
        obtain ⟨hlt,-⟩ := List.getElem?_eq_some_iff.mp hget
        unfold SegmentChildren.size
        omega
      have hroom := (ExclusiveTime.room_ensure y.exclusiveTime y.children.size y.startTime
        y.stopTime).mono hsize
      rw [ExclusiveTime.addChild_eq hroom,if_pos hvalid] at het
      unfold Segment.RecordedAs
      rw [het]
      exact recorded_ensure_feed hold (by simpa using hvalid) _ _ _
  · rw [if_neg hmerge] at het
    rw [if_neg (fun hh => hmerge ⟨hh.1,hh.2.1⟩)]
    unfold Segment.RecordedAs at hold ⊢
    rwa [het]

omit hin hn in
/-- Away from the parent nothing changes. -/
theorem Discarded.lost_eq_of_ne {q : SegPtr} (hqp : q ≠ p) (hq : t'.InTree r q) :
    t'.lost (t.recAfter p s rec) q = t.lost rec q := by
  have hrc := hd.root_ne hs hpar hr hroot
  obtain ⟨hqin,hqc⟩ := (hd.inTree_iff h hs hpar hrc q).mp hq
  obtain ⟨y,hy⟩ := hqin.live hr
  obtain ⟨y',hy',hstart,hstop,hctx,-,hch⟩ := hd.kept_data hqc hy
  have hchild : t'.childTicks y' = t.childTicks y := by
    ext a
    rw [childTicks,childTicks,hch hqp,hctx,mem_ticks_childIntervals,mem_ticks_childIntervals]
    refine exists_congr fun k => and_congr_right fun hk => ?_
    have hkc : k ≠ c := by
      rintro rfl
      obtain ⟨z,hz,hzp⟩ := h.child_live hy hk
      rw [hs,Option.some_inj] at hz
      rw [← hz,hpar,Option.some_inj] at hzp
      exact hqp hzp.symm
    exact hd.covers_iff hkc
  rw [lost_eq hy,lost_eq hy',lostTicks,lostTicks,hchild,Segment.span,hstart,hstop,recAfter,
    if_neg (fun hh => hqp hh.1)]
  rfl

/-- The parent loses what it lost before, and what its record now covers of the ticks of the
discarded segment. -/
theorem Discarded.lost_parent : t'.lost (t.recAfter p s rec) p =
    t.lost rec p+(t.lostTicks (t.recAfter p s rec p) s).card := by
  have hpin : t.InTree r p := (inTree_parent_iff hr hroot hs hpar).mp hin
  obtain ⟨x,x',hx,hx',hpc,hcx,hperm⟩ := hd.children_perm h hs hpar
  obtain ⟨x'',hx'',hstart,hstop,hctx,-⟩ := hd.kept_data hpc hx
  rw [hx',Option.some_inj] at hx''
  subst hx''
  have hsctx : x.asyncContext = s.asyncContext := hn.context hpin hin hx hs
  set O := ticks (t.childIntervals x.asyncContext (x.children.elements.erase c)) with hO
  have hbefore : t.childTicks x = s.span ∪ O := by
    ext a
    rw [childTicks,Finset.mem_union,hO,mem_ticks_childIntervals,mem_ticks_childIntervals]
    have hmem : ∀ q, q ∈ x.children.elements ↔ q = c ∨ q ∈ x.children.elements.erase c := by
      intro q
      rw [(List.perm_cons_erase hcx).mem_iff,List.mem_cons]
    simp only [hmem]
    constructor
    · rintro ⟨q,rfl | hq,y,hy,hyctx,ha⟩
      · rw [hs,Option.some_inj] at hy
        exact .inl (hy ▸ ha)
      · exact .inr ⟨q,hq,y,hy,hyctx,ha⟩
    · rintro (ha | ⟨q,hq,hrest⟩)
      · exact ⟨c,.inl rfl,s,hs,hsctx.symm,ha⟩
      · exact ⟨q,.inr hq,hrest⟩
  have hafter : t'.childTicks x' = O ∪ t.childTicks s := by
    ext a
    rw [childTicks,childTicks,Finset.mem_union,hO,hctx,← hsctx,mem_ticks_childIntervals,
      mem_ticks_childIntervals,mem_ticks_childIntervals]
    have hmem : ∀ q, q ∈ x'.children.elements ↔
        q ∈ x.children.elements.erase c ∨ q ∈ s.children.elements := by
      intro q
      rw [hperm.mem_iff,List.mem_append]
    have hne : ∀ q, q ∈ x.children.elements.erase c ∨ q ∈ s.children.elements → q ≠ c := by
      rintro q (hq | hq)
      · exact ((h.linked.kids_nodup (view_of_segs hx)).mem_erase_iff.mp hq).1
      · rintro rfl
        obtain ⟨z,hz,hzp⟩ := h.child_live hs hq
        exact h.parent_ne hz hzp
    constructor
    · rintro ⟨q,hq,hcov⟩
      have hcov' := (hd.covers_iff (hne q ((hmem q).mp hq))).mp hcov
      rcases (hmem q).mp hq with hq | hq
      · exact .inl ⟨q,hq,hcov'⟩
      · exact .inr ⟨q,hq,hcov'⟩
    · rintro (⟨q,hq,hcov⟩ | ⟨q,hq,hcov⟩)
      · exact ⟨q,(hmem q).mpr (.inl hq),(hd.covers_iff (hne q (.inl hq))).mpr hcov⟩
      · exact ⟨q,(hmem q).mpr (.inr hq),(hd.covers_iff (hne q (.inr hq))).mpr hcov⟩
  have hspan : x'.span = x.span := by rw [Segment.span,Segment.span,hstart,hstop]
  have hdisj : Disjoint O s.span := by
    rw [Finset.disjoint_left]
    intro a ha has
    obtain ⟨q,hq,y,hy,-,hay⟩ := mem_ticks_childIntervals.mp ha
    have hcons : (c :: x.children.elements.erase c).Pairwise t.Apart :=
      (List.perm_cons_erase hcx).pairwise (hn.apart hpin hx) Apart.symm
    have hapart := (List.pairwise_cons.mp hcons).1 q hq s y hs hy
    exact Finset.disjoint_left.mp hapart has hay
  have hsub : s.span ⊆ x.span := by
    have hsin := hn.inside hpin hx hcx hs
    exact Finset.Ico_subset_Ico hsin.1 hsin.2
  have hrec : ticks (t.recAfter p s rec p) \ s.span = ticks (rec p) \ s.span := by
    unfold recAfter
    split
    · rw [ticks_append,ticks_cons,ticks_nil,Finset.union_empty]
      exact Finset.union_sdiff_right _ _
    · rfl
  rw [lost_eq hx,lost_eq hx',lostTicks,lostTicks,lostTicks,hbefore,hafter,hspan]
  exact card_uncover hsub (hn.childTicks_subset h hin hs) hdisj hrec

/-- The losses after the discard against those before it. -/
theorem Discarded.sum_lost {ps ps' : List SegPtr} (hnd : ps.Nodup) (hnd' : ps'.Nodup)
    (hmem : ∀ q, q ∈ ps ↔ t.InTree r q) (hmem' : ∀ q, q ∈ ps' ↔ t'.InTree r q) :
    (ps'.map (t'.lost (t.recAfter p s rec))).sum+t.lost rec c =
      (ps.map (t.lost rec)).sum+(t.lostTicks (t.recAfter p s rec p) s).card := by
  have hrc := hd.root_ne hs hpar hr hroot
  have htree := hd.inTree_iff h hs hpar hrc
  have hpin : t.InTree r p := (inTree_parent_iff hr hroot hs hpar).mp hin
  have hpc : p ≠ c := fun heq => h.parent_ne hs (heq ▸ hpar)
  have hset : ps'.toFinset = ps.toFinset.erase c := by
    ext q
    rw [Finset.mem_erase,List.mem_toFinset,List.mem_toFinset,hmem',hmem,htree]
    exact and_comm
  have hcT : c ∈ ps.toFinset := List.mem_toFinset.mpr ((hmem c).mpr hin)
  have hpT : p ∈ ps.toFinset.erase c :=
    Finset.mem_erase.mpr ⟨hpc,List.mem_toFinset.mpr ((hmem p).mpr hpin)⟩
  have hrest : ∑ q ∈ (ps.toFinset.erase c).erase p, t'.lost (t.recAfter p s rec) q =
      ∑ q ∈ (ps.toFinset.erase c).erase p, t.lost rec q := by
    apply Finset.sum_congr rfl
    intro q hq
    obtain ⟨hqp,hq⟩ := Finset.mem_erase.mp hq
    rw [← hset,List.mem_toFinset,hmem'] at hq
    exact hd.lost_eq_of_ne h hs hpar hr hroot hqp hq
  rw [← List.sum_toFinset _ hnd',← List.sum_toFinset _ hnd,hset,← Finset.add_sum_erase _ _ hcT,
    ← Finset.add_sum_erase _ _ hpT,← Finset.add_sum_erase _ (t.lost rec) hpT,hrest,
    hd.lost_parent h hs hpar hr hroot hin hn]
  omega

end Discard

/-- When a discard leaves the total time of a properly nested tree as it is. With metrics and without
a segment limit: when the children of the segment, and the discarded children it has recorded, cover
all of it. Otherwise: when its own record and that of its parent cover as much of what its children
leave over. -/
theorem discard_total_iff (h : Inv t) {x : Segment} (hr : t.segs r = some x) (hroot : x.parent = none)
    (hcol : ∀ q, t.InTree r q → t.color q = some x.color) (hn : t.Nested r)
    (hrec : t.Recording r rec) (h64 : x.stopTime < 2^64) (hs : t.segs c = some s)
    (hin : t.InTree r c) (hpar : s.parent = some p) (traceBound spanBound : ℕ)
    (mainContext : Option ExclusiveTime) :
    ∃ w t' w', t.treeToHeap (some r)
        ⟨segmentHeapCreate traceBound,segmentHeapCreate spanBound,0,mainContext⟩ = some w ∧
      t.discard c = some (true,t') ∧
      t'.treeToHeap (some r)
        ⟨segmentHeapCreate traceBound,segmentHeapCreate spanBound,0,mainContext⟩ = some w' ∧
      (w'.2.totalTime = w.2.totalTime ↔
        if s.metrics ≠ [] ∧ t.options.maxSegments ≤ 1 then
          s.span ⊆ ticks (rec c) ∪ t.childTicks s
        else (t.lostTicks (rec c) s).card = (t.lostTicks (rec p) s).card) := by
  obtain ⟨t',hdis,hd⟩ := discard_spec h hs hpar
  have hrc := hd.root_ne hs hpar hr hroot
  obtain ⟨x',hx',hfix,hxpar,-⟩ := hd.kept r x hrc hr
  obtain ⟨x'',hx'',hstart,hstop,-,hxcol,-⟩ := hd.kept_data hrc hr
  rw [hx',Option.some_inj] at hx''
  subst hx''
  have hroot' : x'.parent = none := by
    rw [hxpar,hroot]
    simp
  have hcol' : ∀ q, t'.InTree r q → t'.color q = some x'.color := by
    intro q hq
    obtain ⟨hqin,hqc⟩ := (hd.inTree_iff h hs hpar hrc q).mp hq
    obtain ⟨y,hy⟩ := hqin.live hr
    obtain ⟨y',hy',-,-,-,hycol,-⟩ := hd.kept_data hqc hy
    have hq := hcol q hqin
    rw [color,hy,Option.map_some] at hq
    rw [color,hy',Option.map_some,hycol,hxcol]
    exact hq
  obtain ⟨ps,w,hnd,hmem,hw,htotal⟩ := hn.treeToHeap_total h hr hroot hcol hrec h64 traceBound spanBound
    mainContext
  obtain ⟨ps',w',hnd',hmem',hw',htotal'⟩ := (hd.nested h hs hpar hr hroot hin hn).treeToHeap_total
    (hd.inv h hs hpar) hx' hroot' hcol' (hd.recording h hs hpar hr hroot hin hn hrec)
    (hstop ▸ h64) traceBound spanBound mainContext
  refine ⟨w,t',w',hw,hdis,hw',?_⟩
  have hsum : (ps'.map (t'.lost (t.recAfter p s rec))).sum+t.lost rec c =
      (ps.map (t.lost rec)).sum+(t.lostTicks (t.recAfter p s rec p) s).card :=
    hd.sum_lost h hs hpar hr hroot hin hn hnd hnd' hmem hmem'
  rw [hstart,hstop] at htotal'
  have hiff : w'.2.totalTime = w.2.totalTime ↔
      (t.lostTicks (rec c) s).card = (t.lostTicks (t.recAfter p s rec p) s).card := by
    rw [lost_eq hs] at hsum
    omega
  rw [hiff,recAfter]
  by_cases hmerge : s.metrics ≠ [] ∧ t.options.maxSegments ≤ 1
  · rw [if_pos hmerge,if_pos ⟨rfl,hmerge⟩]
    have hall : t.lostTicks (rec p ++ [(s.startTime,s.stopTime)]) s = s.span \ t.childTicks s := by
      have hcover : s.span ⊆ ticks (rec p ++ [(s.startTime,s.stopTime)]) := by
        rw [ticks_append,ticks_cons,ticks_nil,Finset.union_empty]
        exact Finset.subset_union_right
      rw [lostTicks,Finset.inter_eq_left.mpr hcover]
    have hsub : t.lostTicks (rec c) s ⊆ s.span \ t.childTicks s :=
      Finset.sdiff_subset_sdiff Finset.inter_subset_left le_rfl
    rw [hall]
    constructor
    · intro hcard a ha
      have heq := Finset.eq_of_subset_of_card_le hsub hcard.ge
      rw [Finset.mem_union]
      by_cases hac : a ∈ t.childTicks s
      · exact .inr hac
      · have hmem : a ∈ t.lostTicks (rec c) s := heq ▸ Finset.mem_sdiff.mpr ⟨ha,hac⟩
        exact .inl (Finset.mem_inter.mp (Finset.mem_sdiff.mp hmem).1).2
    · intro hcover
      congr 1
      refine hsub.antisymm ?_
      intro a ha
      obtain ⟨has,hac⟩ := Finset.mem_sdiff.mp ha
      refine Finset.mem_sdiff.mpr ⟨Finset.mem_inter.mpr ⟨has,?_⟩,hac⟩
      exact (Finset.mem_union.mp (hcover has)).resolve_right hac
  · rw [if_neg hmerge,if_neg (fun hh => hmerge hh.2)]

theorem discard_total_iff_limited : ∃ t w t' w', rootAndChild 2 = some t ∧
    t.treeToHeap (some 1) ⟨segmentHeapCreate 2,segmentHeapCreate 2,0,none⟩ = some w ∧
    t.discard 2 = some (true,t') ∧
    t'.treeToHeap (some 1) ⟨segmentHeapCreate 2,segmentHeapCreate 2,0,none⟩ = some w' ∧
    w'.2.totalTime = w.2.totalTime := by
  obtain ⟨t,x,y,ht,hinv,hmax,hx,hxp,hx0,hx10,hy,hyp,hin,hcol,hn,hrec⟩ := rootAndChild_spec 2
  obtain ⟨w,t',w',hw,hdis,hw',hiff⟩ := discard_total_iff hinv hx hxp hcol hn hrec (by omega) hy hin hyp
    2 2 none
  refine ⟨t,w,t',w',ht,hw,hdis,hw',hiff.mpr ?_⟩
  rw [if_neg (by omega)]

/-- Without a limit the 4 ticks of the discarded child go missing from the 10 of the root. -/
theorem discard_loses_time : ∃ t w t' w', rootAndChild 0 = some t ∧ Inv t ∧ t.Nested 1 ∧
    t.InTree 1 2 ∧
    t.treeToHeap (some 1) ⟨segmentHeapCreate 2,segmentHeapCreate 2,0,none⟩ = some w ∧
    w.2.totalTime = 10 ∧ t.discard 2 = some (true,t') ∧
    t'.treeToHeap (some 1) ⟨segmentHeapCreate 2,segmentHeapCreate 2,0,none⟩ = some w' ∧
    w'.2.totalTime = 6 := by
  have hrun : ∃ t w t' w', rootAndChild 0 = some t ∧
      t.treeToHeap (some 1) ⟨segmentHeapCreate 2,segmentHeapCreate 2,0,none⟩ = some w ∧
      w.2.totalTime = 10 ∧ t.discard 2 = some (true,t') ∧
      t'.treeToHeap (some 1) ⟨segmentHeapCreate 2,segmentHeapCreate 2,0,none⟩ = some w' ∧
      w'.2.totalTime = 6 := ⟨_,_,_,_,rfl,rfl,rfl,rfl,rfl,rfl⟩
  obtain ⟨t,w,t',w',ht,hw,hten,hdis,hw',hsix⟩ := hrun
  obtain ⟨t₁,-,-,ht₁,hinv,-,-,-,-,-,-,-,hin,-,hn,-⟩ := rootAndChild_spec 0
  obtain rfl : t = t₁ := Option.some_inj.mp (ht.symm.trans ht₁)
  exact ⟨t,w,t',w',ht,hinv,hn,hin,hw,hten,hdis,hw',hsix⟩

end Txn
end PhpAgent
