import PhpAgent.Segment.Invariant

/-! Reparenting and discarding segments keeps the invariant. -/
namespace PhpAgent

namespace Segment

/-- `s'` is `s` but for its children and its position among its siblings. -/
def SameButPlace (s s' : Segment) : Prop :=
  s' = { s with children := s'.children, childIx := s'.childIx }

/-- `s'` is `s` but for its id and its exclusive time. -/
def SameButRecord (s s' : Segment) : Prop :=
  s' = { s with id := s'.id, exclusiveTime := s'.exclusiveTime }

end Segment

namespace Txn
open PointerTree
variable {t t' : Txn} {p c : SegPtr} {s : Segment}

lemma view_congr (h : ∀ q, (t'.segs q).map Segment.node = (t.segs q).map Segment.node) :
    t'.view = t.view :=
  funext h

lemma Enqueued.view_eq (h : Enqueued t t') : t'.view = t.view := by
  apply view_congr
  intro q
  cases hs : t.segs q with
  | none => rw [h.none hs]
  | some s =>
    obtain ⟨s',hs',hsame⟩ := h.some hs
    rw [hs',hsame]
    rfl

/-! ### Leaving the children of a parent -/

/-- What taking `c` out of the children of `p` does. -/
structure Unlinked (t : Txn) (p c : SegPtr) (t' : Txn) : Prop where
  rest : t' = { t with segs := t'.segs }
  kept : ∀ q y, t.segs q = some y → ∃ y', t'.segs q = some y' ∧ y.SameButPlace y' ∧
    (q ≠ p → y'.children = y.children)
  dead : ∀ q, t.segs q = none → t'.segs q = none
  kids : ∀ y y', t.segs p = some y → t'.segs p = some y' →
    y'.children.elements.Perm (y.children.elements.erase c)
  linked : LinkedBut t'.view c

lemma perm_set_dropLast {xs : List SegPtr} (hnd : xs.Nodup) {i : ℕ} {l x : SegPtr}
    (hl : xs.getLast? = some l) (hx : xs[i]? = some x) :
    (xs.set i l).dropLast.Perm (xs.erase x) := by
  obtain ⟨hlt,rfl⟩ := List.getElem?_eq_some_iff.mp hx
  rw [hnd.erase_getElem]
  obtain ⟨ys,rfl⟩ : ∃ ys, xs = ys ++ [l] := ⟨xs.dropLast,(List.dropLast_append_getLast? l hl).symm⟩
  rcases Nat.lt_or_ge i ys.length with hi | hi
  · rw [List.set_append_left _ _ hi,List.dropLast_concat,List.eraseIdx_append_of_lt_length hi]
    calc (ys.set i l).Perm (l :: ys.eraseIdx i) := List.set_perm_cons_eraseIdx hi l
      _ |>.Perm (ys.eraseIdx i ++ [l]) := (List.perm_append_singleton _ _).symm
  · have hi' : i = ys.length := by
      rw [List.length_append,List.length_singleton] at hlt
      omega
    subst hi'
    rw [List.eraseIdx_append_of_length_le le_rfl]
    simp

lemma childrenRemove_spec (hlink : Linked t.view) (hroot : Rooted t.view) {x : Segment}
    (hx : t.segs c = some x) (hpar : x.parent = some p) :
    ∃ t', t.childrenRemove p c = some (true,t') ∧ Unlinked t p c t' := by
  obtain ⟨n,hn,hget⟩ := hlink.parent (view_of_segs hx) hpar
  obtain ⟨s,hs,rfl⟩ := view_eq_some.mp hn
  have hget : s.children.elements[x.childIx]? = some c := hget
  have hlt := (List.getElem?_eq_some_iff.mp hget).1
  have hself : s.parent ≠ some p := hroot.parent_ne hn
  obtain ⟨l,hl⟩ : ∃ l, s.children.elements.getLast? = some l := by
    cases h : s.children.elements.getLast? with
    | none =>
      rw [List.getLast?_eq_none_iff] at h
      simp [h] at hlt
    | some l => exact ⟨l,rfl⟩
  have hlmem : l ∈ s.children.elements := List.mem_of_getLast? hl
  obtain ⟨i,hi⟩ := List.mem_iff_getElem?.mp hlmem
  obtain ⟨m,hm,hlpar,-⟩ := hlink.kid hn hi
  obtain ⟨y,hy,rfl⟩ := view_eq_some.mp hm
  have hlp : l ≠ p := by
    rintro rfl
    rw [hs,Option.some_inj] at hy
    exact hself (hy ▸ hlpar)
  obtain ⟨children,helem,hrem⟩ := childrenRemove_eq hs hx hl hy hlp hlt
  refine ⟨_,hrem,rfl,?_,?_,?_,?_⟩
  · intro q z hz
    by_cases hqp : q = p
    · subst hqp
      rw [hs,Option.some_inj] at hz
      subst hz
      exact ⟨_,Function.update_self ..,rfl,fun h => absurd rfl h⟩
    by_cases hql : q = l
    · subst hql
      rw [hy,Option.some_inj] at hz
      subst hz
      exact ⟨_,(Function.update_of_ne hqp ..).trans (Function.update_self ..),rfl,fun _ => rfl⟩
    · exact ⟨z,((Function.update_of_ne hqp ..).trans (Function.update_of_ne hql ..)).trans hz,rfl,
        fun _ => rfl⟩
  · intro q hq
    have hqp : q ≠ p := by rintro rfl; rw [hs] at hq; cases hq
    have hql : q ≠ l := by rintro rfl; rw [hy] at hq; cases hq
    exact ((Function.update_of_ne hqp ..).trans (Function.update_of_ne hql ..)).trans hq
  · intro z z' hz hz'
    rw [hs,Option.some_inj] at hz
    simp only [Function.update_self,Option.some_inj] at hz'
    subst hz hz'
    simp only [helem]
    exact perm_set_dropLast (hlink.kids_nodup hn) hl hget
  · refine hlink.detach hn (view_of_segs hx) hpar hself hl hm ?_ ?_ ?_
    · refine (view_of_segs (Function.update_self ..)).trans ?_
      simp [Segment.node,helem]
    · simp [view,Function.update_of_ne hlp,Segment.node]
    · intro q hqp hql
      exact congrArg (Option.map Segment.node)
        ((Function.update_of_ne hqp ..).trans (Function.update_of_ne hql ..))

/-! ### Reparenting -/

lemma isAncestor_eq {o : Option SegPtr} {l : List SegPtr} (h : Up t.view o l) {fuel : ℕ}
    (hfuel : l.length ≤ fuel) : t.isAncestor c fuel o = some (decide (c ∈ l)) := by
  induction h generalizing fuel with
  | top => simp [isAncestor]
  | @step a n l ha _ ih =>
    obtain ⟨s,hs,rfl⟩ := view_eq_some.mp ha
    cases fuel with
    | zero => simp at hfuel
    | succ fuel =>
      rw [isAncestor]
      by_cases hac : a = c
      · simp [hac]
      · have hlen : l.length ≤ fuel := Nat.le_of_succ_le_succ hfuel
        have ih : t.isAncestor c fuel s.parent = some (decide (c ∈ l)) := ih hlen
        simp [hac,hs,ih,Ne.symm hac]

/-- A walk up meets each live segment at most once. -/
theorem Store.length_le (h : Store t) {o : Option SegPtr} {l : List SegPtr} (hl : Up t.view o l) :
    l.length ≤ t.slab.next := by
  have hsub : l ⊆ List.range t.slab.next := by
    intro a ha
    obtain ⟨n,hn⟩ := hl.live ha
    obtain ⟨s,hs,-⟩ := view_eq_some.mp hn
    exact List.mem_range.mpr (h.live_lt hs)
  simpa using (hl.nodup.subperm hsub).length_le

/-- What a successful reparenting does. -/
structure Moved (t : Txn) (c p : SegPtr) (t' : Txn) : Prop where
  rest : t' = { t with segs := t'.segs }
  fixed : SameFixed t t'
  parent : ∀ q y y', t.segs q = some y → t'.segs q = some y' →
    y'.parent = if q = c then some p else y.parent
  inv : Inv t'

/-- Enter the children of a segment and point to it. -/
theorem attach_spec {s x : Segment} (hs : t.segs p = some s) (hx : t.segs c = some x) (hne : p ≠ c)
    (hbut : LinkedBut t.view c) : ∃ t', ((t.childrenAdd p c).bind fun t =>
      t.update c fun x => { x with parent := some p }) = some t' ∧ t' = { t with segs := t'.segs } ∧
      Linked t'.view ∧
      (∀ q y, t.segs q = some y → ∃ y', t'.segs q = some y' ∧ y'.fixed = y.fixed ∧
        y'.parent = if q = c then some p else y.parent) ∧
      ∀ q, t.segs q = none → t'.segs q = none := by
  refine ⟨{ t with
    segs := Function.update
      (Function.update t.segs p (some { s with children := (s.children.add c).1 }))
      c (some { x with parent := some p, childIx := s.children.elements.length }) },?_,rfl,?_,?_,?_⟩
  · rw [childrenAdd_eq hs hx hne,Option.bind_some,update_eq (Function.update_self ..)]
    simp only [Function.update_idem]
  · apply hbut.attach hne (view_of_segs hs) (view_of_segs hx)
    · refine (view_of_segs ((Function.update_of_ne hne ..).trans (Function.update_self ..))).trans ?_
      simp [Segment.node]
    · simp [view,Segment.node]
    · intro q hqp hqc
      exact congrArg (Option.map Segment.node)
        ((Function.update_of_ne hqc ..).trans (Function.update_of_ne hqp ..))
  · intro q y hy
    by_cases hqc : q = c
    · subst hqc
      rw [hx,Option.some_inj] at hy
      subst hy
      exact ⟨_,Function.update_self ..,rfl,by simp⟩
    by_cases hqp : q = p
    · subst hqp
      rw [hs,Option.some_inj] at hy
      subst hy
      exact ⟨_,(Function.update_of_ne hqc ..).trans (Function.update_self ..),rfl,by simp [hqc]⟩
    · exact ⟨y,((Function.update_of_ne hqc ..).trans (Function.update_of_ne hqp ..)).trans hy,rfl,
        by simp [hqc]⟩
  · intro q hq
    have hqc : q ≠ c := by rintro rfl; rw [hx] at hq; cases hq
    have hqp : q ≠ p := by rintro rfl; rw [hs] at hq; cases hq
    exact ((Function.update_of_ne hqc ..).trans (Function.update_of_ne hqp ..)).trans hq

/-- `c` leaves the children of the parent it has, if it has one. -/
theorem leaveParent_spec (h : Inv t) {x : Segment} (hx : t.segs c = some x) :
    ∃ t', t.leaveParent c x.parent = some t' ∧ t' = { t with segs := t'.segs } ∧
      LinkedBut t'.view c ∧
      (∀ q y, t.segs q = some y → ∃ y', t'.segs q = some y' ∧ y.SameButPlace y') ∧
      ∀ q, t.segs q = none → t'.segs q = none := by
  unfold leaveParent
  cases hpar : x.parent with
  | none =>
    refine ⟨t,rfl,rfl,h.linked.but_of_parent_none ?_,fun q y hy => ⟨y,hy,rfl⟩,fun _ => id⟩
    intro m hm
    rw [view_of_segs hx,Option.some_inj] at hm
    rw [← hm]
    exact hpar
  | some old =>
    obtain ⟨t₁,hrem,hun⟩ := childrenRemove_spec h.linked h.rooted hx hpar
    refine ⟨t₁,by simp only [hrem,Option.map_some],hun.rest,hun.linked,fun q y hy => ?_,hun.dead⟩
    obtain ⟨y',hy',hplace,-⟩ := hun.kept q y hy
    exact ⟨y',hy',hplace⟩

lemma setParent_spec (h : Inv t) {s x : Segment} (hs : t.segs p = some s) (hx : t.segs c = some x) :
    (∃ t', t.setParent c (some p) = some (true,t') ∧ Moved t c p t') ∨
      t.setParent c (some p) = some (false,t) := by
  obtain ⟨l,hl⟩ := h.rooted p _ (view_of_segs hs)
  have hanc : t.isAncestor c t.slab.next (some p) = some (decide (c ∈ l)) :=
    isAncestor_eq hl (h.length_le hl)
  have htxn : x.txn = s.txn := (h.owned hx).trans (h.owned hs).symm
  unfold setParent
  simp only [hx,hs,Option.bind_eq_bind,Option.bind_some,htxn,ne_eq,not_true_eq_false,if_false]
  by_cases hsame : x.parent = some p
  · rw [if_pos hsame]
    refine .inl ⟨t,rfl,rfl,.refl t,?_,h⟩
    intro q y y' hy hy'
    rw [hy,Option.some_inj] at hy'
    subst hy'
    split_ifs with hqc
    · subst hqc
      rw [hx,Option.some_inj] at hy
      rw [← hy,hsame]
    · rfl
  rw [if_neg hsame,hanc,Option.bind_some]
  by_cases hcl : c ∈ l
  · simp [hcl]
  simp only [hcl,decide_false,Bool.false_eq_true,if_false]
  left
  have hne : p ≠ c := by
    rintro rfl
    cases hl with
    | step _ _ => exact hcl (by simp)
  obtain ⟨t₁,hrem,hrest₁,hbut,hkept,hdead⟩ := leaveParent_spec h hx
  obtain ⟨s₁,hs₁,hsp⟩ := hkept p s hs
  obtain ⟨x₁,hx₁,hxp⟩ := hkept c x hx
  obtain ⟨t₂,hadd,hrest₂,hlinked,hkept₂,hdead₂⟩ := attach_spec hs₁ hx₁ hne hbut
  have hrun : ((t₁.childrenAdd p c).bind fun t =>
      (t.update c fun x => { x with parent := some p }).bind fun t => some (true,t)) =
      some (true,t₂) := by
    rw [← Option.bind_assoc,hadd,Option.bind_some]
  have hall : ∀ q y, t.segs q = some y → ∃ y', t₂.segs q = some y' ∧ y'.fixed = y.fixed ∧
      y'.parent = if q = c then some p else y.parent := by
    intro q y hy
    obtain ⟨y₁,hy₁,hplace⟩ := hkept q y hy
    obtain ⟨y₂,hy₂,hfix,hpar⟩ := hkept₂ q y₁ hy₁
    refine ⟨y₂,hy₂,hfix.trans ?_,hpar.trans ?_⟩
    · rw [hplace]
      rfl
    · rw [hplace]
  have hfixed : SameFixed t t₂ := by
    intro q
    cases hq : t.segs q with
    | none => rw [hdead₂ q (hdead q hq)]
    | some y =>
      obtain ⟨y',hy',hfix,-⟩ := hall q y hq
      rw [hy',Option.map_some,Option.map_some,hfix]
  have hrest : t₂ = { t with segs := t₂.segs } := by rw [hrest₂,hrest₁]
  refine ⟨t₂,by rw [hrem]; exact hrun,hrest,hfixed,?_,?_,hlinked,?_⟩
  · intro q y y' hy hy'
    obtain ⟨y₂,hy₂,-,hpar⟩ := hall q y hy
    rw [hy',Option.some_inj] at hy₂
    rw [hy₂,hpar]
  · apply h.toStore.congr hfixed.owner
    all_goals rw [hrest]
    intro k
    rfl
  · obtain ⟨x₂,hx₂,-,hpar⟩ := hall c x hx
    rw [if_pos rfl] at hpar
    refine h.rooted.set_parent (view_of_segs hx₂) (l := l) (by rwa [Segment.node_parent,hpar]) hcl ?_ ?_
    · intro a n hac ha
      obtain ⟨y,hy,rfl⟩ := view_eq_some.mp ha
      obtain ⟨y',hy',-,hpar'⟩ := hall a y hy
      exact ⟨_,view_of_segs hy',by simpa [hac] using hpar'⟩
    · intro a n hac ha
      obtain ⟨y',hy',-⟩ := view_eq_some.mp ha
      obtain ⟨y,hy,-⟩ := hfixed.symm.some hy'
      exact ⟨_,view_of_segs hy⟩

/-! ### Discarding -/

lemma unstack_rest (t : Txn) (context : ℕ) (c : SegPtr) : t.unstack context c = { t with
    defaultParentStack := (t.unstack context c).defaultParentStack
    parentStacks := (t.unstack context c).parentStacks } := by
  unfold unstack
  cases t.stackOf context with
  | none => rfl
  | some stack => exact setStackOf_rest ..

/-- A retired segment is on no stack. -/
theorem Store.unstack_spec (h : Store t) (hs : t.segs c = some s) {k : ℕ}
    {stack' : NrStack SegPtr} (hk : (t.unstack s.asyncContext c).stackOf k = some stack') :
    ∃ stack, t.stackOf k = some stack ∧ stack'.elements.Sublist stack.elements ∧
      c ∉ stack'.elements := by
  have hother : ∀ {stack}, t.stackOf k = some stack → c ∈ stack.elements → k = s.asyncContext := by
    intro stack hk hmem
    obtain ⟨s',hs',hctx⟩ := h.stack_live hk hmem
    rw [hs,Option.some_inj] at hs'
    rw [hs',hctx]
  unfold unstack at hk
  cases hst : t.stackOf s.asyncContext with
  | none =>
    rw [hst] at hk
    refine ⟨stack',hk,List.Sublist.refl _,fun hmem => ?_⟩
    rw [hother hk hmem,hst] at hk
    cases hk
  | some stack =>
    rw [hst] at hk
    simp only [stackOf_setStackOf] at hk
    split_ifs at hk with hctx
    · rw [← Option.some_inj.mp hk]
      exact ⟨stack,hctx ▸ hst,NrStack.removeTopmost_sublist _ _,
        NrStack.notMem_removeTopmost (h.stack_nodup hst) c⟩
    · exact ⟨stack',hk,List.Sublist.refl _,fun hmem => hctx (hother hk hmem)⟩

/-- What retiring `c` and merging its metrics does, `c` having the parent `p`. -/
structure Merged (t : Txn) (c p : SegPtr) (s : Segment) (t' : Txn) : Prop where
  rest : t' = { t with
    segs := t'.segs
    defaultParentStack := (t.unstack s.asyncContext c).defaultParentStack
    parentStacks := (t.unstack s.asyncContext c).parentStacks
    guidsUsed := t'.guidsUsed
    spanQueue := t'.spanQueue
    scopedMetrics := t'.scopedMetrics
    unscopedMetrics := t'.unscopedMetrics }
  kept : ∀ q y, t.segs q = some y → ∃ y', t'.segs q = some y' ∧ y.SameButRecord y' ∧
    (q ≠ c → y'.exclusiveTime = if q = p ∧ s.metrics ≠ [] then
      mergedTime t.options.maxSegments s y else y.exclusiveTime)
  dead : ∀ q, t.segs q = none → t'.segs q = none

lemma Merged.view_eq (h : Merged t c p s t') : t'.view = t.view := by
  apply view_congr
  intro q
  cases hq : t.segs q with
  | none => rw [h.dead q hq]
  | some y =>
    obtain ⟨y',hy',hsame,-⟩ := h.kept q y hq
    rw [hy',hsame]
    rfl

lemma retire_merge_spec (h : Inv t) {s x : Segment} (hs : t.segs c = some s)
    (hpar : s.parent = some p) (hx : t.segs p = some x) : ∃ t',
      ((t.retireCurrentSegment c).bind fun t =>
        if s.metrics ≠ [] then t.discardMergeMetrics c else some t) = some t' ∧ Merged t c p s t' := by
  have hne : p ≠ c := fun heq => h.parent_ne hs (heq ▸ hpar)
  have hparlive : ∀ q, s.parent = some q → ∃ y, t.segs q = some y := by
    intro q hq
    rw [hpar,Option.some_inj] at hq
    exact ⟨x,hq ▸ hx⟩
  obtain ⟨t₁,hret,henq⟩ := retireCurrentSegment_spec hs hparlive
  have hsegs : (t.unstack s.asyncContext c).segs = t.segs := segs_unstack ..
  have hkept₁ : ∀ {q y}, t.segs q = some y → ∃ y', t₁.segs q = some y' ∧ y.SameButId y' :=
    fun hy => henq.some (hsegs ▸ hy)
  have hdead₁ : ∀ {q}, t.segs q = none → t₁.segs q = none := fun hq => henq.none (hsegs ▸ hq)
  have hrest₁ := henq.rest
  rw [unstack_rest] at hrest₁
  rw [hret,Option.bind_some]
  by_cases hmet : s.metrics = []
  · rw [if_neg (by simpa using hmet)]
    refine ⟨t₁,rfl,?_,?_,fun q => hdead₁⟩
    · rw [hrest₁]
    · intro q y hy
      obtain ⟨y',hy',hsame⟩ := hkept₁ hy
      refine ⟨y',hy',?_,fun _ => ?_⟩
      · unfold Segment.SameButRecord
        rw [hsame]
      · rw [if_neg (by simp [hmet]),hsame]
  · rw [if_pos (by simpa using hmet)]
    obtain ⟨s₁,hs₁,hss⟩ := hkept₁ hs
    obtain ⟨x₁,hx₁,hxs⟩ := hkept₁ hx
    have hpar₁ : s₁.parent = some p := by rw [hss]; exact hpar
    have hlive₁ : ∀ k ∈ s₁.children.elements, ∃ y, t₁.segs k = some y := by
      intro k hk
      rw [hss] at hk
      obtain ⟨y,hy,-⟩ := h.child_live hs hk
      obtain ⟨y',hy',-⟩ := hkept₁ hy
      exact ⟨y',hy'⟩
    obtain ⟨t₂,hmerge,hrest₂,⟨s₂,hs₂,hss₂⟩,hx₂,hother⟩ :=
      discardMergeMetrics_spec hs₁ hpar₁ hx₁ hne hlive₁
    have hopt : t₁.options = t.options := by rw [hrest₁]
    refine ⟨t₂,hmerge,?_,?_,?_⟩
    · rw [hrest₂,hrest₁]
    · intro q y hy
      by_cases hqc : q = c
      · subst hqc
        rw [hs,Option.some_inj] at hy
        subst hy
        refine ⟨s₂,hs₂,?_,fun h => absurd rfl h⟩
        unfold Segment.SameButRecord
        rw [hss₂,hss]
      by_cases hqp : q = p
      · subst hqp
        rw [hx,Option.some_inj] at hy
        subst hy
        refine ⟨_,hx₂,?_,fun _ => ?_⟩
        · unfold Segment.SameButRecord
          rw [hxs]
        · rw [if_pos ⟨rfl,hmet⟩,hopt,hss,hxs]
          rfl
      · obtain ⟨y',hy',hsame⟩ := hkept₁ hy
        refine ⟨y',(hother q hqp hqc).trans hy',?_,fun _ => ?_⟩
        · unfold Segment.SameButRecord
          rw [hsame]
        · rw [if_neg (by simp [hqp]),hsame]
    · intro q hq
      have hqp : q ≠ p := by rintro rfl; rw [hx] at hq; cases hq
      have hqc : q ≠ c := by rintro rfl; rw [hs] at hq; cases hq
      exact (hother q hqp hqc).trans (hdead₁ hq)

/-- What discarding `c`, a child of `p`, does. -/
structure Discarded (t : Txn) (c p : SegPtr) (s : Segment) (t' : Txn) : Prop where
  gone : t'.segs c = none
  kept : ∀ q y, q ≠ c → t.segs q = some y → ∃ y', t'.segs q = some y' ∧ y'.fixed = y.fixed ∧
    y'.parent = (if y.parent = some c then some p else y.parent) ∧
    (q ≠ p → y'.children = y.children) ∧
    y'.exclusiveTime = if q = p ∧ s.metrics ≠ [] then
      mergedTime t.options.maxSegments s y else y.exclusiveTime
  dead : ∀ q, t.segs q = none → t'.segs q = none
  kids : ∀ y y', t.segs p = some y → t'.segs p = some y' →
    y'.children.elements.Perm (y.children.elements.erase c ++ s.children.elements)
  rest : t' = { t with
    segs := t'.segs
    slab := { t.slab with freeList := t.slab.freeList ++ [c] }
    defaultParentStack := (t.unstack s.asyncContext c).defaultParentStack
    parentStacks := (t.unstack s.asyncContext c).parentStacks
    guidsUsed := t'.guidsUsed
    spanQueue := t'.spanQueue
    scopedMetrics := t'.scopedMetrics
    unscopedMetrics := t'.unscopedMetrics }
  linked : Linked t'.view

lemma discard_eq (hs : t.segs c = some s) (hpar : s.parent = some p) :
    t.discard c = ((t.retireCurrentSegment c).bind fun t =>
      if s.metrics ≠ [] then t.discardMergeMetrics c else some t).bind fun t =>
        (t.childrenRemove p c).bind fun r => match r with
          | (false,t) => some (false,t)
          | (true,t) => (t.childrenReparent c p).bind fun t => some (true,t.destroy c) := by
  simp only [discard,hs,Option.bind_eq_bind,Option.bind_some,hpar,Option.bind_assoc]
  congr 1
  funext t
  split_ifs <;> rfl

/-- The links around `c`, after its children were adopted. -/
lemma Reparented.linkedBut {s n : Segment} (h : Reparented t c p s n t') (hlink : LinkedBut t.view c)
    (hs : t.segs c = some s) (hn : t.segs p = some n) (hne : p ≠ c) (hp : p ∉ s.children.elements) :
    LinkedBut t'.view c := by
  obtain ⟨n',hn',hkids,hsame⟩ := h.parent
  obtain ⟨s',hs',hnone,hsame'⟩ := h.emptied
  refine hlink.adopt hne (view_of_segs hn) (view_of_segs hs) hp ?_ ?_ ?_ ?_
  · rw [view_of_segs hn',hsame]
    simp only [Segment.node,← hkids]
  · rw [view_of_segs hs',hsame']
    simp only [Segment.node,hnone]
  · intro i k m hi hmk
    obtain ⟨y,hy,rfl⟩ := view_eq_some.mp hmk
    exact view_of_segs (h.kid i k y hi hy)
  · intro q hqp hqc hqk
    exact congrArg (Option.map Segment.node) (h.other q hqp hqc hqk)

/-- What becomes of the other segments. -/
lemma Reparented.kept {s n : Segment} (h : Reparented t c p s n t') (hn : t.segs p = some n)
    (hp : p ∉ s.children.elements) {q : SegPtr} {y : Segment} (hqc : q ≠ c) (hy : t.segs q = some y) :
    ∃ y', t'.segs q = some y' ∧ y'.fixed = y.fixed ∧
      y'.parent = (if q ∈ s.children.elements then some p else y.parent) ∧
      (q ≠ p → y'.children = y.children) ∧ y'.exclusiveTime = y.exclusiveTime := by
  by_cases hqp : q = p
  · subst hqp
    rw [hn,Option.some_inj] at hy
    subst hy
    obtain ⟨n',hn',-,hsame⟩ := h.parent
    refine ⟨n',hn',by rw [hsame]; rfl,by rw [if_neg hp,hsame],fun hqp => absurd rfl hqp,by rw [hsame]⟩
  by_cases hqk : q ∈ s.children.elements
  · obtain ⟨i,hi⟩ := List.mem_iff_getElem?.mp hqk
    exact ⟨_,h.kid i q y hi hy,rfl,(if_pos hqk).symm,fun _ => rfl,rfl⟩
  · exact ⟨y,(h.other q hqp hqc hqk).trans hy,rfl,(if_neg hqk).symm,fun _ => rfl,rfl⟩

lemma discard_spec (h : Inv t) (hs : t.segs c = some s) (hpar : s.parent = some p) :
    ∃ t', t.discard c = some (true,t') ∧ Discarded t c p s t' := by
  obtain ⟨x,hx,-⟩ := h.parent_live hs hpar
  have hne : p ≠ c := fun heq => h.parent_ne hs (heq ▸ hpar)
  obtain ⟨t₂,hmerge,hm⟩ := retire_merge_spec h hs hpar hx
  obtain ⟨s₂,hs₂,hss,-⟩ := hm.kept c s hs
  have hpar₂ : s₂.parent = some p := by rw [hss]; exact hpar
  have hlink₂ : Linked t₂.view := hm.view_eq ▸ h.linked
  have hroot₂ : Rooted t₂.view := hm.view_eq ▸ h.rooted
  obtain ⟨t₃,hrem,hun⟩ := childrenRemove_spec hlink₂ hroot₂ hs₂ hpar₂
  obtain ⟨s₃,hs₃,hsp,hsc⟩ := hun.kept c s₂ hs₂
  have hkids : s₃.children.elements = s.children.elements := by rw [hsc hne.symm,hss]
  obtain ⟨x₂,hx₂,hxs,hxt⟩ := hm.kept p x hx
  obtain ⟨x₃,hx₃,hxp,-⟩ := hun.kept p x₂ hx₂
  -- the parent is not below the segment
  have hpk : p ∉ s₃.children.elements := by
    rw [hkids]
    intro hmem
    obtain ⟨y,hy,hyp⟩ := h.child_live hs hmem
    exact h.rooted.acyclic c (.tail (.single ⟨_,view_of_segs hy,hyp⟩) ⟨_,view_of_segs hs,hpar⟩)
  have hchild : ∀ k ∈ s₃.children.elements, k ≠ p ∧ k ≠ c ∧ ∃ y, t₃.segs k = some y := by
    intro k hk
    obtain ⟨i,hi⟩ := List.mem_iff_getElem?.mp hk
    obtain ⟨hkc,m,hm,-⟩ := hun.linked.kid (view_of_segs hs₃) hi
    obtain ⟨y,hy,-⟩ := view_eq_some.mp hm
    exact ⟨fun heq => hpk (heq ▸ hk),hkc,y,hy⟩
  have hnd : s₃.children.elements.Nodup := hkids ▸ h.linked.kids_nodup (view_of_segs hs)
  obtain ⟨t₄,hrep,hadopt⟩ := childrenReparent_eq hs₃ hx₃ hne hnd hchild
  have hdiscard : t.discard c = some (true,t₄.destroy c) := by
    rw [discard_eq hs hpar,hmerge,Option.bind_some,hrem,Option.bind_some]
    simp only [hrep,Option.bind_some]
  refine ⟨_,hdiscard,Function.update_self ..,?_,?_,?_,?_,?_⟩
  · intro q y hqc hy
    obtain ⟨y₂,hy₂,hys,hyt⟩ := hm.kept q y hy
    obtain ⟨y₃,hy₃,hyp,hyc⟩ := hun.kept q y₂ hy₂
    obtain ⟨y₄,hy₄,hfix,hpar₄,hchild₄,htime⟩ := hadopt.kept hx₃ hpk hqc hy₃
    have hmem : q ∈ s₃.children.elements ↔ y.parent = some c := by
      rw [hkids]
      exact h.linked.mem_kids_iff (view_of_segs hs) (view_of_segs hy)
    refine ⟨y₄,(Function.update_of_ne hqc ..).trans hy₄,hfix.trans (by rw [hyp,hys]; rfl),?_,
      fun hqp => (hchild₄ hqp).trans (by rw [hyc hqp,hys]),htime.trans ?_⟩
    · rw [hpar₄,if_congr hmem rfl rfl,hyp,hys]
    · rw [hyp]
      exact hyt hqc
  · intro q hq
    have hqc : q ≠ c := by rintro rfl; rw [hs] at hq; cases hq
    have hqp : q ≠ p := by rintro rfl; rw [hx] at hq; cases hq
    have hq₃ := hun.dead q (hm.dead q hq)
    have hqk : q ∉ s₃.children.elements := by
      intro hmem
      obtain ⟨-,-,y,hy⟩ := hchild q hmem
      rw [hq₃] at hy
      cases hy
    exact (Function.update_of_ne hqc ..).trans ((hadopt.other q hqp hqc hqk).trans hq₃)
  · intro y y' hy hy'
    have hy' : t₄.segs p = some y' := (Function.update_of_ne hne ..).symm.trans hy'
    obtain ⟨x₄,hx₄,hkids₄,-⟩ := hadopt.parent
    rw [hx,Option.some_inj] at hy
    rw [hx₄,Option.some_inj] at hy'
    subst hy hy'
    rw [hkids₄,hkids]
    refine List.Perm.append_right _ ((hun.kids x₂ x₃ hx₂ hx₃).trans ?_)
    rw [hxs]
  · rw [destroy,releaseSegment,hadopt.rest,hun.rest,hm.rest]
  · obtain ⟨s₄,hs₄,hnone,-⟩ := hadopt.emptied
    refine (hadopt.linkedBut hun.linked hs₃ hx₃ hne hpk).release (view_of_segs hs₄) hnone ?_ ?_
    · exact view_eq_none.mpr (Function.update_self ..)
    · intro q hqc
      exact congrArg (Option.map Segment.node) (Function.update_of_ne hqc ..)

/-- A live segment after the discard is one from before it. -/
theorem Discarded.back (h : Discarded t c p s t') {q : SegPtr} {y' : Segment}
    (hq : t'.segs q = some y') : q ≠ c ∧ ∃ y, t.segs q = some y ∧ y'.fixed = y.fixed := by
  have hqc : q ≠ c := by
    rintro rfl
    rw [h.gone] at hq
    cases hq
  refine ⟨hqc,?_⟩
  cases hy : t.segs q with
  | none =>
    rw [h.dead q hy] at hq
    cases hq
  | some y =>
    obtain ⟨z,hz,hfix,-⟩ := h.kept q y hqc hy
    rw [hq,Option.some_inj] at hz
    exact ⟨y,rfl,hz ▸ hfix⟩

lemma Discarded.inv (hinv : Inv t) (hs : t.segs c = some s)
    (hpar : s.parent = some p) (h : Discarded t c p s t') : Inv t' := by
  have hslab : t'.slab = { t.slab with freeList := t.slab.freeList ++ [c] } := by rw [h.rest]
  have hself : t'.self = t.self := by rw [h.rest]
  have hstack : ∀ k, t'.stackOf k = (t.unstack s.asyncContext c).stackOf k := by
    intro k
    rw [h.rest]
    rfl
  refine ⟨⟨?_,?_,?_,?_,?_,?_,?_,?_⟩,h.linked,?_⟩
  · intro q y' hq
    obtain ⟨-,y,hy,hfix⟩ := h.back hq
    rw [hself,← hinv.owned hy]
    exact Segment.eq_of_fixed Segment.txn (fun _ => rfl) hfix
  · intro q y' hq
    obtain ⟨-,y,hy,-⟩ := h.back hq
    rw [hslab]
    exact hinv.live_lt hy
  · intro q y' hq
    obtain ⟨hqc,y,hy,-⟩ := h.back hq
    rw [hslab,List.mem_append,List.mem_singleton]
    exact not_or.mpr ⟨hinv.live_notMem hy,hqc⟩
  · intro q hq
    rw [hslab,List.mem_append,List.mem_singleton] at hq
    rw [hslab]
    rcases hq with hq | rfl
    · exact hinv.free_lt hq
    · exact hinv.live_lt hs
  · rw [hslab,List.nodup_append]
    refine ⟨hinv.free_nodup,List.nodup_singleton c,fun a ha b hb => ?_⟩
    rw [List.mem_singleton] at hb
    rintro rfl
    exact hinv.live_notMem hs (hb ▸ ha)
  · intro k stack' hk
    obtain ⟨stack,hst,hsub,-⟩ := hinv.unstack_spec hs ((hstack k).symm.trans hk)
    exact (hinv.stack_nodup hst).sublist hsub
  · intro k stack' q hk hq
    obtain ⟨stack,hst,hsub,hnot⟩ := hinv.unstack_spec hs ((hstack k).symm.trans hk)
    obtain ⟨y,hy,hctx⟩ := hinv.stack_live hst (hsub.subset hq)
    have hqc : q ≠ c := fun heq => hnot (heq ▸ hq)
    obtain ⟨y',hy',hfix,-⟩ := h.kept q y hqc hy
    exact ⟨y',hy',(Segment.eq_of_fixed Segment.asyncContext (fun _ => rfl) hfix).trans hctx⟩
  · rw [h.rest]
    exact hinv.unforced
  · refine hinv.rooted.remove (view_of_segs hs) ?_ ?_
    · intro a n hac ha
      obtain ⟨y,hy,rfl⟩ := view_eq_some.mp ha
      obtain ⟨y',hy',-,hp',-⟩ := h.kept a y hac hy
      refine ⟨_,view_of_segs hy',?_⟩
      simp only [Segment.node_parent,hp',hpar]
    · intro a n ha
      obtain ⟨y',hy',-⟩ := view_eq_some.mp ha
      obtain ⟨hac,y,hy,-⟩ := h.back hy'
      exact ⟨hac,_,view_of_segs hy⟩

end Txn
end PhpAgent
