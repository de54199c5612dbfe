import PhpAgent.Segment.StoreSpec

/-! The invariant of the segments of a transaction, and that starting a segment keeps it. -/
namespace PhpAgent
namespace Txn
open PointerTree
variable {t t' : Txn} {p c : SegPtr} {s : Segment} {asyncContext : Option Bytes} {parent : Option SegPtr}

/-- The slab, the parent stacks and the live segments agree. -/
structure Store (t : Txn) : Prop where
  owned : ∀ {p s}, t.segs p = some s → s.txn = t.self
  live_lt : ∀ {p s}, t.segs p = some s → p < t.slab.next
  live_notMem : ∀ {p s}, t.segs p = some s → p ∉ t.slab.freeList
  free_lt : ∀ {p}, p ∈ t.slab.freeList → p < t.slab.next
  free_nodup : t.slab.freeList.Nodup
  stack_nodup : ∀ {context stack}, t.stackOf context = some stack → stack.elements.Nodup
  stack_live : ∀ {context stack p}, t.stackOf context = some stack → p ∈ stack.elements →
    ∃ s, t.segs p = some s ∧ s.asyncContext = context
  unforced : t.forceCurrentSegment = none

/-- The invariant of the segments of a transaction. -/
structure Inv (t : Txn) : Prop extends Store t where
  linked : Linked t.view
  rooted : Rooted t.view

lemma stackOf_setStackOf (t : Txn) (context : ℕ) (stack : NrStack SegPtr) (k : ℕ) :
    (t.setStackOf context stack).stackOf k = if k = context then some stack else t.stackOf k := by
  unfold setStackOf stackOf
  by_cases hc : context = 0
  · subst hc
    by_cases hk : k = 0
    · simp [hk]
    · simp [hk]
  · by_cases hk : k = 0
    · subst hk
      simp [hc,Ne.symm hc]
    · by_cases hkc : k = context
      · simp [hkc,hc]
      · simp [hc,hk,hkc]

/-- The same segments are live, in the same transaction and context. -/
def SameOwner (t t' : Txn) : Prop :=
  ∀ q, (t'.segs q).map (fun s => (s.txn,s.asyncContext)) =
    (t.segs q).map fun s => (s.txn,s.asyncContext)

lemma SameFixed.owner (h : SameFixed t t') : SameOwner t t' := by
  intro q
  have := congrArg (Option.map fun s : Segment => (s.txn,s.asyncContext)) (h q)
  rw [Option.map_map,Option.map_map] at this
  exact this

lemma SameOwner.some (h : SameOwner t t') (hs : t.segs p = some s) :
    ∃ s', t'.segs p = some s' ∧ s'.txn = s.txn ∧ s'.asyncContext = s.asyncContext := by
  have := h p
  rw [hs,Option.map_some,Option.map_eq_some_iff] at this
  obtain ⟨s',hs',heq⟩ := this
  exact ⟨s',hs',congrArg Prod.fst heq,congrArg Prod.snd heq⟩

/-- Nothing the invariant reads of the store has changed. -/
theorem Store.congr (h : Store t) (hown : SameOwner t t') (hself : t'.self = t.self)
    (hslab : t'.slab = t.slab) (hstack : ∀ k, t'.stackOf k = t.stackOf k)
    (hforce : t'.forceCurrentSegment = t.forceCurrentSegment) : Store t' := by
  have hback : ∀ {p s'}, t'.segs p = some s' →
      ∃ s, t.segs p = some s ∧ s.txn = s'.txn ∧ s.asyncContext = s'.asyncContext :=
    fun hs' => SameOwner.some (fun q => (hown q).symm) hs'
  constructor
  · intro p s' hs'
    obtain ⟨s,hs,htxn,-⟩ := hback hs'
    rw [hself,← h.owned hs,htxn]
  · intro p s' hs'
    obtain ⟨s,hs,-⟩ := hback hs'
    exact hslab ▸ h.live_lt hs
  · intro p s' hs'
    obtain ⟨s,hs,-⟩ := hback hs'
    exact hslab ▸ h.live_notMem hs
  · intro p hp
    rw [hslab] at *
    exact h.free_lt hp
  · exact hslab ▸ h.free_nodup
  · intro k stack hk
    exact h.stack_nodup ((hstack k).symm.trans hk)
  · intro k stack p hk hp
    obtain ⟨s,hs,hctx⟩ := h.stack_live ((hstack k).symm.trans hk) hp
    obtain ⟨s',hs',-,hctx'⟩ := hown.some hs
    exact ⟨s',hs',hctx'.trans hctx⟩
  · exact hforce.trans h.unforced

/-- Neither the store nor the tree has changed. -/
theorem Inv.congr (h : Inv t) (hown : SameOwner t t') (hself : t'.self = t.self)
    (hslab : t'.slab = t.slab) (hstack : ∀ k, t'.stackOf k = t.stackOf k)
    (hforce : t'.forceCurrentSegment = t.forceCurrentSegment) (hview : t'.view = t.view) : Inv t' :=
  ⟨h.toStore.congr hown hself hslab hstack hforce,hview ▸ h.linked,hview ▸ h.rooted⟩

/-- Writing to a segment without touching its place, its owner or its context. -/
theorem Inv.update (h : Inv t) {f : Segment → Segment} (hupd : t.update p f = some t')
    (hf : ∀ s, (f s).node = s.node ∧ (f s).txn = s.txn ∧ (f s).asyncContext = s.asyncContext) :
    Inv t' := by
  obtain ⟨s,hs,rfl⟩ := update_eq_some hupd
  obtain ⟨hnode,htxn,hctx⟩ := hf s
  refine h.congr (fun q => ?_) rfl rfl (fun _ => rfl) rfl ?_
  · by_cases hq : q = p
    · subst hq
      simp [hs,htxn,hctx]
    · simp [Function.update_of_ne hq]
  · funext q
    by_cases hq : q = p
    · subst hq
      simp [view,hs,hnode]
    · simp [view,Function.update_of_ne hq]

lemma Inv.child_live (h : Inv t) (hs : t.segs p = some s) (hc : c ∈ s.children.elements) :
    ∃ x, t.segs c = some x ∧ x.parent = some p := by
  obtain ⟨i,hi⟩ := List.mem_iff_getElem?.mp hc
  obtain ⟨m,hm,hpar,-⟩ := h.linked.kid (view_of_segs hs) hi
  obtain ⟨x,hx,rfl⟩ := view_eq_some.mp hm
  exact ⟨x,hx,hpar⟩

lemma Inv.parent_live (h : Inv t) {x : Segment} (hx : t.segs c = some x) (hpar : x.parent = some p) :
    ∃ s, t.segs p = some s ∧ s.children.elements[x.childIx]? = some c := by
  obtain ⟨n,hn,hget⟩ := h.linked.parent (view_of_segs hx) hpar
  obtain ⟨s,hs,rfl⟩ := view_eq_some.mp hn
  exact ⟨s,hs,hget⟩

lemma Inv.parent_ne (h : Inv t) (hs : t.segs p = some s) : s.parent ≠ some p :=
  h.rooted.parent_ne (view_of_segs hs)

/-! ### Starting -/

/-- The segment that is made the parent: the explicit one or the current one. -/
def effectiveParent (t : Txn) (parent : Option SegPtr) (asyncContext : Option Bytes) : Option SegPtr :=
  parent.or ((t.internContext asyncContext).2.implicitParent asyncContext)

/-- A segment that has just been initialised, with its parent still to be set. -/
def newborn (t : Txn) (now context : ℕ) : Segment :=
  { Segment.zero with
    txn := t.self
    startTime := timeDuration t.absStartTime now
    asyncContext := context }

/-- What a start does: `p` is new below `o`. -/
structure Started (t : Txn) (now : ℕ) (parent : Option SegPtr) (asyncContext : Option Bytes)
    (p : SegPtr) (t' : Txn) : Prop where
  fresh : t.segs p = none
  slab : p < t'.slab.next ∧ p ∉ t'.slab.freeList ∧ t.slab.next ≤ t'.slab.next ∧
    List.Sublist t'.slab.freeList t.slab.freeList
  born : ∃ ix, t'.segs p = some { t.newborn now (t.internContext asyncContext).1 with
    parent := t.effectiveParent parent asyncContext, childIx := ix }
  below : ∀ q x, t.effectiveParent parent asyncContext = some q → t.segs q = some x →
    ∃ x', t'.segs q = some x' ∧ x.SameButChildren x' ∧
      x'.children.elements = x.children.elements ++ [p]
  ix : ∀ q x s, t.effectiveParent parent asyncContext = some q → t.segs q = some x →
    t'.segs p = some s → s.childIx = x.children.elements.length
  other : ∀ q, q ≠ p → t.effectiveParent parent asyncContext ≠ some q → t'.segs q = t.segs q
  pushed : ∀ k, t'.stackOf k =
    if parent = none ∧ k = (t.internContext asyncContext).1 then
      some (((t.stackOf k).getD (.init NrStack.defaultCapacity)).push p)
    else t.stackOf k
  rest : t' = { t with
    segs := t'.segs
    slab := t'.slab
    traceStrings := (t.internContext asyncContext).2.traceStrings
    defaultParentStack := t'.defaultParentStack
    parentStacks := t'.parentStacks }

lemma allocateSegment_spec (h : Store t) : ∃ p t₁, t.allocateSegment = (p,t₁) ∧
    t.segs p = none ∧ t₁ = { t with segs := Function.update t.segs p (some .zero), slab := t₁.slab } ∧
    p < t₁.slab.next ∧ p ∉ t₁.slab.freeList ∧ t.slab.next ≤ t₁.slab.next ∧
    List.Sublist t₁.slab.freeList t.slab.freeList := by
  unfold allocateSegment
  cases hf : t.slab.freeList.getLast? with
  | none =>
    have hnone : t.segs t.slab.next = none := by
      cases hs : t.segs t.slab.next with
      | none => rfl
      | some s => exact absurd (h.live_lt hs) (lt_irrefl _)
    have hnil : t.slab.freeList = [] := List.getLast?_eq_none_iff.mp hf
    exact ⟨_,_,rfl,hnone,rfl,Nat.lt_succ_self _,by simp [hnil],Nat.le_succ _,List.Sublist.refl _⟩
  | some p =>
    have hmem : p ∈ t.slab.freeList := List.mem_of_getLast? hf
    have hnone : t.segs p = none := by
      cases hs : t.segs p with
      | none => rfl
      | some s => exact absurd hmem (h.live_notMem hs)
    have hsplit : t.slab.freeList.dropLast ++ [p] = t.slab.freeList :=
      List.dropLast_append_getLast? p hf
    have hnd : p ∉ t.slab.freeList.dropLast := by
      have := h.free_nodup
      rw [← hsplit,List.nodup_append] at this
      exact fun hp => this.2.2 p hp p (by simp) rfl
    exact ⟨_,_,rfl,hnone,rfl,h.free_lt hmem,hnd,le_rfl,List.dropLast_sublist _⟩

/-- Entering the children of a parent, or of nobody. -/
theorem childrenAdd_spec (hs : t.segs p = some s) (o : Option SegPtr)
    (ho : ∀ q, o = some q → q ≠ p ∧ ∃ x, t.segs q = some x) :
    ∃ t', (match o with | some q => t.childrenAdd q p | none => some t) = some t' ∧
      t' = { t with segs := t'.segs } ∧
      (∃ ix, t'.segs p = some { s with childIx := ix }) ∧
      (∀ q x, o = some q → t.segs q = some x → ∃ x', t'.segs q = some x' ∧ x.SameButChildren x' ∧
        x'.children.elements = x.children.elements ++ [p]) ∧
      (∀ q x s', o = some q → t.segs q = some x → t'.segs p = some s' →
        s'.childIx = x.children.elements.length) ∧
      ∀ q, q ≠ p → o ≠ some q → t'.segs q = t.segs q := by
  cases o with
  | none =>
    exact ⟨t,rfl,rfl,⟨s.childIx,hs⟩,fun q x h => (by cases h),fun q x s' h => (by cases h),
      fun _ _ _ => rfl⟩
  | some q =>
    obtain ⟨hqp,x,hx⟩ := ho q rfl
    refine ⟨_,childrenAdd_eq hx hs hqp,rfl,⟨_,Function.update_self ..⟩,?_,?_,?_⟩
    · rintro q' y ⟨⟩ hy
      rw [hx,Option.some_inj] at hy
      subst hy
      exact ⟨_,(Function.update_of_ne hqp ..).trans (Function.update_self ..),rfl,by simp⟩
    · rintro q' y s' ⟨⟩ hy hs'
      rw [hx,Option.some_inj] at hy
      subst hy
      simp only [Function.update_self,Option.some_inj] at hs'
      rw [← hs']
    · intro q' hqp' hne
      have hqq : q' ≠ q := fun h => hne (h ▸ rfl)
      exact (Function.update_of_ne hqp' ..).trans (Function.update_of_ne hqq ..)

lemma Store.getTop_live (h : Store t) {k : ℕ} {stack : NrStack SegPtr} (hk : t.stackOf k = some stack)
    (hp : NrStack.getTop stack = some p) : ∃ s, t.segs p = some s := by
  obtain ⟨s,hs,-⟩ := h.stack_live hk (NrStack.mem_of_getTop hp)
  exact ⟨s,hs⟩

lemma Store.getCurrentSegment_live (h : Store t)
    (hp : t.getCurrentSegment asyncContext = some p) : ∃ s, t.segs p = some s := by
  unfold getCurrentSegment at hp
  cases asyncContext with
  | none =>
    simp only [h.unforced] at hp
    exact h.getTop_live (k := 0) rfl hp
  | some context =>
    simp only at hp
    split_ifs at hp with hidx
    obtain ⟨stack,hstack,htop⟩ := Option.bind_eq_some_iff.mp hp
    exact h.getTop_live (k := t.traceStrings.find context) (by simp [stackOf,hidx,hstack]) htop

lemma Store.implicitParent_live (h : Store t)
    (hp : t.implicitParent asyncContext = some p) : ∃ s, t.segs p = some s := by
  unfold implicitParent at hp
  split at hp
  · rename_i q hq
    rw [← Option.some_inj.mp hp]
    exact h.getCurrentSegment_live hq
  · split_ifs at hp
    exact h.getCurrentSegment_live hp

lemma internContext_rest (t : Txn) (asyncContext : Option Bytes) :
    (t.internContext asyncContext).2 =
      { t with traceStrings := (t.internContext asyncContext).2.traceStrings } := by
  cases asyncContext <;> rfl

lemma Store.internContext (h : Store t) (asyncContext : Option Bytes) :
    Store (t.internContext asyncContext).2 := by
  rw [internContext_rest]
  exact h.congr (fun _ => rfl) rfl rfl (fun _ => rfl) rfl

lemma Store.effectiveParent_live (h : Store t) (hpar : ∀ q, parent = some q → ∃ x, t.segs q = some x)
    (hp : t.effectiveParent parent asyncContext = some p) : ∃ s, t.segs p = some s := by
  unfold effectiveParent at hp
  cases parent with
  | some q => exact hpar p hp
  | none =>
    rw [Option.none_or] at hp
    obtain ⟨s,hs⟩ := (h.internContext asyncContext).implicitParent_live hp
    rw [internContext_rest] at hs
    exact ⟨s,hs⟩

lemma setCurrentSegment_eq (hs : t.segs p = some s) :
    t.setCurrentSegment p = some (t.setStackOf s.asyncContext
      (((t.stackOf s.asyncContext).getD (.init NrStack.defaultCapacity)).push p)) := by
  simp [setCurrentSegment,hs]

lemma setStackOf_rest (t : Txn) (context : ℕ) (stack : NrStack SegPtr) :
    t.setStackOf context stack = { t with
      defaultParentStack := (t.setStackOf context stack).defaultParentStack
      parentStacks := (t.setStackOf context stack).parentStacks } := by
  unfold setStackOf
  split <;> rfl

lemma internContext_congr (h : t'.traceStrings = t.traceStrings) (asyncContext : Option Bytes) :
    t'.internContext asyncContext = ((t.internContext asyncContext).1,
      { t' with traceStrings := (t.internContext asyncContext).2.traceStrings }) := by
  cases asyncContext with
  | none => simp [Txn.internContext,← h]
  | some context => simp [Txn.internContext,h]

lemma implicitParent_congr (hpool : t'.traceStrings = t.traceStrings)
    (hstack : ∀ k, t'.stackOf k = t.stackOf k)
    (hforce : t'.forceCurrentSegment = t.forceCurrentSegment) (asyncContext : Option Bytes) :
    t'.implicitParent asyncContext = t.implicitParent asyncContext := by
  have hcur : ∀ a, t'.getCurrentSegment a = t.getCurrentSegment a := by
    intro a
    unfold getCurrentSegment
    cases a with
    | none =>
      have h0 : t'.defaultParentStack = t.defaultParentStack := Option.some_inj.mp (hstack 0)
      simp only [hforce,h0]
    | some context =>
      simp only [hpool]
      split_ifs with hidx
      · rfl
      · have := hstack (t.traceStrings.find context)
        simp only [stackOf,hidx,if_false] at this
        rw [this]
  simp only [implicitParent,hcur]

/-- The new segment before it enters the children of its parent. -/
def initialised (t : Txn) (now : ℕ) (p : SegPtr) (parent : Option SegPtr)
    (asyncContext : Option Bytes) : Txn :=
  { (t.internContext asyncContext).2 with
    segs := Function.update t.segs p (some { t.newborn now (t.internContext asyncContext).1 with
      parent := t.effectiveParent parent asyncContext }) }

lemma init_eq (hp : t.segs p = some .zero) (now : ℕ) (parent : Option SegPtr)
    (asyncContext : Option Bytes) : t.init now p parent asyncContext =
      (match t.effectiveParent parent asyncContext with
        | some q => (t.initialised now p parent asyncContext).childrenAdd q p
        | none => some (t.initialised now p parent asyncContext)).bind fun t =>
          if parent = none then t.setCurrentSegment p else some t := by
  have hp' : (t.internContext asyncContext).2.segs p = some .zero := by
    rw [internContext_rest]
    exact hp
  have himp : ∀ segs, Txn.implicitParent { (t.internContext asyncContext).2 with segs := segs }
      asyncContext = (t.internContext asyncContext).2.implicitParent asyncContext :=
    fun segs => implicitParent_congr rfl (fun _ => rfl) rfl asyncContext
  simp only [init,update,Option.bind_eq_bind,hp',Option.bind_some,Option.pure_def,himp,
    Function.update_self,Function.update_idem]
  unfold initialised newborn effectiveParent
  generalize parent.or ((t.internContext asyncContext).2.implicitParent asyncContext) = above
  cases above <;> cases asyncContext <;> rfl

lemma effectiveParent_congr (hpool : t'.traceStrings = t.traceStrings)
    (hstack : ∀ k, t'.stackOf k = t.stackOf k)
    (hforce : t'.forceCurrentSegment = t.forceCurrentSegment) (parent : Option SegPtr)
    (asyncContext : Option Bytes) :
    t'.effectiveParent parent asyncContext = t.effectiveParent parent asyncContext := by
  unfold effectiveParent
  congr 1
  apply implicitParent_congr
  · rw [internContext_congr hpool]
  · intro k
    rw [internContext_rest t',internContext_rest t]
    exact hstack k
  · rw [internContext_rest t',internContext_rest t]
    exact hforce

lemma start_spec (h : Store t) (hrec : t.recording = true) (now : ℕ) (parent : Option SegPtr)
    (asyncContext : Option Bytes) (hpar : ∀ q, parent = some q → ∃ x, t.segs q = some x) :
    ∃ p t', t.start now parent asyncContext = some (some p,t') ∧
      Started t now parent asyncContext p t' := by
  obtain ⟨p,t₁,halloc,hfresh,ht₁,hslab⟩ := allocateSegment_spec h
  have hne : ∀ {q x}, t.segs q = some x → q ≠ p := by
    rintro q x hq rfl
    rw [hfresh] at hq
    cases hq
  have hp₁ : t₁.segs p = some .zero := by rw [ht₁]; exact Function.update_self ..
  have hctx : t₁.internContext asyncContext = ((t.internContext asyncContext).1,
      { t₁ with traceStrings := (t.internContext asyncContext).2.traceStrings }) :=
    internContext_congr (by rw [ht₁]) asyncContext
  have heff : t₁.effectiveParent parent asyncContext = t.effectiveParent parent asyncContext :=
    effectiveParent_congr (by rw [ht₁]) (fun k => by rw [ht₁]; rfl) (by rw [ht₁]) parent asyncContext
  have hborn : t₁.newborn now = t.newborn now := by rw [ht₁]; rfl
  have ht₂ : t₁.initialised now p parent asyncContext = { t with
      segs := Function.update t.segs p (some { t.newborn now (t.internContext asyncContext).1 with
        parent := t.effectiveParent parent asyncContext })
      slab := t₁.slab
      traceStrings := (t.internContext asyncContext).2.traceStrings } := by
    unfold initialised
    rw [hctx,heff,hborn,ht₁]
    simp only [Function.update_idem]
  have hlive : ∀ q, t₁.effectiveParent parent asyncContext = some q →
      q ≠ p ∧ ∃ x, (t₁.initialised now p parent asyncContext).segs q = some x := by
    intro q hq
    obtain ⟨x,hx⟩ := h.effectiveParent_live hpar (heff ▸ hq)
    rw [ht₂]
    exact ⟨hne hx,x,(Function.update_of_ne (hne hx) ..).trans hx⟩
  have hp₂ : (t₁.initialised now p parent asyncContext).segs p =
      some { t.newborn now (t.internContext asyncContext).1 with
        parent := t.effectiveParent parent asyncContext } := by
    rw [ht₂]
    exact Function.update_self ..
  have hother₂ : ∀ q, q ≠ p → (t₁.initialised now p parent asyncContext).segs q = t.segs q := by
    intro q hq
    rw [ht₂]
    exact Function.update_of_ne hq ..
  obtain ⟨t₃,hadd,hrest₃,⟨ix,hp₃⟩,hbelow,hix,hother⟩ :=
    childrenAdd_spec hp₂ (t₁.effectiveParent parent asyncContext) hlive
  have hstart : t.start now parent asyncContext =
      (if parent = none then t₃.setCurrentSegment p else some t₃).bind fun t' => some (some p,t') := by
    simp only [start,hrec,Bool.not_true,halloc,Option.bind_eq_bind,init_eq hp₁,hadd,Option.bind_some]
    rfl
  have hstack₃ : ∀ k, t₃.stackOf k = t.stackOf k := by
    intro k
    rw [hrest₃,ht₂]
    rfl
  rw [heff] at hbelow hix hother
  -- the facts about t₃ that pushing the new segment does not touch
  have hseg : ∀ {t'}, t'.segs = t₃.segs → t'.slab = t₁.slab →
      t' = { t with
        segs := t'.segs
        slab := t'.slab
        traceStrings := (t.internContext asyncContext).2.traceStrings
        defaultParentStack := t'.defaultParentStack
        parentStacks := t'.parentStacks } →
      (∀ k, t'.stackOf k = if parent = none ∧ k = (t.internContext asyncContext).1 then
        some (((t.stackOf k).getD (.init NrStack.defaultCapacity)).push p) else t.stackOf k) →
      Started t now parent asyncContext p t' := by
    intro t' hsegs hsl hrest hstk
    refine ⟨hfresh,hsl ▸ hslab,⟨ix,hsegs ▸ hp₃⟩,?_,?_,?_,hstk,hrest⟩
    · intro q x hq hx
      rw [hsegs]
      exact hbelow q x hq ((hother₂ q (hne hx)).trans hx)
    · intro q x s hq hx hs
      rw [hsegs] at hs
      exact hix q x s hq ((hother₂ q (hne hx)).trans hx) hs
    · intro q hqp hq
      rw [hsegs]
      exact (hother q hqp hq).trans (hother₂ q hqp)
  by_cases hnone : parent = none
  · rw [hstart,if_pos hnone,setCurrentSegment_eq hp₃,Option.bind_some]
    refine ⟨p,_,rfl,hseg (by simp) ?_ ?_ ?_⟩
    · rw [setStackOf_rest,hrest₃,ht₂]
    · rw [setStackOf_rest,hrest₃,ht₂]
    · intro k
      rw [stackOf_setStackOf,hstack₃,hstack₃]
      by_cases hk : k = (t.internContext asyncContext).1
      · simp [hk,hnone,newborn]
      · simp [hk,newborn]
  · rw [hstart,if_neg hnone,Option.bind_some]
    refine ⟨p,t₃,rfl,hseg rfl ?_ ?_ ?_⟩
    · rw [hrest₃,ht₂]
    · rw [hrest₃,ht₂]
    · intro k
      rw [if_neg (by simp [hnone]),hstack₃]

lemma Started.sameFixed {now : ℕ} (h : Started t now parent asyncContext p t')
    (hlive : ∀ q, t.effectiveParent parent asyncContext = some q → ∃ x, t.segs q = some x) :
    ∀ q, q ≠ p → (t'.segs q).map Segment.fixed = (t.segs q).map Segment.fixed := by
  intro q hqp
  by_cases hq : t.effectiveParent parent asyncContext = some q
  · obtain ⟨x,hx⟩ := hlive q hq
    obtain ⟨x',hx',hsame,-⟩ := h.below q x hq hx
    rw [hx,hx',hsame]
    rfl
  · rw [h.other q hqp hq]

lemma Started.store {now : ℕ} (hst : Store t) (h : Started t now parent asyncContext p t')
    (hlive : ∀ q, t.effectiveParent parent asyncContext = some q → ∃ x, t.segs q = some x) :
    Store t' := by
  obtain ⟨ix,hborn⟩ := h.born
  have hself : t'.self = t.self := by rw [h.rest]
  have hback : ∀ {q s'}, q ≠ p → t'.segs q = some s' →
      ∃ s, t.segs q = some s ∧ s'.fixed = s.fixed := by
    intro q s' hqp hs'
    have := h.sameFixed hlive q hqp
    rw [hs',Option.map_some,eq_comm,Option.map_eq_some_iff] at this
    obtain ⟨s,hs,heq⟩ := this
    exact ⟨s,hs,heq.symm⟩
  have hpush : ∀ {k stack}, t'.stackOf k = some stack → t.stackOf k = some stack ∨
      k = (t.internContext asyncContext).1 ∧
        stack = ((t.stackOf k).getD (.init NrStack.defaultCapacity)).push p := by
    intro k stack hk
    rw [h.pushed] at hk
    split_ifs at hk with hc
    · exact .inr ⟨hc.2,(Option.some_inj.mp hk).symm⟩
    · exact .inl hk
  have hold : ∀ k, p ∉ ((t.stackOf k).getD (.init NrStack.defaultCapacity)).elements := by
    intro k hp
    cases hk : t.stackOf k with
    | none => simp [hk] at hp
    | some stack =>
      rw [hk] at hp
      obtain ⟨s,hs,-⟩ := hst.stack_live hk hp
      rw [h.fresh] at hs
      cases hs
  constructor
  · intro q s' hs'
    by_cases hqp : q = p
    · subst hqp
      rw [hborn,Option.some_inj] at hs'
      rw [← hs',hself]
      rfl
    · obtain ⟨s,hs,heq⟩ := hback hqp hs'
      rw [hself,← hst.owned hs]
      exact Segment.eq_of_fixed Segment.txn (fun _ => rfl) heq
  · intro q s' hs'
    by_cases hqp : q = p
    · exact hqp ▸ h.slab.1
    · obtain ⟨s,hs,-⟩ := hback hqp hs'
      exact lt_of_lt_of_le (hst.live_lt hs) h.slab.2.2.1
  · intro q s' hs' hfree
    by_cases hqp : q = p
    · exact h.slab.2.1 (hqp ▸ hfree)
    · obtain ⟨s,hs,-⟩ := hback hqp hs'
      exact hst.live_notMem hs (h.slab.2.2.2.subset hfree)
  · intro q hq
    exact lt_of_lt_of_le (hst.free_lt (h.slab.2.2.2.subset hq)) h.slab.2.2.1
  · exact hst.free_nodup.sublist h.slab.2.2.2
  · intro k stack hk
    rcases hpush hk with hk' | ⟨-,rfl⟩
    · exact hst.stack_nodup hk'
    · have hnd : ((t.stackOf k).getD (.init NrStack.defaultCapacity)).elements.Nodup := by
        cases hk' : t.stackOf k with
        | none => exact List.nodup_nil
        | some stack => exact hst.stack_nodup hk'
      rw [NrStack.elements_push,List.nodup_append]
      refine ⟨hnd,List.nodup_singleton p,?_⟩
      intro a ha b hb
      rw [List.mem_singleton] at hb
      rintro rfl
      exact hold k (hb ▸ ha)
  · intro k stack q hk hq
    have hkeep : ∀ {s}, t.segs q = some s → s.asyncContext = k →
        ∃ s', t'.segs q = some s' ∧ s'.asyncContext = k := by
      intro s hs hctx
      have hqp : q ≠ p := by
        rintro rfl
        rw [h.fresh] at hs
        cases hs
      have := h.sameFixed hlive q hqp
      rw [hs,Option.map_some,Option.map_eq_some_iff] at this
      obtain ⟨s',hs',heq⟩ := this
      exact ⟨s',hs',(Segment.eq_of_fixed Segment.asyncContext (fun _ => rfl) heq).trans hctx⟩
    rcases hpush hk with hk' | ⟨hctx,rfl⟩
    · obtain ⟨s,hs,hsc⟩ := hst.stack_live hk' hq
      exact hkeep hs hsc
    · rw [NrStack.elements_push,List.mem_append,List.mem_singleton] at hq
      rcases hq with hq | rfl
      · cases hk' : t.stackOf k with
        | none => simp [hk'] at hq
        | some stack =>
          rw [hk'] at hq
          obtain ⟨s,hs,hsc⟩ := hst.stack_live hk' hq
          exact hkeep hs hsc
      · exact ⟨_,hborn,hctx.symm⟩
  · rw [h.rest]
    exact hst.unforced

lemma Started.inv {now : ℕ} (hinv : Inv t) (h : Started t now parent asyncContext p t')
    (hpar : ∀ q, parent = some q → ∃ x, t.segs q = some x) : Inv t' := by
  have hlive : ∀ q, t.effectiveParent parent asyncContext = some q → ∃ x, t.segs q = some x :=
    fun q hq => hinv.effectiveParent_live hpar hq
  obtain ⟨ix,hborn⟩ := h.born
  have hfresh : t.view p = none := view_eq_none.mpr h.fresh
  have hborn' := view_of_segs hborn
  have hother : ∀ q, q ≠ p → t.effectiveParent parent asyncContext ≠ some q → t'.view q = t.view q :=
    fun q hqp hq => congrArg (Option.map Segment.node) (h.other q hqp hq)
  -- the new segment before it is one of the children of its parent
  have hbut : LinkedBut (Function.update t.view p (t'.view p)) p :=
    hinv.linked.fresh hfresh ((Function.update_self ..).trans hborn') rfl
      (fun q hq => Function.update_of_ne hq ..)
  refine ⟨h.store hinv.toStore hlive,?_,?_⟩
  · cases ho : t.effectiveParent parent asyncContext with
    | none =>
      have hview : t'.view = Function.update t.view p (t'.view p) := by
        funext q
        by_cases hqp : q = p
        · rw [hqp,Function.update_self]
        · rw [Function.update_of_ne hqp,hother q hqp (by rw [ho]; simp)]
      rw [hview]
      apply hbut.linked
      intro m hm
      rw [Function.update_self,hborn',Option.some_inj] at hm
      rw [← hm]
      exact ho
    | some q =>
      obtain ⟨x,hx⟩ := hlive q ho
      obtain ⟨x',hx',hsame,hkids⟩ := h.below q x ho hx
      have hqp : q ≠ p := by
        rintro rfl
        rw [h.fresh] at hx
        cases hx
      have hx'v : t'.view q = some { x.node with kids := x.node.kids ++ [p] } := by
        rw [view_of_segs hx']
        unfold Segment.node
        rw [hkids,hsame]
      apply hbut.attach hqp ((Function.update_of_ne hqp ..).trans (view_of_segs hx))
        ((Function.update_self ..).trans hborn') hx'v
      · rw [hborn']
        have := h.ix q x _ ho hx hborn
        simp only [Segment.node] at this ⊢
        rw [ho,this]
      · intro a haq hap
        rw [Function.update_of_ne hap]
        exact hother a hap (by rw [ho]; simpa using Ne.symm haq)
  · have hup : ∃ l, Up t.view (t.effectiveParent parent asyncContext) l := by
      cases ho : t.effectiveParent parent asyncContext with
      | none => exact ⟨[],.top⟩
      | some q =>
        obtain ⟨x,hx⟩ := hlive q ho
        exact hinv.rooted q _ (view_of_segs hx)
    obtain ⟨l,hl⟩ := hup
    have hpl : p ∉ l := by
      intro hmem
      obtain ⟨n,hn⟩ := hl.live hmem
      rw [hfresh] at hn
      cases hn
    refine hinv.rooted.set_parent hborn' hl hpl ?_ ?_
    · intro a n hap ha
      obtain ⟨s,hs,rfl⟩ := view_eq_some.mp ha
      by_cases ho : t.effectiveParent parent asyncContext = some a
      · obtain ⟨x',hx',hsame,-⟩ := h.below a s ho hs
        exact ⟨x'.node,view_of_segs hx',by rw [hsame]; rfl⟩
      · exact ⟨s.node,(hother a hap ho).trans ha,rfl⟩
    · intro a n hap ha
      by_cases ho : t.effectiveParent parent asyncContext = some a
      · obtain ⟨x,hx⟩ := hlive a ho
        exact ⟨x.node,view_of_segs hx⟩
      · exact ⟨n,(hother a hap ho).symm.trans ha⟩

end Txn
end PhpAgent
