import PhpAgent.Segment.Discard

/-! The segment tree over whole runs: parent pointers, children and child indices agree after any
sequence of starts, reparentings and discards. -/
namespace PhpAgent
namespace Txn
open PointerTree
variable {t t' : Txn}

lemma blank_inv (self absStartTime : ℕ) (options : TxnOptions) (dt : Option DistributedTrace)
    (spanQueue : Bool) (guids : ℕ → Bytes) :
    Inv (blank self absStartTime options dt spanQueue guids) where
  owned h := by cases h
  live_lt h := by cases h
  live_notMem h := by cases h
  free_lt h := by cases h
  free_nodup := List.nodup_nil
  stack_nodup {context stack} h := by
    unfold stackOf at h
    split_ifs at h
    · rw [← Option.some_inj.mp h]
      exact List.nodup_nil
    · cases h
  stack_live {context stack p} h hp := by
    unfold stackOf at h
    split_ifs at h
    · rw [← Option.some_inj.mp h] at hp
      cases hp
    · cases h
  unforced := rfl
  linked :=
    { kid := fun h => by cases h
      parent := fun h => by cases h }
  rooted _ _ h := by cases h

/-- The state `nr_txn_begin` leaves: the root is the only segment, and it is current. -/
theorem begin_spec (self absStartTime now : ℕ) (options : TxnOptions) (dt : Option DistributedTrace)
    (spanQueue : Bool) (guids : ℕ → Bytes) :
    ∃ t, begin self absStartTime now options dt spanQueue guids = some t ∧ Inv t ∧
      t.segs = Function.update (fun _ => none) 1 (some { Segment.zero with
        txn := self, priority := priorityRoot }) ∧
      t.segmentRoot = some 1 ∧ t.recording = true ∧ t.options = options ∧ t.segmentCount = 0 ∧
      t.defaultParentStack.elements = [1] ∧ t.segmentHeap =
        if 1 < options.maxSegments then MinmaxHeap.create options.maxSegments else none := by
  obtain ⟨p,t₁,hstart,hst⟩ := start_spec
    (blank_inv self absStartTime options dt spanQueue guids).toStore rfl now none none
    (fun q h => by cases h)
  have hinv₁ : Inv t₁ := hst.inv (blank_inv ..) (fun q h => by cases h)
  have hp : p = 1 := by
    have hfst : ((blank self absStartTime options dt spanQueue guids).start now none none).map
      Prod.fst = some (some 1) := rfl
    rw [hstart] at hfst
    simpa using hfst
  subst hp
  have heff : (blank self absStartTime options dt spanQueue guids).effectiveParent none none =
    none := rfl
  obtain ⟨ix,hborn⟩ := hst.born
  rw [heff] at hborn
  have hix : ix = 0 := by
    have hix' : ((blank self absStartTime options dt spanQueue guids).start now none none).map
      (fun r => (r.2.segs 1).map Segment.childIx) = some (some 0) := rfl
    rw [hstart] at hix'
    simpa [hborn] using hix'
  subst hix
  have hrest := hst.rest
  refine ⟨{ t₁ with
    segs := Function.update t₁.segs 1 (some { Segment.zero with txn := self, priority := priorityRoot })
    segmentRoot := some 1
    segmentHeap := if 1 < options.maxSegments then MinmaxHeap.create options.maxSegments else none },
    ?_,?_,?_,rfl,?_,?_,?_,?_,rfl⟩
  · simp only [begin,hstart,Option.bind_eq_bind,Option.bind_some,update_eq hborn,Option.pure_def]
    simp [newborn,blank,internContext,Segment.zero]
  · refine hinv₁.congr ?_ rfl rfl (fun _ => rfl) rfl ?_
    · intro q
      by_cases hq : q = 1
      · subst hq
        simp [hborn,newborn,blank,internContext,Segment.zero]
      · simp [Function.update_of_ne hq]
    · apply view_congr
      intro q
      by_cases hq : q = 1
      · subst hq
        simp [hborn,Segment.node,newborn,blank,Segment.zero]
      · simp [Function.update_of_ne hq]
  · funext q
    by_cases hq : q = 1
    · subst hq
      simp
    · simp only [Function.update_of_ne hq]
      exact hst.other q hq (by rw [heff]; simp)
  · exact congrArg Txn.recording hrest
  · exact congrArg Txn.options hrest
  · exact congrArg Txn.segmentCount hrest
  · have hpush := hst.pushed 0
    simp only [stackOf,internContext,blank] at hpush
    have hstack : t₁.defaultParentStack = NrStack.push (NrVector.init NrStack.defaultCapacity) 1 := by
      simpa using hpush
    rw [hstack]
    rfl

lemma begin_inv {self absStartTime now : ℕ} {options : TxnOptions} {dt : Option DistributedTrace}
    {spanQueue : Bool} {guids : ℕ → Bytes}
    (h : begin self absStartTime now options dt spanQueue guids = some t) : Inv t := by
  obtain ⟨t',h',hinv,-⟩ := begin_spec self absStartTime now options dt spanQueue guids
  rw [h,Option.some_inj] at h'
  exact h' ▸ hinv

/-! ### Runs -/

inductive TreeOp
  | start (now : ℕ) (parent : Option SegPtr) (asyncContext : Option Bytes)
  | setParent (segment parent : SegPtr)
  | addChild (parent child : SegPtr)
  | discard (segment : SegPtr)

namespace TreeOp

/-- The state after the call; its return value is dropped. -/
def step (t : Txn) : TreeOp → Option Txn
  | start now parent asyncContext => (t.start now parent asyncContext).map Prod.snd
  | setParent segment parent => (t.setParent segment (some parent)).map Prod.snd
  | addChild parent child => (t.addChild parent child).map Prod.snd
  | discard segment => (t.discard segment).map Prod.snd

/-- All segments handed to the call are live. -/
def Live (t : Txn) : TreeOp → Prop
  | start _ parent _ => ∀ q, parent = some q → ∃ x, t.segs q = some x
  | setParent segment parent => (∃ x, t.segs segment = some x) ∧ ∃ x, t.segs parent = some x
  | addChild parent child => (∃ x, t.segs child = some x) ∧ ∃ x, t.segs parent = some x
  | discard segment => ∃ x, t.segs segment = some x

/-- A run from `t`; each call is made on live segments. -/
inductive Run : Txn → List TreeOp → Txn → Prop
  | nil (t : Txn) : Run t [] t
  | cons {t t₁ t' : Txn} {op : TreeOp} {ops : List TreeOp} : op.Live t → op.step t = some t₁ →
      Run t₁ ops t' → Run t (op :: ops) t'

end TreeOp

lemma discard_parentless {s : Segment} {c : SegPtr} (hs : t.segs c = some s)
    (hpar : s.parent = none) : t.discard c = some (false,t) := by
  simp [discard,hs,hpar]

/-- One call: it returns, and keeps the invariant. -/
theorem TreeOp.step_spec (h : Inv t) {op : TreeOp} (hlive : op.Live t) :
    ∃ t', op.step t = some t' ∧ Inv t' := by
  cases op with
  | start now parent asyncContext =>
    by_cases hrec : t.recording = true
    · obtain ⟨p,t',hstart,hst⟩ := start_spec h.toStore hrec now parent asyncContext hlive
      exact ⟨t',by simp [step,hstart],hst.inv h hlive⟩
    · exact ⟨t,by simp [step,Txn.start,hrec],h⟩
  | setParent segment parent =>
    obtain ⟨⟨x,hx⟩,s,hs⟩ := hlive
    rcases setParent_spec h hs hx with ⟨t',hset,hmoved⟩ | hset
    · exact ⟨t',by simp [step,hset],hmoved.inv⟩
    · exact ⟨t,by simp [step,hset],h⟩
  | addChild parent child =>
    obtain ⟨⟨x,hx⟩,s,hs⟩ := hlive
    rcases setParent_spec h hs hx with ⟨t',hset,hmoved⟩ | hset
    · exact ⟨t',by simp [step,Txn.addChild,hset],hmoved.inv⟩
    · exact ⟨t,by simp [step,Txn.addChild,hset],h⟩
  | discard segment =>
    obtain ⟨s,hs⟩ := hlive
    cases hpar : s.parent with
    | none => exact ⟨t,by simp [step,discard_parentless hs hpar],h⟩
    | some p =>
      obtain ⟨t',hdis,hd⟩ := discard_spec h hs hpar
      exact ⟨t',by simp [step,hdis],hd.inv h hs hpar⟩

lemma TreeOp.Run.inv {ops : List TreeOp} (hrun : Run t ops t') (h : Inv t) : Inv t' := by
  induction hrun with
  | nil t => exact h
  | cons hlive hstep _ ih =>
    obtain ⟨t₁,hstep',hinv⟩ := step_spec h hlive
    rw [hstep,Option.some_inj] at hstep'
    exact ih (hstep' ▸ hinv)

/-- The parent links of the segments. -/
def IsParent (t : Txn) (p c : SegPtr) : Prop := ∃ x, t.segs c = some x ∧ x.parent = some p

/-- The parent links are acyclic, and they agree with the children collections and the indices. -/
structure Represents (t : Txn) : Prop where
  acyclic : ∀ p, ¬ Relation.TransGen t.IsParent p p
  child_iff : ∀ {s p x y}, t.segs s = some x → t.segs p = some y →
    (s ∈ y.children.elements ↔ x.parent = some p)
  child_once : ∀ {s p x y}, t.segs s = some x → t.segs p = some y → x.parent = some p →
    y.children.elements.count s = 1 ∧ y.children.elements[x.childIx]? = some s
  parent_live : ∀ {s p x}, t.segs s = some x → x.parent = some p → ∃ y, t.segs p = some y
  child_live : ∀ {s p y}, t.segs p = some y → s ∈ y.children.elements → ∃ x, t.segs s = some x

lemma Inv.represents (h : Inv t) : Represents t where
  acyclic p hp := by
    apply h.rooted.acyclic p
    refine Relation.TransGen.mono ?_ p p hp
    rintro a b ⟨x,hx,hpar⟩
    exact ⟨_,view_of_segs hx,hpar⟩
  child_iff hs hp := h.linked.mem_kids_iff (view_of_segs hp) (view_of_segs hs)
  child_once {s p x y} hs hp hpar := by
    obtain ⟨y',hy',hget⟩ := h.parent_live hs hpar
    rw [hp,Option.some_inj] at hy'
    subst hy'
    exact ⟨List.count_eq_one_of_mem (h.linked.kids_nodup (view_of_segs hp))
      (List.mem_of_getElem? hget),hget⟩
  parent_live hs hpar := by
    obtain ⟨y,hy,-⟩ := h.parent_live hs hpar
    exact ⟨y,hy⟩
  child_live hp hmem := by
    obtain ⟨x,hx,-⟩ := h.child_live hp hmem
    exact ⟨x,hx⟩

/-- After any run of starts, reparentings and discards the representation is sound, every further
call on live segments returns, a refused `set_parent` changes nothing, and a discard removes
exactly its segment and hands its children to its parent. -/
theorem tree_run_represents {self absStartTime now : ℕ} {options : TxnOptions}
    {dt : Option DistributedTrace} {spanQueue : Bool} {guids : ℕ → Bytes} {t₀ : Txn}
    (hbegin : begin self absStartTime now options dt spanQueue guids = some t₀)
    {ops : List TreeOp} (hrun : TreeOp.Run t₀ ops t) :
    Represents t ∧
    (∀ op : TreeOp, op.Live t → ∃ t', op.step t = some t') ∧
    (∀ s p t', t.setParent s (some p) = some (false,t') → t' = t) ∧
    (∀ s x, t.segs s = some x → x.parent = none → t.discard s = some (false,t)) ∧
    ∀ s x p, t.segs s = some x → x.parent = some p → ∃ t', t.discard s = some (true,t') ∧
      t'.segs s = none ∧ ∀ q, q ≠ s → (t'.segs q).map Segment.parent =
        (t.segs q).map fun y => if y.parent = some s then some p else y.parent := by
  have hinv : Inv t := hrun.inv (begin_inv hbegin)
  refine ⟨hinv.represents,?_,?_,?_,?_⟩
  · intro op hlive
    obtain ⟨t',hstep,-⟩ := TreeOp.step_spec hinv hlive
    exact ⟨t',hstep⟩
  · intro s p t' hset
    have hlive : (∃ x, t.segs s = some x) ∧ ∃ y, t.segs p = some y := by
      cases hs : t.segs s with
      | none => simp [setParent,hs] at hset
      | some x =>
        cases hp : t.segs p with
        | none => simp [setParent,hs,hp] at hset
        | some y => exact ⟨⟨x,rfl⟩,y,rfl⟩
    obtain ⟨⟨x,hx⟩,y,hy⟩ := hlive
    rcases setParent_spec hinv hy hx with ⟨t'',hset',-⟩ | hset'
    · rw [hset] at hset'
      simp at hset'
    · rw [hset] at hset'
      simpa using hset'
  · intro s x hs hpar
    exact discard_parentless hs hpar
  · intro s x p hs hpar
    obtain ⟨t',hdis,hd⟩ := discard_spec hinv hs hpar
    refine ⟨t',hdis,hd.gone,fun q hqs => ?_⟩
    cases hq : t.segs q with
    | none => rw [hd.dead q hq]; rfl
    | some y =>
      obtain ⟨y',hy',-,hpar',-⟩ := hd.kept q y hqs hq
      rw [hy',Option.map_some,Option.map_some,hpar']

theorem tree_run_represents_reparent_discard :
    ∃ t₀ t, begin 1 0 0 ⟨0,false,0,false,false⟩ none false (fun _ => []) = some t₀ ∧
      TreeOp.Run t₀ [.start 1 (some 1) none, .start 2 none none, .setParent 3 2, .discard 2] t ∧
      (t.segs 3).map Segment.parent = some (some 1) ∧ Represents t := by
  have hrun : ∃ t₀ t, begin 1 0 0 ⟨0,false,0,false,false⟩ none false (fun _ => []) = some t₀ ∧
      TreeOp.Run t₀ [.start 1 (some 1) none, .start 2 none none, .setParent 3 2, .discard 2] t ∧
      (t.segs 3).map Segment.parent = some (some 1) := by
    refine ⟨_,_,rfl,.cons ?_ rfl (.cons ?_ rfl (.cons ?_ rfl (.cons ?_ rfl (.nil _)))),rfl⟩
    · intro q hq
      cases hq
      exact ⟨_,rfl⟩
    · intro q hq
      cases hq
    · exact ⟨⟨_,rfl⟩,_,rfl⟩
    · exact ⟨_,rfl⟩
  obtain ⟨t₀,t,hbegin,hrun,hpar⟩ := hrun
  exact ⟨t₀,t,hbegin,hrun,hpar,(tree_run_represents hbegin hrun).1⟩

end Txn
end PhpAgent
