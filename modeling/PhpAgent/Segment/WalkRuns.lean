import PhpAgent.Segment.Iterate

/-! Walks interleaved with starts and discards. A walk takes the colour of the root for the colour
of the whole tree, while a new segment is always white. -/
namespace PhpAgent
namespace Txn
open PointerTree Forest
variable {σ : Type} {t t' : Txn} {p : SegPtr}

/-- The store and the tree are the same; colours and the data of the segments may differ. -/
structure SameTree (t t' : Txn) : Prop where
  owner : SameOwner t t'
  self : t'.self = t.self
  slab : t'.slab = t.slab
  stack : ∀ k, t'.stackOf k = t.stackOf k
  force : t'.forceCurrentSegment = t.forceCurrentSegment
  view : t'.view = t.view
  root : t'.segmentRoot = t.segmentRoot

namespace SameTree

lemma refl (t : Txn) : SameTree t t := ⟨fun _ => rfl,rfl,rfl,fun _ => rfl,rfl,rfl,rfl⟩

lemma trans {t'' : Txn} (h : SameTree t t') (h' : SameTree t' t'') : SameTree t t'' where
  owner q := (h'.owner q).trans (h.owner q)
  self := h'.self.trans h.self
  slab := h'.slab.trans h.slab
  stack k := (h'.stack k).trans (h.stack k)
  force := h'.force.trans h.force
  view := h'.view.trans h.view
  root := h'.root.trans h.root

lemma inv (h : SameTree t t') (hinv : Inv t) : Inv t' :=
  hinv.congr h.owner h.self h.slab h.stack h.force h.view

lemma live (h : SameTree t t') {s : Segment} (hs : t.segs p = some s) :
    ∃ s', t'.segs p = some s' ∧ s'.node = s.node := by
  apply view_eq_some.mp
  rw [h.view]
  exact view_of_segs hs

lemma shape (h : SameTree t t') (hcol : t'.color = t.color) : t'.shape = t.shape := by
  funext q
  have hkids := congrArg (Option.map Node.kids) (congrFun h.view q)
  have hcolq := congrFun hcol q
  simp only [Txn.view,Option.map_map,color] at hkids hcolq
  cases hq : t.segs q with
  | none => simp_all [Txn.shape]
  | some s =>
    obtain ⟨s',hs',hnode⟩ := h.live hq
    have helem : s'.children.elements = s.children.elements := congrArg Node.kids hnode
    simp_all [Txn.shape]

end SameTree

lemma update_color_sameTree {mark : SegmentColor}
    (h : t.update p (fun s => { s with color := mark }) = some t') : SameTree t t' := by
  obtain ⟨s,hs,rfl⟩ := update_eq_some h
  refine ⟨fun q => ?_,rfl,rfl,fun _ => rfl,rfl,view_congr fun q => ?_,rfl⟩
  · by_cases hq : q = p
    · subst hq
      simp [hs]
    · simp [Function.update_of_ne hq]
  · by_cases hq : q = p
    · subst hq
      simp [hs,Segment.node]
    · simp [Function.update_of_ne hq]

end Txn

open Txn Forest

/-- The callback and what it registers leave tree and colours alone, and return on live segments. -/
structure Iter.Harmless {σ : Type} (callback : Iter σ) : Prop where
  keeps : ∀ p w post w', callback p w = some (post,w') →
    (SameTree w.1 w'.1 ∧ w'.1.color = w.1.color) ∧
    ∀ q x x', runPost post q x = some x' → SameTree x.1 x'.1 ∧ x'.1.color = x.1.color
  returns : ∀ p w s, w.1.segs p = some s → ∃ post w', callback p w = some (post,w') ∧
    ∀ x s, x.1.segs p = some s → ∃ x', runPost post p x = some x'

lemma Iter.Harmless.frame {σ : Type} {callback : Iter σ} (h : callback.Harmless) :
    callback.Frame := by
  intro p w post w' hw
  obtain ⟨⟨hsame,hcol⟩,hpost⟩ := h.keeps p w post w' hw
  refine ⟨hsame.shape hcol,fun q x x' hx => ?_⟩
  obtain ⟨hsame',hcol'⟩ := hpost q x x' hx
  exact hsame'.shape hcol'

/-- A callback that also writes down the segments it is called on. -/
def Iter.logged {σ : Type} (callback : Iter σ) : Iter (σ × List SegPtr) := fun p w => do
  let (post,t,u) ← callback p (w.1,w.2.1)
  return (post.map fun post q x => (post q (x.1,x.2.1)).map fun y => (y.1,y.2,x.2.2),
    t,u,w.2.2 ++ [p])

namespace Iter
variable {σ : Type} {p : SegPtr} {callback : Iter σ}

lemma logged_eq_some {w w' : Txn × σ × List SegPtr} {post : Option (PostIter (σ × List SegPtr))}
    (h : callback.logged p w = some (post,w')) :
    ∃ post' u, callback p (w.1,w.2.1) = some (post',w'.1,u) ∧ w' = (w'.1,u,w.2.2 ++ [p]) ∧
      ∀ q x, runPost post q x =
        (runPost post' q (x.1,x.2.1)).map fun y => (y.1,y.2,x.2.2) := by
  obtain ⟨⟨post',t₁,u⟩,hcall,h⟩ := Option.bind_eq_some_iff.mp h
  simp only [Option.pure_def,Option.some.injEq,Prod.mk.injEq] at h
  obtain ⟨rfl,rfl⟩ := h
  refine ⟨post',u,hcall,rfl,fun q x => ?_⟩
  cases post' with
  | none => rfl
  | some post' => rfl

lemma Harmless.logged (h : callback.Harmless) : callback.logged.Harmless where
  keeps p w post w' hw := by
    obtain ⟨post',u,hcall,-,hrun⟩ := logged_eq_some hw
    obtain ⟨hsame,hpost⟩ := h.keeps _ _ _ _ hcall
    refine ⟨hsame,fun q x x' hx => ?_⟩
    rw [hrun] at hx
    obtain ⟨y,hy,rfl⟩ := Option.map_eq_some_iff.mp hx
    exact hpost q _ y hy
  returns p w s hs := by
    obtain ⟨post,w',hcall,hpost⟩ := h.returns p (w.1,w.2.1) s hs
    have hlog : ∃ r, callback.logged p w = some r := by simp [Iter.logged,hcall]
    obtain ⟨⟨post',w''⟩,hlog⟩ := hlog
    obtain ⟨post'',u,hcall',-,hrun⟩ := logged_eq_some hlog
    rw [hcall] at hcall'
    simp only [Option.some.injEq,Prod.mk.injEq] at hcall'
    refine ⟨post',w'',hlog,fun x s hx => ?_⟩
    obtain ⟨y,hy⟩ := hpost (x.1,x.2.1) s hx
    rw [hrun,← hcall'.1,hy]
    exact ⟨_,rfl⟩

end Iter

namespace Txn
variable {σ : Type} {t t' : Txn} {p : SegPtr} {callback : Iter σ} {mark : SegmentColor}

/-- The walk of a harmless callback returns and leaves the tree as it was. -/
theorem walk_returns (hcb : callback.Harmless) {f : Forest SegPtr} {w : Txn × σ}
    (hlive : ∀ q ∈ f.toList, ∃ s, w.1.segs q = some s) :
    ∃ w', walk callback mark f w = some w' ∧ SameTree w.1 w'.1 := by
  induction f generalizing w with
  | nil => exact ⟨w,rfl,.refl _⟩
  | node p kids rest ihk ihr =>
    have hlive' : ∀ {t'}, SameTree w.1 t' → ∀ q ∈ (Forest.node p kids rest).toList,
        ∃ s, t'.segs q = some s := by
      intro t' hsame q hq
      obtain ⟨s,hs⟩ := hlive q hq
      obtain ⟨s',hs',-⟩ := hsame.live hs
      exact ⟨s',hs'⟩
    obtain ⟨s,hs⟩ := hlive p List.mem_cons_self
    have hupd := update_eq hs fun s => { s with color := mark }
    have hto₁ := update_color_sameTree hupd
    obtain ⟨s₁,hs₁⟩ := hlive' hto₁ p List.mem_cons_self
    obtain ⟨post,w₂,hw₂,hpost⟩ := hcb.returns p (_,w.2) s₁ hs₁
    obtain ⟨⟨hsame₂,-⟩,hkeep⟩ := hcb.keeps _ _ _ _ hw₂
    have hto₂ := hto₁.trans hsame₂
    obtain ⟨w₃,hw₃,hsame₃⟩ := ihk fun q hq =>
      hlive' hto₂ q (mem_kids hq)
    have hto₃ := hto₂.trans hsame₃
    obtain ⟨s₃,hs₃⟩ := hlive' hto₃ p List.mem_cons_self
    obtain ⟨w₄,hw₄⟩ := hpost w₃ s₃ hs₃
    have hto₄ := hto₃.trans (hkeep _ _ _ hw₄).1
    obtain ⟨w₅,hw₅,hsame₅⟩ := ihr fun q hq =>
      hlive' hto₄ q (mem_rest hq)
    refine ⟨w₅,?_,hto₄.trans hsame₅⟩
    simp only [walk,hupd,hw₂,hw₃,hw₄,hw₅,Option.bind_eq_bind,Option.bind_some]

/-- A walk calls its callback on each node of the forest, in pre-order. -/
theorem walk_log {f : Forest SegPtr} {w w' : Txn × σ × List SegPtr}
    (h : walk callback.logged mark f w = some w') : w'.2.2 = w.2.2 ++ f.toList := by
  induction f generalizing w w' with
  | nil =>
    cases h
    rw [toList,List.append_nil]
  | node p kids rest ihk ihr =>
    obtain ⟨t₁,ht₁,h⟩ := Option.bind_eq_some_iff.mp h
    obtain ⟨⟨post,w₂⟩,hw₂,h⟩ := Option.bind_eq_some_iff.mp h
    obtain ⟨w₃,hw₃,h⟩ := Option.bind_eq_some_iff.mp h
    obtain ⟨w₄,hw₄,h⟩ := Option.bind_eq_some_iff.mp h
    obtain ⟨post',u,-,hlog₂,hrun⟩ := Iter.logged_eq_some hw₂
    rw [hrun] at hw₄
    obtain ⟨y,-,rfl⟩ := Option.map_eq_some_iff.mp hw₄
    rw [ihr h,ihk hw₃,hlog₂,toList]
    simp

/-! ### Runs -/

/-- The invariant of runs in which no segment is started below a grey one: a segment has the
colour of its parent. -/
structure Uniform (t : Txn) : Prop extends Inv t where
  color_eq : ∀ {c p x y}, t.segs c = some x → x.parent = some p → t.segs p = some y →
    x.color = y.color
  root_live : ∃ r x, t.segmentRoot = some r ∧ t.segs r = some x ∧ x.parent = none

inductive WalkOp
  | start (now : ℕ) (parent : Option SegPtr) (asyncContext : Option Bytes)
  | discard (segment : SegPtr)
  | iterate (σ : Type) (callback : Iter σ) (userdata : σ)

namespace WalkOp

/-- The state after the call; its return value is dropped. -/
def step (t : Txn) : WalkOp → Option Txn
  | start now parent asyncContext => (t.start now parent asyncContext).map Prod.snd
  | discard segment => (t.discard segment).map Prod.snd
  | iterate _ callback userdata => (t.iterate t.segmentRoot callback userdata).map Prod.fst

/-- The segments handed to the call are live; a callback of a walk leaves the tree alone. -/
def Live (t : Txn) : WalkOp → Prop
  | start _ parent _ => ∀ q, parent = some q → ∃ x, t.segs q = some x
  | discard segment => ∃ x, t.segs segment = some x
  | iterate _ callback _ => callback.Harmless

/-- The new segment, if there is one, does not go below a grey segment. -/
def BelowWhite (t : Txn) : WalkOp → Prop
  | start _ parent asyncContext => t.recording = true → ∀ q x,
      t.effectiveParent parent asyncContext = some q → t.segs q = some x → x.color = .white
  | _ => True

/-- A run from `t` whose calls all meet the condition `ok`. -/
inductive Run (ok : Txn → WalkOp → Prop) : Txn → List WalkOp → Txn → Prop
  | nil (t : Txn) : Run ok t [] t
  | cons {t t₁ t' : Txn} {op : WalkOp} {ops : List WalkOp} : op.Live t → ok t op →
      op.step t = some t₁ → Run ok t₁ ops t' → Run ok t (op :: ops) t'

end WalkOp

lemma Started.uniform {now : ℕ} {parent : Option SegPtr} {asyncContext : Option Bytes}
    (h : Uniform t) (hst : Started t now parent asyncContext p t')
    (hpar : ∀ q, parent = some q → ∃ x, t.segs q = some x)
    (hwhite : ∀ q x, t.effectiveParent parent asyncContext = some q → t.segs q = some x →
      x.color = .white) : Uniform t' := by
  have hne : ∀ {q x}, t.segs q = some x → q ≠ p := by
    rintro q x hq rfl
    rw [hst.fresh] at hq
    cases hq
  -- a segment that was there keeps its colour and its parent
  have hold : ∀ {q x}, t.segs q = some x →
      ∃ x', t'.segs q = some x' ∧ x'.color = x.color ∧ x'.parent = x.parent := by
    intro q x hq
    by_cases heff : t.effectiveParent parent asyncContext = some q
    · obtain ⟨x',hx',hsame,-⟩ := hst.below q x heff hq
      exact ⟨x',hx',by rw [hsame],by rw [hsame]⟩
    · exact ⟨x,(hst.other q (hne hq) heff).trans hq,rfl,rfl⟩
  have hback : ∀ {q x'}, q ≠ p → t'.segs q = some x' → ∃ x, t.segs q = some x := by
    intro q x' hqp hq
    by_cases heff : t.effectiveParent parent asyncContext = some q
    · exact h.effectiveParent_live hpar heff
    · exact ⟨x',(hst.other q hqp heff).symm.trans hq⟩
  obtain ⟨ix,hborn⟩ := hst.born
  refine ⟨hst.inv h.toInv hpar,?_,?_⟩
  · intro c q x y hc hcq hq
    by_cases hcp : c = p
    · subst hcp
      rw [hborn,Option.some_inj] at hc
      subst hc
      obtain ⟨y₀,hy₀⟩ := h.effectiveParent_live hpar hcq
      obtain ⟨y',hy',hcol,-⟩ := hold hy₀
      rw [hq,Option.some_inj] at hy'
      rw [hy',hcol,hwhite q y₀ hcq hy₀]
      rfl
    · obtain ⟨x₀,hx₀⟩ := hback hcp hc
      obtain ⟨x',hx',hcolx,hparx⟩ := hold hx₀
      rw [hc,Option.some_inj] at hx'
      subst hx'
      rw [hparx] at hcq
      obtain ⟨y₀,hy₀,-⟩ := h.toInv.parent_live hx₀ hcq
      obtain ⟨y',hy',hcoly,-⟩ := hold hy₀
      rw [hq,Option.some_inj] at hy'
      rw [hcolx,hy',hcoly]
      exact h.color_eq hx₀ hcq hy₀
  · obtain ⟨r,x,hr,hx,hxp⟩ := h.root_live
    obtain ⟨x',hx',-,hparx⟩ := hold hx
    exact ⟨r,x',(congrArg Txn.segmentRoot hst.rest).trans hr,hx',hparx.trans hxp⟩

lemma Discarded.uniform {s : Segment} {c : SegPtr} (h : Uniform t) (hs : t.segs c = some s)
    (hpar : s.parent = some p) (hd : Discarded t c p s t') : Uniform t' := by
  have hfix : ∀ {y y' : Segment}, y'.fixed = y.fixed → y'.color = y.color :=
    fun hf => Segment.eq_of_fixed Segment.color (fun _ => rfl) hf
  refine ⟨hd.inv h.toInv hs hpar,?_,?_⟩
  · intro q r x' y' hq hqr hr
    obtain ⟨hqc,x,hx,-⟩ := hd.back hq
    obtain ⟨hrc,y,hy,hfy⟩ := hd.back hr
    obtain ⟨x'',hx'',hfx,hparx,-⟩ := hd.kept q x hqc hx
    rw [hq,Option.some_inj] at hx''
    subst hx''
    rw [hparx] at hqr
    rw [hfix hfx,hfix hfy]
    split_ifs at hqr with hxc
    · -- a child of the discarded segment has its colour, and that is the colour of the parent
      obtain rfl := Option.some_inj.mp hqr
      exact (h.color_eq hx hxc hs).trans (h.color_eq hs hpar hy)
    · exact h.color_eq hx hqr hy
  · obtain ⟨r,x,hr,hx,hxp⟩ := h.root_live
    have hrc : r ≠ c := by
      rintro rfl
      rw [hs,Option.some_inj] at hx
      rw [hx,hxp] at hpar
      cases hpar
    obtain ⟨x',hx',-,hparx,-⟩ := hd.kept r x hrc hx
    refine ⟨r,x',(congrArg Txn.segmentRoot hd.rest).trans hr,hx',?_⟩
    rw [hparx,hxp]
    simp

/-- The whole tree has the colour of its root. -/
theorem Uniform.color_tree (h : Uniform t) {r q : SegPtr} {x : Segment} (hr : t.segs r = some x)
    (hq : t.InTree r q) : t.color q = some x.color := by
  induction hq with
  | refl => rw [color,hr,Option.map_some]
  | @tail b c _ hbc ih =>
    obtain ⟨y,hy,hpar⟩ := hbc
    obtain ⟨z,hz,-⟩ := h.toInv.parent_live hy hpar
    rw [color,hz] at ih
    rw [color,hy,Option.map_some,h.color_eq hy hpar hz]
    exact ih

/-- A walk from the root is a plain walk over its tree. -/
theorem Uniform.exists_walk (h : Uniform t) : ∃ r f mark, t.segmentRoot = some r ∧
    f.toList.Nodup ∧ (∀ q, q ∈ f.toList ↔ t.InTree r q) ∧
    (∀ q ∈ f.toList, ∃ s, t.segs q = some s) ∧
    ∀ {σ : Type} {callback : Iter σ} (u : σ), callback.Frame →
      t.iterate t.segmentRoot callback u = walk callback mark f (t,u) := by
  obtain ⟨r,x,hr,hx,hpar⟩ := h.root_live
  obtain ⟨f,hspan,hdepth,hnd,hmem⟩ := h.toInv.exists_tree hx hpar
  refine ⟨r,f,x.color.toggle,hr,hnd,hmem,?_,?_⟩
  · intro q hq
    obtain ⟨ks,hks⟩ := hspan.live hq
    obtain ⟨s,hs,-⟩ := Option.map_eq_some_iff.mp hks
    exact ⟨s,hs⟩
  · intro σ callback u hframe
    rw [hr]
    exact iterate_eq_walk hframe hx hspan hdepth hnd
      (fun q hq => h.color_tree hx ((hmem q).mp hq)) u

lemma Uniform.iterate (h : Uniform t) (hcb : callback.Harmless) (u : σ) :
    ∃ w', t.iterate t.segmentRoot callback u = some w' ∧ Uniform w'.1 := by
  obtain ⟨r,f,mark,hr,-,hmem,hlive,hwalk⟩ := h.exists_walk
  obtain ⟨r',x,hr',hx,hpar⟩ := h.root_live
  obtain rfl : r = r' := Option.some_inj.mp (hr.symm.trans hr')
  obtain ⟨w',hw',hsame⟩ := walk_returns (w := (t,u)) hcb hlive
  refine ⟨w',(hwalk u hcb.frame).trans hw',hsame.inv h.toInv,?_,?_⟩
  · intro c p y z hc hcp hp
    have hcol := (walk_shape hcb.frame hw').2
    obtain ⟨y₀,hy₀,hynode⟩ := view_eq_some.mp ((congrFun hsame.view c).symm.trans (view_of_segs hc))
    obtain ⟨z₀,hz₀,-⟩ := view_eq_some.mp ((congrFun hsame.view p).symm.trans (view_of_segs hp))
    have hpar₀ : y₀.parent = some p := (congrArg PointerTree.Node.parent hynode).trans hcp
    have heq : w'.1.color c = w'.1.color p := by
      rw [hcol,hcol]
      by_cases hin : p ∈ f.toList
      · rw [if_pos hin,if_pos ((hmem c).mpr ((inTree_parent_iff hx hpar hy₀ hpar₀).mpr
          ((hmem p).mp hin)))]
      · have hcin : c ∉ f.toList := fun hc' => hin ((hmem p).mpr
          ((inTree_parent_iff hx hpar hy₀ hpar₀).mp ((hmem c).mp hc')))
        rw [if_neg hin,if_neg hcin,color,color,hy₀,hz₀,Option.map_some,Option.map_some,
          h.color_eq hy₀ hpar₀ hz₀]
    rw [color,color,hc,hp] at heq
    exact Option.some_inj.mp heq
  · obtain ⟨x',hx',hnode⟩ := hsame.live hx
    exact ⟨r,x',hsame.root.trans hr,hx',(congrArg PointerTree.Node.parent hnode).trans hpar⟩

lemma begin_uniform {self absStartTime now : ℕ} {options : TxnOptions}
    {dt : Option DistributedTrace} {spanQueue : Bool} {guids : ℕ → Bytes}
    (h : begin self absStartTime now options dt spanQueue guids = some t) : Uniform t := by
  obtain ⟨t',h',hinv,hsegs,hroot,-⟩ := begin_spec self absStartTime now options dt spanQueue guids
  rw [h,Option.some_inj] at h'
  subst h'
  have hone : ∀ {q x}, t.segs q = some x →
      x = { Segment.zero with txn := self, priority := priorityRoot } := by
    intro q x hq
    rw [hsegs] at hq
    by_cases hq1 : q = 1
    · subst hq1
      simpa using hq.symm
    · simp [Function.update_of_ne hq1] at hq
  refine ⟨hinv,?_,1,{ Segment.zero with txn := self, priority := priorityRoot },hroot,
    by rw [hsegs]; simp,rfl⟩
  intro c p x y hc hpar hp
  rw [hone hc] at hpar
  cases hpar

/-- One call that does not start a segment below a grey one. -/
theorem WalkOp.step_spec (h : Uniform t) {op : WalkOp} (hlive : op.Live t)
    (hwhite : op.BelowWhite t) : ∃ t', op.step t = some t' ∧ Uniform t' := by
  cases op with
  | start now parent asyncContext =>
    by_cases hrec : t.recording = true
    · obtain ⟨p,t',hstart,hst⟩ := start_spec h.toStore hrec now parent asyncContext hlive
      exact ⟨t',by simp [step,hstart],hst.uniform h hlive (hwhite hrec)⟩
    · exact ⟨t,by simp [step,Txn.start,hrec],h⟩
  | discard segment =>
    obtain ⟨s,hs⟩ := hlive
    cases hpar : s.parent with
    | none => exact ⟨t,by simp [step,discard_parentless hs hpar],h⟩
    | some p =>
      obtain ⟨t',hdis,hd⟩ := discard_spec h.toInv hs hpar
      exact ⟨t',by simp [step,hdis],hd.uniform h hs hpar⟩
  | iterate σ callback u =>
    obtain ⟨w',hw',huni⟩ := h.iterate hlive u
    exact ⟨w'.1,by simp [step,hw'],huni⟩

lemma WalkOp.Run.uniform {ops : List WalkOp} (hrun : Run (fun t op => op.BelowWhite t) t ops t')
    (h : Uniform t) : Uniform t' := by
  induction hrun with
  | nil t => exact h
  | cons hlive hwhite hstep _ ih =>
    obtain ⟨t₁,hstep',huni⟩ := step_spec h hlive hwhite
    rw [hstep,Option.some_inj] at hstep'
    exact ih (hstep' ▸ huni)

/-- In a run that starts no segment below a grey one, a walk from the root returns and calls its
callback on each segment of the tree exactly once. -/
theorem walk_visits_once {self absStartTime now : ℕ} {options : TxnOptions}
    {dt : Option DistributedTrace} {spanQueue : Bool} {guids : ℕ → Bytes} {t₀ : Txn}
    (hbegin : begin self absStartTime now options dt spanQueue guids = some t₀)
    {ops : List WalkOp} (hrun : WalkOp.Run (fun t op => op.BelowWhite t) t₀ ops t)
    {callback : Iter σ} (hcb : callback.Harmless) (u : σ) :
    ∃ r w', t.segmentRoot = some r ∧ t.iterate t.segmentRoot callback.logged (u,[]) = some w' ∧
      (∀ q, t.InTree r q → w'.2.2.count q = 1) ∧ ∀ q ∈ w'.2.2, t.InTree r q := by
  have h := hrun.uniform (begin_uniform hbegin)
  obtain ⟨r,f,mark,hr,hnd,hmem,hlive,hwalk⟩ := h.exists_walk
  obtain ⟨w',hw',-⟩ := walk_returns (w := (t,u,[])) hcb.logged hlive
  have hlog : w'.2.2 = f.toList := by rw [walk_log hw',List.nil_append]
  refine ⟨r,w',hr,(hwalk _ hcb.logged.frame).trans hw',?_,?_⟩
  · intro q hq
    rw [hlog]
    exact List.count_eq_one_of_mem hnd ((hmem q).mpr hq)
  · intro q hq
    rw [hlog] at hq
    exact (hmem q).mp hq

/-- The callback that does nothing. -/
def idle : Iter Unit := fun _ w => some (none,w)

lemma idle_harmless : idle.Harmless where
  keeps p w post w' h := by
    cases h
    refine ⟨⟨.refl _,rfl⟩,fun q x x' hx => ?_⟩
    cases hx
    exact ⟨.refl _,rfl⟩
  returns p w s _ := ⟨none,w,rfl,fun x _ _ => ⟨x,rfl⟩⟩

theorem walk_visits_once_two_walks :
    ∃ t₀ t w', begin 1 0 0 ⟨0,false,0,false,false⟩ none false (fun _ => []) = some t₀ ∧
      WalkOp.Run (fun t op => op.BelowWhite t) t₀
        [.iterate Unit idle (),.iterate Unit idle (),.start 1 (some 1) none] t ∧
      t.iterate t.segmentRoot idle.logged ((),[]) = some w' ∧ t.InTree 1 2 ∧
      w'.2.2.count 2 = 1 := by
  have hrun : ∃ t₀ t, begin 1 0 0 ⟨0,false,0,false,false⟩ none false (fun _ => []) = some t₀ ∧
      WalkOp.Run (fun t op => op.BelowWhite t) t₀
        [.iterate Unit idle (),.iterate Unit idle (),.start 1 (some 1) none] t ∧
      t.segmentRoot = some 1 ∧ t.IsParent 1 2 := by
    refine ⟨_,_,rfl,.cons idle_harmless trivial rfl (.cons idle_harmless trivial rfl
      (.cons ?_ ?_ rfl (.nil _))),rfl,_,rfl,rfl⟩
    · intro q hq
      cases hq
      exact ⟨_,rfl⟩
    · intro _ q x hq hx
      cases hq
      cases hx
      rfl
  obtain ⟨t₀,t,hbegin,hrun,hroot,hpar⟩ := hrun
  obtain ⟨r,w',hr,hw',hcount,-⟩ := walk_visits_once hbegin hrun idle_harmless ()
  obtain rfl : 1 = r := Option.some_inj.mp (hroot.symm.trans hr)
  exact ⟨t₀,t,w',hbegin,hrun,hw',.single hpar,hcount 2 (.single hpar)⟩

/-- After one walk the root is grey, and a segment started below it is not visited by the next. -/
theorem walk_misses_segment :
    ∃ t₀ t w', begin 1 0 0 ⟨0,false,0,false,false⟩ none false (fun _ => []) = some t₀ ∧
      WalkOp.Run (fun _ _ => True) t₀ [.iterate Unit idle (),.start 1 (some 1) none] t ∧
      t.segmentRoot = some 1 ∧ t.InTree 1 2 ∧
      t.iterate t.segmentRoot idle.logged ((),[]) = some w' ∧ w'.2.2 = [1] := by
  refine ⟨_,_,_,rfl,.cons idle_harmless trivial rfl (.cons ?_ trivial rfl (.nil _)),rfl,
    .single ⟨_,rfl,rfl⟩,rfl,rfl⟩
  intro q hq
  cases hq
  exact ⟨_,rfl⟩

end Txn
end PhpAgent
