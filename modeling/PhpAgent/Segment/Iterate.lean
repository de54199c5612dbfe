import PhpAgent.Lib.DepthFirst
import PhpAgent.Segment.TreeRuns

/-! `nr_segment_iterate`: the coloured walk over a tree of segments, and that on a tree of one
colour it is the plain walk over the forest of its pointers. -/
namespace PhpAgent

def SegmentColor.toggle : SegmentColor → SegmentColor
  | white => grey
  | grey => white

@[simp] lemma SegmentColor.toggle_ne (c : SegmentColor) : c.toggle ≠ c := by cases c <;> decide

/-- A post-traversal callback; `σ` is the userdata. -/
abbrev PostIter (σ : Type) : Type := SegPtr → Txn × σ → Option (Txn × σ)

/-- A pre-traversal callback, with the post-traversal callback it registers. -/
abbrev Iter (σ : Type) : Type := SegPtr → Txn × σ → Option (Option (PostIter σ) × Txn × σ)

namespace Txn
open PointerTree Forest
variable {σ : Type} {t t' : Txn} {p : SegPtr}

def runPost (post : Option (PostIter σ)) (p : SegPtr) (w : Txn × σ) : Option (Txn × σ) :=
  match post with
  | none => some w
  | some post => post p w

/-- The loop over the children of `root`: `n` of them from index `i` on. -/
def iterateChildren (visit : Option SegPtr → Txn × σ → Option (Txn × σ)) (root : SegPtr) :
    ℕ → ℕ → Txn × σ → Option (Txn × σ)
  | 0, _, w => some w
  | n+1, i, w => do
    let s ← w.1.segs root
    let w ← visit (s.children.get i) w
    iterateChildren visit root n (i+1) w

/-- `fuel` bounds the depth of the recursion. -/
def iterateHelper (callback : Iter σ) (resetColor setColor : SegmentColor) :
    ℕ → Option SegPtr → Txn × σ → Option (Txn × σ)
  | _, none, w => some w
  | 0, some _, _ => none
  | fuel+1, some root, w => do
    let s ← w.1.segs root
    if s.color ≠ resetColor then
      return w
    let t ← w.1.update root fun s => { s with color := setColor }
    let (post,w) ← callback root (t,w.2)
    let w ← iterateChildren (iterateHelper callback resetColor setColor fuel) root
      s.children.size 0 w
    runPost post root w

/-- Each level of the recursion has coloured one more segment, so it is never deeper than there
are addresses. -/
def iterate (t : Txn) (root : Option SegPtr) (callback : Iter σ) (userdata : σ) :
    Option (Txn × σ) :=
  match root with
  | none => some (t,userdata)
  | some root => do
    let s ← t.segs root
    iterateHelper callback s.color s.color.toggle t.slab.next (some root) (t,userdata)

/-! ### Callbacks that leave the tree alone -/

/-- What the walk itself reads of the memory. -/
def shape (t : Txn) (p : SegPtr) : Option (List SegPtr × SegmentColor) :=
  (t.segs p).map fun s => (s.children.elements,s.color)

def kids (t : Txn) (p : SegPtr) : Option (List SegPtr) :=
  (t.segs p).map fun s => s.children.elements

def color (t : Txn) (p : SegPtr) : Option SegmentColor := (t.segs p).map Segment.color

lemma kids_of_shape (h : t'.shape = t.shape) : t'.kids = t.kids := by
  funext q
  have := congrArg (Option.map Prod.fst) (congrFun h q)
  simpa [shape,kids,Function.comp_def] using this

lemma color_of_shape (h : t'.shape = t.shape) : t'.color = t.color := by
  funext q
  have := congrArg (Option.map Prod.snd) (congrFun h q)
  simpa [shape,color,Function.comp_def] using this

lemma kids_eq_kidsOf (t : Txn) : t.kids = kidsOf t.view := by
  funext q
  simp only [kids,kidsOf,view,Option.map_map]
  rfl

end Txn

/-- The callback, and the post-traversal callbacks it registers, neither colour segments nor touch
children. -/
def Iter.Frame {σ : Type} (callback : Iter σ) : Prop :=
  ∀ p w post w', callback p w = some (post,w') → w'.1.shape = w.1.shape ∧
    ∀ q x x', Txn.runPost post q x = some x' → x'.1.shape = x.1.shape

namespace Txn
open PointerTree Forest
variable {σ : Type} {t t' : Txn} {p : SegPtr} {callback : Iter σ} {reset mark : SegmentColor}
  {w w' : Txn × σ} {f : Forest SegPtr} {s : Segment}

lemma update_color_kids (h : t.update p (fun s => { s with color := mark }) = some t') :
    t'.kids = t.kids := by
  obtain ⟨s,hs,rfl⟩ := update_eq_some h
  funext q
  by_cases hq : q = p
  · subst hq
    simp [kids,hs]
  · simp [kids,Function.update_of_ne hq]

lemma update_color_color (h : t.update p (fun s => { s with color := mark }) = some t')
    (q : SegPtr) : t'.color q = if q = p then some mark else t.color q := by
  obtain ⟨s,hs,rfl⟩ := update_eq_some h
  by_cases hq : q = p
  · subst hq
    simp [color]
  · simp [color,hq]

lemma iterateChildren_kids {visit : Option SegPtr → Txn × σ → Option (Txn × σ)}
    (hvisit : ∀ o w w', visit o w = some w' → w'.1.kids = w.1.kids) {root : SegPtr} (n i : ℕ)
    (h : iterateChildren visit root n i w = some w') : w'.1.kids = w.1.kids := by
  induction n generalizing i w with
  | zero =>
    cases h
    rfl
  | succ n ih =>
    obtain ⟨s,hs,h⟩ := Option.bind_eq_some_iff.mp h
    obtain ⟨w₁,hw₁,h⟩ := Option.bind_eq_some_iff.mp h
    exact (ih (i+1) h).trans (hvisit _ _ _ hw₁)

lemma iterateHelper_kids (hframe : callback.Frame) (fuel : ℕ) {o : Option SegPtr}
    (h : iterateHelper callback reset mark fuel o w = some w') :
    w'.1.kids = w.1.kids := by
  induction fuel generalizing o w w' with
  | zero =>
    cases o with
    | none =>
      cases h
      rfl
    | some root => cases h
  | succ fuel ih =>
    cases o with
    | none =>
      cases h
      rfl
    | some root =>
      obtain ⟨s,hs,h⟩ := Option.bind_eq_some_iff.mp h
      split at h
      · cases h
        rfl
      obtain ⟨t₁,ht₁,h⟩ := Option.bind_eq_some_iff.mp h
      obtain ⟨⟨post,w₂⟩,hw₂,h⟩ := Option.bind_eq_some_iff.mp h
      obtain ⟨w₃,hw₃,h⟩ := Option.bind_eq_some_iff.mp h
      obtain ⟨hsame,hpost⟩ := hframe _ _ _ _ hw₂
      calc w'.1.kids = w₃.1.kids := kids_of_shape (hpost _ _ _ h)
        _ = w₂.1.kids := iterateChildren_kids (fun _ _ _ h => ih h) _ _ hw₃
        _ = t₁.kids := kids_of_shape hsame
        _ = w.1.kids := update_color_kids ht₁

/-- As long as the children stay the same, the loop is a loop over a list. -/
theorem iterateChildren_eq {visit : Option SegPtr → Txn × σ → Option (Txn × σ)}
    (hvisit : ∀ o w w', visit o w = some w' → w'.1.kids = w.1.kids) {root : SegPtr}
    {es : List SegPtr} (n i : ℕ) {w : Txn × σ} (hes : w.1.kids root = some es)
    (hn : i+n = es.length) : iterateChildren visit root n i w =
      (es.drop i).foldlM (fun w c => visit (some c) w) w := by
  induction n generalizing i w with
  | zero =>
    rw [List.drop_eq_nil_of_le (by omega)]
    rfl
  | succ n ih =>
    obtain ⟨s,hs,helem⟩ := Option.map_eq_some_iff.mp hes
    have hi : i < es.length := by omega
    have hget : s.children.get i = some es[i] := by
      rw [SegmentChildren.get,helem,List.getElem?_eq_getElem hi]
    rw [List.drop_eq_getElem_cons hi,List.foldlM_cons]
    simp only [iterateChildren,hs,hget,Option.bind_eq_bind,Option.bind_some]
    cases hw : visit (some es[i]) w with
    | none => rfl
    | some w₁ => exact ih (i+1) ((congrFun (hvisit _ _ _ hw) root).trans hes) (by omega)

/-! ### The plain walk -/

/-- The walk over a forest, without looking at colours. -/
def walk (callback : Iter σ) (mark : SegmentColor) : Forest SegPtr → Txn × σ → Option (Txn × σ)
  | .nil, w => some w
  | .node p kids rest, w => do
    let t ← w.1.update p fun s => { s with color := mark }
    let (post,w) ← callback p (t,w.2)
    let w ← walk callback mark kids w
    let w ← runPost post p w
    walk callback mark rest w

/-- What a walk leaves of the shape: the same children, and its nodes in the new colour. -/
theorem walk_shape (hframe : callback.Frame) (h : walk callback mark f w = some w') : w'.1.kids = w.1.kids ∧
      ∀ q, w'.1.color q = if q ∈ f.toList then some mark else w.1.color q := by
  induction f generalizing w w' with
  | nil =>
    cases h
    exact ⟨rfl,fun q => by simp [toList]⟩
  | node p kids rest ihk ihr =>
    obtain ⟨t₁,ht₁,h⟩ := Option.bind_eq_some_iff.mp h
    obtain ⟨⟨post,w₂⟩,hw₂,h⟩ := Option.bind_eq_some_iff.mp h
    obtain ⟨w₃,hw₃,h⟩ := Option.bind_eq_some_iff.mp h
    obtain ⟨w₄,hw₄,h⟩ := Option.bind_eq_some_iff.mp h
    obtain ⟨hsame,hpost⟩ := hframe _ _ _ _ hw₂
    obtain ⟨hkids₃,hcol₃⟩ := ihk hw₃
    obtain ⟨hkids',hcol'⟩ := ihr h
    have hshape₄ := hpost _ _ _ hw₄
    refine ⟨?_,fun q => ?_⟩
    · rw [hkids',kids_of_shape hshape₄,hkids₃,kids_of_shape hsame,update_color_kids ht₁]
    · rw [hcol',color_of_shape hshape₄,hcol₃,color_of_shape hsame,update_color_color ht₁]
      simp only [toList,List.mem_cons,List.mem_append]
      by_cases hr : q ∈ rest.toList
      · simp [hr]
      · by_cases hk : q ∈ kids.toList
        · simp [hk]
        · simp [hr,hk]

/-- The coloured walk passes over what has another colour and walks over what it finds. -/
theorem iterateHelper_explores (hframe : callback.Frame) (hne : mark ≠ reset)
    {kids : SegPtr → Option (List SegPtr)} {seen : Set SegPtr} {ps : List SegPtr}
    (hexp : Explores kids seen ps f) {fuel : ℕ} {w : Txn × σ} (hkids : w.1.kids = kids)
    (hdepth : f.depth < fuel ∨ Spans kids ps f ∧ f.depth ≤ fuel)
    (hseen : ∀ q ∈ seen, ∃ c, w.1.color q = some c ∧ c ≠ reset)
    (hcol : ∀ q ∈ f.toList, w.1.color q = some reset) :
    ps.foldlM (fun w p => iterateHelper callback reset mark fuel (some p) w) w =
      walk callback mark f w := by
  induction hexp generalizing fuel w with
  | nil seen => rfl
  | @skip seen p ps f hp hf ih =>
    -- a tree has no node that is passed over
    have hlt : f.depth < fuel := hdepth.resolve_right fun h => hf.not_spans hp h.1
    obtain ⟨fuel,rfl⟩ : ∃ n, fuel = n+1 := Nat.exists_eq_add_one.mpr (by omega)
    obtain ⟨c,hc,hcne⟩ := hseen p hp
    obtain ⟨s,hs,rfl⟩ := Option.map_eq_some_iff.mp hc
    have hskip : iterateHelper callback reset mark (fuel+1) (some p) w = some w := by
      simp [iterateHelper,hs,hcne]
    rw [List.foldlM_cons,hskip]
    exact ih hkids (.inl hlt) hseen hcol
  | @node seen p ks ps f g hp hks hk hr ihk ihr =>
    have hpos : 0 < fuel := by
      rw [depth] at hdepth
      omega
    obtain ⟨fuel,rfl⟩ : ∃ n, fuel = n+1 := Nat.exists_eq_add_one.mpr hpos
    obtain ⟨hdepthk,hdepthr⟩ : (f.depth < fuel ∨ Spans kids ks f ∧ f.depth ≤ fuel) ∧
        (g.depth < fuel+1 ∨ Spans kids ps g ∧ g.depth ≤ fuel+1) := by
      rw [depth] at hdepth
      rcases hdepth with hlt | ⟨hspan,hle⟩
      · omega
      · obtain ⟨hspank,hspanr⟩ := hspan.of_node hks
        exact ⟨.inr ⟨hspank,by omega⟩,.inr ⟨hspanr,by omega⟩⟩
    obtain ⟨s,hs,hchildren⟩ := Option.map_eq_some_iff.mp ((congrFun hkids p).trans hks)
    have hscol : s.color = reset := by
      have hpcol := hcol p List.mem_cons_self
      rw [color,hs] at hpcol
      exact Option.some_inj.mp hpcol
    set t₁ : Txn := { w.1 with
      segs := Function.update w.1.segs p (some { s with color := mark }) } with ht₁
    have hupd : w.1.update p (fun s => { s with color := mark }) = some t₁ := update_eq hs _
    have hhead : iterateHelper callback reset mark (fuel+1) (some p) w =
        (callback p (t₁,w.2)).bind fun r =>
          (iterateChildren (iterateHelper callback reset mark fuel) p s.children.size 0 r.2).bind
            (runPost r.1 p) := by
      simp [iterateHelper,hs,hscol,hupd]
    rw [List.foldlM_cons,hhead]
    simp only [walk,hupd,Option.bind_eq_bind,Option.bind_some,Option.bind_assoc]
    cases hw₂ : callback p (t₁,w.2) with
    | none => rfl
    | some r =>
      obtain ⟨post,w₂⟩ := r
      obtain ⟨hsame,hpost⟩ := hframe _ _ _ _ hw₂
      have hkids₂ : w₂.1.kids = kids :=
        ((kids_of_shape hsame).trans (update_color_kids hupd)).trans hkids
      have hcol₂ : ∀ q, w₂.1.color q = if q = p then some mark else w.1.color q := by
        intro q
        rw [color_of_shape hsame,update_color_color hupd]
      have hseen₂ : ∀ q ∈ insert p seen, ∃ c, w₂.1.color q = some c ∧ c ≠ reset := by
        intro q hq
        rw [hcol₂]
        by_cases hqp : q = p
        · exact ⟨mark,if_pos hqp,hne⟩
        · rw [if_neg hqp]
          exact hseen q (hq.resolve_left hqp)
      have hloop : iterateChildren (iterateHelper callback reset mark fuel) p s.children.size 0 w₂ =
          walk callback mark f w₂ := by
        rw [iterateChildren_eq (fun _ _ _ h => iterateHelper_kids hframe fuel h) _ 0
          ((congrFun hkids₂ p).trans hks) (by rw [← hchildren,Nat.zero_add]; rfl),List.drop_zero]
        apply ihk hkids₂ hdepthk hseen₂
        intro q hq
        have hqp : q ≠ p := fun heq => hk.notMem_seen hq (heq ▸ Set.mem_insert _ _)
        rw [hcol₂,if_neg hqp]
        exact hcol q (mem_kids hq)
      simp only [Option.bind_some,hloop]
      cases hw₃ : walk callback mark f w₂ with
      | none => rfl
      | some w₃ =>
        simp only [Option.bind_some]
        cases hw₄ : runPost post p w₃ with
        | none => rfl
        | some w₄ =>
          simp only [Option.bind_some]
          obtain ⟨hkids₃,hcol₃⟩ := walk_shape hframe hw₃
          have hshape₄ := hpost _ _ _ hw₄
          have hcol₄ : ∀ q, w₄.1.color q = if q ∈ f.toList then some mark else w₂.1.color q := by
            intro q
            rw [color_of_shape hshape₄,hcol₃]
          apply ihr (((kids_of_shape hshape₄).trans hkids₃).trans hkids₂) hdepthr
          · intro q hq
            rw [hcol₄]
            by_cases hqf : q ∈ f.toList
            · exact ⟨mark,if_pos hqf,hne⟩
            · rw [if_neg hqf]
              exact hseen₂ q (hq.resolve_right hqf)
          · intro q hq
            have hnot := hr.notMem_seen hq
            have hqf : q ∉ f.toList := fun hmem => hnot (.inr hmem)
            have hqp : q ≠ p := fun heq => hnot (.inl (heq ▸ Set.mem_insert _ _))
            rw [hcol₄,if_neg hqf,hcol₂,if_neg hqp]
            exact hcol q (mem_rest hq)

/-! ### The tree below a segment -/

/-- `q` is `r` or below it. -/
def InTree (t : Txn) (r q : SegPtr) : Prop := Relation.ReflTransGen t.IsParent r q

lemma inTree_iff {r q : SegPtr} :
    t.InTree r q ↔ Relation.ReflTransGen (ParentOf t.view) r q := by
  have hparent : t.IsParent = ParentOf t.view := by
    funext a b
    apply propext
    constructor
    · rintro ⟨x,hx,hpar⟩
      exact ⟨_,view_of_segs hx,hpar⟩
    · rintro ⟨m,hm,hpar⟩
      obtain ⟨x,hx,rfl⟩ := view_eq_some.mp hm
      exact ⟨x,hx,hpar⟩
  rw [InTree,hparent]

lemma InTree.live {r q : SegPtr} (h : t.InTree r q) {x : Segment} (hr : t.segs r = some x) :
    ∃ y, t.segs q = some y := by
  cases h with
  | refl => exact ⟨x,hr⟩
  | tail _ hpar =>
    obtain ⟨y,hy,-⟩ := hpar
    exact ⟨y,hy⟩

/-- A segment is in the tree of a root exactly when its parent is. -/
theorem inTree_parent_iff {r c : SegPtr} {x y : Segment} (hr : t.segs r = some x)
    (hpar : x.parent = none) (hc : t.segs c = some y) (hcp : y.parent = some p) :
    t.InTree r c ↔ t.InTree r p := by
  constructor
  · intro h
    rcases Relation.ReflTransGen.cases_tail h with rfl | ⟨b,hb,z,hz,hzb⟩
    · rw [hr,Option.some_inj] at hc
      rw [← hc,hpar] at hcp
      cases hcp
    · rw [hc,Option.some_inj] at hz
      subst hz
      rw [hcp,Option.some_inj] at hzb
      exact hzb ▸ hb
  · intro h
    exact h.tail ⟨y,hc,hcp⟩

/-- The tree below a segment without parent, as a forest of pointers. -/
theorem Inv.exists_tree (h : Inv t) {r : SegPtr} (hr : t.segs r = some s) (hpar : s.parent = none) :
    ∃ f, Spans t.kids [r] f ∧ f.depth ≤ t.slab.next ∧ f.toList.Nodup ∧
      ∀ q, q ∈ f.toList ↔ t.InTree r q := by
  have hup : ∀ p ∈ [r], Up t.view (some p) [p] := by
    intro p hp
    rw [List.mem_singleton.mp hp]
    exact .step (view_of_segs hr) (by rw [Segment.node_parent,hpar]; exact .top)
  have hS : ∀ a n, t.view a = some n → a ∈ Finset.range t.slab.next := by
    intro a n ha
    obtain ⟨x,hx,-⟩ := view_eq_some.mp ha
    exact Finset.mem_range.mpr (h.live_lt hx)
  have hlong : ∀ p ∈ [r], ∃ l, Up t.view (some p) l ∧
      (Finset.range t.slab.next).card < l.length+t.slab.next := by
    intro p hp
    refine ⟨[p],hup p hp,?_⟩
    rw [Finset.card_range,List.length_singleton]
    omega
  obtain ⟨f,hspan,hdepth⟩ := exists_spans h.linked hS t.slab.next hlong
  refine ⟨f,kids_eq_kidsOf t ▸ hspan,hdepth,hspan.nodup h.linked (List.nodup_singleton r) hup,?_⟩
  intro q
  rw [hspan.mem_iff h.linked,inTree_iff]
  simp

lemma Inv.inTree_iff_mem (h : Inv t) {r : SegPtr} (hr : t.segs r = some s)
    (hpar : s.parent = none) (hspan : Spans t.kids [r] f) (q : SegPtr) :
    t.InTree r q ↔ q ∈ f.toList := by
  obtain ⟨g,hg,-,-,hmem⟩ := h.exists_tree hr hpar
  rw [← hmem,hg.unique hspan]

/-- On a tree of one colour `nr_segment_iterate` is the plain walk. -/
theorem iterate_eq_walk (hframe : callback.Frame) {r : SegPtr}
    (hr : t.segs r = some s) (hspan : Spans t.kids [r] f) (hdepth : f.depth ≤ t.slab.next)
    (hnd : f.toList.Nodup) (hcol : ∀ q ∈ f.toList, t.color q = some s.color) (u : σ) :
    t.iterate (some r) callback u = walk callback s.color.toggle f (t,u) := by
  have hwalk : [r].foldlM (fun w p =>
      iterateHelper callback s.color s.color.toggle t.slab.next (some p) w) (t,u) =
      walk callback s.color.toggle f (t,u) :=
    iterateHelper_explores hframe s.color.toggle_ne (hspan.explores hnd fun _ _ => Set.notMem_empty _) rfl
      (.inr ⟨hspan,hdepth⟩) (fun _ hq => hq.elim) hcol
  rw [← hwalk]
  simp [iterate,hr]

end Txn
end PhpAgent
