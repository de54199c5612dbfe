import PhpAgent.Segment.Iterate

/-! `nr_segment_iterate` on a graph of segments of one colour, with shared segments and cycles: it is
the plain walk over the forest of a depth-first exploration. -/
namespace PhpAgent
open Forest

/-! ### The calls of a walk -/

/-- The callback and the callbacks it registers neither colour segments nor touch children, the memory
of segments stays as it is, and they return on live segments. -/
structure Iter.Steady {σ : Type} (callback : Iter σ) : Prop where
  frame : callback.Frame
  slab : ∀ p w post w', callback p w = some (post,w') → w'.1.slab = w.1.slab ∧
    ∀ q x x', Txn.runPost post q x = some x' → x'.1.slab = x.1.slab
  returns : ∀ p w s, w.1.segs p = some s → ∃ post w', callback p w = some (post,w') ∧
    ∀ x s, x.1.segs p = some s → ∃ x', Txn.runPost post p x = some x'

/-- A callback that also writes down when it and the callback it registers are called. -/
def Iter.traced {σ : Type} (callback : Iter σ) : Iter (σ × List (Visit SegPtr)) := fun p w => do
  let (post,t,u) ← callback p (w.1,w.2.1)
  return (post.map fun post q x => (post q (x.1,x.2.1)).map fun y => (y.1,y.2,x.2.2 ++ [.leave q]),
    t,u,w.2.2 ++ [.enter p post.isSome])

namespace Iter
variable {σ : Type} {p : SegPtr} {callback : Iter σ}

lemma traced_eq_some {w w' : Txn × σ × List (Visit SegPtr)}
    {post : Option (PostIter (σ × List (Visit SegPtr)))} (h : callback.traced p w = some (post,w')) :
    ∃ post' u, callback p (w.1,w.2.1) = some (post',w'.1,u) ∧
      w' = (w'.1,u,w.2.2 ++ [.enter p post'.isSome]) ∧
      ∀ q x, Txn.runPost post q x = (Txn.runPost post' q (x.1,x.2.1)).map fun y =>
        (y.1,y.2,x.2.2 ++ if post'.isSome then [.leave q] else []) := by
  obtain ⟨⟨post',t₁,u⟩,hcall,h⟩ := Option.bind_eq_some_iff.mp h
  simp only [Option.pure_def,Option.some.injEq,Prod.mk.injEq] at h
  obtain ⟨rfl,rfl⟩ := h
  refine ⟨post',u,hcall,rfl,fun q x => ?_⟩
  cases post' with
  | none => simp [Txn.runPost]
  | some post' => rfl

lemma Frame.traced (h : callback.Frame) : callback.traced.Frame := by
  intro p w post w' hw
  obtain ⟨post',u,hcall,-,hrun⟩ := traced_eq_some hw
  obtain ⟨hsame,hpost⟩ := h _ _ _ _ hcall
  refine ⟨hsame,fun q x x' hx => ?_⟩
  rw [hrun] at hx
  obtain ⟨y,hy,rfl⟩ := Option.map_eq_some_iff.mp hx
  exact hpost q _ y hy

end Iter

namespace Txn
variable {σ : Type} {t t' : Txn} {p : SegPtr} {callback : Iter σ} {mark : SegmentColor}

/-- A walk returns, and its calls are the visits to the forest. -/
theorem walk_traced (hcb : callback.Steady) {f : Forest SegPtr} (hnd : f.toList.Nodup)
    {w : Txn × σ × List (Visit SegPtr)} (hlive : ∀ q ∈ f.toList, ∃ ks, w.1.kids q = some ks) :
    ∃ w' announced, walk callback.traced mark f w = some w' ∧
      w'.2.2 = w.2.2 ++ f.visits announced ∧ w'.1.slab = w.1.slab := by
  induction f generalizing w with
  | nil => exact ⟨w,fun _ => false,rfl,(List.append_nil _).symm,rfl⟩
  | node p kids rest ihk ihr =>
    obtain ⟨hp,hnd⟩ := List.nodup_cons.mp hnd
    obtain ⟨hndk,hndr,hdisj⟩ := List.nodup_append.mp hnd
    obtain ⟨ks,hks⟩ := hlive p List.mem_cons_self
    obtain ⟨s,hs,-⟩ := Option.map_eq_some_iff.mp hks
    have hupd := update_eq hs fun s => { s with color := mark }
    set t₁ : Txn := { w.1 with
      segs := Function.update w.1.segs p (some { s with color := mark }) } with ht₁
    have hs₁ : t₁.segs p = some { s with color := mark } := by simp [ht₁]
    obtain ⟨post,w₂,hw₂,hpost⟩ := hcb.returns p (t₁,w.2.1) _ hs₁
    obtain ⟨⟨post',w₂'⟩,hw₂'⟩ : ∃ r, callback.traced p (t₁,w.2) = some r := by
      simp [Iter.traced,hw₂]
    obtain ⟨post'',u,hcall,hlog₂,hrun⟩ := Iter.traced_eq_some hw₂'
    rw [hw₂] at hcall
    simp only [Option.some.injEq,Prod.mk.injEq] at hcall
    obtain ⟨rfl,hw₂eq⟩ := hcall
    have hframe := hcb.frame.traced
    obtain ⟨hsame₂,hkeep⟩ := hframe _ _ _ _ hw₂'
    obtain ⟨hslab₂,hslabPost⟩ := hcb.slab _ _ _ _ hw₂
    have hkids₂ : w₂'.1.kids = w.1.kids := (kids_of_shape hsame₂).trans (update_color_kids hupd)
    obtain ⟨w₃,annk,hw₃,hlog₃,hslab₃⟩ := ihk (w := w₂') hndk fun q hq => by
      rw [hkids₂]
      exact hlive q (mem_kids hq)
    have hkids₃ : w₃.1.kids = w.1.kids := (walk_shape hframe hw₃).1.trans hkids₂
    obtain ⟨s₃,hs₃,-⟩ := Option.map_eq_some_iff.mp ((congrFun hkids₃ p).trans hks)
    obtain ⟨x,hx⟩ := hpost (w₃.1,w₃.2.1) s₃ hs₃
    have hw₄ : runPost post' p w₃ =
        some (x.1,x.2,w₃.2.2 ++ if post.isSome then [.leave p] else []) := by
      rw [hrun,hx]
      rfl
    have hkids₄ : x.1.kids = w.1.kids := (kids_of_shape (hkeep _ _ _ hw₄)).trans hkids₃
    obtain ⟨w₅,annr,hw₅,hlog₅,hslab₅⟩ := ihr (w := (x.1,x.2,_)) hndr fun q hq => by
      rw [hkids₄]
      exact hlive q (mem_rest hq)
    have hret : walk callback.traced mark (.node p kids rest) w = some w₅ := by
      simp only [walk,hupd,Option.bind_eq_bind,Option.bind_some]
      rw [hw₂']
      simp only [Option.bind_some]
      rw [hw₃]
      simp only [Option.bind_some]
      rw [hw₄]
      exact hw₅
    refine ⟨w₅,fun a => if a = p then post.isSome else if a ∈ kids.toList then annk a else annr a,
      hret,?_,?_⟩
    swap
    · rw [hw₂eq] at hslab₂
      rw [hslab₅,hslabPost _ _ _ hx,hslab₃]
      exact hslab₂
    have hpk : ∀ q ∈ kids.toList, q ≠ p := fun q hq heq =>
      hp (List.mem_append_left _ (heq ▸ hq))
    have hpr : ∀ q ∈ rest.toList, q ≠ p := fun q hq heq =>
      hp (List.mem_append_right _ (heq ▸ hq))
    rw [visits,visits_congr (f := kids) (fun q hq => by
        rw [if_neg (hpk q hq),if_pos hq]),
      visits_congr (f := rest) (fun q hq => by
        rw [if_neg (hpr q hq),if_neg fun hk => hdisj q hk q hq rfl]),if_pos rfl,hlog₅]
    simp only [hlog₃]
    rw [hlog₂]
    simp

/-! ### A graph of one colour -/

/-- There is a way from `r` to `q` along the children. -/
def Reaches (t : Txn) (r q : SegPtr) : Prop := Relation.ReflTransGen (Edge t.kids) r q

/-- What can be reached from the segment is live, at addresses the slab has handed out, and has one
colour. -/
structure OneColor (t : Txn) (r : SegPtr) (c : SegmentColor) : Prop where
  color : ∀ q, t.Reaches r q → t.color q = some c
  addresses : ∀ q, t.Reaches r q → 1 ≤ q ∧ q < t.slab.next

lemma OneColor.exists_explores {r : SegPtr} {c : SegmentColor} (h : t.OneColor r c) :
    ∃ f, Explores t.kids ∅ [r] f ∧ f.depth < t.slab.next := by
  classical
  let S := (Finset.Ico 1 t.slab.next).filter fun q => t.Reaches r q
  have hmem : ∀ q, t.Reaches r q → q ∈ S := by
    intro q hq
    obtain ⟨hpos,hlt⟩ := h.addresses q hq
    exact Finset.mem_filter.mpr ⟨Finset.mem_Ico.mpr ⟨hpos,hlt⟩,hq⟩
  have hclosed : ∀ a ∈ S, ∃ ks, t.kids a = some ks ∧ ∀ c ∈ ks, c ∈ S := by
    intro a ha
    have hra := (Finset.mem_filter.mp ha).2
    obtain ⟨s,hs,-⟩ := Option.map_eq_some_iff.mp (h.color a hra)
    have hks : t.kids a = some s.children.elements := by rw [kids,hs]; rfl
    exact ⟨_,hks,fun c hc => hmem c (hra.tail ⟨_,hks,hc⟩)⟩
  have hcard : ∀ T : Finset SegPtr, T ⊆ S → (∀ a ∈ T, a ∉ (∅ : Set SegPtr)) →
      T.card ≤ t.slab.next-1 := by
    intro T hT _
    calc T.card ≤ S.card := Finset.card_le_card hT
      _ ≤ (Finset.Ico 1 t.slab.next).card := Finset.card_filter_le _ _
      _ = t.slab.next-1 := Nat.card_Ico _ _
  obtain ⟨f,hf,hdepth⟩ := Forest.exists_explores S hclosed (t.slab.next-1) hcard
    (fun p hp => hmem p (by rw [List.mem_singleton.mp hp]; exact .refl))
  obtain ⟨hpos,hlt⟩ := h.addresses r .refl
  exact ⟨f,hf,lt_of_le_of_lt hdepth (Nat.sub_lt (hpos.trans hlt.le) Nat.one_pos)⟩

/-- The walk over a graph is the walk over its exploration. -/
theorem OneColor.iterate_visits {r : SegPtr} {c : SegmentColor} (h : t.OneColor r c)
    {f : Forest SegPtr} (hf : Explores t.kids ∅ [r] f) (hdepth : f.depth < t.slab.next)
    (hframe : callback.Frame) (u : σ) :
    t.iterate (some r) callback u = walk callback c.toggle f (t,u) := by
  obtain ⟨s,hs,hsc⟩ := Option.map_eq_some_iff.mp (h.color r .refl)
  have hcol : ∀ q ∈ f.toList, t.color q = some c := by
    intro q hq
    obtain ⟨p,hp,hreach⟩ := hf.reached hq
    rw [List.mem_singleton.mp hp] at hreach
    exact h.color q hreach
  have hwalk := iterateHelper_explores (w := (t,u)) hframe c.toggle_ne hf rfl (.inl hdepth)
    (fun q hq => absurd hq (Set.notMem_empty q)) hcol
  rw [← hwalk]
  simp [iterate,hs,hsc]

/-- On a graph of one colour the walk returns and calls back on every segment that can be reached,
entering each once and leaving each whose end was announced once, after all calls for what was first
found below it; it leaves these segments in the other colour, and a second walk finds the same. -/
theorem iterate_explores (hcb : callback.Steady) {r : SegPtr} {c : SegmentColor}
    (h : t.OneColor r c) (u : σ) :
    ∃ f t' u' announced, Explores t.kids ∅ [r] f ∧ f.toList.Nodup ∧
      (∀ q, q ∈ f.toList ↔ t.Reaches r q) ∧
      t.iterate (some r) callback.traced (u,[]) = some (t',u',f.visits announced) ∧
      (f.visits announced).Nodup ∧
      (∀ a b, f.Below a b → announced a = true →
        [.enter b (announced b),.leave a].Sublist (f.visits announced) ∧
        (announced b = true → [.leave b,.leave a].Sublist (f.visits announced))) ∧
      t'.kids = t.kids ∧ (∀ q, t.Reaches r q → t'.color q = some c.toggle) ∧
      ∀ (τ : Type) (callback' : Iter τ), callback'.Steady → ∀ v : τ, ∃ t'' v' announced',
        t'.iterate (some r) callback'.traced (v,[]) = some (t'',v',f.visits announced') := by
  obtain ⟨f,hf,hdepth⟩ := h.exists_explores
  have hmem : ∀ q, q ∈ f.toList ↔ t.Reaches r q := by
    intro q
    rw [hf.mem_iff]
    simp [Reaches]
  have hlive : ∀ {t' : Txn}, t'.kids = t.kids → ∀ q ∈ f.toList, ∃ ks, t'.kids q = some ks := by
    intro t' hkids q hq
    obtain ⟨s,hs,-⟩ := Option.map_eq_some_iff.mp (h.color q ((hmem q).mp hq))
    exact ⟨_,by rw [hkids,kids,hs]; rfl⟩
  obtain ⟨w',announced,hw',hlog,hslab⟩ := walk_traced hcb hf.nodup
    (w := (t,u,[])) (hlive rfl)
  obtain ⟨hkids,hcol⟩ := walk_shape hcb.frame.traced hw'
  have hcol' : ∀ q, t.Reaches r q → w'.1.color q = some c.toggle := by
    intro q hq
    rw [hcol,if_pos ((hmem q).mpr hq)]
  have hreach : w'.1.Reaches = t.Reaches := by
    funext a b
    rw [Reaches,Reaches,hkids]
  have hnext : w'.1.OneColor r c.toggle := by
    constructor
    · intro q hq
      exact hcol' q (hreach ▸ hq)
    · intro q hq
      rw [hslab]
      exact h.addresses q (hreach ▸ hq)
  refine ⟨f,w'.1,w'.2.1,announced,hf,hf.nodup,hmem,?_,visits_nodup hf.nodup,
    fun a b hab ha => leave_after hab ha,hkids,hcol',?_⟩
  · rw [h.iterate_visits hf hdepth hcb.frame.traced,hw',← List.nil_append (f.visits announced)]
    exact congrArg (fun l => some (w'.1,w'.2.1,l)) hlog
  · intro τ callback' hcb' v
    obtain ⟨w'',announced',hw'',hlog',-⟩ := walk_traced hcb' hf.nodup
      (w := (w'.1,v,[])) (hlive hkids)
    refine ⟨w''.1,w''.2.1,announced',?_⟩
    rw [hnext.iterate_visits (hf.congr fun a _ => congrFun hkids a) (hslab ▸ hdepth)
      hcb'.frame.traced,hw'',← List.nil_append (f.visits announced')]
    exact congrArg (fun l => some (w''.1,w''.2.1,l)) hlog'

/-- Two segments that are children of each other. -/
def twoCycle : Txn :=
  { blank 1 0 ⟨0,false,0,false,false⟩ none false (fun _ => []) with
    segs := fun q =>
      if q = 1 then some { Segment.zero with children := .packed [2] (by decide) }
      else if q = 2 then some { Segment.zero with children := .packed [1] (by decide) }
      else none
    slab := ⟨[],3,2⟩ }

lemma twoCycle_oneColor : twoCycle.OneColor 1 .white := by
  have hreach : ∀ q, twoCycle.Reaches 1 q → q = 1 ∨ q = 2 := by
    intro q hq
    induction hq with
    | refl => exact .inl rfl
    | tail _ hedge ih =>
      obtain ⟨ks,hks,hmem⟩ := hedge
      obtain rfl | rfl := ih
      · obtain rfl : [2] = ks := Option.some_inj.mp hks
        exact .inr (List.mem_singleton.mp hmem)
      · obtain rfl : [1] = ks := Option.some_inj.mp hks
        exact .inl (List.mem_singleton.mp hmem)
  constructor
  · intro q hq
    obtain rfl | rfl := hreach q hq
    · rfl
    · rfl
  · intro q hq
    obtain rfl | rfl := hreach q hq
    · decide
    · decide

/-- A callback that registers one. -/
def counting : Iter ℕ := fun _ w => some (some fun _ x => some (x.1,x.2+1),w)

lemma counting_steady : counting.Steady where
  frame p w post w' h := by
    cases h
    refine ⟨rfl,fun q x x' hx => ?_⟩
    cases hx
    rfl
  slab p w post w' h := by
    cases h
    refine ⟨rfl,fun q x x' hx => ?_⟩
    cases hx
    rfl
  returns p w s _ := ⟨_,_,rfl,fun x _ _ => ⟨_,rfl⟩⟩

theorem iterate_explores_twoCycle : ∃ f t' u' announced, (∀ q, q ∈ f.toList ↔ twoCycle.Reaches 1 q) ∧
    twoCycle.iterate (some 1) counting.traced (0,[]) = some (t',u',visits announced f) ∧
    t'.color 2 = some .grey := by
  obtain ⟨f,t',u',announced,-,-,hmem,hwalk,-,-,-,hcol,-⟩ :=
    iterate_explores counting_steady twoCycle_oneColor 0
  have hedge : Edge twoCycle.kids 1 2 := ⟨[2],rfl,List.mem_singleton_self 2⟩
  exact ⟨f,t',u',announced,hmem,hwalk,hcol 2 (.single hedge)⟩

end Txn
end PhpAgent
