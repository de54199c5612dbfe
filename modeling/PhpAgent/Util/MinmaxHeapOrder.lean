import PhpAgent.Lib.MinMaxOrder
import PhpAgent.Util.MinmaxHeap

/-! The sifting operations of the min-max heap restore the min-max order, whatever the comparator
does with ties, and only exchange elements that are in use. -/
namespace PhpAgent.MinmaxHeap
open MinMaxOrder

section Memory
variable {α : Type} {h : MinmaxHeap α}

/-- The stored value of every slot. -/
def vals (h : MinmaxHeap α) (i : ℕ) : α := (h.elements i).value

/-- The stored values, with multiplicity. -/
def stored (h : MinmaxHeap α) : Multiset α := (Finset.Icc 1 h.used).val.map h.vals

lemma read_eq {i : ℕ} (hi : i < h.capacity) : h.read i = some (h.elements i) := if_pos hi

lemma write_eq {i : ℕ} (hi : i < h.capacity) (e : HeapElement α) :
    h.write i e = some { h with elements := Function.update h.elements i e } := if_pos hi

/-- The heap after exchanging two slots. -/
def swapped (h : MinmaxHeap α) (i j : ℕ) : MinmaxHeap α :=
  { h with elements := fun k => h.elements (Equiv.swap i j k) }

@[simp] lemma swapped_used (h : MinmaxHeap α) (i j : ℕ) : (h.swapped i j).used = h.used := rfl
@[simp] lemma swapped_capacity (h : MinmaxHeap α) (i j : ℕ) :
    (h.swapped i j).capacity = h.capacity := rfl
@[simp] lemma swapped_vals (h : MinmaxHeap α) (i j : ℕ) :
    (h.swapped i j).vals = fun k => h.vals (Equiv.swap i j k) := rfl

lemma swap_eq {i j : ℕ} (hi : i < h.capacity) (hj : j < h.capacity) : h.swap i j = some (h.swapped i j) := by
  simp only [swap,read_eq hi,read_eq hj,write_eq hi,Option.bind_eq_bind,Option.bind_some]
  rw [write_eq (by exact hj)]
  congr 1
  simp only [swapped,mk.injEq,true_and]
  funext k
  by_cases hkj : k = j
  · subst hkj; simp
  by_cases hki : k = i
  · subst hki; simp [Function.update_of_ne hkj]
  · simp [Function.update_of_ne hkj,Function.update_of_ne hki,Equiv.swap_apply_of_ne_of_ne hki hkj]

/-- `h'` holds the elements of `h` in another order. -/
structure Rearranged (h h' : MinmaxHeap α) : Prop where
  bound : h'.bound = h.bound
  capacity : h'.capacity = h.capacity
  used : h'.used = h.used
  perm : ∃ σ : Equiv.Perm ℕ, (∀ k, σ k ≠ k → 1 ≤ k ∧ k ≤ h.used) ∧
    ∀ k, h'.elements k = h.elements (σ k)

namespace Rearranged

lemma refl (h : MinmaxHeap α) : Rearranged h h :=
  ⟨rfl,rfl,rfl,1,fun _ hk => absurd rfl hk,fun _ => rfl⟩

lemma trans {h₁ h₂ h₃ : MinmaxHeap α} (a : Rearranged h₁ h₂) (b : Rearranged h₂ h₃) :
    Rearranged h₁ h₃ := by
  obtain ⟨σ,hσ,he⟩ := a.perm
  obtain ⟨τ,hτ,hf⟩ := b.perm
  refine ⟨b.bound.trans a.bound,b.capacity.trans a.capacity,b.used.trans a.used,τ.trans σ,?_,?_⟩
  · intro k hk
    by_cases h1 : τ k = k
    · exact hσ k (by simpa [h1] using hk)
    · exact a.used ▸ hτ k h1
  · intro k
    rw [hf,he]
    rfl

lemma swapped {h : MinmaxHeap α} {i j : ℕ} (hi : 1 ≤ i ∧ i ≤ h.used)
    (hj : 1 ≤ j ∧ j ≤ h.used) : Rearranged h (h.swapped i j) := by
  refine ⟨rfl,rfl,rfl,Equiv.swap i j,?_,fun _ => rfl⟩
  intro k hk
  rcases Equiv.swap_apply_ne_self_iff.mp hk with ⟨_,rfl | rfl⟩
  · exact hi
  · exact hj

lemma stored_eq {h h' : MinmaxHeap α} (a : Rearranged h h') : h'.stored = h.stored := by
  obtain ⟨σ,hσ,he⟩ := a.perm
  have hsub : {k | σ k ≠ k} ⊆ ↑(Finset.Icc 1 h.used) := by
    intro k hk
    simpa using hσ k hk
  have hmap : (Finset.Icc 1 h.used).val.map σ = (Finset.Icc 1 h.used).val :=
    congrArg Finset.val (Finset.map_perm hsub)
  have hv : h'.vals = h.vals ∘ σ := funext fun k => congrArg HeapElement.value (he k)
  calc h'.stored = ((Finset.Icc 1 h.used).val.map σ).map h.vals := by
        rw [stored,a.used,hv,Multiset.map_map]
    _ = h.stored := by rw [hmap,stored]

end Rearranged
end Memory

/-! ### Levels and directions -/

lemma isMin_alternating : Alternating (fun i => isMin i = true) := by
  intro y hy
  have hlog : Nat.log2 y = Nat.log2 (y/2)+1 := by rw [Nat.log2_def,if_pos hy]
  simp only [isMin,hlog,beq_iff_eq]
  omega

/-- The direction `op` looks for labels that come first under `r`, on the levels `P`. -/
structure Direction {α : Type} (cmp : α → α → ℤ) (op : CompareOp) (r : α → α → Prop)
    (P : ℕ → Prop) : Prop where
  holds_iff : ∀ a b, op.holds (cmp a b) = true ↔ ¬ r b a
  total : ∀ a b, r a b ∨ r b a
  trans : ∀ a b c, r a b → r b c → r a c
  alternating : Alternating P

section Sifting
variable {α : Type} {cmp : α → α → ℤ}

/-- The order the comparator defines. -/
def le (cmp : α → α → ℤ) (a b : α) : Prop := cmp a b ≤ 0

lemma direction_min (hc : IsComparator cmp) :
    Direction cmp .lessThan (le cmp) (fun i => isMin i = true) where
  holds_iff a b := by simpa [CompareOp.holds,le] using hc.neg_iff a b
  total := hc.total
  trans := hc.trans
  alternating := isMin_alternating

lemma direction_max (hc : IsComparator cmp) :
    Direction cmp .greaterThan (flip (le cmp)) (fun i => ¬ isMin i = true) where
  holds_iff a b := by simp [CompareOp.holds,le,flip]
  total a b := hc.total b a
  trans a b c hab hbc := hc.trans c b a hbc hab
  alternating := isMin_alternating.compl

variable {op : CompareOp} {r : α → α → Prop} {P : ℕ → Prop} {h : MinmaxHeap α}

lemma Direction.of_holds (d : Direction cmp op r P) {a b : α} (h : op.holds (cmp a b) = true) :
    r a b := (d.total a b).resolve_right ((d.holds_iff a b).mp h)

lemma Direction.of_not_holds (d : Direction cmp op r P) {a b : α}
    (h : op.holds (cmp a b) = false) : r b a := by
  by_contra hh
  rw [(d.holds_iff a b).mpr hh] at h
  cases h

lemma Direction.refl (d : Direction cmp op r P) (a : α) : r a a := (d.total a a).elim id id

lemma compare_eq {i j : ℕ} (hi : i < h.capacity) (hj : j < h.capacity) :
    compare cmp h i j = some (cmp (h.vals i) (h.vals j)) := by
  simp [compare,read_eq hi,read_eq hj,vals]

lemma compareExpect_eq (cmp : α → α → ℤ) (op : CompareOp) {i j : ℕ}
    (hi : i < h.capacity) (hj : j < h.capacity) :
    compareExpect cmp h i j op = some (op.holds (cmp (h.vals i) (h.vals j))) := by
  simp [compareExpect,compare_eq hi hj]

/-! ### Bubbling up -/

/-- Bubbling up along the levels `P` repairs a heap whose only fault is `i` against the labels above
it on these levels. -/
theorem bubbleupMinmax_spec (d : Direction cmp op r P) (fuel : ℕ) (h : MinmaxHeap α) (i : ℕ)
    (hfuel : i < fuel) (hi : 1 ≤ i) (hiu : i ≤ h.used) (hcap : h.used < h.capacity) (hP : P i)
    (ho : OrderedUpTo r P h.used i h.vals) :
    ∃ h', bubbleupMinmax cmp fuel h i op = some h' ∧ Rearranged h h' ∧
      Ordered r P h'.used h'.vals := by
  induction fuel generalizing h i with
  | zero => omega
  | succ fuel ih =>
    simp only [bubbleupMinmax,parent]
    by_cases hg : i/2/2 ≤ 0
    · refine ⟨h,by simp [hg],.refl h,ho.of_top ?_⟩
      intro x hx hPx
      have hx1 := hx.pos
      obtain ⟨hi2,rfl | hx2⟩ := Anc.iff_parent.mp hx
      · exact (d.alternating i hi2).mp hP hPx
      · have := hx2.lt
        omega
    have hi4 : 4 ≤ i := by omega
    simp only [hg,if_false,compareExpect_eq cmp op (show i < h.capacity by omega)
      (show i/2/2 < h.capacity by omega),Option.bind_eq_bind,Option.bind_some]
    cases hcmp : op.holds (cmp (h.vals i) (h.vals (i/2/2))) with
    | false =>
      exact ⟨h,by simp,.refl h,
        ho.of_grandparent d.trans d.alternating hP hi4 hiu (d.of_not_holds hcmp)⟩
    | true =>
      have hs : Rearranged h (h.swapped i (i/2/2)) := .swapped ⟨hi,hiu⟩ ⟨by omega,by omega⟩
      have ho' := ho.swap d.trans d.alternating hP hi4 hiu (d.of_holds hcmp)
      obtain ⟨h',he,hr,hord⟩ := ih (h.swapped i (i/2/2)) (i/2/2) (by omega) (by omega)
        (by simp; omega) hcap ((d.alternating.grandchild hi4).mp hP) ho'
      refine ⟨h',?_,hs.trans hr,hord⟩
      simp [swap_eq (show i < h.capacity by omega) (show i/2/2 < h.capacity by omega),he]

/-- The min-max level order of the stored values: on an even level a value is at most everything
below it, on an odd level at least. -/
def LevelOrdered (cmp : α → α → ℤ) (h : MinmaxHeap α) : Prop :=
  Ordered (le cmp) (fun i => isMin i = true) h.used h.vals

/-- Bubbling up the last slot repairs a heap that is in order but for that slot. -/
theorem bubbleup_spec (hc : IsComparator cmp) (h : MinmaxHeap α) (n : ℕ) (hn : h.used = n+1)
    (hcap : h.used < h.capacity)
    (ho : Ordered (le cmp) (fun i => isMin i = true) n h.vals) :
    ∃ h', bubbleup cmp h h.used = some h' ∧ Rearranged h h' ∧ LevelOrdered cmp h' := by
  have dmin := direction_min hc
  have dmax := direction_max hc
  rw [hn]
  simp only [bubbleup,parent]
  by_cases hp : (n+1)/2 ≤ 0
  · refine ⟨h,by simp [hp],.refl h,?_⟩
    intro x y hxy hy
    have h1 := hxy.pos
    have h2 := hxy.lt
    omega
  have hn1 : 1 ≤ n := by omega
  have hi : n+1 < h.capacity := by omega
  have hq : (n+1)/2 < h.capacity := by omega
  have hs : Rearranged h (h.swapped (n+1) ((n+1)/2)) :=
    .swapped ⟨by omega,by omega⟩ ⟨by omega,by omega⟩
  have hsq : ∀ k, k ≤ n+1 → k ≤ (h.swapped (n+1) ((n+1)/2)).used := fun k hk => hn ▸ hk
  simp only [hp,if_false,compare_eq hi hq,Option.bind_eq_bind,Option.bind_some]
  by_cases hlev : isMin (n+1) = true
  · have hlevq : ¬ isMin ((n+1)/2) = true := (isMin_alternating (n+1) (by omega)).mp hlev
    simp only [hlev,if_true]
    by_cases hcmp : 0 < cmp (h.vals (n+1)) (h.vals ((n+1)/2))
    · have hup := ho.leaf_swap dmin.trans isMin_alternating hn1 hlev
        ((hc.pos_iff _ _).mp hcmp).le
      obtain ⟨h',he,hr,hord⟩ := bubbleupMinmax_spec dmax ((n+1)/2+1)
        (h.swapped (n+1) ((n+1)/2)) ((n+1)/2) (by omega) (by omega) (hsq _ (by omega)) hcap hlevq
        (by simpa [hn] using hup)
      exact ⟨h',by simp [hcmp,swap_eq hi hq,bubbleupMax,he],hs.trans hr,
        (ordered_flip _ _ _ _).mp hord⟩
    · have hup := ho.leaf_keep dmin.trans hn1 (not_lt.mp hcmp)
      obtain ⟨h',he,hr,hord⟩ := bubbleupMinmax_spec dmin (n+1+1) h (n+1) (by omega) (by omega)
        hn.ge hcap hlev (by simpa [hn] using hup)
      exact ⟨h',by simp [hcmp,bubbleupMin,he],hr,hord⟩
  · have hlevq : isMin ((n+1)/2) = true := by
      by_contra hh
      exact hlev ((isMin_alternating (n+1) (by omega)).mpr hh)
    have ho' := (ordered_flip (le cmp) (fun i => isMin i = true) n h.vals).mpr ho
    simp only [hlev]
    by_cases hcmp : cmp (h.vals (n+1)) (h.vals ((n+1)/2)) < 0
    · have hup := ho'.leaf_swap dmax.trans dmax.alternating hn1 hlev hcmp.le
      simp only [not_not,← hn] at hup
      obtain ⟨h',he,hr,hord⟩ := bubbleupMinmax_spec dmin ((n+1)/2+1)
        (h.swapped (n+1) ((n+1)/2)) ((n+1)/2) (by omega) (by omega) (hsq _ (by omega)) hcap hlevq
        (hn ▸ hup)
      exact ⟨h',by simp [hcmp,swap_eq hi hq,bubbleupMin,he],hs.trans hr,hord⟩
    · have hup := ho'.leaf_keep dmax.trans hn1 (not_lt.mp ((hc.pos_iff _ _).not.mpr hcmp))
      obtain ⟨h',he,hr,hord⟩ := bubbleupMinmax_spec dmax (n+1+1) h (n+1) (by omega) (by omega)
        hn.ge hcap hlev (by simpa [hn] using hup)
      exact ⟨h',by simp [hcmp,bubbleupMax,he],hr,(ordered_flip _ _ _ _).mp hord⟩

/-! ### Trickling down -/

/-- The search over candidates keeps the first of all candidates in use and of its start. -/
theorem pickChild_foldlM (d : Direction cmp op r P) (hcap : h.used < h.capacity)
    (cs : List ℕ) (j : ℕ) (hj : j ≤ h.used) :
    ∃ m, cs.foldlM (pickChild cmp h op) (some j) = some (some m) ∧ m ≤ h.used ∧
      (m = j ∨ m ∈ cs) ∧ r (h.vals m) (h.vals j) ∧
      ∀ c ∈ cs, c ≤ h.used → r (h.vals m) (h.vals c) := by
  induction cs generalizing j with
  | nil => exact ⟨j,rfl,hj,.inl rfl,d.refl _,by simp⟩
  | cons c cs ih =>
    by_cases hcu : c ≤ h.used
    · have hstep := compareExpect_eq cmp op (show c < h.capacity by omega)
        (show j < h.capacity by omega)
      cases hcmp : op.holds (cmp (h.vals c) (h.vals j)) with
      | true =>
        obtain ⟨m,he,hm,hmem,hmj,hmin⟩ := ih c hcu
        refine ⟨m,?_,hm,?_,d.trans _ _ _ hmj (d.of_holds hcmp),?_⟩
        · simpa [List.foldlM_cons,pickChild,hcu,hstep,hcmp] using he
        · rcases hmem with rfl | hmem
          · exact .inr (by simp)
          · exact .inr (by simp [hmem])
        · rintro x hx hxu
          rcases List.mem_cons.mp hx with rfl | hx
          · exact hmj
          · exact hmin x hx hxu
      | false =>
        obtain ⟨m,he,hm,hmem,hmj,hmin⟩ := ih j hj
        refine ⟨m,?_,hm,?_,hmj,?_⟩
        · simpa [List.foldlM_cons,pickChild,hcu,hstep,hcmp] using he
        · exact hmem.imp_right (List.mem_cons_of_mem c)
        · rintro x hx hxu
          rcases List.mem_cons.mp hx with rfl | hx
          · exact d.trans _ _ _ hmj (d.of_not_holds hcmp)
          · exact hmin x hx hxu
    · obtain ⟨m,he,hm,hmem,hmj,hmin⟩ := ih j hj
      refine ⟨m,?_,hm,hmem.imp_right (List.mem_cons_of_mem c),hmj,?_⟩
      · simpa [List.foldlM_cons,pickChild,hcu] using he
      · rintro x hx hxu
        rcases List.mem_cons.mp hx with rfl | hx
        · exact absurd hxu hcu
        · exact hmin x hx hxu

lemma near_iff {i c : ℕ} (hi : 1 ≤ i) : Near i c ↔
    c = firstChild i ∨ c ∈ [secondChild i,firstChild (firstChild i),secondChild (firstChild i),
      firstChild (secondChild i),secondChild (secondChild i)] := by
  simp only [Near,firstChild,secondChild,List.mem_cons,List.not_mem_nil,or_false]
  omega

/-- Either nothing is below `i`, or the search finds the first of all labels near `i`. -/
theorem indexMinmaxChildGrandchild_spec (d : Direction cmp op r P) {i : ℕ}
    (hcap : h.used < h.capacity) (hi : 1 ≤ i) :
    (h.used < 2*i ∧ indexMinmaxChildGrandchild cmp h i op = some none) ∨
    ∃ m, indexMinmaxChildGrandchild cmp h i op = some (some m) ∧ Near i m ∧ m ≤ h.used ∧
      ∀ c, Near i c → c ≤ h.used → r (h.vals m) (h.vals c) := by
  by_cases ha : firstChild i ≤ h.used
  · right
    obtain ⟨m,he,hm,hmem,hmj,hmin⟩ := pickChild_foldlM d hcap
      [secondChild i,firstChild (firstChild i),secondChild (firstChild i),
        firstChild (secondChild i),secondChild (secondChild i)] (firstChild i) ha
    refine ⟨m,by simp only [indexMinmaxChildGrandchild,ha,if_true]; exact he,
      (near_iff hi).mpr hmem,hm,?_⟩
    intro c hc hcu
    rcases (near_iff hi).mp hc with rfl | hc
    · exact hmj
    · exact hmin c hc hcu
  · left
    simp only [firstChild] at ha
    refine ⟨by omega,?_⟩
    have hb : ¬ secondChild i ≤ h.used := by simp only [secondChild]; omega
    have hc : ¬ firstChild (firstChild i) ≤ h.used := by simp only [firstChild]; omega
    have hd : ¬ secondChild (firstChild i) ≤ h.used := by
      simp only [firstChild,secondChild]; omega
    have hf : ¬ firstChild (secondChild i) ≤ h.used := by
      simp only [firstChild,secondChild]; omega
    have hg : ¬ secondChild (secondChild i) ≤ h.used := by simp only [secondChild]; omega
    have ha' : ¬ firstChild i ≤ h.used := by simp only [firstChild]; omega
    simp [indexMinmaxChildGrandchild,pickChild,ha',hb,hc,hd,hf,hg]

/-- Trickling down from `i` repairs a heap whose only fault is `i` against the labels below it. -/
theorem trickledownMinmax_spec (d : Direction cmp op r P) (fuel : ℕ) (h : MinmaxHeap α) (i : ℕ)
    (hfuel : h.used+1 < fuel+i) (hi : 1 ≤ i) (hiu : i ≤ h.used+1) (hcap : h.used < h.capacity)
    (hP : P i) (ho : OrderedDownTo r P h.used i h.vals) :
    ∃ h', trickledownMinmax cmp fuel h i op = some h' ∧ Rearranged h h' ∧
      Ordered r P h'.used h'.vals := by
  induction fuel generalizing h i with
  | zero => omega
  | succ fuel ih =>
    simp only [trickledownMinmax]
    rcases indexMinmaxChildGrandchild_spec d hcap hi with ⟨hu,he⟩ | ⟨m,he,hnear,hmu,hmin⟩
    · refine ⟨h,by simp [he],.refl h,ho.rest d.trans d.alternating hP ?_⟩
      intro c hc hcu
      have := hc.anc.lt
      rcases hc with ⟨hc,_⟩ | ⟨hc,_⟩ <;> omega
    have him : i < m := hnear.anc.lt
    have hic : i < h.capacity := by omega
    have hmc : m < h.capacity := by omega
    simp only [he,Option.bind_eq_bind,Option.bind_some,compareExpect_eq cmp op hmc hic]
    cases hcmp : op.holds (cmp (h.vals m) (h.vals i)) with
    | false =>
      have him' : r (h.vals i) (h.vals m) := d.of_not_holds hcmp
      exact ⟨h,by split <;> simp,.refl h,ho.rest d.trans d.alternating hP
        fun c hc hcu => d.trans _ _ _ him' (hmin c hc hcu)⟩
    | true =>
      have hmi : r (h.vals m) (h.vals i) := d.of_holds hcmp
      have hs : Rearranged h (h.swapped i m) := .swapped ⟨hi,by omega⟩ ⟨by omega,hmu⟩
      by_cases hgc : secondChild i < m
      · -- `m` is a grandchild: the search goes on below it.
        have hm4 : m/2/2 = i ∧ 4 ≤ m := by
          simp only [secondChild] at hgc
          rcases hnear with ⟨hh,_⟩ | hh
          · omega
          · exact hh
        have hpc : m/2 < h.capacity := by omega
        have hPm : P m := (d.alternating.grandchild hm4.2).mpr (hm4.1 ▸ hP)
        have hvp : Equiv.swap i m (m/2) = m/2 :=
          Equiv.swap_apply_of_ne_of_ne (by omega) (by omega)
        simp only [hgc,if_true,swap_eq hic hmc,Option.bind_some,parent,
          compareExpect_eq cmp op (h := h.swapped i m) hmc hpc,swapped_vals,
          Equiv.swap_apply_right,hvp]
        cases hcmp' : op.holds (cmp (h.vals i) (h.vals (m/2))) with
        | true =>
          have ho' : OrderedDownTo r P h.used m (h.swapped i m).vals := by
            refine ho.sink d.trans d.alternating hP hm4.1 hm4.2 hmu hmin hmi ?_ (by simp)
              (.inl (by simp)) (.inr (by simp [hvp])) ?_ ?_
            · intro k hki hkm _
              simp [Equiv.swap_apply_of_ne_of_ne hki hkm]
            · simpa [hvp] using d.of_holds hcmp'
            · simp [hvp]
          obtain ⟨h',he',hr,hord⟩ := ih (h.swapped i m) m (by simp; omega) (by omega)
            (by simp; omega) hcap hPm ho'
          exact ⟨h',by simpa using he',hs.trans hr,hord⟩
        | false =>
          have hs' : Rearranged (h.swapped i m) ((h.swapped i m).swapped m (m/2)) :=
            .swapped ⟨by omega,hmu⟩ ⟨by omega,by simp; omega⟩
          have hpi : r (h.vals (m/2)) (h.vals i) := d.of_not_holds hcmp'
          have hsi : Equiv.swap m (m/2) i = i :=
            Equiv.swap_apply_of_ne_of_ne (by omega) (by omega)
          have ho' : OrderedDownTo r P h.used m ((h.swapped i m).swapped m (m/2)).vals := by
            refine ho.sink d.trans d.alternating hP hm4.1 hm4.2 hmu hmin hmi ?_ (by simp [hsi])
              (.inr (by simp [hvp])) (.inl (by simp)) ?_ ?_
            · intro k hki hkm hkp
              simp [Equiv.swap_apply_of_ne_of_ne hkm hkp,Equiv.swap_apply_of_ne_of_ne hki hkm]
            · simpa [hvp] using hpi
            · intro z hz
              simpa using d.trans _ _ _ hz hpi
          obtain ⟨h',he',hr,hord⟩ := ih ((h.swapped i m).swapped m (m/2)) m (by simp; omega)
            (by omega) (by simp; omega) hcap hPm ho'
          refine ⟨h',?_,(hs.trans hs').trans hr,hord⟩
          simpa [swap_eq (h := h.swapped i m) hmc hpc] using he'
      · -- `m` is a child: one exchange is enough.
        have hm2 : m/2 = i ∧ 2 ≤ m := by
          simp only [secondChild] at hgc
          rcases hnear with hh | ⟨hh,_⟩
          · exact hh
          · omega
        refine ⟨h.swapped i m,by simp [hgc,swap_eq hic hmc],hs,?_⟩
        exact ho.swap_child d.trans d.alternating hP hm2.1 hm2.2 hmu hmin hmi

lemma trickledown_spec (hc : IsComparator cmp) (h : MinmaxHeap α) (i : ℕ) (hi : 1 ≤ i)
    (hiu : i ≤ h.used+1) (hcap : h.used < h.capacity)
    (ho : OrderedDownTo (le cmp) (fun i => isMin i = true) h.used i h.vals) :
    ∃ h', trickledown cmp h i = some h' ∧ Rearranged h h' ∧ LevelOrdered cmp h' := by
  by_cases hlev : isMin i = true
  · obtain ⟨h',he,hr,hord⟩ := trickledownMinmax_spec (direction_min hc) (h.used+1) h i (by omega)
      hi hiu hcap hlev ho
    exact ⟨h',by simp [trickledown,hlev,trickledownMin,he],hr,hord⟩
  · obtain ⟨h',he,hr,hord⟩ := trickledownMinmax_spec (direction_max hc) (h.used+1) h i (by omega)
      hi hiu hcap hlev ((orderedDownTo_flip _ _ _ _ _).mpr ho)
    exact ⟨h',by simp [trickledown,hlev,trickledownMax,he],hr,(ordered_flip _ _ _ _).mp hord⟩

end Sifting
end PhpAgent.MinmaxHeap
