import PhpAgent.Util.MinmaxHeapOrder

/-! Runs of the min-max heap: what insertion and the two removals do to the stored values, first for
one call on any valid heap and then for whole sequences of calls. -/
namespace PhpAgent.MinmaxHeap
open MinMaxOrder

variable {α : Type} {cmp : α → α → ℤ} {h : MinmaxHeap α}

/-- The representation invariant: all slots in use fit the allocation, exactly these carry the mark,
a bounded heap never outgrows its first allocation, and the values are in level order. -/
structure Valid (cmp : α → α → ℤ) (h : MinmaxHeap α) : Prop where
  room : h.used < h.capacity
  marks : ∀ i, i < h.capacity → ((h.elements i).used = true ↔ 1 ≤ i ∧ i ≤ h.used)
  bounded : h.bound ≠ 0 → h.used ≤ h.bound ∧ h.capacity = h.bound+1
  ordered : LevelOrdered cmp h

lemma Valid.rearranged {h₀ h h' : MinmaxHeap α} (hv : Valid cmp h₀) (hr : Rearranged h h')
    (hroom : h.used < h.capacity)
    (hmarks : ∀ i, i < h.capacity → ((h.elements i).used = true ↔ 1 ≤ i ∧ i ≤ h.used))
    (hbound : h.bound = h₀.bound)
    (hb : h₀.bound ≠ 0 → h.used ≤ h₀.bound ∧ h.capacity = h₀.capacity)
    (ho : LevelOrdered cmp h') : Valid cmp h' where
  room := hr.used ▸ hr.capacity ▸ hroom
  marks i hi := by
    obtain ⟨σ,hσ,he⟩ := hr.perm
    rw [hr.capacity] at hi
    rw [hr.used]
    by_cases hfix : σ i = i
    · rw [he,hfix,hmarks i hi]
    · have hi' := hσ i hfix
      have hσi : 1 ≤ σ i ∧ σ i ≤ h.used := hσ (σ i) (fun hh => hfix (σ.injective hh))
      rw [he,hmarks (σ i) (by omega)]
      tauto
  bounded hb' := by
    rw [hr.bound,hbound] at *
    rw [hr.used,hr.capacity,(hb hb').2]
    exact ⟨(hb hb').1,(hv.bounded hb').2⟩
  ordered := ho

lemma mem_stored {x : α} : x ∈ h.stored ↔ ∃ i, 1 ≤ i ∧ i ≤ h.used ∧ h.vals i = x := by
  simp [stored,and_assoc]

lemma card_stored (h : MinmaxHeap α) : h.stored.card = h.used := by simp [stored]

/-- A heap stays valid under a comparator that agrees on what it stores. -/
theorem Valid.congr {cmp' : α → α → ℤ} (hv : Valid cmp h)
    (heq : ∀ x ∈ h.stored, ∀ y ∈ h.stored, cmp' x y = cmp x y) : Valid cmp' h where
  room := hv.room
  marks := hv.marks
  bounded := hv.bounded
  ordered x y hxy hy := by
    have hmem : ∀ i, 1 ≤ i → i ≤ h.used → h.vals i ∈ h.stored :=
      fun i hi hiu => mem_stored.mpr ⟨i,hi,hiu,rfl⟩
    have hlt := hxy.lt
    have hx := hmem x hxy.pos (by omega)
    have hy := hmem y (by omega) hy
    obtain ⟨hmin,hmax⟩ := hv.ordered x y hxy (by omega)
    unfold le at hmin hmax
    constructor
    · rw [le,heq _ hx _ hy]
      exact hmin
    · rw [le,heq _ hy _ hx]
      exact hmax

lemma map_Icc_succ (f : ℕ → α) (n : ℕ) :
    (Finset.Icc 1 (n+1)).val.map f = f (n+1) ::ₘ (Finset.Icc 1 n).val.map f := by
  rw [← Finset.insert_Icc_right_eq_Icc_add_one (by omega),
    Finset.insert_val_of_notMem (by simp),Multiset.map_cons]

/-! ### One call -/

lemma create_spec [Inhabited α] (cmp : α → α → ℤ) (bound : ℕ) (hb : bound ≠ 1) :
    ∃ h : MinmaxHeap α, create (bound : ℤ) = some h ∧ Valid cmp h ∧ h.bound = bound ∧
      h.used = 0 := by
  have hcond : ¬ ((bound : ℤ) = 1 ∨ (bound : ℤ) < 0) := by omega
  refine ⟨_,by rw [create,if_neg hcond],⟨?_,?_,?_,?_⟩,by simp,rfl⟩
  · by_cases h0 : 0 < bound <;> simp [h0,chunkSize]
  · intro i _
    simp
    omega
  · intro hb'
    simp only [Int.toNat_natCast] at hb' ⊢
    simp [Nat.pos_of_ne_zero hb']
  · intro x y hxy hy
    have h1 := hxy.lt
    simp only at hy
    omega

/-- Iterating visits what is stored. -/
theorem Valid.iterate_spec (hv : Valid cmp h) : ∃ l, h.iterate = some l ∧ (l : Multiset α) = h.stored := by
  have hread : ∀ n, n ≤ h.capacity → (List.range n).mapM h.read = some ((List.range n).map h.elements) := by
    intro n hn
    induction n with
    | zero => rfl
    | succ n ih =>
      rw [List.range_succ,List.mapM_append,ih (by omega)]
      simp [read_eq (show n < h.capacity by omega)]
  have hroom := hv.room
  refine ⟨_,by rw [iterate,hread (h.used+1) (by omega)]; rfl,?_⟩
  have hlist : ∀ n, n ≤ h.used → ((((List.range (n+1)).map h.elements).filter HeapElement.used).map
      HeapElement.value : Multiset α) = (Finset.Icc 1 n).val.map h.vals := by
    intro n hn
    induction n with
    | zero =>
      have h0 : (h.elements 0).used = false := by
        rw [Bool.eq_false_iff]
        intro h0
        have := (hv.marks 0 (by omega)).mp h0
        omega
      simp [h0]
    | succ n ih =>
      have h1 : (h.elements (n+1)).used = true := (hv.marks (n+1) (by omega)).mpr ⟨by omega,hn⟩
      rw [List.range_succ,map_Icc_succ,← ih (by omega)]
      simp [h1,vals]
  exact hlist h.used le_rfl

section Append
variable [Inhabited α] {h : MinmaxHeap α}

@[simp] lemma grow_used (h : MinmaxHeap α) : h.grow.used = h.used := by
  unfold grow; split <;> rfl
@[simp] lemma grow_bound (h : MinmaxHeap α) : h.grow.bound = h.bound := by
  unfold grow; split <;> rfl

lemma grow_room (hroom : h.used < h.capacity) : h.used+1 < h.grow.capacity := by
  unfold grow
  split
  · simp only; omega
  · omega

lemma grow_elements {i : ℕ} (hi : i < h.capacity) : h.grow.elements i = h.elements i := by
  unfold grow
  split <;> simp [hi]

lemma Valid.grow_marks (hv : Valid cmp h) {i : ℕ} (hi : i < h.grow.capacity) :
    (h.grow.elements i).used = true ↔ 1 ≤ i ∧ i ≤ h.used := by
  by_cases hic : i < h.capacity
  · rw [grow_elements hic]
    exact hv.marks i hic
  · have hroom := hv.room
    revert hi
    unfold grow
    split
    · intro _
      simp only [hic,if_false]
      constructor
      · simp
      · omega
    · intro hi
      exact absurd hi hic

/-- A bounded heap that is not full appends without reallocation. -/
theorem Valid.grow_capacity (hv : Valid cmp h) (hb : h.bound ≠ 0)
    (hfree : h.used < h.bound) : h.grow.capacity = h.capacity := by
  have := (hv.bounded hb).2
  unfold grow
  rw [if_neg (by omega)]

/-- Appending to a heap that is not full adds the value and keeps the heap valid. -/
theorem append_spec (hc : IsComparator cmp) (hv : Valid cmp h)
    (hfree : h.bound ≠ 0 → h.used < h.bound) (v : α) :
    ∃ h', append cmp h v = some h' ∧ Valid cmp h' ∧ h'.bound = h.bound ∧
      h'.stored = v ::ₘ h.stored := by
  have hroom := grow_room hv.room
  have hcap := hv.room
  let g : MinmaxHeap α :=
    { h.grow with
      used := h.used+1
      elements := Function.update h.grow.elements (h.used+1) ⟨true,v⟩ }
  have hvals : ∀ i, i ≤ h.used → g.vals i = h.vals i := by
    intro i hi
    simp only [vals,g]
    rw [Function.update_of_ne (by omega),grow_elements (by omega)]
  have hord : Ordered (le cmp) (fun i => isMin i = true) h.used g.vals :=
    hv.ordered.congr (fun i _ hi => hvals i hi)
  obtain ⟨h',he,hr,ho⟩ := bubbleup_spec hc g h.used rfl hroom hord
  refine ⟨h',?_,?_,?_,?_⟩
  · simp only [append,grow_used]
    rw [write_eq (by exact hroom)]
    exact he
  · refine hv.rearranged hr hroom ?_ (grow_bound h) ?_ ho
    · intro i hi
      simp only [g]
      by_cases hiu : i = h.used+1
      · subst hiu; simp
      · rw [Function.update_of_ne hiu,hv.grow_marks hi]
        omega
    · intro hb
      have := hfree hb
      exact ⟨by simp only [g]; omega,hv.grow_capacity hb (hfree hb)⟩
  · rw [hr.bound]
    exact grow_bound h
  · rw [hr.stored_eq,stored,show g.used = h.used+1 from rfl,map_Icc_succ,stored]
    congr 1
    · simp [vals,g]
    · exact Multiset.map_congr rfl (fun i hi => hvals i (by simp at hi; omega))

end Append

lemma anc_one {y : ℕ} (hy : 2 ≤ y) : Anc 1 y := by
  induction y using Nat.strong_induction_on with
  | _ y ih =>
    by_cases h : y/2 = 1
    · exact h ▸ .parent hy
    · exact .up hy (ih (y/2) (by omega) (by omega))

/-- The root holds a minimum. -/
theorem Valid.vals_one_le (hc : IsComparator cmp) (hv : Valid cmp h) :
    ∀ x ∈ h.stored, cmp (h.vals 1) x ≤ 0 := by
  intro x hx
  obtain ⟨i,hi,hiu,rfl⟩ := mem_stored.mp hx
  by_cases h1 : i = 1
  · exact h1 ▸ hc.refl _
  · exact (hv.ordered 1 i (anc_one (by omega)) hiu).1 (by decide)

/-- Giving slot `i` the last value and sinking it removes exactly the old value of slot `i`. The
slots 1, 2 and 3 have nothing above them but the root. -/
theorem refill_spec (hc : IsComparator cmp) (hv : Valid cmp h) {i : ℕ}
    (hi : 1 ≤ i) (hi3 : i ≤ 3) (hiu : i ≤ h.used) (hu : 2 ≤ h.used) :
    ∃ h', refill cmp h i = some h' ∧ Valid cmp h' ∧ h'.bound = h.bound ∧
      h.vals i ::ₘ h'.stored = h.stored := by
  have hroom := hv.room
  obtain ⟨n,hn⟩ : ∃ n, h.used = n+1 := ⟨h.used-1,by omega⟩
  let e : HeapElement α := Function.update h.elements i (h.elements h.used) h.used
  let g : MinmaxHeap α :=
    { h with
      used := h.used-1
      elements := Function.update (Function.update h.elements i (h.elements h.used)) h.used
        { e with used := false } }
  have hvals : ∀ k, k ≤ n → g.vals k = h.vals (Equiv.swap i h.used k) := by
    intro k hk
    simp only [vals,g]
    rw [Function.update_of_ne (by omega)]
    by_cases hki : k = i
    · subst hki; simp
    · rw [Function.update_of_ne hki,Equiv.swap_apply_of_ne_of_ne hki (by omega)]
  have hord : OrderedDownTo (le cmp) (fun i => isMin i = true) g.used i g.vals := by
    intro x y hxy hy hxi
    have hlt := hxy.lt
    have hyn : y ≤ n := by simp only [g] at hy; omega
    have hxx : g.vals x = h.vals x := by
      rw [hvals x (by omega),Equiv.swap_apply_of_ne_of_ne hxi (by omega)]
    by_cases hyi : y = i
    · subst hyi
      have hx1 : x = 1 := by
        have := hxy.pos
        obtain ⟨_,rfl | hh⟩ := Anc.iff_parent.mp hxy
        · omega
        · have := hh.lt
          have := hh.pos
          omega
      subst hx1
      have hroot := hv.ordered 1 h.used (anc_one hu) le_rfl
      rw [LevelRel,hxx,hvals y hyn,Equiv.swap_apply_left]
      exact hroot
    · rw [LevelRel,hxx,hvals y hyn,Equiv.swap_apply_of_ne_of_ne hyi (by omega)]
      exact hv.ordered x y hxy (by omega)
  obtain ⟨h',he,hr,ho⟩ := trickledown_spec hc g i hi (by simp only [g]; omega)
    (by simp only [g]; omega) hord
  refine ⟨h',?_,?_,hr.bound,?_⟩
  · simp only [refill,read_eq hroom,write_eq (show i < h.capacity by omega),Option.bind_eq_bind,
      Option.bind_some]
    rw [read_eq (by exact hroom)]
    simp only [Option.bind_some]
    rw [write_eq (by exact hroom)]
    exact he
  · refine hv.rearranged hr (by simp only [g]; omega) ?_ rfl ?_ ho
    · intro k hk
      simp only [g] at hk ⊢
      by_cases hku : k = h.used
      · subst hku; simp; omega
      rw [Function.update_of_ne hku]
      by_cases hki : k = i
      · subst hki
        simp only [Function.update_self,hv.marks h.used hroom]
        omega
      · rw [Function.update_of_ne hki,hv.marks k hk]
        omega
    · intro hb
      have := (hv.bounded hb).1
      exact ⟨by simp only [g]; omega,rfl⟩
  · have hs := (Rearranged.swapped (h := h) ⟨hi,hiu⟩ ⟨by omega,le_rfl⟩).stored_eq
    rw [hr.stored_eq,← hs,stored,stored,show (h.swapped i h.used).used = n+1 from hn,
      map_Icc_succ,show g.used = n by simp only [g]; omega]
    congr 1
    · simp [← hn]
    · exact Multiset.map_congr rfl (fun k hk => hvals k (by simp at hk; omega))

/-- Releasing the last slot of a heap. -/
theorem release_spec (hv : Valid cmp h) (hu : h.used ≠ 0) : let h' : MinmaxHeap α := { h with
      used := h.used-1
      elements := Function.update h.elements h.used { h.elements h.used with used := false } }
    Valid cmp h' ∧ h.vals h.used ::ₘ h'.stored = h.stored := by
  intro h'
  have hroom := hv.room
  obtain ⟨n,hn⟩ : ∃ n, h.used = n+1 := ⟨h.used-1,by omega⟩
  have hvals : ∀ k, h'.vals k = h.vals k := by
    intro k
    simp only [vals,h']
    by_cases hk : k = h.used
    · subst hk; simp
    · rw [Function.update_of_ne hk]
  constructor
  · refine hv.rearranged (.refl h') (by simp only [h']; omega) ?_ rfl ?_ ?_
    · intro k hk
      simp only [h'] at hk ⊢
      by_cases hku : k = h.used
      · subst hku; simp; omega
      · rw [Function.update_of_ne hku,hv.marks k hk]
        omega
    · intro hb
      have := (hv.bounded hb).1
      exact ⟨by simp only [h']; omega,rfl⟩
    · refine (hv.ordered.mono ?_).congr (fun k _ _ => hvals k)
      simp only [h']
      omega
  · rw [stored,stored,hn,map_Icc_succ,show h'.used = n by simp only [h']; omega,funext hvals]

/-- `pop_min` on a non-empty heap removes and returns the root. -/
theorem popMin_spec (hc : IsComparator cmp) (hv : Valid cmp h) (hu : h.used ≠ 0) :
    ∃ h', popMin cmp h = some (some (h.vals 1),h') ∧ Valid cmp h' ∧ h'.bound = h.bound ∧
      h.vals 1 ::ₘ h'.stored = h.stored := by
  have hroom := hv.room
  have h1 : 1 < h.capacity := by omega
  by_cases hu1 : h.used = 1
  · obtain ⟨hv',hst⟩ := release_spec hv hu
    refine ⟨_,?_,hv',rfl,by rw [← hst,hu1]⟩
    simp [popMin,read_eq h1,hu1,write_eq h1,vals]
  · obtain ⟨h',he,hv',hb,hst⟩ := refill_spec hc hv le_rfl (by omega) (show 1 ≤ h.used by omega)
      (by omega)
    exact ⟨h',by simp [popMin,read_eq h1,hu,hu1,he,vals],hv',hb,hst⟩

/-- `pop_max` on a non-empty heap removes and returns a maximum. -/
theorem popMax_spec (hc : IsComparator cmp) (hv : Valid cmp h) (hu : h.used ≠ 0) :
    ∃ v h', popMax cmp h = some (some v,h') ∧ Valid cmp h' ∧ h'.bound = h.bound ∧
      v ::ₘ h'.stored = h.stored ∧ ∀ x ∈ h.stored, cmp x v ≤ 0 := by
  have hroom := hv.room
  by_cases hu2 : h.used ≤ 2
  · obtain ⟨hv',hst⟩ := release_spec hv hu
    refine ⟨h.vals h.used,_,?_,hv',rfl,hst,?_⟩
    · simp [popMax,hu,hu2,read_eq hroom,write_eq hroom,vals]
    · intro x hx
      obtain ⟨i,hi,hiu,rfl⟩ := mem_stored.mp hx
      by_cases hii : i = h.used
      · exact hii ▸ hc.refl _
      · have hi1 : i = 1 := by omega
        subst hi1
        exact hv.vals_one_le hc _ (mem_stored.mpr ⟨h.used,by omega,le_rfl,rfl⟩)
  · -- Everything except the root lies in the subtree of slot 2 or of slot 3.
    have h2 : 2 < h.capacity := by omega
    have h3 : 3 < h.capacity := by omega
    let idx := if cmp (h.vals 2) (h.vals 3) < 0 then 3 else 2
    have hidx : idx = 2 ∨ idx = 3 := by
      simp only [idx]; split <;> simp
    have hmax2 : cmp (h.vals 2) (h.vals idx) ≤ 0 := by
      simp only [idx]
      split
      · omega
      · exact hc.refl _
    have hmax3 : cmp (h.vals 3) (h.vals idx) ≤ 0 := by
      simp only [idx]
      split
      · exact hc.refl _
      · rename_i hlt
        exact not_lt.mp ((hc.pos_iff _ _).not.mpr hlt)
    obtain ⟨h',he,hv',hb,hst⟩ := refill_spec hc hv (i := idx) (by omega) (by omega) (by omega)
      (by omega)
    refine ⟨h.vals idx,h',?_,hv',hb,hst,?_⟩
    · have hic : idx < h.capacity := by omega
      simp only [popMax,hu,hu2,if_false,compare_eq h2 h3,Option.bind_eq_bind,Option.bind_some]
      change (h.read idx).bind _ = _
      rw [read_eq hic]
      simp only [Option.bind_some]
      change (refill cmp h idx).bind _ = _
      rw [he]
      rfl
    · intro x hx
      obtain ⟨i,hi,hiu,rfl⟩ := mem_stored.mp hx
      by_cases hi1 : i = 1
      · subst hi1
        exact hv.vals_one_le hc _ (mem_stored.mpr ⟨idx,by omega,by omega,rfl⟩)
      obtain ⟨c,hc1,hc2,hci⟩ := (anc_one (show 2 ≤ i by omega)).below_child
      have hcidx : cmp (h.vals c) (h.vals idx) ≤ 0 := by
        have : c = 2 ∨ c = 3 := by omega
        rcases this with rfl | rfl
        · exact hmax2
        · exact hmax3
      rcases hci with rfl | hci
      · exact hcidx
      · have hlev : ¬ isMin c = true := by
          have : c = 2 ∨ c = 3 := by omega
          rcases this with rfl | rfl <;> decide
        exact hc.trans _ _ _ ((hv.ordered c i hci hiu).2 hlev) hcidx

end PhpAgent.MinmaxHeap
