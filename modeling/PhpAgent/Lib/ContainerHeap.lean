import Mathlib.Data.List.Perm.Basic
import Mathlib.Logic.Equiv.Basic
import Mathlib.Order.Lattice

/-! The operations of `container/heap` on a list, with `less` between its elements. -/
namespace PhpAgent
namespace ContainerHeap
variable {α : Type} (less : α → α → Bool) {h : List α}

/-- `h.Less(i, j)`. -/
def lessAt (h : List α) (i j : ℕ) : Bool :=
  match h[i]?,h[j]? with
  | some a, some b => less a b
  | _, _ => false

/-- The loop of `up`. -/
def up : ℕ → List α → ℕ → List α
  | 0, h, _ => h
  | fuel+1, h, j =>
    let i := (j-1)/2
    if i = j ∨ lessAt less h j i = false then h else up fuel (h.swap i j) i

/-- The loop of `down`. -/
def down : ℕ → List α → ℕ → ℕ → List α
  | 0, h, _, _ => h
  | fuel+1, h, i, n =>
    let j₁ := 2*i+1
    if n ≤ j₁ then h
    else
      let j := if j₁+1 < n ∧ lessAt less h (j₁+1) j₁ then j₁+1 else j₁
      if lessAt less h j i = false then h else down fuel (h.swap i j) j n

/-- `Init`, from the last inner node `k-1` to the root. -/
def initFrom : ℕ → List α → List α
  | 0, h => h
  | k+1, h => initFrom k (down less h.length h k h.length)

def init (h : List α) : List α := initFrom less (h.length/2) h

def push (h : List α) (x : α) : List α := up less (h.length+1) (h ++ [x]) h.length

/-- `Pop`, on a heap that is not empty. -/
def pop (h : List α) : List α :=
  let n := h.length-1
  (down less n (h.swap 0 n) 0 n).take n

lemma up_perm (fuel : ℕ) (h : List α) (j : ℕ) : (up less fuel h j).Perm h := by
  induction fuel generalizing h j with
  | zero => exact .refl h
  | succ fuel ih =>
    unfold up
    simp only
    split
    · exact .refl h
    · exact (ih _ _).trans (List.swap_perm h _ _)

lemma down_perm (fuel : ℕ) (h : List α) (i n : ℕ) : (down less fuel h i n).Perm h := by
  induction fuel generalizing h i with
  | zero => exact .refl h
  | succ fuel ih =>
    have hstep : ∀ j, (if lessAt less h j i = false then h
        else down less fuel (h.swap i j) j n).Perm h := by
      intro j
      split
      · exact .refl h
      · exact (ih _ _).trans (List.swap_perm h _ _)
    unfold down
    simp only
    split
    · exact .refl h
    · exact hstep _

lemma init_perm (h : List α) : (init less h).Perm h := by
  have hfrom : ∀ (k : ℕ) (h : List α), (initFrom less k h).Perm h := by
    intro k
    induction k with
    | zero => exact fun h => .refl h
    | succ k ih => exact fun h => (ih _).trans (down_perm less _ _ _ _)
  exact hfrom _ h

lemma push_perm (h : List α) (x : α) : (push less h x).Perm (x :: h) :=
  (up_perm less _ _ _).trans (List.perm_append_singleton x h)

lemma pop_subperm (h : List α) : (pop less h).Subperm h :=
  (List.take_sublist _ _).subperm.trans
    ((down_perm less _ _ _ _).trans (List.swap_perm h _ _)).subperm

/-! ### The order of a heap -/

@[simp] lemma down_length (fuel : ℕ) (h : List α) (i n : ℕ) :
    (down less fuel h i n).length = h.length :=
  (down_perm less fuel h i n).length_eq

lemma getElem?_swap {i j : ℕ} (hi : i < h.length) (hj : j < h.length) (k : ℕ) :
    (h.swap i j)[k]? = h[Equiv.swap i j k]? := by
  by_cases hki : k = i
  · subst hki
    rw [Equiv.swap_apply_left,List.getElem?_eq_getElem (by simpa using hi),
      List.getElem?_eq_getElem hj,List.getElem_swap_left_of_lt hj]
  · by_cases hkj : k = j
    · subst hkj
      rw [Equiv.swap_apply_right,List.getElem?_eq_getElem (by simpa using hj),
        List.getElem?_eq_getElem hi,List.getElem_swap_right_of_lt hi]
    · rw [Equiv.swap_apply_of_ne_of_ne hki hkj]
      by_cases hk : k < h.length
      · rw [List.getElem?_eq_getElem (by simpa using hk),List.getElem?_eq_getElem hk,
          List.getElem_swap_of_ne hki hkj]
      · rw [List.getElem?_eq_none (by simpa using hk),List.getElem?_eq_none (by simpa using hk)]

/-- The elements behind the heap stay. -/
theorem down_getElem? (fuel : ℕ) {i n : ℕ} (hn : n ≤ h.length) (hi : i < n ∨ n ≤ 2*i+1)
    {k : ℕ} (hk : n ≤ k) : (down less fuel h i n)[k]? = h[k]? := by
  induction fuel generalizing h i with
  | zero => rfl
  | succ fuel ih =>
    unfold down
    simp only
    split
    · rfl
    · rename_i hj₁
      generalize hj : (if 2*i+1+1 < n ∧ lessAt less h (2*i+1+1) (2*i+1) = true then 2*i+1+1
        else 2*i+1) = j
      have hjn : j < n := by
        rw [← hj]
        split_ifs with hright
        · exact hright.1
        · omega
      split
      · rfl
      · rw [ih (by simpa using hn) (.inl hjn),getElem?_swap (by omega) (by omega),
          Equiv.swap_apply_of_ne_of_ne (by omega) (by omega)]

/-- The element at `i` may stand above the one at `j`. -/
def Above (h : List α) (i j : ℕ) : Prop := lessAt less h j i = false

lemma above_swap {i j : ℕ} (hi : i < h.length) (hj : j < h.length) (a b : ℕ) :
    Above less (h.swap i j) a b ↔ Above less h (Equiv.swap i j a) (Equiv.swap i j b) := by
  simp only [Above,lessAt,getElem?_swap hi hj]

/-- Every element from `2*k+1` on, below `n`, has its parent above it. -/
def HeapFrom (h : List α) (k n : ℕ) : Prop :=
  ∀ c, 0 < c → c < n → k ≤ (c-1)/2 → Above less h ((c-1)/2) c

/-- The whole list is a heap. -/
def Heap (h : List α) : Prop := HeapFrom less h 0 h.length

/-- A heap but for the element at `i`, which may be too large. -/
structure Sinking (h : List α) (k i n : ℕ) : Prop where
  others : ∀ c, 0 < c → c < n → k ≤ (c-1)/2 → (c-1)/2 ≠ i → Above less h ((c-1)/2) c
  grand : 0 < i → k ≤ (i-1)/2 → ∀ c, 0 < c → c < n → (c-1)/2 = i → Above less h ((i-1)/2) c

/-- A heap but for the element at `j`, which may be too small. -/
structure Rising (h : List α) (j : ℕ) : Prop where
  others : ∀ c, 0 < c → c < h.length → c ≠ j → Above less h ((c-1)/2) c
  grand : 0 < j → ∀ c, 0 < c → c < h.length → (c-1)/2 = j → Above less h ((j-1)/2) c

lemma Sinking.stop {less : α → α → Bool} {k i n : ℕ} (hs : Sinking less h k i n)
    (hstop : ∀ c, 0 < c → c < n → (c-1)/2 = i → Above less h i c) : HeapFrom less h k n := by
  intro c hc₀ hc hkc
  by_cases hpi : (c-1)/2 = i
  · rw [hpi]
    exact hstop c hc₀ hc hpi
  · exact hs.others c hc₀ hc hkc hpi

section Order
variable {less : α → α → Bool} {κ : Type} [LinearOrder κ] {key : α → κ}
  (hless : ∀ a b, less a b = decide (key a < key b)) {h : List α}
include hless

lemma above_iff {i j : ℕ} {a b : α} (ha : h[i]? = some a) (hb : h[j]? = some b) :
    Above less h i j ↔ key a ≤ key b := by
  simp only [Above,lessAt,ha,hb,hless,decide_eq_false_iff_not,not_lt]

lemma above_refl (h : List α) (i : ℕ) : Above less h i i := by
  unfold Above lessAt
  cases h[i]? with
  | none => rfl
  | some a => simp [hless]

lemma Above.trans {i j k : ℕ} (hij : Above less h i j) (hjk : Above less h j k)
    (hj : j < h.length) : Above less h i k := by
  have hjs := List.getElem?_eq_getElem hj
  cases ha : h[i]? with
  | none => simp [Above,lessAt,ha]
  | some a =>
    cases hc : h[k]? with
    | none => simp [Above,lessAt,hc]
    | some c =>
      rw [above_iff hless ha hjs] at hij
      rw [above_iff hless hjs hc] at hjk
      exact (above_iff hless ha hc).mpr (le_trans hij hjk)

/-- What does not stand above stands below. -/
theorem above_of_lessAt {i j : ℕ} (hij : lessAt less h i j ≠ false) : Above less h i j := by
  unfold lessAt at hij
  unfold Above lessAt
  cases ha : h[i]? with
  | none => simp [ha] at hij
  | some a =>
    cases hb : h[j]? with
    | none => simp [ha,hb] at hij
    | some b =>
      simp only [ha,hb,hless,decide_eq_true_eq,Bool.not_eq_false] at hij
      simp only [hless,decide_eq_false_iff_not,not_lt]
      exact le_of_lt hij

/-- One round of `down`: the smaller child moves up. -/
theorem Sinking.swap {k i n j : ℕ} (hs : Sinking less h k i n) (hn : n ≤ h.length)
    (hki : k ≤ i) (hjn : j < n) (hj : (j-1)/2 = i) (hj₀ : 0 < j)
    (hleast : ∀ c, 0 < c → c < n → (c-1)/2 = i → Above less h j c)
    (hlt : lessAt less h j i ≠ false) : Sinking less (h.swap i j) k j n := by
  have hij : i < j := by omega
  have hil : i < h.length := by omega
  have hjl : j < h.length := by omega
  have hji : Above less h j i := above_of_lessAt hless hlt
  constructor
  · intro c hc₀ hc hkc hpc
    rw [above_swap less hil hjl]
    by_cases hcj : c = j
    · subst hcj
      rw [hj,Equiv.swap_apply_left,Equiv.swap_apply_right]
      exact hji
    · by_cases hci : c = i
      · subst hci
        rw [Equiv.swap_apply_left,Equiv.swap_apply_of_ne_of_ne (by omega) (by omega)]
        exact hs.grand hc₀ hkc j hj₀ hjn hj
      · rw [Equiv.swap_apply_of_ne_of_ne hci hcj]
        by_cases hpi : (c-1)/2 = i
        · rw [hpi,Equiv.swap_apply_left]
          exact hleast c hc₀ hc hpi
        · rw [Equiv.swap_apply_of_ne_of_ne hpi hpc]
          exact hs.others c hc₀ hc hkc hpi
  · intro _ _ c hc₀ hc hpc
    rw [above_swap less hil hjl,hj,Equiv.swap_apply_left,
      Equiv.swap_apply_of_ne_of_ne (by omega) (by omega)]
    have hchild := hs.others c hc₀ hc (by omega) (by omega)
    rw [hpc] at hchild
    exact hchild

lemma down_heapFrom (fuel : ℕ) {k i n : ℕ} (hs : Sinking less h k i n)
    (hn : n ≤ h.length) (hki : k ≤ i) (hfuel : n ≤ i+fuel) :
    HeapFrom less (down less fuel h i n) k n := by
  induction fuel generalizing h i with
  | zero =>
    apply hs.stop
    intro c _ _ _
    omega
  | succ fuel ih =>
    unfold down
    simp only
    split
    · apply hs.stop
      intro c _ _ _
      omega
    · rename_i hj₁
      -- the child chosen is not larger than the other one
      obtain ⟨j,hj,hjn,hpj,hj₀,hleast⟩ : ∃ j,
          (if 2*i+1+1 < n ∧ lessAt less h (2*i+1+1) (2*i+1) = true then 2*i+1+1 else 2*i+1) = j ∧
          j < n ∧ (j-1)/2 = i ∧ 0 < j ∧ ∀ c, 0 < c → c < n → (c-1)/2 = i → Above less h j c := by
        refine ⟨_,rfl,?_⟩
        split_ifs with hright
        · refine ⟨hright.1,by omega,by omega,?_⟩
          intro c hc₀ _ hpc
          obtain rfl | rfl : c = 2*i+1 ∨ c = 2*i+1+1 := by omega
          · exact above_of_lessAt hless (by simp [hright.2])
          · exact above_refl hless h _
        · refine ⟨by omega,by omega,by omega,?_⟩
          intro c hc₀ hc hpc
          obtain rfl | rfl : c = 2*i+1 ∨ c = 2*i+1+1 := by omega
          · exact above_refl hless h _
          · rw [not_and,Bool.not_eq_true] at hright
            exact hright hc
      rw [hj]
      split
      · rename_i hstop
        apply hs.stop
        intro c hc₀ hc hpc
        exact Above.trans hless hstop (hleast c hc₀ hc hpc) (by omega)
      · rename_i hlt
        have hnext : Sinking less (h.swap i j) k j n :=
          hs.swap hless hn hki hjn hpj hj₀ hleast hlt
        exact ih hnext (by simpa using hn) (by omega) (by omega)

lemma init_heap (h : List α) : Heap less (init less h) := by
  have hfrom : ∀ (k : ℕ) (h : List α), HeapFrom less h k h.length →
      HeapFrom less (initFrom less k h) 0 h.length := by
    intro k
    induction k with
    | zero => exact fun h hh => hh
    | succ k ih =>
      intro h hh
      have hs : Sinking less h k k h.length := by
        constructor
        · intro c hc₀ hc hkc hpc
          exact hh c hc₀ hc (by omega)
        · intro hk₀ hkk
          omega
      have hdown := down_heapFrom hless h.length hs (Nat.le_refl _) (Nat.le_refl _) (by omega)
      have hlen : (down less h.length h k h.length).length = h.length := down_length less _ _ _ _
      have hnext := ih (down less h.length h k h.length)
      rw [hlen] at hnext
      exact hnext hdown
  unfold Heap
  rw [(init_perm less h).length_eq]
  apply hfrom
  intro c hc₀ hc hkc
  omega

/-- One round of `up`. -/
theorem Rising.swap {j : ℕ} (hr : Rising less h j) (hj : j < h.length) (hj₀ : 0 < j)
    (hlt : lessAt less h j ((j-1)/2) ≠ false) : Rising less (h.swap ((j-1)/2) j) ((j-1)/2) := by
  have hpj : (j-1)/2 < j := by omega
  have hpl : (j-1)/2 < h.length := by omega
  have hjp : Above less h j ((j-1)/2) := above_of_lessAt hless hlt
  generalize hp : (j-1)/2 = p at *
  constructor
  · intro c hc₀ hc hcp
    rw [List.length_swap] at hc
    rw [above_swap less hpl hj]
    by_cases hcj : c = j
    · subst hcj
      rw [hp,Equiv.swap_apply_left,Equiv.swap_apply_right]
      exact hjp
    · rw [Equiv.swap_apply_of_ne_of_ne hcp hcj]
      by_cases hpc : (c-1)/2 = p
      · rw [hpc,Equiv.swap_apply_left]
        have hparent := hr.others c hc₀ hc hcj
        rw [hpc] at hparent
        exact Above.trans hless hjp hparent hpl
      · by_cases hpcj : (c-1)/2 = j
        · rw [hpcj,Equiv.swap_apply_right]
          have hgrand := hr.grand hj₀ c hc₀ hc hpcj
          rw [hp] at hgrand
          exact hgrand
        · rw [Equiv.swap_apply_of_ne_of_ne hpc hpcj]
          exact hr.others c hc₀ hc hcj
  · intro hp₀ c hc₀ hc hpc
    rw [List.length_swap] at hc
    rw [above_swap less hpl hj,Equiv.swap_apply_of_ne_of_ne (a := p) (by omega) (by omega)]
    have hup := hr.others p hp₀ hpl (by omega)
    by_cases hcj : c = j
    · subst hcj
      rw [Equiv.swap_apply_right]
      exact hup
    · rw [Equiv.swap_apply_of_ne_of_ne (by omega) hcj]
      have hparent := hr.others c hc₀ hc hcj
      rw [hpc] at hparent
      exact Above.trans hless hup hparent hpl

lemma up_heap (fuel : ℕ) {j : ℕ} (hr : Rising less h j) (hj : j < h.length)
    (hfuel : j < fuel) : Heap less (up less fuel h j) := by
  induction fuel generalizing h j with
  | zero => omega
  | succ fuel ih =>
    unfold up
    simp only
    split
    · rename_i hstop
      intro c hc₀ hc _
      by_cases hcj : c = j
      · subst hcj
        rcases hstop with hstop | hstop
        · omega
        · exact hstop
      · exact hr.others c hc₀ hc hcj
    · rename_i hgo
      rw [not_or] at hgo
      have hnext : Rising less (h.swap ((j-1)/2) j) ((j-1)/2) :=
        hr.swap hless hj (by omega) hgo.2
      exact ih hnext (by simp only [List.length_swap]; omega) (by omega)

lemma push_heap (hh : Heap less h) (x : α) : Heap less (push less h x) := by
  have hat : ∀ i < h.length, (h ++ [x])[i]? = h[i]? := fun i hi => List.getElem?_append_left hi
  refine up_heap hless (h.length+1) ?_ (by simp) (by omega)
  constructor
  · intro c hc₀ hc hcj
    have hlt : c < h.length := by
      rw [List.length_append,List.length_singleton] at hc
      omega
    have hold := hh c hc₀ hlt (Nat.zero_le _)
    unfold Above lessAt at hold ⊢
    rw [hat c hlt,hat _ (by omega)]
    exact hold
  · intro _ c hc₀ hc hpc
    rw [List.length_append,List.length_singleton] at hc
    omega

/-- `Pop` takes the first element, and leaves a heap. -/
theorem pop_spec {x : α} (hh : Heap less (x :: h)) :
    Heap less (pop less (x :: h)) ∧ (x :: h).Perm (x :: pop less (x :: h)) := by
  have hlen : (x :: h).length = h.length+1 := rfl
  have hlast : h.length < (x :: h).length := Nat.lt_succ_self _
  have hs : Sinking less ((x :: h).swap 0 h.length) 0 0 h.length := by
    constructor
    · intro c hc₀ hc _ hpc
      rw [above_swap less (by omega) hlast,Equiv.swap_apply_of_ne_of_ne (by omega) (by omega),
        Equiv.swap_apply_of_ne_of_ne (by omega) (by omega)]
      exact hh c hc₀ (by omega) (Nat.zero_le _)
    · intro h₀
      omega
  have hswap : h.length ≤ ((x :: h).swap 0 h.length).length := by simp
  have hheap := down_heapFrom hless h.length hs hswap (Nat.le_refl 0) (by omega)
  have hpop : pop less (x :: h) =
      (down less h.length ((x :: h).swap 0 h.length) 0 h.length).take h.length := rfl
  have hend : (down less h.length ((x :: h).swap 0 h.length) 0 h.length)[h.length]? = some x := by
    rw [down_getElem? less h.length hswap (by omega) (Nat.le_refl _),
      getElem?_swap (by omega) hlast,Equiv.swap_apply_right]
    rfl
  have hperm := (down_perm less h.length ((x :: h).swap 0 h.length) 0 h.length).trans
    (List.swap_perm (x :: h) 0 h.length)
  generalize down less h.length ((x :: h).swap 0 h.length) 0 h.length = sunk at *
  have hsunk : sunk.length = h.length+1 := hperm.length_eq
  constructor
  · rw [hpop]
    intro c hc₀ hc _
    rw [List.length_take,hsunk] at hc
    have hold := hheap c hc₀ (by omega) (Nat.zero_le _)
    unfold Above lessAt at hold ⊢
    rw [List.getElem?_take_of_lt (by omega),List.getElem?_take_of_lt (by omega)]
    exact hold
  · have hsplit : sunk.take h.length ++ [x] = sunk := by
      obtain ⟨hlt,hx⟩ := List.getElem?_eq_some_iff.mp hend
      rw [← hx,List.take_append_getElem,List.take_of_length_le (by omega)]
    rw [hpop]
    exact hperm.symm.trans ((List.Perm.of_eq hsplit.symm).trans (List.perm_append_singleton _ _))

/-- The first element of a heap is a least one. -/
theorem heap_root {x : α} (hh : Heap less (x :: h)) : ∀ y ∈ x :: h, key x ≤ key y := by
  have habove : ∀ c, c < (x :: h).length → Above less (x :: h) 0 c := by
    intro c
    induction c using Nat.strongRecOn with
    | _ c ih =>
      intro hc
      rcases Nat.eq_zero_or_pos c with rfl | hc₀
      · exact above_refl hless _ _
      · exact Above.trans hless (ih _ (by omega) (by omega)) (hh c hc₀ hc (Nat.zero_le _)) (by omega)
  intro y hy
  obtain ⟨c,hc,rfl⟩ := List.mem_iff_getElem.mp hy
  exact (above_iff hless (by rfl) (List.getElem?_eq_getElem hc)).mp (habove c hc)

end Order

end ContainerHeap
end PhpAgent
