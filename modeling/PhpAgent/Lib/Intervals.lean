import Mathlib.Tactic

/-! Half-open intervals of clock ticks and their unions. An interval `(a,b)` stands for the ticks
`a, ..., b-1`; a list of intervals is measured by the number of ticks it covers. -/
namespace PhpAgent.Intervals

/-- The ticks covered by a list of intervals. -/
def ticks (ivs : List (ℕ × ℕ)) : Finset ℕ := ivs.foldr (fun iv s => Finset.Ico iv.1 iv.2 ∪ s) ∅

@[simp] lemma ticks_nil : ticks [] = ∅ := rfl
@[simp] lemma ticks_cons (iv : ℕ × ℕ) (ivs : List (ℕ × ℕ)) :
    ticks (iv :: ivs) = Finset.Ico iv.1 iv.2 ∪ ticks ivs := rfl

variable {ivs : List (ℕ × ℕ)}

lemma mem_ticks {x : ℕ} : x ∈ ticks ivs ↔ ∃ iv ∈ ivs, iv.1 ≤ x ∧ x < iv.2 := by
  induction ivs with
  | nil => simp
  | cons iv ivs ih => simp [ih]

@[simp] lemma ticks_append (xs ys : List (ℕ × ℕ)) : ticks (xs ++ ys) = ticks xs ∪ ticks ys := by
  ext x
  simp only [mem_ticks,List.mem_append,Finset.mem_union]
  constructor
  · rintro ⟨iv,h | h,hx⟩
    · exact .inl ⟨iv,h,hx⟩
    · exact .inr ⟨iv,h,hx⟩
  · rintro (⟨iv,h,hx⟩ | ⟨iv,h,hx⟩)
    · exact ⟨iv,.inl h,hx⟩
    · exact ⟨iv,.inr h,hx⟩

/-- Disjoint intervals cover as many ticks as they are long. -/
theorem card_ticks (h : ivs.Pairwise fun a b => Disjoint (Finset.Ico a.1 a.2) (Finset.Ico b.1 b.2)) :
    (ticks ivs).card = (ivs.map fun iv => iv.2-iv.1).sum := by
  induction ivs with
  | nil => rfl
  | cons iv ivs ih =>
    obtain ⟨hhead,htail⟩ := List.pairwise_cons.mp h
    have hdisj : Disjoint (Finset.Ico iv.1 iv.2) (ticks ivs) := by
      rw [Finset.disjoint_left]
      intro x hx hmem
      obtain ⟨jv,hjv,hxj⟩ := mem_ticks.mp hmem
      exact Finset.disjoint_left.mp (hhead jv hjv) hx (Finset.mem_Ico.mpr hxj)
    rw [ticks_cons,Finset.card_union_of_disjoint hdisj,ih htail,Nat.card_Ico,List.map_cons,
      List.sum_cons]

/-- A set splits into what is covered by `K`, what only `R` covers and what neither does. -/
theorem card_split {I K : Finset ℕ} (R : Finset ℕ) (hK : K ⊆ I) :
    (I \ (R ∪ K)).card+((I ∩ R) \ K).card+K.card = I.card := by
  have hparts : (I \ (R ∪ K)) ∪ ((I ∩ R) \ K) = I \ K := by
    ext x
    simp only [Finset.mem_union,Finset.mem_sdiff,Finset.mem_inter]
    tauto
  have hdisj : Disjoint (I \ (R ∪ K)) ((I ∩ R) \ K) := by
    rw [Finset.disjoint_left]
    intro x
    simp only [Finset.mem_union,Finset.mem_sdiff,Finset.mem_inter]
    tauto
  rw [← Finset.card_union_of_disjoint hdisj,hparts,Finset.card_sdiff_add_card_eq_card hK]

/-- Taking `S` out of a covering and putting its part `K` back uncovers what `R` covers of the rest. -/
theorem card_uncover {P R R' O S K : Finset ℕ} (hSP : S ⊆ P) (hKS : K ⊆ S) (hOS : Disjoint O S)
    (hR : R' \ S = R \ S) :
    ((P ∩ R') \ (O ∪ K)).card = ((P ∩ R) \ (S ∪ O)).card+((S ∩ R') \ K).card := by
  have hRx : ∀ x, x ∉ S → (x ∈ R' ↔ x ∈ R) := by
    intro x hx
    have := congrArg (x ∈ ·) hR
    simpa [hx] using this
  have hdisj : Disjoint ((P ∩ R) \ (S ∪ O)) ((S ∩ R') \ K) := by
    rw [Finset.disjoint_left]
    intro x
    simp only [Finset.mem_union,Finset.mem_sdiff,Finset.mem_inter]
    tauto
  rw [← Finset.card_union_of_disjoint hdisj]
  congr 1
  ext x
  have hP := @hSP x
  have hK := @hKS x
  have hO := @Finset.disjoint_left.mp hOS x
  have hRx' := hRx x
  simp only [Finset.mem_union,Finset.mem_sdiff,Finset.mem_inter]
  tauto

/-- By any tick no more intervals have stopped than have started. -/
theorem count_stops_le (h : ∀ iv ∈ ivs, iv.1 ≤ iv.2) (x : ℕ) :
    ivs.countP (fun iv => decide (iv.2 ≤ x)) ≤ ivs.countP (fun iv => decide (iv.1 ≤ x)) := by
  apply List.countP_mono_left
  intro j hj hx
  have := h j hj
  simp only [decide_eq_true_eq] at *
  omega

/-- In the end as many intervals have stopped as have started. -/
theorem exists_count_stops_eq (h : ∀ iv ∈ ivs, iv.1 ≤ iv.2) : ∃ X, ∀ x, X ≤ x →
      ivs.countP (fun iv => decide (iv.2 ≤ x)) = ivs.countP (fun iv => decide (iv.1 ≤ x)) := by
  induction ivs with
  | nil => exact ⟨0,fun _ _ => rfl⟩
  | cons iv ivs ih =>
    obtain ⟨X,hX⟩ := ih (fun j hj => h j (by simp [hj]))
    refine ⟨max X iv.2,fun x hx => ?_⟩
    have hiv := h iv (by simp)
    have := hX x (le_of_max_le_left hx)
    simp only [List.countP_cons,decide_eq_true_eq,this,le_of_max_le_right hx,
      hiv.trans (le_of_max_le_right hx)]

/-- A tick is covered exactly when more intervals have started by then than have stopped. -/
theorem mem_ticks_iff_count (h : ∀ iv ∈ ivs, iv.1 ≤ iv.2) (x : ℕ) : x ∈ ticks ivs ↔
      ivs.countP (fun iv => decide (iv.2 ≤ x)) < ivs.countP (fun iv => decide (iv.1 ≤ x)) := by
  induction ivs with
  | nil => simp
  | cons iv ivs ih =>
    have hiv := h iv (by simp)
    have hrest : ∀ j ∈ ivs, j.1 ≤ j.2 := fun j hj => h j (by simp [hj])
    have hmono := count_stops_le hrest x
    simp only [ticks_cons,Finset.mem_union,Finset.mem_Ico,ih hrest,List.countP_cons,
      decide_eq_true_eq]
    split <;> split <;> omega

end PhpAgent.Intervals
