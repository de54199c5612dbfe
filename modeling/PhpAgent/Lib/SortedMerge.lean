import Mathlib.Tactic

/-! Sorted lists in which elements of equal rank are combined into one. -/
namespace PhpAgent.SortedMerge

variable {α κ : Type} [LinearOrder κ]

/-- Put an element at its place, or combine it with the one that is there. -/
def insert (rank : α → κ) (combine : α → α → α) (x : α) : List α → List α
  | [] => [x]
  | y :: l =>
    if rank x < rank y then x :: y :: l
    else if rank x = rank y then combine y x :: l
    else y :: insert rank combine x l

variable {rank : α → κ} {combine : α → α → α} {x y : α}

/-- Combining keeps the rank, and elements of one rank can be combined in any order. -/
structure IsCombine (rank : α → κ) (combine : α → α → α) : Prop where
  rank_combine : ∀ x y, rank (combine x y) = rank x
  comm : ∀ x y, rank x = rank y → combine x y = combine y x
  right_comm : ∀ x y z, rank x = rank y → rank x = rank z →
    combine (combine x y) z = combine (combine x z) y

lemma insert_of_lt (h : rank x < rank y) (l : List α) : insert rank combine x (y :: l) = x :: y :: l :=
  if_pos h

lemma insert_of_eq (h : rank x = rank y) (l : List α) :
    insert rank combine x (y :: l) = combine y x :: l := by
  rw [insert,if_neg h.not_lt,if_pos h]

lemma insert_of_gt (h : rank y < rank x) (l : List α) :
    insert rank combine x (y :: l) = y :: insert rank combine x l := by
  rw [insert,if_neg h.not_gt,if_neg h.ne']

/-- Two elements that both belong in front. -/
theorem insert_comm_front (h : IsCombine rank combine) {l : List α}
    (hx : insert rank combine x l = x :: l) (hy : insert rank combine y l = y :: l) :
    insert rank combine x (y :: l) = insert rank combine y (x :: l) := by
  rcases lt_trichotomy (rank x) (rank y) with hlt | heq | hgt
  · rw [insert_of_lt hlt,insert_of_gt hlt,hy]
  · rw [insert_of_eq heq,insert_of_eq heq.symm,h.comm x y heq]
  · rw [insert_of_gt hgt,insert_of_lt hgt,hx]

/-- Two elements can be inserted in any order. -/
theorem insert_comm (h : IsCombine rank combine) (x y : α) (l : List α) :
    insert rank combine x (insert rank combine y l) =
      insert rank combine y (insert rank combine x l) := by
  induction l with
  | nil => exact insert_comm_front h rfl rfl
  | cons z l ih =>
    have hz (w : α) : rank (combine z w) = rank z := h.rank_combine z w
    rcases lt_trichotomy (rank x) (rank z) with hx | hx | hx <;>
      rcases lt_trichotomy (rank y) (rank z) with hy | hy | hy
    · rw [insert_of_lt hx,insert_of_lt hy]
      exact insert_comm_front h (insert_of_lt hx l) (insert_of_lt hy l)
    · rw [insert_of_lt hx,insert_of_eq hy,insert_of_lt (by rwa [hz]),insert_of_gt (by rwa [hy]),
        insert_of_eq hy]
    · rw [insert_of_lt hx,insert_of_gt hy,insert_of_lt hx,insert_of_gt (hx.trans hy),
        insert_of_gt hy]
    · rw [insert_of_eq hx,insert_of_lt hy,insert_of_gt (hx ▸ hy),insert_of_eq hx,
        insert_of_lt (by rwa [hz])]
    · rw [insert_of_eq hx,insert_of_eq hy,insert_of_eq (by rwa [hz]),insert_of_eq (by rwa [hz]),
        h.right_comm z y x hy.symm hx.symm]
    · rw [insert_of_eq hx,insert_of_gt hy,insert_of_eq hx,insert_of_gt (by rwa [hz])]
    · rw [insert_of_gt hx,insert_of_lt hy,insert_of_lt hy,insert_of_gt (hy.trans hx),
        insert_of_gt hx]
    · rw [insert_of_gt hx,insert_of_eq hy,insert_of_eq hy,insert_of_gt (by rwa [hz])]
    · rw [insert_of_gt hx,insert_of_gt hy,insert_of_gt hx,insert_of_gt hy,ih]

/-- The list of all elements does not depend on the order of the insertions. -/
theorem foldl_insert_perm (h : IsCombine rank combine) {xs ys : List α} (hperm : xs.Perm ys)
    (l : List α) : xs.foldl (fun l x => insert rank combine x l) l =
      ys.foldl (fun l x => insert rank combine x l) l :=
  hperm.foldl_eq' (fun x _ y _ l => insert_comm h y x l) l

/-- Strictly sorted. -/
def Sorted (rank : α → κ) (l : List α) : Prop := l.Pairwise fun x y => rank x < rank y

/-- A property of ranks, and a flag that combining joins. -/
theorem exists_mem_insert (h : IsCombine rank combine) (Q : κ → Prop) (f : α → Bool)
    (hf : ∀ x y, f (combine x y) = (f x || f y)) (x : α) (l : List α) :
    (∃ y ∈ insert rank combine x l, Q (rank y) ∧ f y = true) ↔
      (Q (rank x) ∧ f x = true) ∨ ∃ y ∈ l, Q (rank y) ∧ f y = true := by
  induction l with
  | nil => simp [insert]
  | cons z l ih =>
    rcases lt_trichotomy (rank x) (rank z) with hx | hx | hx
    · simp [insert_of_lt hx]
    · rw [insert_of_eq hx]
      simp only [List.exists_mem_cons_iff,h.rank_combine,hf,hx,Bool.or_eq_true]
      tauto
    · rw [insert_of_gt hx]
      simp only [List.exists_mem_cons_iff,ih]
      tauto

lemma exists_mem_foldl_insert (h : IsCombine rank combine) (Q : κ → Prop) (f : α → Bool)
    (hf : ∀ x y, f (combine x y) = (f x || f y)) (xs l : List α) :
    (∃ y ∈ xs.foldl (fun l x => insert rank combine x l) l, Q (rank y) ∧ f y = true) ↔
      (∃ y ∈ l, Q (rank y) ∧ f y = true) ∨ ∃ x ∈ xs, Q (rank x) ∧ f x = true := by
  induction xs generalizing l with
  | nil => simp
  | cons x xs ih =>
    rw [List.foldl_cons,ih,exists_mem_insert h Q f hf,List.exists_mem_cons_iff]
    exact or_assoc.trans or_left_comm

lemma Sorted.insert (h : IsCombine rank combine) {l : List α} (hl : Sorted rank l) (x : α) :
    Sorted rank (insert rank combine x l) := by
  induction l with
  | nil => exact List.pairwise_singleton _ _
  | cons z l ih =>
    obtain ⟨hz,hl⟩ := List.pairwise_cons.mp hl
    rcases lt_trichotomy (rank x) (rank z) with hx | hx | hx
    · rw [insert_of_lt hx]
      refine List.pairwise_cons.mpr ⟨?_,List.pairwise_cons.mpr ⟨hz,hl⟩⟩
      intro y hy
      rcases List.mem_cons.mp hy with rfl | hy
      · exact hx
      · exact hx.trans (hz y hy)
    · rw [insert_of_eq hx]
      refine List.pairwise_cons.mpr ⟨?_,hl⟩
      intro y hy
      rw [h.rank_combine]
      exact hz y hy
    · rw [insert_of_gt hx]
      refine List.pairwise_cons.mpr ⟨?_,ih hl⟩
      intro y hy
      by_contra hlt
      -- every rank of the new list was there or is that of the new element
      have hmem := (exists_mem_insert h (fun r => ¬rank z < r) (fun _ => true) (fun _ _ => rfl) x
        l).mp ⟨y,hy,hlt,rfl⟩
      rcases hmem with ⟨hnot,-⟩ | ⟨w,hw,hnot,-⟩
      · exact hnot hx
      · exact hnot (hz w hw)

lemma sorted_foldl_insert (h : IsCombine rank combine) (xs : List α) :
    Sorted rank (xs.foldl (fun l x => insert rank combine x l) []) := by
  have hfold (l : List α) (hl : Sorted rank l) :
      Sorted rank (xs.foldl (fun l x => SortedMerge.insert rank combine x l) l) := by
    induction xs generalizing l with
    | nil => exact hl
    | cons x xs ih => exact ih _ (hl.insert h x)
  exact hfold [] List.Pairwise.nil

end PhpAgent.SortedMerge
