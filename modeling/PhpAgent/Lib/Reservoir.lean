import Mathlib.Data.List.Perm.Basic
import Mathlib.Data.List.Count
import Mathlib.Order.Lattice

/-! Bounded collections that drop only what enough of the kept elements stand above. -/
namespace PhpAgent
variable {α κ : Type} [LinearOrder κ] (key : α → κ)

/-- How many elements of the list are not below `y`. -/
def covering (y : α) (kept : List α) : ℕ := kept.countP fun x => key y ≤ key x

/-- Whatever of `all` is not kept has `c` kept elements that are not below it. -/
def Covers (c : ℕ) (all kept : List α) : Prop :=
  ∃ lost, all.Perm (kept ++ lost) ∧ ∀ y ∈ lost, c ≤ covering key y kept

lemma covers_nil (c : ℕ) : Covers key c [] [] := by
  refine ⟨[],.nil,?_⟩
  intro y hy
  cases hy

variable {key}

lemma covering_perm {y : α} {xs ys : List α} (h : xs.Perm ys) :
    covering key y xs = covering key y ys :=
  h.countP_eq _

lemma covering_cons_le (y x : α) (xs : List α) : covering key y xs ≤ covering key y (x :: xs) :=
  (List.sublist_cons_self x xs).countP_le

lemma covering_eq_length {y : α} {xs : List α} (h : ∀ x ∈ xs, key y ≤ key x) :
    covering key y xs = xs.length :=
  List.countP_eq_length.mpr fun x hx => by simpa using h x hx

/-- A larger element covers as much. -/
theorem covering_replace {x e : α} (hxe : key x ≤ key e) (y : α) (xs : List α) :
    covering key y (x :: xs) ≤ covering key y (e :: xs) := by
  unfold covering
  rw [List.countP_cons,List.countP_cons]
  apply Nat.add_le_add_left
  by_cases hx : key y ≤ key x
  · simp [hx,hx.trans hxe]
  · simp [hx]

lemma covering_anti {y z : α} (h : key y ≤ key z) (xs : List α) :
    covering key z xs ≤ covering key y xs := by
  apply List.countP_mono_left
  intro x _ hx
  simp only [decide_eq_true_eq] at hx ⊢
  exact h.trans hx

namespace Covers
variable {c : ℕ} {all kept : List α}

lemma perm (h : Covers key c all kept) {kept' : List α} (hperm : kept'.Perm kept) :
    Covers key c all kept' := by
  obtain ⟨lost,hall,hlost⟩ := h
  refine ⟨lost,hall.trans (hperm.symm.append_right lost),?_⟩
  intro y hy
  rw [covering_perm hperm]
  exact hlost y hy

/-- One more element is kept. -/
theorem keep (h : Covers key c all kept) (e : α) : Covers key c (e :: all) (e :: kept) := by
  obtain ⟨lost,hall,hlost⟩ := h
  refine ⟨lost,hall.cons e,?_⟩
  intro y hy
  exact (hlost y hy).trans (covering_cons_le y e kept)

/-- One more element is dropped. -/
theorem refuse (h : Covers key c all kept) {e : α} (he : c ≤ covering key e kept) :
    Covers key c (e :: all) kept := by
  obtain ⟨lost,hall,hlost⟩ := h
  refine ⟨e :: lost,(hall.cons e).trans List.perm_middle.symm,?_⟩
  intro y hy
  rcases List.mem_cons.mp hy with rfl | hy
  · exact he
  · exact hlost y hy

/-- One more element takes the place of a least one. -/
theorem replace {x e : α} {rest : List α} (h : Covers key c all (x :: rest))
    (hleast : ∀ y ∈ rest, key x ≤ key y) (hxe : key x ≤ key e) (hc : c ≤ rest.length+1) :
    Covers key c (e :: all) (e :: rest) := by
  obtain ⟨lost,hall,hlost⟩ := h
  have hmoved : (e :: all).Perm ((e :: rest) ++ x :: lost) := by
    refine (hall.cons e).trans ?_
    exact (List.perm_middle.symm).cons e
  refine ⟨x :: lost,hmoved,?_⟩
  intro y hy
  rcases List.mem_cons.mp hy with rfl | hy
  · have hall : ∀ z ∈ e :: rest, key y ≤ key z := by
      intro z hz
      rcases List.mem_cons.mp hz with rfl | hz
      · exact hxe
      · exact hleast z hz
    rw [covering_eq_length hall]
    exact hc
  · exact (hlost y hy).trans (covering_replace hxe y rest)

/-- The elements of another collection come in through those it kept. -/
theorem merge {other otherKept : List α} (h : Covers key c (otherKept ++ all) kept)
    (hother : Covers key c other otherKept) : Covers key c (other ++ all) kept := by
  obtain ⟨lost,hall,hlost⟩ := h
  obtain ⟨otherLost,hotherAll,hotherLost⟩ := hother
  refine ⟨lost ++ otherLost,?_,?_⟩
  · calc (other ++ all).Perm ((otherKept ++ otherLost) ++ all) := hotherAll.append_right all
      _ |>.Perm (otherLost ++ (otherKept ++ all)) := by
        rw [← List.append_assoc]
        exact List.perm_append_comm.append_right all
      _ |>.Perm (otherLost ++ (kept ++ lost)) := hall.append_left otherLost
      _ |>.Perm ((kept ++ lost) ++ otherLost) := List.perm_append_comm
      _ |>.Perm (kept ++ (lost ++ otherLost)) := by rw [List.append_assoc]
  · intro y hy
    rcases List.mem_append.mp hy with hy | hy
    · exact hlost y hy
    · -- either one of the lost elements stands above `y`, or everything that covers `y` was kept
      by_cases hz : ∃ z ∈ lost, key y ≤ key z
      · obtain ⟨z,hz,hyz⟩ := hz
        exact (hlost z hz).trans (covering_anti hyz kept)
      · have hnone : covering key y lost = 0 := by
          apply List.countP_eq_zero.mpr
          intro z hzl hzy
          exact hz ⟨z,hzl,by simpa using hzy⟩
        calc c ≤ covering key y otherKept := hotherLost y hy
          _ ≤ covering key y (otherKept ++ all) := by simp [covering]
          _ = covering key y (kept ++ lost) := covering_perm hall
          _ = covering key y kept := by
            have happend : covering key y (kept ++ lost) =
                covering key y kept+covering key y lost := List.countP_append
            rw [happend,hnone,Nat.add_zero]

/-- A collection of at most `c` elements keeps the greatest. -/
theorem greatest (h : Covers key c all kept) (hlen : kept.length ≤ c) :
    kept.length = min all.length c ∧
      ∃ lost, all.Perm (kept ++ lost) ∧ ∀ x ∈ kept, ∀ y ∈ lost, key y ≤ key x := by
  obtain ⟨lost,hall,hlost⟩ := h
  have hfull : ∀ y ∈ lost, kept.length = c ∧ covering key y kept = kept.length := by
    intro y hy
    have hle : covering key y kept ≤ kept.length := List.countP_le_length
    have := hlost y hy
    omega
  constructor
  · have hsum : all.length = kept.length+lost.length := by
      rw [hall.length_eq,List.length_append]
    cases lost with
    | nil =>
      rw [List.length_nil] at hsum
      omega
    | cons y lost =>
      have := (hfull y List.mem_cons_self).1
      omega
  · refine ⟨lost,hall,?_⟩
    intro x hx y hy
    have hcount := List.countP_eq_length.mp (hfull y hy).2 x hx
    simpa using hcount

end Covers
end PhpAgent
