import Mathlib.Tactic

/-! A ledger of tokens. Every cell holds one token; cells are opened with a fresh token, the token of
a cell may be called in, and whoever is pending on a cell takes its token and leaves a fresh one. -/
namespace PhpAgent

structure Ledger where
  cells : List ℕ
  fresh : ℕ
  called : List ℕ
  taken : List ℕ
  pending : Multiset ℕ

namespace Ledger
variable {l : Ledger} {c T : ℕ}

def empty : Ledger := ⟨[],0,[],[],0⟩

/-- A new cell. -/
def grow (l : Ledger) : Ledger := { l with cells := l.cells ++ [l.fresh], fresh := l.fresh+1 }

/-- One more is pending on the cell `c`. -/
def await (l : Ledger) (c : ℕ) : Ledger := { l with pending := c ::ₘ l.pending }

lemma mem_await (l : Ledger) (c : ℕ) : c ∈ (l.await c).pending := Multiset.mem_cons_self _ _

/-- The token `T` is called in. -/
def call (l : Ledger) (T : ℕ) : Ledger := { l with called := l.called ++ [T] }

/-- One that was pending on `c` takes its token `T`. -/
def take (l : Ledger) (c T : ℕ) : Ledger :=
  { l with
    cells := l.cells.set c l.fresh
    fresh := l.fresh+1
    taken := l.taken ++ [T] }

/-- Whoever was pending has gone. -/
def close (l : Ledger) : Ledger := { l with pending := 0 }

/-- No token is in two places, and somebody is pending on every token that was called in and has not
been taken. -/
structure Sound (l : Ledger) : Prop where
  cells_nodup : l.cells.Nodup
  cells_lt : ∀ T ∈ l.cells, T < l.fresh
  taken_nodup : l.taken.Nodup
  taken_lt : ∀ T ∈ l.taken, T < l.fresh
  disjoint : ∀ T ∈ l.cells, T ∉ l.taken
  pending_lt : ∀ c ∈ l.pending, c < l.cells.length
  answered : ∀ T ∈ l.called, T ∈ l.taken ∨ ∃ c ∈ l.pending, l.cells[c]? = some T

lemma Sound.cell_unique (h : Sound l) {d : ℕ} (hc : l.cells[c]? = some T)
    (hd : l.cells[d]? = some T) : c = d :=
  (List.getElem?_inj (List.getElem?_eq_some_iff.mp hc).1 h.cells_nodup).mp (hc.trans hd.symm)

lemma Sound.called_lt (h : Sound l) (hT : T ∈ l.called) : T < l.fresh := by
  rcases h.answered T hT with hmem | ⟨c,-,hcell⟩
  · exact h.taken_lt T hmem
  · exact h.cells_lt T (List.mem_of_getElem? hcell)

/-- A token that was called in and is in a cell after one was taken was there before. -/
theorem Sound.cell_of_take (h : Sound l) {d U : ℕ} (hcell : (l.take c T).cells[d]? = some U)
    (hU : U ∈ l.called) : l.cells[d]? = some U := by
  by_cases hdc : c = d
  · subst hdc
    have hlt : c < l.cells.length := by
      simpa [Ledger.take] using (List.getElem?_eq_some_iff.mp hcell).1
    rw [Ledger.take,List.getElem?_set_self hlt,Option.some_inj] at hcell
    rw [← hcell] at hU
    exact absurd (h.called_lt hU) (lt_irrefl _)
  · rw [Ledger.take,List.getElem?_set_ne hdc] at hcell
    exact hcell

lemma sound_empty : Sound empty where
  cells_nodup := List.nodup_nil
  cells_lt T hT := by cases hT
  taken_nodup := List.nodup_nil
  taken_lt T hT := by cases hT
  disjoint T hT := by cases hT
  pending_lt c hc := absurd hc (Multiset.notMem_zero c)
  answered T hT := by cases hT

lemma Sound.grow (h : Sound l) : Sound l.grow where
  cells_nodup := by
    refine List.nodup_append.mpr ⟨h.cells_nodup,List.nodup_singleton _,?_⟩
    intro a ha b hb
    rw [List.mem_singleton.mp hb]
    exact ne_of_lt (h.cells_lt a ha)
  cells_lt T hT := by
    rcases List.mem_append.mp hT with hT | hT
    · exact Nat.lt_succ_of_lt (h.cells_lt T hT)
    · rw [List.mem_singleton.mp hT]
      exact Nat.lt_succ_self _
  taken_nodup := h.taken_nodup
  taken_lt T hT := Nat.lt_succ_of_lt (h.taken_lt T hT)
  disjoint T hT htaken := by
    rcases List.mem_append.mp hT with hT | hT
    · exact h.disjoint T hT htaken
    · rw [List.mem_singleton.mp hT] at htaken
      exact lt_irrefl _ (h.taken_lt _ htaken)
  pending_lt c hc := by
    rw [Ledger.grow,List.length_append]
    exact Nat.lt_add_right _ (h.pending_lt c hc)
  answered T hT := by
    refine (h.answered T hT).imp_right ?_
    rintro ⟨c,hc,hcell⟩
    refine ⟨c,hc,?_⟩
    rw [Ledger.grow,List.getElem?_append_left (h.pending_lt c hc)]
    exact hcell

lemma Sound.await (h : Sound l) (hc : c < l.cells.length) : Sound (l.await c) where
  __ := h
  pending_lt d hd := by
    rcases Multiset.mem_cons.mp hd with rfl | hd
    · exact hc
    · exact h.pending_lt d hd
  answered T hT := by
    refine (h.answered T hT).imp_right ?_
    rintro ⟨d,hd,hcell⟩
    exact ⟨d,Multiset.mem_cons_of_mem hd,hcell⟩

/-- A token may be called in when somebody is pending on its cell. -/
theorem Sound.call (h : Sound l) (hc : c ∈ l.pending) (hcell : l.cells[c]? = some T) :
    Sound (l.call T) where
  __ := h
  answered U hU := by
    rcases List.mem_append.mp hU with hU | hU
    · exact h.answered U hU
    · rw [List.mem_singleton.mp hU]
      exact .inr ⟨c,hc,hcell⟩

/-- Taking the token of a cell answers everybody who was pending on it. -/
theorem Sound.take (h : Sound (l.await c)) (hcell : l.cells[c]? = some T) : Sound (l.take c T) where
  cells_nodup := by
    refine List.Nodup.set h.cells_nodup fun hmem => ?_
    exact lt_irrefl _ (h.cells_lt _ hmem)
  cells_lt U hU := by
    rcases List.mem_or_eq_of_mem_set hU with hU | hU
    · exact Nat.lt_succ_of_lt (h.cells_lt U hU)
    · rw [hU]
      exact Nat.lt_succ_self _
  taken_nodup := by
    refine List.nodup_append.mpr ⟨h.taken_nodup,List.nodup_singleton _,?_⟩
    intro a ha b hb
    rw [List.mem_singleton.mp hb]
    rintro rfl
    exact h.disjoint a (List.mem_of_getElem? hcell) ha
  taken_lt U hU := by
    rcases List.mem_append.mp hU with hU | hU
    · exact Nat.lt_succ_of_lt (h.taken_lt U hU)
    · rw [List.mem_singleton.mp hU]
      exact Nat.lt_succ_of_lt (h.cells_lt T (List.mem_of_getElem? hcell))
  disjoint U hU htaken := by
    obtain ⟨d,hd⟩ := List.mem_iff_getElem?.mp hU
    by_cases hdc : c = d
    · subst hdc
      have hlt : c < l.cells.length := (List.getElem?_eq_some_iff.mp hcell).1
      rw [Ledger.take,List.getElem?_set_self hlt,Option.some_inj] at hd
      subst hd
      rcases List.mem_append.mp htaken with htaken | htaken
      · exact lt_irrefl _ (h.taken_lt _ htaken)
      · have hT := h.cells_lt T (List.mem_of_getElem? hcell)
        rw [← List.mem_singleton.mp htaken] at hT
        exact lt_irrefl _ hT
    · rw [Ledger.take,List.getElem?_set_ne hdc] at hd
      rcases List.mem_append.mp htaken with htaken | htaken
      · exact h.disjoint U (List.mem_of_getElem? hd) htaken
      · rw [List.mem_singleton.mp htaken] at hd
        exact hdc (h.cell_unique hcell hd)
  pending_lt d hd := by
    rw [Ledger.take,List.length_set]
    exact h.pending_lt d (Multiset.mem_cons_of_mem hd)
  answered U hU := by
    rcases h.answered U hU with htaken | ⟨d,hd,hcell'⟩
    · exact .inl (List.mem_append_left _ htaken)
    · by_cases hdc : c = d
      · subst hdc
        have hUT : some U = some T := hcell'.symm.trans hcell
        rw [Option.some_inj.mp hUT]
        exact .inl (List.mem_append_right _ (List.mem_singleton_self T))
      · refine .inr ⟨d,?_,?_⟩
        · exact (Multiset.mem_cons.mp hd).resolve_left (Ne.symm hdc)
        · rw [Ledger.take,List.getElem?_set_ne hdc]
          exact hcell'

/-- One that was pending on `c` may go away without its token, if that was not called in or somebody
else is pending on it. -/
theorem Sound.leave (h : Sound (l.await c))
    (hother : ∀ T, l.cells[c]? = some T → T ∈ l.called → c ∈ l.pending) : Sound l where
  __ := h
  pending_lt d hd := h.pending_lt d (Multiset.mem_cons_of_mem hd)
  answered T hT := by
    refine (h.answered T hT).imp_right ?_
    rintro ⟨d,hd,hcell⟩
    rcases Multiset.mem_cons.mp hd with rfl | hd
    · exact ⟨d,hother T hcell hT,hcell⟩
    · exact ⟨d,hd,hcell⟩

/-- All may go away when none of them is pending on a token that was called in. -/
theorem Sound.close (h : Sound l)
    (hnone : ∀ c ∈ l.pending, ∀ T, l.cells[c]? = some T → T ∉ l.called) : Sound l.close where
  __ := h
  pending_lt c hc := absurd hc (Multiset.notMem_zero c)
  answered T hT := by
    refine .inl ((h.answered T hT).resolve_right ?_)
    rintro ⟨c,hc,hcell⟩
    exact hnone c hc T hcell hT

end Ledger
end PhpAgent
