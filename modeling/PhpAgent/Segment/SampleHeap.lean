import PhpAgent.Segment.TreeToHeapSpec

/-! The heaps of the first pass: the comparators are total preorders on the segments of a
transaction, and a heap of bound `b` ends up with the best `b` of the segments it was given. -/
namespace PhpAgent
namespace Txn
open MinmaxHeap
variable {t : Txn}

lemma durationComparator_le (a b : Segment) :
    durationComparator a b ≤ 0 ↔ unsignedDuration a ≤ unsignedDuration b := by
  unfold durationComparator
  split_ifs <;> omega

lemma durationComparator_pos (a b : Segment) :
    0 < durationComparator a b ↔ durationComparator b a < 0 := by
  unfold durationComparator
  split_ifs <;> omega

lemma wrapped_duration_isComparator (t : Txn) : IsComparator (wrapped durationComparator t) :=
  isComparator_of_key (fun p => unsignedDuration ((t.segs p).getD .zero))
    (fun _ _ => durationComparator_le _ _) fun _ _ => durationComparator_pos _ _

/-- Priority first, then duration. -/
def spanKey (s : Segment) : ℕ ×ₗ ℕ := toLex (s.priority,unsignedDuration s)

lemma spanPriorityComparator_le (a b : Segment) :
    spanPriorityComparator a b ≤ 0 ↔ spanKey a ≤ spanKey b := by
  have hdur := durationComparator_le a b
  rw [spanKey,spanKey,Prod.Lex.toLex_le_toLex]
  unfold spanPriorityComparator
  split_ifs <;> simp only [hdur] <;> omega

lemma spanPriorityComparator_pos (a b : Segment) :
    0 < spanPriorityComparator a b ↔ spanPriorityComparator b a < 0 := by
  have hdur := durationComparator_pos a b
  unfold spanPriorityComparator
  split_ifs <;> omega

lemma wrapped_spanPriority_isComparator (t : Txn) :
    IsComparator (wrapped spanPriorityComparator t) :=
  isComparator_of_key (fun p => spanKey ((t.segs p).getD .zero))
    (fun _ _ => spanPriorityComparator_le _ _) fun _ _ => spanPriorityComparator_pos _ _

/-! ### Filling a heap -/

section Fill
variable {comparator : Segment → Segment → ℤ} (hc : IsComparator (wrapped comparator t))
include hc

omit hc in
/-- The destructor plays no part in what a heap holds. -/
theorem heapInsert_of_insert {σ : Type} {cmpAt : σ → SegPtr → SegPtr → ℤ}
    {destructor : SegPtr → σ → Option σ} {s s' : σ} {heap heap' : MinmaxHeap SegPtr} {p : SegPtr}
    (hins : heap.insert cmpAt destructor p s = some (heap',s'))
    (hcmp : cmpAt s = wrapped comparator t)
    (hd : ∀ x, ∃ s', destructor x s = some s' ∧ cmpAt s' = cmpAt s) :
    heapInsert comparator t (some heap) p = some (some heap') := by
  have hfst := MinmaxHeap.insert_fst_congr hcmp hd
    (fun x => ⟨t,rfl,rfl⟩ : ∀ x, ∃ u', (fun _ t => some t : SegPtr → Txn → Option Txn) x t = some u' ∧
      wrapped comparator u' = wrapped comparator t) heap p
  rw [hins,Option.map_some] at hfst
  obtain ⟨r,hr,heq⟩ := Option.map_eq_some_iff.mp hfst.symm
  simp only [heapInsert,hr,Option.bind_eq_bind,Option.bind_some,Option.pure_def,heq]

/-- A heap with a bound keeps the best of what it is given. -/
theorem heapInsert_keepsBest {b : ℕ} (hb : 2 ≤ b) (l : List SegPtr) {m : Multiset SegPtr}
    {heap : MinmaxHeap SegPtr} {left : List SegPtr}
    (k : KeepsBest (wrapped comparator t) b m heap left) :
    ∃ heap' left', l.foldlM (heapInsert comparator t) (some heap) = some (some heap') ∧
      KeepsBest (wrapped comparator t) b (m+l) heap' left' := by
  induction l generalizing m heap left with
  | nil => exact ⟨heap,left,rfl,by simpa using k⟩
  | cons p l ih =>
    obtain ⟨heap₁,left₁,hins,k₁⟩ := k.insert hc hb p
    have hstep : heapInsert comparator t (some heap) p = some (some heap₁) :=
      heapInsert_of_insert hins rfl fun x => ⟨_,rfl,rfl⟩
    obtain ⟨heap₂,left₂,hrun,k₂⟩ := ih k₁
    refine ⟨heap₂,left₂,by simp [List.foldlM_cons,hstep,hrun],?_⟩
    rwa [← Multiset.cons_coe,Multiset.add_cons,← Multiset.cons_add]

lemma segmentHeapCreate_keepsBest {b : ℕ} (hb : 2 ≤ b) (l : List SegPtr) :
    ∃ heap left, l.foldlM (heapInsert comparator t) (segmentHeapCreate b) = some (some heap) ∧
      KeepsBest (wrapped comparator t) b l heap left := by
  obtain ⟨heap₀,hcreate,hv,hbd,hu⟩ := create_spec (wrapped comparator t) b (by omega)
  have hstored : heap₀.stored = 0 := by simp [stored,hu]
  have k₀ : KeepsBest (wrapped comparator t) b 0 heap₀ [] :=
    ⟨hv,hbd,by simp [hstored],fun hne => absurd rfl hne,by simp⟩
  obtain ⟨heap,left,hrun,k⟩ := heapInsert_keepsBest hc hb l k₀
  exact ⟨heap,left,by rw [segmentHeapCreate,hcreate]; exact hrun,by simpa using k⟩

lemma heapInsert_unbounded (l : List SegPtr) {heap : MinmaxHeap SegPtr}
    (hv : Valid (wrapped comparator t) heap) (hb : heap.bound = 0) :
    ∃ heap', l.foldlM (heapInsert comparator t) (some heap) = some heap' := by
  induction l generalizing heap with
  | nil => exact ⟨some heap,rfl⟩
  | cons p l ih =>
    obtain ⟨heap₁,happ,hv₁,hb₁,-⟩ := append_spec hc hv (fun hne => absurd hb hne) p
    have hins := insert_of_free (wrapped comparator) (fun _ t => some t) p t
      (fun hne => absurd hb hne)
    rw [happ,Option.map_some] at hins
    obtain ⟨heap',hrun⟩ := ih hv₁ (hb₁.trans hb)
    have hstep : heapInsert comparator t (some heap) p = some (some heap₁) :=
      heapInsert_of_insert hins rfl fun x => ⟨_,rfl,rfl⟩
    exact ⟨heap',by simp [List.foldlM_cons,hstep,hrun]⟩

omit hc in
lemma heapInsert_none (l : List SegPtr) :
    l.foldlM (heapInsert comparator t) none = some none := by
  induction l with
  | nil => rfl
  | cons p l ih => exact ih

/-- Filling a heap of any bound returns; a bound of 1 makes no heap. -/
theorem segmentHeapCreate_returns (b : ℕ) (l : List SegPtr) :
    ∃ heap, l.foldlM (heapInsert comparator t) (segmentHeapCreate b) = some heap := by
  match b with
  | 0 =>
    obtain ⟨heap,hcreate,hv,hbd,-⟩ := create_spec (wrapped comparator t) 0 (by decide)
    rw [segmentHeapCreate,hcreate]
    exact heapInsert_unbounded hc l hv hbd
  | 1 => exact ⟨none,heapInsert_none l⟩
  | b+2 =>
    obtain ⟨heap,-,hrun,-⟩ := segmentHeapCreate_keepsBest hc (Nat.le_add_left 2 b) l
    exact ⟨_,hrun⟩

end Fill
end Txn
end PhpAgent
