import PhpAgent.Daemon.OtlpMetrics

/-! When the bucket counts of an exported histogram add up to its count. -/
namespace PhpAgent.Otlp

/-- Exact numbers with any conversion, since that of a number out of range is left open. -/
abbrev exactFloat (toUInt64 : ℚ → ℕ) : Float64 ℚ where
  toUInt64 := toUInt64

@[simp] lemma toUInt64_exactFloat (toUInt64 : ℚ → ℕ) (x : ℚ) :
    (exactFloat toUInt64).toUInt64 x = toUInt64 x := rfl

/-- As many counts as there are buckets, which add up to the count of the point. -/
def PointValue.AddsUp {F : Type} : PointValue F → Prop
  | .histogram count _ bounds counts => counts.length = bounds.length+1 ∧ counts.sum = count
  | .gauge _ => True
  | .sum _ _ => True

/-! ### Cumulative counts -/

@[simp] lemma length_bucketCounts (prev : ℕ) (cum : List ℕ) :
    (bucketCounts prev cum).length = cum.length := by
  induction cum generalizing prev with
  | nil => rfl
  | cons c cum ih => simp [bucketCounts,ih]

/-- The differences of cumulative counts add up to the last of them. -/
theorem sum_bucketCounts {all : ℕ} (cum : List ℕ) (hcum : ∀ c ∈ cum, c ≤ all) {prev : ℕ}
    (hprev : prev ≤ all) : (bucketCounts prev (cum ++ [all])).sum = all-prev := by
  induction cum generalizing prev with
  | nil => simp [bucketCounts,Nat.not_lt.mpr hprev]
  | cons c cum ih =>
    have hc : c ≤ all := hcum c List.mem_cons_self
    have hrest : ∀ c ∈ cum, c ≤ all := fun c hc => hcum c (List.mem_cons_of_mem _ hc)
    rw [List.cons_append,bucketCounts,List.sum_cons,ih hrest (by split_ifs <;> omega)]
    split_ifs <;> omega

/-! ### The three shapes -/

section Shapes
variable (toUInt64 : ℚ → ℕ)

/-- `synthesizeBuckets` on exact numbers. -/
def exactBuckets (count lo hi : ℚ) : List ℚ × List ℕ :=
  @synthesizeBuckets ℚ (exactFloat toUInt64) _ _ _ count lo hi

/-- `emitLatencyHistogram` on exact numbers. -/
def exactHistogram (dest : List (Metric ℚ)) (name : Bytes) (r : MetricRecord ℚ) (ts : Time)
    (setAttrs : Attributes ℚ → Attributes ℚ) : List (Metric ℚ) :=
  @emitLatencyHistogram ℚ (exactFloat toUInt64) _ _ _ dest name r ts setAttrs

/-- The bounds as exact numbers. -/
def exactBoundaries : List ℚ := @otelLatencyBoundaries ℚ (exactFloat toUInt64)

lemma forall_exactBoundaries_lt_iff (lo : ℚ) :
    (∀ b ∈ exactBoundaries toUInt64, ¬lo ≤ b) ↔ 10 < lo := by
  have hle : ∀ b ∈ exactBoundaries toUInt64, b ≤ 10 := by
    simp only [exactBoundaries,otelLatencyBoundaries,List.forall_mem_cons]
    norm_num
  have hlast : (10 : ℚ) ∈ exactBoundaries toUInt64 := by
    simp only [exactBoundaries,otelLatencyBoundaries,List.mem_cons]
    norm_num
  constructor
  · intro h
    exact not_le.mp (h 10 hlast)
  · intro h b hb
    exact not_le.mpr ((hle b hb).trans_lt h)

variable {toUInt64} {count lo hi : ℚ}

lemma length_exactBuckets :
    (exactBuckets toUInt64 count lo hi).2.length = (exactBuckets toUInt64 count lo hi).1.length+1 := by
  unfold exactBuckets synthesizeBuckets
  split_ifs <;> simp

lemma exactBuckets_degenerate (h : count ≤ 0 ∨ hi ≤ 0 ∨ hi < lo) :
    (exactBuckets toUInt64 count lo hi).2.sum = toUInt64 count := by
  simp only [exactBuckets,synthesizeBuckets,if_pos h,List.sum_append,List.sum_singleton]
  simp [toUInt64_exactFloat]

lemma exactBuckets_uniform (h : ¬(count ≤ 0 ∨ hi ≤ 0 ∨ hi < lo)) (hne : lo ≠ hi) :
    (exactBuckets toUInt64 count lo hi).2.sum = toUInt64 count := by
  simp only [exactBuckets,synthesizeBuckets,if_neg h,if_neg hne]
  refine (sum_bucketCounts _ ?_ (Nat.zero_le _)).trans (Nat.sub_zero _)
  intro c hc
  obtain ⟨b,_,rfl⟩ := List.mem_map.mp hc
  split_ifs
  · exact Nat.zero_le _
  · exact le_rfl
  · exact min_le_right _ _

lemma exactBuckets_single (h : ¬(count ≤ 0 ∨ hi ≤ 0 ∨ hi < lo)) (heq : lo = hi) :
    (exactBuckets toUInt64 count lo hi).2.sum = toUInt64 count ↔ 10 < lo ∨ toUInt64 count = 0 := by
  simp only [exactBuckets,synthesizeBuckets,if_neg h,if_pos heq,toUInt64_exactFloat]
  rw [List.sum_append,List.sum_singleton,Nat.add_eq_right,List.sum_eq_zero_iff,List.forall_mem_map,
    ← forall_exactBoundaries_lt_iff toUInt64]
  constructor
  · intro hzero
    by_cases hcount : toUInt64 count = 0
    · exact Or.inr hcount
    · refine Or.inl fun b hb hle => hcount ?_
      simpa only [if_pos hle] using hzero b hb
  · rintro (hlt | hcount) b hb
    · exact if_neg (hlt b hb)
    · rw [hcount,ite_self]

/-- The bucket counts add up except for a single sample value that is one of the bounds or below. -/
theorem exactBuckets_sum_iff :
    (exactBuckets toUInt64 count lo hi).2.sum = toUInt64 count ↔
      ¬(lo = hi ∧ 0 < hi ∧ hi ≤ 10 ∧ 0 < count ∧ toUInt64 count ≠ 0) := by
  by_cases h : count ≤ 0 ∨ hi ≤ 0 ∨ hi < lo
  · refine iff_of_true (exactBuckets_degenerate h) ?_
    rintro ⟨rfl,hpos,_,hcount,_⟩
    rcases h with h | h | h
    · exact absurd hcount (not_lt.mpr h)
    · exact absurd hpos (not_lt.mpr h)
    · exact lt_irrefl _ h
  · by_cases heq : lo = hi
    · rw [exactBuckets_single h heq]
      push Not at h
      subst heq
      constructor
      · rintro (hlt | hcount) ⟨_,_,hle,_,hne⟩
        · exact absurd hle (not_le.mpr hlt)
        · exact hne hcount
      · intro hnot
        by_contra hcon
        push Not at hcon
        exact hnot ⟨rfl,h.2.1,hcon.1,h.1,hcon.2⟩
    · exact iff_of_true (exactBuckets_uniform h heq) fun hsingle => heq hsingle.1

/-- What `emitLatencyHistogram` adds is well formed exactly when it is no histogram of a single
sample value up to the last bound. -/
theorem emitLatencyHistogram_addsUp_iff (toUInt64 : ℚ → ℕ) (dest : List (Metric ℚ)) (name : Bytes)
    (r : MetricRecord ℚ) (ts : Time) (setAttrs : Attributes ℚ → Attributes ℚ) :
    ∃ m, exactHistogram toUInt64 dest name r ts setAttrs = dest ++ [m] ∧
      (m.value.AddsUp ↔
        ¬(r.min = r.max ∧ 0 < r.max ∧ r.max ≤ 10 ∧ 0 < r.count ∧ toUInt64 r.count ≠ 0)) :=
  ⟨_,rfl,(and_iff_right length_exactBuckets).trans exactBuckets_sum_iff⟩

end Shapes

/-- Three requests of a quarter of a second each. -/
def quarterSeconds : MetricRecord ℚ where
  name := ascii "WebTransaction/all"
  scope := []
  count := 3
  total := 3/4
  exclusive := 3/4
  min := 1/4
  max := 1/4
  sumSquares := 3/16
  timestamp := 0

/-- They are counted in nine buckets. -/
theorem quarterSeconds_buckets :
    (synthesizeBuckets quarterSeconds.count quarterSeconds.min quarterSeconds.max).2.sum = 27 ∧
      Float64.toUInt64 quarterSeconds.count = 3 := by
  decide +kernel

end PhpAgent.Otlp
