import PhpAgent.Daemon.MetricMaps

/-! What a metric table of the daemon holds after any sequence of additions and merges, with values
that are exact numbers. -/
namespace PhpAgent

/-- What is merged into a metric table at once: the metric under a name and a scope. -/
abbrev ObservedMetric : Type := MetricID × Metric (MetricData ℚ)

namespace NestedTable

/-! ### Operations -/

/-- `AddRaw`. -/
def addRaw (mt : NestedTable (MetricData ℚ)) (nameSlice : Option Bytes) (nameString scope : Bytes)
    (data : Fin 6 → ℚ) (force : MetricForce) : NestedTable (MetricData ℚ) :=
  mt.add nameSlice nameString scope (MetricTable.rawData data) force

/-- `AddCount`. -/
def addCount (mt : NestedTable (MetricData ℚ)) (name scope : Bytes) (count : ℚ)
    (force : MetricForce) : NestedTable (MetricData ℚ) :=
  mt.add none name scope (MetricTable.countData count) force

/-- `AddValue`. -/
def addValue (mt : NestedTable (MetricData ℚ)) (name scope : Bytes) (value : ℚ)
    (force : MetricForce) : NestedTable (MetricData ℚ) :=
  mt.add none name scope (MetricTable.valueData value) force

/-- The operations that add to a table. -/
inductive MetricOp
  | addRaw (nameSlice : Option Bytes) (nameString scope : Bytes) (data : Fin 6 → ℚ)
    (force : MetricForce)
  | addCount (name scope : Bytes) (count : ℚ) (force : MetricForce)
  | addValue (name scope : Bytes) (value : ℚ) (force : MetricForce)
  | merge (src : NestedTable (MetricData ℚ)) (order : List MetricID)

def MetricOp.exec (mt : NestedTable (MetricData ℚ)) : MetricOp → NestedTable (MetricData ℚ)
  | addRaw nameSlice nameString scope data force => mt.addRaw nameSlice nameString scope data force
  | addCount name scope count force => mt.addCount name scope count force
  | addValue name scope value force => mt.addValue name scope value force
  | merge src order => mt.merge src order

/-- What an operation observes; a merge observes the metrics of the other table. -/
def MetricOp.observations : MetricOp → List ObservedMetric
  | addRaw nameSlice nameString scope data force =>
    [(⟨nameSlice.getD nameString,scope⟩,⟨force,MetricTable.rawData data⟩)]
  | addCount name scope count force => [(⟨name,scope⟩,⟨force,MetricTable.countData count⟩)]
  | addValue name scope value force => [(⟨name,scope⟩,⟨force,MetricTable.valueData value⟩)]
  | merge src order => order.filterMap fun id => (src.find id).map fun m => (id,m)

/-- The table after a sequence of operations. -/
def run (mt : NestedTable (MetricData ℚ)) (ops : List MetricOp) : NestedTable (MetricData ℚ) :=
  ops.foldl MetricOp.exec mt

def observe (mt : NestedTable (MetricData ℚ)) (o : ObservedMetric) : NestedTable (MetricData ℚ) :=
  mt.mergeMetric none o.1.name o.1.scope o.2

def observeAll (mt : NestedTable (MetricData ℚ)) (obs : List ObservedMetric) :
    NestedTable (MetricData ℚ) :=
  obs.foldl observe mt

variable {mt start : NestedTable (MetricData ℚ)} {obs : List ObservedMetric} {o : ObservedMetric}

lemma MetricOp.exec_eq (mt : NestedTable (MetricData ℚ)) (op : MetricOp) :
    op.exec mt = mt.observeAll op.observations := by
  cases op with
  | addRaw nameSlice nameString scope data force =>
    cases nameSlice with
    | none => rfl
    | some slice => rfl
  | addCount name scope count force => rfl
  | addValue name scope value force => rfl
  | merge src order =>
    change mt.merge src order =
      mt.observeAll (order.filterMap fun id => (src.find id).map fun m => (id,m))
    unfold NestedTable.merge observeAll
    induction order generalizing mt with
    | nil => rfl
    | cons id order ih =>
      rw [List.foldl_cons,List.filterMap_cons,ih]
      cases src.find id with
      | none => rfl
      | some m => rfl

lemma observeAll_concat (mt : NestedTable (MetricData ℚ)) (obs : List ObservedMetric)
    (o : ObservedMetric) : mt.observeAll (obs ++ [o]) = (mt.observeAll obs).observe o :=
  List.foldl_concat ..

/-! ### One observation -/

/-- Unforced, of a name and a scope that the table does not have while it is full. -/
def Rejected (mt : NestedTable (MetricData ℚ)) (o : ObservedMetric) : Prop :=
  o.2.forced = .unforced ∧ mt.find o.1 = none ∧ mt.full = true

instance (mt : NestedTable (MetricData ℚ)) (o : ObservedMetric) : Decidable (Rejected mt o) :=
  inferInstanceAs (Decidable (_ ∧ _ ∧ _))

/-- The metric after an observation. -/
def observed (old : Option (Metric (MetricData ℚ))) (m : Metric (MetricData ℚ)) :
    Metric (MetricData ℚ) :=
  match old with
  | none => m
  | some dst => { dst with data := Aggregate.aggregate dst.data m.data }

lemma observe_rejected (h : Rejected mt o) :
    mt.observe o = { mt with numDropped := mt.numDropped+1 } := by
  obtain ⟨hforced,hfind,hfull⟩ := h
  rw [observe,mergeMetric_eq]
  simp only [Option.getD_none]
  rw [hfind]
  simp only [hforced,hfull,and_self,if_true]

lemma observe_accepted (h : ¬Rejected mt o) :
    mt.observe o = { mt with
      metrics := mt.put o.1 (observed (mt.find o.1) o.2)
      count := if mt.find o.1 = none then mt.count+1 else mt.count } := by
  rw [observe,mergeMetric_eq]
  simp only [Option.getD_none]
  cases hfind : mt.find o.1 with
  | none =>
    have hkeep : ¬(mt.full = true ∧ o.2.forced = .unforced) := fun hdrop =>
      h ⟨hdrop.2,hfind,hdrop.1⟩
    simp only [if_neg hkeep,observed,if_true]
  | some dst => rfl

lemma find_observe (mt : NestedTable (MetricData ℚ)) (o : ObservedMetric) (id : MetricID) :
    (mt.observe o).find id =
      if id = o.1 ∧ ¬Rejected mt o then some (observed (mt.find o.1) o.2) else mt.find id := by
  by_cases h : Rejected mt o
  · rw [observe_rejected h,if_neg fun hid => hid.2 h]
    rfl
  · rw [observe_accepted h]
    refine (find_put mt o.1 id _).trans ?_
    simp only [h,not_false_eq_true,and_true]

/-! ### Totals -/

/-- The sums and the extremes of metrics, and the flag of the first. -/
structure Totals (m : Metric (MetricData ℚ)) (l : List (Metric (MetricData ℚ))) : Prop where
  forced : l.head?.map Metric.forced = some m.forced
  countSatisfied : m.data.countSatisfied = (l.map fun e => e.data.countSatisfied).sum
  totalTolerated : m.data.totalTolerated = (l.map fun e => e.data.totalTolerated).sum
  exclusiveFailed : m.data.exclusiveFailed = (l.map fun e => e.data.exclusiveFailed).sum
  min_le : ∀ e ∈ l, m.data.min ≤ e.data.min
  min_mem : ∃ e ∈ l, m.data.min = e.data.min
  le_max : ∀ e ∈ l, e.data.max ≤ m.data.max
  max_mem : ∃ e ∈ l, m.data.max = e.data.max
  sumSquares : m.data.sumSquares = (l.map fun e => e.data.sumSquares).sum

lemma totals_single (m : Metric (MetricData ℚ)) : Totals m [m] where
  forced := rfl
  countSatisfied := by simp
  totalTolerated := by simp
  exclusiveFailed := by simp
  min_le := by simp
  min_mem := by simp
  le_max := by simp
  max_mem := by simp
  sumSquares := by simp

/-- One more observation. -/
theorem Totals.concat {m e : Metric (MetricData ℚ)} {l : List (Metric (MetricData ℚ))}
    (h : Totals m l) : Totals (observed (some m) e) (l ++ [e]) where
  forced := by
    have hne : l ≠ [] := by
      rintro rfl
      cases h.forced
    rw [List.head?_append_of_ne_nil _ hne]
    exact h.forced
  countSatisfied := by
    rw [List.map_append,List.sum_append,← h.countSatisfied]
    simp [observed,Aggregate.aggregate]
  totalTolerated := by
    rw [List.map_append,List.sum_append,← h.totalTolerated]
    simp [observed,Aggregate.aggregate]
  exclusiveFailed := by
    rw [List.map_append,List.sum_append,← h.exclusiveFailed]
    simp [observed,Aggregate.aggregate]
  min_le := by
    intro e' he'
    have hmin : (observed (some m) e).data.min = min e.data.min m.data.min := by
      simp only [observed,Aggregate.aggregate,min_def]
      split_ifs <;> grind
    rw [hmin]
    rcases List.mem_append.mp he' with he' | he'
    · exact (min_le_right _ _).trans (h.min_le e' he')
    · rw [List.mem_singleton.mp he']
      exact min_le_left _ _
  min_mem := by
    obtain ⟨e',he',heq⟩ := h.min_mem
    simp only [observed,Aggregate.aggregate]
    split_ifs
    · exact ⟨e,by simp,rfl⟩
    · exact ⟨e',List.mem_append_left _ he',heq⟩
  le_max := by
    intro e' he'
    have hmax : (observed (some m) e).data.max = max e.data.max m.data.max := by
      simp only [observed,Aggregate.aggregate,max_def]
      split_ifs <;> grind
    rw [hmax]
    rcases List.mem_append.mp he' with he' | he'
    · exact (h.le_max e' he').trans (le_max_right _ _)
    · rw [List.mem_singleton.mp he']
      exact le_max_left _ _
  max_mem := by
    obtain ⟨e',he',heq⟩ := h.max_mem
    simp only [observed,Aggregate.aggregate]
    split_ifs
    · exact ⟨e,by simp,rfl⟩
    · exact ⟨e',List.mem_append_left _ he',heq⟩
  sumSquares := by
    rw [List.map_append,List.sum_append,← h.sumSquares]
    simp [observed,Aggregate.aggregate]

/-! ### All observations -/

/-- How many observations are rejected. -/
def rejections (mt : NestedTable (MetricData ℚ)) : List ObservedMetric → ℕ
  | [] => 0
  | o :: obs => (if Rejected mt o then 1 else 0)+rejections (mt.observe o) obs

/-- The table `mt` accounts for the observations that were made since it was `start`. -/
structure Accounted (start : NestedTable (MetricData ℚ)) (obs : List ObservedMetric)
    (mt : NestedTable (MetricData ℚ)) : Prop where
  count : mt.count = mt.pairs.length
  stored : ∀ id m, mt.find id = some m → ∃ before first after, obs = before ++ (id,first) :: after ∧
    (start.observeAll before).find id = none ∧ ¬Rejected (start.observeAll before) (id,first) ∧
    Totals m (first :: (after.filter fun o => o.1 = id).map Prod.snd)
  rejected_iff : ∀ before o after, obs = before ++ o :: after →
    ((start.observeAll (before ++ [o])).find o.1 = none ↔
      o.2.forced = .unforced ∧ (start.observeAll before).find o.1 = none ∧
        start.maxTableSize ≤ (start.observeAll before).count)
  numDropped : mt.numDropped = start.numDropped+start.rejections obs

@[simp] lemma observe_maxTableSize (mt : NestedTable (MetricData ℚ)) (o : ObservedMetric) :
    (mt.observe o).maxTableSize = mt.maxTableSize := by
  by_cases h : Rejected mt o
  · rw [observe_rejected h]
  · rw [observe_accepted h]

lemma observeAll_maxTableSize (mt : NestedTable (MetricData ℚ)) (obs : List ObservedMetric) :
    (mt.observeAll obs).maxTableSize = mt.maxTableSize := by
  induction obs generalizing mt with
  | nil => rfl
  | cons o obs ih => exact (ih _).trans (observe_maxTableSize mt o)

/-- A pair is missing after its observation only when that is rejected. -/
theorem find_observe_eq_none_iff : (mt.observe o).find o.1 = none ↔ Rejected mt o := by
  rw [find_observe]
  by_cases h : Rejected mt o
  · simp [h,h.2.1]
  · simp [h]

lemma rejections_concat (mt : NestedTable (MetricData ℚ)) (obs : List ObservedMetric)
    (o : ObservedMetric) : mt.rejections (obs ++ [o]) =
      mt.rejections obs+if Rejected (mt.observeAll obs) o then 1 else 0 := by
  induction obs generalizing mt with
  | nil => exact Nat.add_comm _ 0
  | cons e obs ih =>
    rw [List.cons_append,rejections,rejections,ih,Nat.add_assoc]
    rfl

lemma numDropped_observe (mt : NestedTable (MetricData ℚ)) (o : ObservedMetric) :
    (mt.observe o).numDropped = mt.numDropped+if Rejected mt o then 1 else 0 := by
  split_ifs with h
  · rw [observe_rejected h]
  · rw [observe_accepted h]
    rfl

lemma mem_pairs_observe {id : MetricID} : id ∈ (mt.observe o).pairs ↔
    (id = o.1 ∧ ¬Rejected mt o) ∨ id ∈ mt.pairs := by
  rw [mem_pairs,mem_pairs,find_observe]
  split_ifs with h
  · simp [h]
  · simp [h]

lemma count_observe (h : mt.count = mt.pairs.length) :
    (mt.observe o).count = (mt.observe o).pairs.length := by
  by_cases hnew : mt.find o.1 = none ∧ ¬Rejected mt o
  · have hmem : o.1 ∉ mt.pairs := by
      rw [mem_pairs,hnew.1]
      exact Bool.false_ne_true
    have hperm : (mt.observe o).pairs.Perm (o.1 :: mt.pairs) := by
      refine (List.perm_ext_iff_of_nodup (nodup_pairs _)
        (List.nodup_cons.mpr ⟨hmem,nodup_pairs _⟩)).mpr fun id => ?_
      rw [mem_pairs_observe,List.mem_cons,and_iff_left hnew.2]
    rw [hperm.length_eq,List.length_cons,← h,observe_accepted hnew.2,if_pos hnew.1]
  · have hperm : (mt.observe o).pairs.Perm mt.pairs := by
      refine (List.perm_ext_iff_of_nodup (nodup_pairs _) (nodup_pairs _)).mpr fun id => ?_
      rw [mem_pairs_observe,or_iff_right_of_imp]
      rintro ⟨rfl,hkept⟩
      have hfind : mt.find o.1 ≠ none := fun hnone => hnew ⟨hnone,hkept⟩
      exact mem_pairs.mpr (Option.ne_none_iff_isSome.mp hfind)
    rw [hperm.length_eq,← h]
    by_cases hrejected : Rejected mt o
    · rw [observe_rejected hrejected]
    · have hfind : mt.find o.1 ≠ none := fun hnone => hnew ⟨hnone,hrejected⟩
      rw [observe_accepted hrejected,if_neg hfind]

/-- One more observation is accounted for. -/
theorem Accounted.observe (h : Accounted start obs (start.observeAll obs)) (o : ObservedMetric) :
    Accounted start (obs ++ [o]) (start.observeAll (obs ++ [o])) where
  count := by
    rw [observeAll_concat]
    exact count_observe h.count
  stored := by
    intro id m hfind
    rw [observeAll_concat,find_observe] at hfind
    split_ifs at hfind with hid
    · obtain ⟨rfl,hkept⟩ := hid
      cases hold : (start.observeAll obs).find o.1 with
      | none =>
        rw [hold] at hfind
        obtain rfl := Option.some.inj hfind
        exact ⟨obs,o.2,[],rfl,hold,hkept,totals_single o.2⟩
      | some dst =>
        rw [hold] at hfind
        obtain rfl := Option.some.inj hfind
        obtain ⟨before,first,after,rfl,hnone,hfirst,htotals⟩ := h.stored o.1 dst hold
        refine ⟨before,first,after ++ [o],by simp,hnone,hfirst,?_⟩
        have hconcat := htotals.concat (e := o.2)
        simpa using hconcat
    · obtain ⟨before,first,after,rfl,hnone,hfirst,htotals⟩ := h.stored id m hfind
      refine ⟨before,first,after ++ [o],by simp,hnone,hfirst,?_⟩
      -- an observation of the pair would not have been rejected
      have hother : o.1 ≠ id := by
        rintro rfl
        refine hid ⟨rfl,fun hrejected => ?_⟩
        rw [hrejected.2.1] at hfind
        cases hfind
      rw [List.filter_append]
      simpa [hother] using htotals
  rejected_iff := by
    intro before e after heq
    rw [observeAll_concat,find_observe_eq_none_iff]
    simp only [Rejected,full,observeAll_maxTableSize,decide_eq_true_iff]
  numDropped := by
    rw [observeAll_concat,numDropped_observe,h.numDropped,rejections_concat,Nat.add_assoc]

end NestedTable
end PhpAgent
