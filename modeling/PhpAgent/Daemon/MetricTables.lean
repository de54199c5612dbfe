import PhpAgent.Daemon.Metrics

/-! What the operations on metric tables do to single metrics. -/
namespace PhpAgent
namespace MetricTable
variable {D E O : Type} [Aggregate D] [Aggregate E] {mt : MetricTable (Provenance O)}

/-- The metric under `id` after `m` is merged into `old`, in a table that is full or not. -/
def merged (full : Bool) (old : Option (Metric D)) (m : Metric D) : Option (Metric D) :=
  match old with
  | none => if full ∧ m.forced = .unforced then none else some m
  | some dst => some { dst with data := Aggregate.aggregate dst.data m.data }

lemma mergeMetric_lookup_self (mt : MetricTable D) (id : MetricID) (m : Metric D) :
    (mt.mergeMetric id m).metrics.lookup id = merged mt.full (mt.metrics.lookup id) m := by
  unfold mergeMetric merged
  cases hold : mt.metrics.lookup id with
  | none =>
    simp only
    split
    · exact hold
    · exact AList.lookup_insert _
  | some dst => exact AList.lookup_insert _

lemma mergeMetric_lookup_ne (mt : MetricTable D) {id id' : MetricID} (hne : id' ≠ id)
    (m : Metric D) : (mt.mergeMetric id m).metrics.lookup id' = mt.metrics.lookup id' := by
  unfold mergeMetric
  split
  · split
    · rfl
    · exact AList.lookup_insert_ne hne
  · exact AList.lookup_insert_ne hne

@[simp] lemma mergeMetric_failedHarvests (mt : MetricTable D) (id : MetricID) (m : Metric D) :
    (mt.mergeMetric id m).failedHarvests = mt.failedHarvests := by
  unfold mergeMetric
  split
  · split
    · rfl
    · rfl
  · rfl

/-- The calls of `mergeMetric` one after the other. -/
def mergeAll (mt : MetricTable D) (calls : List (MetricID × Metric D)) : MetricTable D :=
  calls.foldl (fun mt call => mt.mergeMetric call.1 call.2) mt

/-- The metrics of `mt` in the order `order`, under the names `rename` gives them. -/
def ranged (mt : MetricTable D) (rename : MetricID → MetricID) (order : List MetricID) :
    List (MetricID × Metric D) :=
  order.filterMap fun id => (mt.metrics.lookup id).map fun m => (rename id,m)

lemma foldl_eq_mergeAll (mt src : MetricTable D) (rename : MetricID → MetricID)
    (order : List MetricID) :
    order.foldl (fun mt id =>
      match src.metrics.lookup id with
      | some m => mt.mergeMetric (rename id) m
      | none => mt) mt = mt.mergeAll (src.ranged rename order) := by
  induction order generalizing mt with
  | nil => rfl
  | cons id order ih =>
    rw [List.foldl_cons,ih]
    cases hlook : src.metrics.lookup id with
    | none => simp [ranged,hlook]
    | some m => simp [ranged,hlook,mergeAll]

lemma merge_eq (mt src : MetricTable D) (order : List MetricID) :
    mt.merge src order = mt.mergeAll (src.ranged id order) :=
  foldl_eq_mergeAll mt src id order

/-- What rules make of the name of a metric. -/
def renamed (rules : MetricRules) (id : MetricID) : MetricID := ⟨(rules.apply id.name).2,id.scope⟩

lemma applyRules_eq (mt : MetricTable D) {rules : MetricRules} (hrules : rules ≠ [])
    (order : List MetricID) : mt.applyRules rules order =
      (new mt.maxTableSize mt.metricPeriodStart).mergeAll (mt.ranged (renamed rules) order) := by
  have hempty : rules.isEmpty = false := List.isEmpty_eq_false_iff.mpr hrules
  unfold applyRules
  rw [hempty]
  exact foldl_eq_mergeAll _ mt (renamed rules) order

omit [Aggregate D] in
lemma mem_ranged {mt : MetricTable D} {rename : MetricID → MetricID} {order : List MetricID}
    {call : MetricID × Metric D} : call ∈ mt.ranged rename order ↔
      ∃ id ∈ order, ∃ m, mt.metrics.lookup id = some m ∧ (rename id,m) = call := by
  simp [ranged]

/-- The target of a failed merge that is made. -/
def refailed (mt src : MetricTable D) : MetricTable D :=
  { mt with
    metricPeriodStart := min src.metricPeriodStart mt.metricPeriodStart
    failedHarvests := src.failedHarvests+1 }

lemma mergeFailed_eq (mt src : MetricTable D) (order : List MetricID)
    (hlimit : src.failedHarvests+1 ≤ Limits.failedMetricAttemptsLimit) :
    mt.mergeFailed src order = (mt.refailed src).mergeAll (src.ranged id order) := by
  unfold mergeFailed
  simp only [not_lt.mpr hlimit,if_false]
  rw [merge_eq]
  congr 1
  unfold refailed
  split
  · rename_i hlt
    rw [min_eq_left_of_lt hlt]
  · rename_i hlt
    rw [min_eq_right (not_lt.mp hlt)]

@[simp] lemma mergeAll_failedHarvests (mt : MetricTable D) (calls : List (MetricID × Metric D)) :
    (mt.mergeAll calls).failedHarvests = mt.failedHarvests := by
  induction calls generalizing mt with
  | nil => rfl
  | cons call calls ih =>
    rw [mergeAll,List.foldl_cons]
    exact (ih _).trans (mergeMetric_failedHarvests mt call.1 call.2)

/-! ### Observations -/

/-- The observations a table holds. -/
def observations (mt : MetricTable (Provenance O)) : List O :=
  mt.metrics.entries.flatMap fun entry => entry.2.data.observations

lemma mem_observations {o : O} : o ∈ mt.observations ↔
    ∃ id m, mt.metrics.lookup id = some m ∧ o ∈ m.data.observations := by
  simp only [observations,List.mem_flatMap]
  constructor
  · rintro ⟨⟨id,m⟩,hentry,ho⟩
    exact ⟨id,m,AList.mem_lookup_iff.mpr hentry,ho⟩
  · rintro ⟨id,m,hlook,ho⟩
    exact ⟨⟨id,m⟩,AList.mem_lookup_iff.mp hlook,ho⟩

/-- No observation comes from nowhere. -/
theorem mergeMetric_observations {id : MetricID}
    {m : Metric (Provenance O)} {o : O} (ho : o ∈ (mt.mergeMetric id m).observations) :
    o ∈ mt.observations ∨ o ∈ m.data.observations := by
  obtain ⟨id',e,hlook,ho⟩ := mem_observations.mp ho
  by_cases hid : id' = id
  · subst hid
    rw [mergeMetric_lookup_self] at hlook
    unfold merged at hlook
    split at hlook
    · split at hlook
      · cases hlook
      · cases hlook
        exact .inr ho
    · rename_i dst hold
      cases hlook
      rcases List.mem_append.mp ho with ho | ho
      · exact .inl (mem_observations.mpr ⟨id',dst,hold,ho⟩)
      · exact .inr ho
  · rw [mergeMetric_lookup_ne mt hid] at hlook
    exact .inl (mem_observations.mpr ⟨id',e,hlook,ho⟩)

lemma mergeAll_observations {calls : List (MetricID × Metric (Provenance O))} {o : O}
    (ho : o ∈ (mt.mergeAll calls).observations) :
    o ∈ mt.observations ∨ ∃ call ∈ calls, o ∈ call.2.data.observations := by
  induction calls generalizing mt with
  | nil => exact .inl ho
  | cons call calls ih =>
    rcases ih ho with ho | ⟨call',hmem,ho⟩
    · refine (mergeMetric_observations ho).imp_right fun ho => ?_
      exact ⟨call,List.mem_cons_self,ho⟩
    · exact .inr ⟨call',List.mem_cons_of_mem _ hmem,ho⟩

lemma ranged_observations {rename : MetricID → MetricID} {order : List MetricID} {o : O}
    (ho : ∃ call ∈ mt.ranged rename order, o ∈ call.2.data.observations) : o ∈ mt.observations := by
  obtain ⟨call,hcall,ho⟩ := ho
  obtain ⟨id,-,m,hlook,rfl⟩ := mem_ranged.mp hcall
  exact mem_observations.mpr ⟨id,m,hlook,ho⟩

/-! ### Tables with the same metrics -/

section Images
variable {f : D → E}

/-- The metric with its data replaced. -/
def imageOf (f : D → E) (m : Metric D) : Metric E := ⟨m.forced,f m.data⟩

/-- The table `t` is `s` with the data of its metrics replaced. -/
structure Image (f : D → E) (s : MetricTable D) (t : MetricTable E) : Prop where
  metricPeriodStart : t.metricPeriodStart = s.metricPeriodStart
  failedHarvests : t.failedHarvests = s.failedHarvests
  maxTableSize : t.maxTableSize = s.maxTableSize
  count : t.count = s.count
  numDropped : t.numDropped = s.numDropped
  lookup : ∀ id, t.metrics.lookup id = (s.metrics.lookup id).map (imageOf f)

namespace Image
variable {s : MetricTable D} {t : MetricTable E}

omit [Aggregate D] [Aggregate E] in
lemma full (h : Image f s t) : t.full = s.full := by
  rw [MetricTable.full,MetricTable.full,h.maxTableSize,h.count]

omit [Aggregate D] [Aggregate E] in
lemma keys_perm (h : Image f s t) : t.metrics.keys.Perm s.metrics.keys := by
  refine (List.perm_ext_iff_of_nodup t.metrics.keys_nodup s.metrics.keys_nodup).mpr fun id => ?_
  rw [← AList.mem_keys,← AList.mem_keys,← AList.lookup_isSome,← AList.lookup_isSome,h.lookup,
    Option.isSome_map]

omit [Aggregate D] [Aggregate E] in
lemma new (maxTableSize : ℤ) (now : Time) :
    Image f (.new maxTableSize now) (.new maxTableSize now) where
  metricPeriodStart := rfl
  failedHarvests := rfl
  maxTableSize := rfl
  count := rfl
  numDropped := rfl
  lookup _ := rfl

/-- Data that is aggregated first and replaced then. -/
theorem mergeMetric (hf : ∀ a b, f (Aggregate.aggregate a b) = Aggregate.aggregate (f a) (f b))
    (h : Image f s t) (id : MetricID) (m : Metric D) :
    Image f (s.mergeMetric id m) (t.mergeMetric id (imageOf f m)) := by
  have hlookup : ∀ id', (t.mergeMetric id (imageOf f m)).metrics.lookup id' =
      ((s.mergeMetric id m).metrics.lookup id').map (imageOf f) := by
    intro id'
    by_cases hid : id' = id
    · subst hid
      rw [mergeMetric_lookup_self,mergeMetric_lookup_self,h.lookup,h.full]
      cases s.metrics.lookup id' with
      | none =>
        by_cases hdrop : s.full = true ∧ m.forced = .unforced
        · have hdrop' : s.full = true ∧ (imageOf f m).forced = .unforced := hdrop
          simp only [merged,Option.map_none,if_pos hdrop,if_pos hdrop']
        · have hdrop' : ¬ (s.full = true ∧ (imageOf f m).forced = .unforced) := hdrop
          simp only [merged,Option.map_none,Option.map_some,if_neg hdrop,if_neg hdrop']
      | some e => simp [merged,imageOf,hf]
    · rw [mergeMetric_lookup_ne _ hid,mergeMetric_lookup_ne _ hid,h.lookup]
  unfold MetricTable.mergeMetric at hlookup ⊢
  rw [h.lookup,h.full] at hlookup ⊢
  cases hlook : s.metrics.lookup id with
  | none =>
    simp only [hlook,Option.map_none] at hlookup ⊢
    by_cases hdrop : s.full = true ∧ m.forced = .unforced
    · have hdrop' : s.full = true ∧ (imageOf f m).forced = .unforced := hdrop
      simp only [if_pos hdrop,if_pos hdrop'] at hlookup ⊢
      exact ⟨h.metricPeriodStart,h.failedHarvests,h.maxTableSize,h.count,
        congrArg (· + 1) h.numDropped,hlookup⟩
    · have hdrop' : ¬ (s.full = true ∧ (imageOf f m).forced = .unforced) := hdrop
      simp only [if_neg hdrop,if_neg hdrop'] at hlookup ⊢
      exact ⟨h.metricPeriodStart,h.failedHarvests,h.maxTableSize,congrArg (· + 1) h.count,
        h.numDropped,hlookup⟩
  | some e =>
    simp only [hlook,Option.map_some] at hlookup ⊢
    exact ⟨h.metricPeriodStart,h.failedHarvests,h.maxTableSize,h.count,h.numDropped,hlookup⟩

lemma mergeAll (hf : ∀ a b, f (Aggregate.aggregate a b) = Aggregate.aggregate (f a) (f b))
    (h : Image f s t) (calls : List (MetricID × Metric D)) :
    Image f (s.mergeAll calls) (t.mergeAll (calls.map fun call => (call.1,imageOf f call.2))) := by
  induction calls generalizing s t with
  | nil => exact h
  | cons call calls ih => exact ih (h.mergeMetric hf call.1 call.2)

omit [Aggregate D] [Aggregate E] in
lemma ranged (h : Image f s t) (rename : MetricID → MetricID) (order : List MetricID) :
    t.ranged rename order = (s.ranged rename order).map fun call => (call.1,imageOf f call.2) := by
  simp only [MetricTable.ranged,List.map_filterMap]
  apply List.filterMap_congr
  intro id _
  rw [h.lookup]
  cases s.metrics.lookup id with
  | none => rfl
  | some m => rfl

end Image
end Images

end MetricTable
end PhpAgent
