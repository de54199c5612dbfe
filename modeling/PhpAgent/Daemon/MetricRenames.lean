import PhpAgent.Daemon.MetricRuns

/-! When rules that rename the metrics of a table lose none of them. -/
namespace PhpAgent
namespace NestedTable

/-- The rules give different names of the table different names. -/
def Injective (rules : MetricRules) (mt : NestedTable (MetricData ℚ)) : Prop :=
  ∀ id ∈ mt.pairs, ∀ id' ∈ mt.pairs,
    (rules.apply id.name).2 = (rules.apply id'.name).2 → id.name = id'.name

/-! ### Observations of different metrics -/

section Distinct
variable {start : NestedTable (MetricData ℚ)} {obs before after : List ObservedMetric}
  {o : ObservedMetric} {id : MetricID}

variable (hnodup : (obs.map Prod.fst).Nodup) (hstart : ∀ id, start.find id = none)
include hnodup hstart

end Distinct

section Orders
variable {mt : NestedTable (MetricData ℚ)} {order : List MetricID}

lemma Ranging.perm (h : mt.Ranging order) : order.Perm mt.pairs := by
  obtain ⟨names,scopes,hnames,hscopes,rfl⟩ := h.ranges
  have hlookup : ∀ name ∈ names, ∃ s, mt.metrics.lookup name = some s := fun name hname =>
    Option.isSome_iff_exists.mp (AList.lookup_isSome.mpr
      (AList.mem_keys.mpr (hnames.mem_iff.mp hname)))
  have hnodup : (names.flatMap fun name =>
      (scopes name).map fun scope => (⟨name,scope⟩ : MetricID)).Nodup := by
    refine List.nodup_flatMap.mpr ⟨fun name hname => ?_,?_⟩
    · obtain ⟨s,hs⟩ := hlookup name hname
      exact ((hscopes name s hs).nodup_iff.mpr s.keys_nodup).map
        fun scope scope' heq => congrArg MetricID.scope heq
    · have hne : names.Pairwise (· ≠ ·) := hnames.nodup_iff.mpr mt.metrics.keys_nodup
      refine hne.imp fun {name name'} hne id hid hid' => ?_
      obtain ⟨scope,_,rfl⟩ := List.mem_map.mp hid
      obtain ⟨scope',_,heq⟩ := List.mem_map.mp hid'
      exact hne (congrArg MetricID.name heq).symm
  refine (List.perm_ext_iff_of_nodup hnodup mt.nodup_pairs).mpr fun id => ?_
  rw [List.mem_flatMap,mem_pairs]
  constructor
  · rintro ⟨name,hname,hid⟩
    obtain ⟨scope,hscope,rfl⟩ := List.mem_map.mp hid
    obtain ⟨s,hs⟩ := hlookup name hname
    rw [find,hs,Option.bind_some,AList.lookup_isSome,AList.mem_keys]
    exact (hscopes name s hs).mem_iff.mp hscope
  · intro hsome
    cases hs : mt.metrics.lookup id.name with
    | none => simp [find,hs] at hsome
    | some s =>
      rw [find,hs,Option.bind_some,AList.lookup_isSome,AList.mem_keys] at hsome
      have hname : id.name ∈ mt.metrics.keys :=
        AList.mem_keys.mp (AList.lookup_isSome.mp (by rw [hs]; rfl))
      exact ⟨id.name,hnames.mem_iff.mpr hname,List.mem_map.mpr
        ⟨id.scope,(hscopes id.name s hs).mem_iff.mpr hsome,rfl⟩⟩

end Orders

/-! ### Rules -/

section Rules
variable {rules : MetricRules} {mt : NestedTable (MetricData ℚ)} {order : List MetricID}

/-- The metrics that are merged into the new table. -/
def renamedObservations (rules : MetricRules) (mt : NestedTable (MetricData ℚ))
    (order : List MetricID) : List ObservedMetric :=
  order.filterMap fun id => (mt.find id).map fun m => (MetricTable.renamed rules id,m)

lemma applyRules_eq (hrules : rules ≠ []) (mt : NestedTable (MetricData ℚ))
    (order : List MetricID) : mt.applyRules rules order =
      (new mt.maxTableSize mt.metricPeriodStart).observeAll (renamedObservations rules mt order) := by
  unfold applyRules renamedObservations
  rw [if_neg (by simpa using hrules)]
  generalize new mt.maxTableSize mt.metricPeriodStart = applied
  induction order generalizing applied with
  | nil => rfl
  | cons id order ih =>
    rw [List.foldl_cons,ih,List.filterMap_cons]
    cases mt.find id with
    | none => rfl
    | some m => rfl

end Rules

/-- A rule that matches no name. -/
def matchesNothing : MetricRule where
  ignore := false
  eachSegment := false
  replaceAll := false
  terminate := false
  order := 0
  originalReplacement := []
  rawExpr := ascii "^$a"
  transformedReplacement := []
  re := ⟨fun _ _ => none,[],fun _ => false⟩

/-- A metric, and a forced one that is beyond the limit. -/
def overfull : List MetricOp :=
  [.addCount (ascii "Custom/a") [] 1 .unforced,.addCount (ascii "Supportability/b") [] 1 .forced]

/-- The metric is lost where it comes after the forced one. -/
theorem applyRules_drops_overfull :
    let mt := (new 1 0).run overfull
    let order : List MetricID := [⟨ascii "Supportability/b",[]⟩,⟨ascii "Custom/a",[]⟩]
    mt.Ranging order ∧ Injective [matchesNothing] mt ∧
      (mt.find ⟨ascii "Custom/a",[]⟩).isSome = true ∧
      (mt.applyRules [matchesNothing] order).find ⟨ascii "Custom/a",[]⟩ = none := by
  refine ⟨⟨[ascii "Supportability/b",ascii "Custom/a"],fun _ => [[]],?_,?_,rfl⟩,
    fun _ _ _ _ heq => heq,by decide,by decide⟩
  · exact List.Perm.refl _
  · intro name s hs
    have hentry : (⟨name,s⟩ : Sigma fun _ : Bytes => Scopes (MetricData ℚ)) ∈
        ((new 1 0).run overfull).metrics.entries := AList.mem_lookup_iff.mp hs
    have hkeys : ∀ entry ∈ ((new 1 0).run overfull).metrics.entries, entry.2.keys = [[]] := by
      decide
    rw [hkeys _ hentry]

end NestedTable
end PhpAgent
