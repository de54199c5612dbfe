import PhpAgent.Daemon.MetricTables

/-! Metric tables with the two levels of maps that `metrics.go` keeps them in, and how they are tables
of pairs of a name and a scope. -/
namespace PhpAgent

abbrev Scopes (D : Type) : Type := AList fun _ : Bytes => Metric D

/-- `MetricTable`, with maps by name and by scope. -/
structure NestedTable (D : Type) where
  metricPeriodStart : Time
  failedHarvests : ℕ
  maxTableSize : ℤ
  count : ℕ
  numDropped : ℕ
  metrics : AList fun _ : Bytes => Scopes D

namespace NestedTable
variable {D : Type}

/-- `NewMetricTable`. -/
def new (maxTableSize : ℤ) (now : Time) : NestedTable D := ⟨now,0,maxTableSize,0,0,∅⟩

def full (mt : NestedTable D) : Bool := mt.maxTableSize ≤ mt.count

/-- The metric of a name and a scope. -/
def find (mt : NestedTable D) (id : MetricID) : Option (Metric D) :=
  (mt.metrics.lookup id.name).bind fun s => s.lookup id.scope

/-- The names and scopes that are stored. -/
def pairs (mt : NestedTable D) : List MetricID :=
  mt.metrics.entries.flatMap fun entry => entry.2.keys.map fun scope => ⟨entry.1,scope⟩

section Merging
variable [Aggregate D]

/-- `mergeMetric`. The name is looked up as the slice where there is one. -/
def mergeMetric (mt : NestedTable D) (nameSlice : Option Bytes) (nameString scope : Bytes)
    (m : Metric D) : NestedTable D :=
  let s := match nameSlice with
    | none => mt.metrics.lookup nameString
    | some slice => mt.metrics.lookup slice
  let name := nameSlice.getD nameString
  match s.bind fun s => s.lookup scope with
  | none =>
    if mt.full ∧ m.forced = .unforced then { mt with numDropped := mt.numDropped+1 }
    else
      { mt with
        metrics := mt.metrics.insert name ((s.getD ∅).insert scope m)
        count := mt.count+1 }
  | some dst =>
    { mt with
      metrics := mt.metrics.insert name
        ((s.getD ∅).insert scope { dst with data := Aggregate.aggregate dst.data m.data }) }

/-- `Merge`, with the order in which the maps of `src` are ranged over. -/
def merge (mt src : NestedTable D) (order : List MetricID) : NestedTable D :=
  order.foldl (fun mt id =>
    match src.find id with
    | some m => mt.mergeMetric none id.name id.scope m
    | none => mt) mt

def add (mt : NestedTable D) (nameSlice : Option Bytes) (nameString scope : Bytes) (data : D)
    (force : MetricForce) : NestedTable D :=
  mt.mergeMetric nameSlice nameString scope ⟨force,data⟩

/-- `ApplyRules`, with the order in which the maps are ranged over. -/
def applyRules (mt : NestedTable D) (rules : MetricRules) (order : List MetricID) : NestedTable D :=
  if rules.isEmpty then mt
  else
    order.foldl (fun applied id =>
      match mt.find id with
      | some m => applied.mergeMetric none (rules.apply id.name).2 id.scope m
      | none => applied) (new mt.maxTableSize mt.metricPeriodStart)

end Merging

/-- An order in which two nested loops range over the maps: the names one after the other, each with
its scopes. -/
structure Ranging (mt : NestedTable D) (order : List MetricID) : Prop where
  ranges : ∃ (names : List Bytes) (scopes : Bytes → List Bytes),
    names.Perm mt.metrics.keys ∧
    (∀ name s, mt.metrics.lookup name = some s → (scopes name).Perm s.keys) ∧
    order = names.flatMap fun name => (scopes name).map fun scope => ⟨name,scope⟩

/-! ### The pairs -/

lemma mem_pairs {mt : NestedTable D} {id : MetricID} : id ∈ mt.pairs ↔ (mt.find id).isSome := by
  have hscopes : ∀ s : Scopes D, (s.lookup id.scope).isSome = true ↔ id.scope ∈ s.keys := fun s => by
    rw [AList.lookup_isSome,AList.mem_keys]
  unfold pairs find
  rw [List.mem_flatMap]
  constructor
  · rintro ⟨⟨name,s⟩,hentry,hid⟩
    obtain ⟨scope,hscope,rfl⟩ := List.mem_map.mp hid
    have hname : mt.metrics.lookup name = some s := AList.mem_lookup_iff.mpr hentry
    rw [hname]
    exact (hscopes s).mpr hscope
  · intro hsome
    cases hname : mt.metrics.lookup id.name with
    | none => simp [hname] at hsome
    | some s =>
      rw [hname] at hsome
      exact ⟨⟨id.name,s⟩,AList.mem_lookup_iff.mp hname,
        List.mem_map.mpr ⟨id.scope,(hscopes s).mp hsome,rfl⟩⟩

lemma nodup_pairs (mt : NestedTable D) : mt.pairs.Nodup := by
  refine List.nodup_flatMap.mpr ⟨fun entry _ => ?_,?_⟩
  · exact entry.2.keys_nodup.map fun scope scope' heq => congrArg MetricID.scope heq
  · have hnames : (mt.metrics.entries.map Sigma.fst).Nodup := mt.metrics.keys_nodup
    refine (List.pairwise_map.mp hnames).imp fun {entry entry'} hne => ?_
    intro id hid hid'
    obtain ⟨scope,_,rfl⟩ := List.mem_map.mp hid
    obtain ⟨scope',_,heq⟩ := List.mem_map.mp hid'
    exact hne (congrArg MetricID.name heq).symm

/-! ### One level of maps -/

/-- Store a metric under a name and a scope. -/
def put (mt : NestedTable D) (id : MetricID) (m : Metric D) : AList fun _ : Bytes => Scopes D :=
  mt.metrics.insert id.name (((mt.metrics.lookup id.name).getD ∅).insert id.scope m)

lemma find_put (mt : NestedTable D) (id id' : MetricID) (m : Metric D) :
    ((mt.put id m).lookup id'.name).bind (fun s => s.lookup id'.scope) =
      if id' = id then some m else mt.find id' := by
  unfold put find
  by_cases hname : id'.name = id.name
  · rw [hname,AList.lookup_insert,Option.bind_some]
    by_cases hscope : id'.scope = id.scope
    · have hid : id' = id := by
        cases id; cases id'
        simp_all
      rw [if_pos hid,hscope,AList.lookup_insert]
    · have hid : id' ≠ id := fun heq => hscope (congrArg MetricID.scope heq)
      rw [if_neg hid,AList.lookup_insert_ne hscope]
      cases mt.metrics.lookup id.name with
      | none => rfl
      | some s => rfl
  · have hid : id' ≠ id := fun heq => hname (congrArg MetricID.name heq)
    rw [if_neg hid,AList.lookup_insert_ne hname]

/-- A byte slice and a string address the same metric. -/
theorem mergeMetric_eq [Aggregate D] (mt : NestedTable D) (nameSlice : Option Bytes)
    (nameString scope : Bytes) (m : Metric D) :
    let id : MetricID := ⟨nameSlice.getD nameString,scope⟩
    mt.mergeMetric nameSlice nameString scope m =
      match mt.find id with
      | none =>
        if mt.full ∧ m.forced = .unforced then { mt with numDropped := mt.numDropped+1 }
        else { mt with metrics := mt.put id m, count := mt.count+1 }
      | some dst =>
        { mt with metrics := mt.put id { dst with data := Aggregate.aggregate dst.data m.data } } := by
  cases nameSlice <;> rfl

/-- The table `t` holds the metrics of `mt` in one map. -/
structure Flattens (mt : NestedTable D) (t : MetricTable D) : Prop where
  metricPeriodStart : t.metricPeriodStart = mt.metricPeriodStart
  failedHarvests : t.failedHarvests = mt.failedHarvests
  maxTableSize : t.maxTableSize = mt.maxTableSize
  count : t.count = mt.count
  numDropped : t.numDropped = mt.numDropped
  lookup : ∀ id, t.metrics.lookup id = mt.find id

namespace Flattens
variable {mt src : NestedTable D} {t tsrc : MetricTable D}

lemma new (maxTableSize : ℤ) (now : Time) :
    Flattens (.new maxTableSize now : NestedTable D) (.new maxTableSize now) where
  metricPeriodStart := rfl
  failedHarvests := rfl
  maxTableSize := rfl
  count := rfl
  numDropped := rfl
  lookup _ := rfl

lemma full (h : Flattens mt t) : t.full = mt.full := by
  rw [MetricTable.full,NestedTable.full,h.maxTableSize,h.count]

variable [Aggregate D]

lemma mergeMetric (h : Flattens mt t) (nameSlice : Option Bytes) (nameString scope : Bytes)
    (m : Metric D) :
    Flattens (mt.mergeMetric nameSlice nameString scope m)
      (t.mergeMetric ⟨nameSlice.getD nameString,scope⟩ m) := by
  rw [mergeMetric_eq]
  have hput : ∀ (id : MetricID) (e : Metric D) (id' : MetricID),
      (t.metrics.insert id e).lookup id' =
        ((mt.put id e).lookup id'.name).bind fun s => s.lookup id'.scope := by
    intro id e id'
    rw [find_put]
    split_ifs with hid
    · rw [hid,AList.lookup_insert]
    · rw [AList.lookup_insert_ne hid,h.lookup]
  unfold MetricTable.mergeMetric
  rw [h.lookup,h.full]
  cases hfind : mt.find ⟨nameSlice.getD nameString,scope⟩ with
  | none =>
    dsimp only
    split_ifs
    · exact ⟨h.metricPeriodStart,h.failedHarvests,h.maxTableSize,h.count,
        congrArg (· + 1) h.numDropped,h.lookup⟩
    · exact ⟨h.metricPeriodStart,h.failedHarvests,h.maxTableSize,congrArg (· + 1) h.count,
        h.numDropped,hput _ _⟩
  | some dst =>
    exact ⟨h.metricPeriodStart,h.failedHarvests,h.maxTableSize,h.count,h.numDropped,hput _ _⟩

/-- A loop over the metrics of a table. -/
theorem foldl (h : Flattens mt t) (src : NestedTable D) (rename : MetricID → MetricID)
    (order : List MetricID) :
    Flattens
      (order.foldl (fun mt id =>
        match src.find id with
        | some m => mt.mergeMetric none (rename id).name (rename id).scope m
        | none => mt) mt)
      (order.foldl (fun t id =>
        match src.find id with
        | some m => t.mergeMetric (rename id) m
        | none => t) t) := by
  induction order generalizing mt t with
  | nil => exact h
  | cons id order ih =>
    refine ih ?_
    dsimp only
    cases src.find id with
    | none => exact h
    | some m => exact h.mergeMetric none (rename id).name (rename id).scope m

lemma merge (h : Flattens mt t) (hsrc : Flattens src tsrc) (order : List MetricID) :
    Flattens (mt.merge src order) (t.merge tsrc order) := by
  unfold MetricTable.merge
  simp only [hsrc.lookup]
  exact h.foldl src id order

lemma applyRules (h : Flattens mt t) (rules : MetricRules) (order : List MetricID) :
    Flattens (mt.applyRules rules order) (t.applyRules rules order) := by
  unfold MetricTable.applyRules NestedTable.applyRules
  split_ifs
  · exact h
  · simp only [h.lookup,h.maxTableSize,h.metricPeriodStart]
    exact (new mt.maxTableSize mt.metricPeriodStart).foldl mt (MetricTable.renamed rules) order

end Flattens
end NestedTable
end PhpAgent
