import PhpAgent.Daemon.MetricTables

/-! When forced metrics are never dropped. Any number of tables is filled, merged and renamed; beside
each table stand the forced observations that went into it. -/
namespace PhpAgent

/-- A table, with the forced observations it owes and the metrics they belong to. -/
structure ForcedSlot (O D : Type) where
  table : MetricTable D
  owed : List (MetricID × O)

inductive TableOp (O : Type)
  | newTable (maxTableSize : ℤ) (now : Time)
  | add (i : ℕ) (nameSlice : Option Bytes) (nameString scope : Bytes) (o : O) (force : MetricForce)
  | merge (i j : ℕ) (order : List MetricID)
  | mergeFailed (i j : ℕ) (order : List MetricID)
  | applyRules (i : ℕ) (rules : MetricRules) (order : List MetricID)

namespace ForcedSlot
variable {O D E : Type} [Aggregate D] [Aggregate E]

/-- The slot after an observation with the data `d`. -/
def add (slot : ForcedSlot O D) (nameSlice : Option Bytes) (nameString scope : Bytes) (o : O) (d : D)
    (force : MetricForce) : ForcedSlot O D where
  table := slot.table.add nameSlice nameString scope d force
  owed :=
    if force = .forced then slot.owed ++ [(⟨nameSlice.getD nameString,scope⟩,o)] else slot.owed

def merge (slot src : ForcedSlot O D) (order : List MetricID) : ForcedSlot O D :=
  ⟨slot.table.merge src.table order,slot.owed ++ src.owed⟩

/-- A failed merge beyond the limit of attempts owes nothing. -/
def mergeFailed (slot src : ForcedSlot O D) (order : List MetricID) : ForcedSlot O D where
  table := slot.table.mergeFailed src.table order
  owed :=
    if src.table.failedHarvests+1 ≤ Limits.failedMetricAttemptsLimit then slot.owed ++ src.owed
    else slot.owed

def applyRules (slot : ForcedSlot O D) (rules : MetricRules) (order : List MetricID) :
    ForcedSlot O D where
  table := slot.table.applyRules rules order
  owed :=
    if rules.isEmpty then slot.owed
    else slot.owed.map fun owed => (MetricTable.renamed rules owed.1,owed.2)

/-- One operation, where `data` is the data of an observation. -/
def step (data : O → D) (slots : List (ForcedSlot O D)) : TableOp O → Option (List (ForcedSlot O D))
  | .newTable maxTableSize now => some (slots ++ [⟨.new maxTableSize now,[]⟩])
  | .add i nameSlice nameString scope o force => do
    let slot ← slots[i]?
    return slots.set i (slot.add nameSlice nameString scope o (data o) force)
  | .merge i j order => do
    let slot ← slots[i]?
    let src ← slots[j]?
    if i ≠ j ∧ order.Perm src.table.metrics.keys then return slots.set i (slot.merge src order)
    else none
  | .mergeFailed i j order => do
    let slot ← slots[i]?
    let src ← slots[j]?
    if i ≠ j ∧ order.Perm src.table.metrics.keys then
      return slots.set i (slot.mergeFailed src order)
    else none
  | .applyRules i rules order => do
    let slot ← slots[i]?
    if order.Perm slot.table.metrics.keys then return slots.set i (slot.applyRules rules order)
    else none

/-- The table has no unforced metric under `id`. -/
def NoUnforced (mt : MetricTable D) (id : MetricID) : Prop :=
  ∀ m, mt.metrics.lookup id = some m → m.forced = .forced

/-- A forced metric is never merged into an unforced one: not when an observation is added, not when
tables are merged, and not when rules give several metrics one name. -/
def Unmixed (slots : List (ForcedSlot O D)) : TableOp O → Prop
  | .add i nameSlice nameString scope _ force => ∀ slot, slots[i]? = some slot → force = .forced →
      NoUnforced slot.table ⟨nameSlice.getD nameString,scope⟩
  | .merge i j _ => ∀ slot src, slots[i]? = some slot → slots[j]? = some src →
      ∀ id m, src.table.metrics.lookup id = some m → m.forced = .forced → NoUnforced slot.table id
  | .mergeFailed i j _ => ∀ slot src, slots[i]? = some slot → slots[j]? = some src →
      src.table.failedHarvests+1 ≤ Limits.failedMetricAttemptsLimit →
      ∀ id m, src.table.metrics.lookup id = some m → m.forced = .forced → NoUnforced slot.table id
  | .applyRules i rules order => ∀ slot, slots[i]? = some slot → rules ≠ [] →
      ∀ id m, slot.table.metrics.lookup id = some m → m.forced = .forced →
      ∀ first, order.find? (fun id' => MetricTable.renamed rules id' = MetricTable.renamed rules id) =
        some first → NoUnforced slot.table first
  | _ => True

/-- The runs whose operations all meet `ok`. -/
inductive Run (data : O → D) (ok : List (ForcedSlot O D) → TableOp O → Prop) :
    List (TableOp O) → List (ForcedSlot O D) → Prop
  | init : Run data ok [] []
  | step {ops : List (TableOp O)} {slots slots' : List (ForcedSlot O D)} (op : TableOp O) :
      Run data ok ops slots → ok slots op → step data slots op = some slots' →
      Run data ok (ops ++ [op]) slots'

/-! ### Forced observations stay -/

/-- The metric under `id` is forced, and the observation `o` went into it. -/
def Has (mt : MetricTable (Provenance O)) (id : MetricID) (o : O) : Prop :=
  ∃ m, mt.metrics.lookup id = some m ∧ m.forced = .forced ∧ o ∈ m.data.observations

def Kept (slot : ForcedSlot O (Provenance O)) : Prop := ∀ owed ∈ slot.owed, Has slot.table owed.1 owed.2

section Tables
variable {mt : MetricTable (Provenance O)} {id : MetricID} {o : O} {m : Metric (Provenance O)}

lemma Has.mergeMetric (h : Has mt id o) (id' : MetricID) (m : Metric (Provenance O)) :
    Has (mt.mergeMetric id' m) id o := by
  obtain ⟨e,hlook,hforced,ho⟩ := h
  by_cases hid : id = id'
  · subst hid
    refine ⟨_,(mt.mergeMetric_lookup_self id m).trans (congrArg (MetricTable.merged _ · m) hlook),
      hforced,?_⟩
    exact List.mem_append_left _ ho
  · exact ⟨e,(mt.mergeMetric_lookup_ne hid m).trans hlook,hforced,ho⟩

/-- A forced metric is not dropped, and not merged into an unforced one. -/
theorem has_mergeMetric (hm : m.forced = .forced) (hno : NoUnforced mt id)
    (ho : o ∈ m.data.observations) : Has (mt.mergeMetric id m) id o := by
  unfold Has
  rw [mt.mergeMetric_lookup_self id m]
  cases hlook : mt.metrics.lookup id with
  | none =>
    refine ⟨m,?_,hm,ho⟩
    simp [MetricTable.merged,hm]
  | some e =>
    refine ⟨_,rfl,hno e hlook,?_⟩
    exact List.mem_append_right _ ho

lemma Has.mergeAll (h : Has mt id o) (calls : List (MetricID × Metric (Provenance O))) :
    Has (mt.mergeAll calls) id o := by
  induction calls generalizing mt with
  | nil => exact h
  | cons call calls ih => exact ih (h.mergeMetric call.1 call.2)

/-- The metric under `id` is or becomes a forced one by the first of the calls for it. -/
def FirstForced (mt : MetricTable (Provenance O)) (calls : List (MetricID × Metric (Provenance O)))
    (id : MetricID) : Prop :=
  NoUnforced mt id ∧ (mt.metrics.lookup id = none →
    ∀ call, calls.find? (fun call => call.1 = id) = some call → call.2.forced = .forced)

lemma FirstForced.tail {call : MetricID × Metric (Provenance O)}
    {calls : List (MetricID × Metric (Provenance O))} (h : FirstForced mt (call :: calls) id) :
    FirstForced (mt.mergeMetric call.1 call.2) calls id := by
  obtain ⟨hno,hfirst⟩ := h
  by_cases hid : call.1 = id
  · have hself := mt.mergeMetric_lookup_self call.1 call.2
    rw [hid] at hself
    cases hlook : mt.metrics.lookup id with
    | none =>
      have hforced : call.2.forced = .forced := hfirst hlook call (by simp [hid])
      have hcall : (mt.mergeMetric call.1 call.2).metrics.lookup id = some call.2 := by
        rw [hid,hself,hlook]
        simp [MetricTable.merged,hforced]
      refine ⟨fun m hm => ?_,fun hnone => ?_⟩
      · rw [hcall,Option.some_inj] at hm
        rw [← hm]
        exact hforced
      · rw [hcall] at hnone
        cases hnone
    | some e =>
      have hcall : (mt.mergeMetric call.1 call.2).metrics.lookup id =
          some { e with data := Aggregate.aggregate e.data call.2.data } := by
        rw [hid,hself,hlook]
        rfl
      refine ⟨fun m hm => ?_,fun hnone => ?_⟩
      · rw [hcall,Option.some_inj] at hm
        rw [← hm]
        exact hno e hlook
      · rw [hcall] at hnone
        cases hnone
  · have hother := mt.mergeMetric_lookup_ne (Ne.symm hid) call.2
    refine ⟨fun m hm => hno m (hother ▸ hm),fun hnone call' hfind => ?_⟩
    refine hfirst (hother ▸ hnone) call' ?_
    rw [List.find?_cons_of_neg (by simpa using hid)]
    exact hfind

lemma has_mergeAll {calls : List (MetricID × Metric (Provenance O))} (hmem : (id,m) ∈ calls)
    (hm : m.forced = .forced) (hfirst : FirstForced mt calls id) (ho : o ∈ m.data.observations) :
    Has (mt.mergeAll calls) id o := by
  induction calls generalizing mt with
  | nil => cases hmem
  | cons call calls ih =>
    rcases List.mem_cons.mp hmem with rfl | hmem
    · exact (has_mergeMetric hm hfirst.1 ho).mergeAll calls
    · exact ih hmem hfirst.tail

end Tables

section Slots
variable {slot src : ForcedSlot O (Provenance O)} {order : List MetricID}
  {mt : MetricTable (Provenance O)} {key : MetricID}

lemma Kept.add (h : slot.Kept) (nameSlice : Option Bytes) (nameString scope : Bytes) (o : O)
    (force : MetricForce)
    (hok : force = .forced → NoUnforced slot.table ⟨nameSlice.getD nameString,scope⟩) :
    (slot.add nameSlice nameString scope o (.observation o) force).Kept := by
  have hold : ∀ owed ∈ slot.owed,
      Has (slot.add nameSlice nameString scope o (.observation o) force).table owed.1 owed.2 :=
    fun owed howed => (h owed howed).mergeMetric _ _
  intro owed howed
  simp only [ForcedSlot.add] at howed
  split at howed
  · rename_i hforce
    rcases List.mem_append.mp howed with howed | howed
    · exact hold owed howed
    · rw [List.mem_singleton.mp howed]
      exact has_mergeMetric hforce (hok hforce) (List.mem_singleton_self o)
  · exact hold owed howed

/-- What is owed by `src` is owed and kept by the table its metrics are merged into. -/
theorem Kept.mergeAll (hsrc : src.Kept)
    (hperm : order.Perm src.table.metrics.keys) (rename : MetricID → MetricID)
    (hok : ∀ id m, src.table.metrics.lookup id = some m → m.forced = .forced →
      FirstForced mt (src.table.ranged rename order) (rename id)) :
    ∀ owed ∈ src.owed, Has (mt.mergeAll (src.table.ranged rename order)) (rename owed.1) owed.2 := by
  intro owed howed
  obtain ⟨m,hlook,hforced,ho⟩ := hsrc owed howed
  have hkey : owed.1 ∈ order := by
    rw [hperm.mem_iff]
    exact AList.mem_keys.mp (AList.lookup_isSome.mp (by rw [hlook]; rfl))
  exact has_mergeAll (MetricTable.mem_ranged.mpr ⟨owed.1,hkey,m,hlook,rfl⟩) hforced
    (hok owed.1 m hlook hforced) ho

/-- Without renaming a metric is merged under its own name. -/
theorem find_ranged {call : MetricID × Metric (Provenance O)}
    (hfind : (mt.ranged id order).find? (fun call => call.1 = key) = some call) :
    mt.metrics.lookup key = some call.2 := by
  obtain ⟨key',-,m,hlook,rfl⟩ := MetricTable.mem_ranged.mp (List.mem_of_find?_eq_some hfind)
  have hkey : key' = key := by simpa using List.find?_some hfind
  rw [← hkey]
  exact hlook

/-- The first metric with a new name is the first of those that get it. -/
theorem find_ranged_first {rename : MetricID → MetricID} {call : MetricID × Metric (Provenance O)}
    (hall : ∀ id ∈ order, id ∈ mt.metrics)
    (hfind : (mt.ranged rename order).find? (fun call => call.1 = key) = some call) :
    ∃ first, order.find? (fun id => rename id = key) = some first ∧
      mt.metrics.lookup first = some call.2 := by
  induction order with
  | nil => cases hfind
  | cons id order ih =>
    obtain ⟨m,hlook⟩ := Option.isSome_iff_exists.mp (AList.lookup_isSome.mpr
      (hall id List.mem_cons_self))
    have hcons : mt.ranged rename (id :: order) = (rename id,m) :: mt.ranged rename order := by
      simp [MetricTable.ranged,hlook]
    rw [hcons] at hfind
    by_cases hkey : rename id = key
    · rw [List.find?_cons_of_pos (by simpa using hkey),Option.some_inj] at hfind
      refine ⟨id,List.find?_cons_of_pos (by simpa using hkey),?_⟩
      rw [hlook,← hfind]
    · rw [List.find?_cons_of_neg (by simpa using hkey)] at hfind
      rw [List.find?_cons_of_neg (by simpa using hkey)]
      exact ih (fun id hid => hall id (List.mem_cons_of_mem _ hid)) hfind

lemma firstForced_merge {m : Metric (Provenance O)} (hlook : src.table.metrics.lookup key = some m)
    (hm : m.forced = .forced) (hno : NoUnforced mt key) :
    FirstForced mt (src.table.ranged id order) key := by
  refine ⟨hno,fun _ call hfind => ?_⟩
  have hcall := find_ranged hfind
  rw [hlook,Option.some_inj] at hcall
  rw [← hcall]
  exact hm

lemma Kept.merge (h : slot.Kept) (hsrc : src.Kept) (hperm : order.Perm src.table.metrics.keys)
    (hok : ∀ id m, src.table.metrics.lookup id = some m → m.forced = .forced →
      NoUnforced slot.table id) : (slot.merge src order).Kept := by
  intro owed howed
  simp only [ForcedSlot.merge,MetricTable.merge_eq] at howed ⊢
  rcases List.mem_append.mp howed with howed | howed
  · exact (h owed howed).mergeAll _
  · exact hsrc.mergeAll hperm id (fun id m hlook hm => firstForced_merge hlook hm (hok id m hlook hm))
      owed howed

lemma Kept.mergeFailed (h : slot.Kept) (hsrc : src.Kept)
    (hperm : order.Perm src.table.metrics.keys)
    (hok : src.table.failedHarvests+1 ≤ Limits.failedMetricAttemptsLimit →
      ∀ id m, src.table.metrics.lookup id = some m → m.forced = .forced →
      NoUnforced slot.table id) : (slot.mergeFailed src order).Kept := by
  intro owed howed
  by_cases hlimit : src.table.failedHarvests+1 ≤ Limits.failedMetricAttemptsLimit
  · simp only [ForcedSlot.mergeFailed,if_pos hlimit,slot.table.mergeFailed_eq _ _ hlimit] at howed ⊢
    rcases List.mem_append.mp howed with howed | howed
    · have hrefailed : Has (slot.table.refailed src.table) owed.1 owed.2 := h owed howed
      exact hrefailed.mergeAll _
    · refine hsrc.mergeAll hperm id (fun id m hlook hm => firstForced_merge hlook hm ?_) owed howed
      exact hok hlimit id m hlook hm
  · have hsame : slot.table.mergeFailed src.table order = slot.table := by
      simp [MetricTable.mergeFailed,not_le.mp hlimit]
    simp only [ForcedSlot.mergeFailed,if_neg hlimit,hsame] at howed ⊢
    exact h owed howed

lemma Kept.applyRules (h : slot.Kept) {rules : MetricRules}
    (hperm : order.Perm slot.table.metrics.keys)
    (hok : rules ≠ [] → ∀ id m, slot.table.metrics.lookup id = some m → m.forced = .forced →
      ∀ first, order.find? (fun id' => MetricTable.renamed rules id' = MetricTable.renamed rules id) =
        some first → NoUnforced slot.table first) : (slot.applyRules rules order).Kept := by
  intro owed howed
  by_cases hrules : rules = []
  · subst hrules
    exact h owed howed
  · have hempty : rules.isEmpty = false := List.isEmpty_eq_false_iff.mpr hrules
    simp only [ForcedSlot.applyRules,hempty,Bool.false_eq_true,if_false,
      slot.table.applyRules_eq hrules] at howed ⊢
    obtain ⟨owed',howed',rfl⟩ := List.mem_map.mp howed
    refine h.mergeAll hperm _ (fun id m hlook hm => ⟨fun m' hm' => ?_,fun _ call hfind => ?_⟩) owed'
      howed'
    · cases hm'
    · have hall : ∀ id ∈ order, id ∈ slot.table.metrics :=
        fun id hid => AList.mem_keys.mpr (hperm.mem_iff.mp hid)
      obtain ⟨first,hfirst,hlook'⟩ := find_ranged_first hall hfind
      exact hok hrules id m hlook hm first hfirst call.2 hlook'

end Slots

lemma step_kept {slots slots' : List (ForcedSlot O (Provenance O))} {op : TableOp O}
    (h : ∀ slot ∈ slots, slot.Kept) (hok : Unmixed slots op)
    (heq : step .observation slots op = some slots') : ∀ slot ∈ slots', slot.Kept := by
  have hset : ∀ (i : ℕ) (slot : ForcedSlot O (Provenance O)), slot.Kept →
      ∀ slot' ∈ slots.set i slot, slot'.Kept := by
    intro i slot hslot slot' hmem
    rcases List.mem_or_eq_of_mem_set hmem with hmem | rfl
    · exact h slot' hmem
    · exact hslot
  have hget : ∀ {i : ℕ} {slot : ForcedSlot O (Provenance O)}, slots[i]? = some slot → slot.Kept :=
    fun hi => h _ (List.mem_of_getElem? hi)
  cases op with
  | newTable maxTableSize now =>
    cases heq
    intro slot hslot
    rcases List.mem_append.mp hslot with hslot | hslot
    · exact h slot hslot
    · rw [List.mem_singleton.mp hslot]
      intro owed howed
      cases howed
  | add i nameSlice nameString scope o force =>
    obtain ⟨slot,hi,heq⟩ := Option.bind_eq_some_iff.mp heq
    cases heq
    exact hset i _ ((hget hi).add nameSlice nameString scope o force (hok slot hi))
  | merge i j order =>
    obtain ⟨slot,hi,heq⟩ := Option.bind_eq_some_iff.mp heq
    obtain ⟨src,hj,heq⟩ := Option.bind_eq_some_iff.mp heq
    split at heq
    · rename_i hguard
      cases heq
      exact hset i _ ((hget hi).merge (hget hj) hguard.2 (hok slot src hi hj))
    · cases heq
  | mergeFailed i j order =>
    obtain ⟨slot,hi,heq⟩ := Option.bind_eq_some_iff.mp heq
    obtain ⟨src,hj,heq⟩ := Option.bind_eq_some_iff.mp heq
    split at heq
    · rename_i hguard
      cases heq
      exact hset i _ ((hget hi).mergeFailed (hget hj) hguard.2 (hok slot src hi hj))
    · cases heq
  | applyRules i rules order =>
    obtain ⟨slot,hi,heq⟩ := Option.bind_eq_some_iff.mp heq
    split at heq
    · rename_i hperm
      cases heq
      exact hset i _ ((hget hi).applyRules hperm (hok slot hi))
    · cases heq

lemma Run.kept {ops : List (TableOp O)} {slots : List (ForcedSlot O (Provenance O))}
    (h : Run .observation Unmixed ops slots) : ∀ slot ∈ slots, slot.Kept := by
  induction h with
  | init => exact fun slot hslot => absurd hslot List.not_mem_nil
  | step op _ hok heq ih => exact step_kept ih hok heq

/-! ### Data of observations -/

section Images
variable {f : D → E} {slot₀ src₀ : ForcedSlot O D} {slot src : ForcedSlot O E}
  {slots₀ : List (ForcedSlot O D)} {slots slots' : List (ForcedSlot O E)}

/-- The same slot, with the data of its metrics replaced. -/
def Image (f : D → E) (slot₀ : ForcedSlot O D) (slot : ForcedSlot O E) : Prop :=
  MetricTable.Image f slot₀.table slot.table ∧ slot.owed = slot₀.owed

omit [Aggregate D] [Aggregate E] in
lemma NoUnforced.of_image {s : MetricTable D} {t : MetricTable E} (h : MetricTable.Image f s t)
    {id : MetricID} : NoUnforced t id ↔ NoUnforced s id := by
  unfold NoUnforced
  rw [h.lookup]
  cases s.metrics.lookup id with
  | none => simp
  | some m => simp [MetricTable.imageOf]

section Operations
variable (hf : ∀ a b, f (Aggregate.aggregate a b) = Aggregate.aggregate (f a) (f b))
include hf

lemma Image.add (h : Image f slot₀ slot) (nameSlice : Option Bytes) (nameString scope : Bytes)
    (o : O) (d : D) (force : MetricForce) :
    Image f (slot₀.add nameSlice nameString scope o d force)
      (slot.add nameSlice nameString scope o (f d) force) := by
  refine ⟨h.1.mergeMetric hf ⟨nameSlice.getD nameString,scope⟩ ⟨force,d⟩,?_⟩
  rw [ForcedSlot.add,ForcedSlot.add,h.2]

lemma Image.merge (h : Image f slot₀ slot) (hsrc : Image f src₀ src) (order : List MetricID) :
    Image f (slot₀.merge src₀ order) (slot.merge src order) := by
  constructor
  · simp only [ForcedSlot.merge,MetricTable.merge_eq,hsrc.1.ranged]
    exact h.1.mergeAll hf _
  · rw [ForcedSlot.merge,ForcedSlot.merge,h.2,hsrc.2]

lemma Image.mergeFailed (h : Image f slot₀ slot) (hsrc : Image f src₀ src)
    (order : List MetricID) : Image f (slot₀.mergeFailed src₀ order) (slot.mergeFailed src order) := by
  have hfails := hsrc.1.failedHarvests
  by_cases hlimit : src₀.table.failedHarvests+1 ≤ Limits.failedMetricAttemptsLimit
  · have hlimit' := hlimit
    rw [← hfails] at hlimit'
    constructor
    · simp only [ForcedSlot.mergeFailed,MetricTable.mergeFailed_eq _ _ _ hlimit,
        MetricTable.mergeFailed_eq _ _ _ hlimit',hsrc.1.ranged]
      have hrefailed : MetricTable.Image f (slot₀.table.refailed src₀.table)
          (slot.table.refailed src.table) := by
        refine ⟨?_,?_,h.1.maxTableSize,h.1.count,h.1.numDropped,h.1.lookup⟩
        · simp only [MetricTable.refailed,h.1.metricPeriodStart,hsrc.1.metricPeriodStart]
        · simp only [MetricTable.refailed,hfails]
      exact hrefailed.mergeAll hf _
    · simp only [ForcedSlot.mergeFailed,if_pos hlimit,if_pos hlimit',h.2,hsrc.2]
  · have hlimit' := hlimit
    rw [← hfails] at hlimit'
    constructor
    · simp only [ForcedSlot.mergeFailed,MetricTable.mergeFailed,if_pos (not_le.mp hlimit),
        if_pos (not_le.mp hlimit')]
      exact h.1
    · simp only [ForcedSlot.mergeFailed,if_neg hlimit,if_neg hlimit',h.2]

lemma Image.applyRules (h : Image f slot₀ slot) (rules : MetricRules) (order : List MetricID) :
    Image f (slot₀.applyRules rules order) (slot.applyRules rules order) := by
  by_cases hrules : rules = []
  · subst hrules
    exact h
  · constructor
    · simp only [ForcedSlot.applyRules,MetricTable.applyRules_eq _ hrules,h.1.ranged,
        h.1.maxTableSize,h.1.metricPeriodStart]
      exact (MetricTable.Image.new _ _).mergeAll hf _
    · rw [ForcedSlot.applyRules,ForcedSlot.applyRules,h.2]

end Operations

/-- The slots one by one. -/
def Images (f : D → E) (slots₀ : List (ForcedSlot O D)) (slots : List (ForcedSlot O E)) : Prop :=
  List.Forall₂ (Image f) slots₀ slots

omit [Aggregate D] [Aggregate E] in
lemma Images.get (h : Images f slots₀ slots) {i : ℕ} (hi : slots[i]? = some slot) :
    ∃ slot₀, slots₀[i]? = some slot₀ ∧ Image f slot₀ slot := by
  induction h generalizing i with
  | nil => cases hi
  | cons hhead _ ih =>
    cases i with
    | zero =>
      rw [List.getElem?_cons_zero,Option.some_inj] at hi
      subst hi
      exact ⟨_,rfl,hhead⟩
    | succ i => exact ih hi

omit [Aggregate D] [Aggregate E] in
lemma Images.get_left (h : Images f slots₀ slots) {i : ℕ} (hi : slots₀[i]? = some slot₀) :
    ∃ slot, slots[i]? = some slot ∧ Image f slot₀ slot := by
  have hlt : i < slots.length := by
    rw [← h.length_eq]
    exact (List.getElem?_eq_some_iff.mp hi).1
  obtain ⟨slot',hi',himage⟩ := h.get (List.getElem?_eq_getElem hlt)
  rw [hi,Option.some_inj] at hi'
  subst hi'
  exact ⟨_,List.getElem?_eq_getElem hlt,himage⟩

omit [Aggregate D] [Aggregate E] in
lemma Images.set (h : Images f slots₀ slots) (i : ℕ) (hslot : Image f slot₀ slot) :
    Images f (slots₀.set i slot₀) (slots.set i slot) := by
  induction h generalizing i with
  | nil => exact .nil
  | cons hhead htail ih =>
    cases i with
    | zero => exact .cons hslot htail
    | succ i => exact .cons hhead (ih i)

omit [Aggregate D] [Aggregate E] in
lemma Images.append (h : Images f slots₀ slots) (hslot : Image f slot₀ slot) :
    Images f (slots₀ ++ [slot₀]) (slots ++ [slot]) := by
  induction h with
  | nil => exact .cons hslot .nil
  | cons hhead _ ih => exact .cons hhead ih

omit [Aggregate D] [Aggregate E] in
/-- A forced metric of the one table is a forced metric of the other. -/
theorem image_lookup {s : MetricTable D} {t : MetricTable E} (h : MetricTable.Image f s t)
    {id : MetricID} {m : Metric D} (hlook : s.metrics.lookup id = some m) (hm : m.forced = .forced) :
    ∃ m', t.metrics.lookup id = some m' ∧ m'.forced = .forced :=
  ⟨MetricTable.imageOf f m,by rw [h.lookup,hlook]; rfl,hm⟩

omit [Aggregate D] [Aggregate E] in
/-- Whether forced and unforced metrics get mixed does not depend on data. -/
theorem Unmixed.of_images (h : Images f slots₀ slots) {op : TableOp O} (hok : Unmixed slots op) :
    Unmixed slots₀ op := by
  cases op with
  | newTable maxTableSize now => trivial
  | add i nameSlice nameString scope o force =>
    intro slot₀ hi hforce
    obtain ⟨slot,hi',himage⟩ := h.get_left hi
    exact (NoUnforced.of_image himage.1).mp (hok slot hi' hforce)
  | merge i j order =>
    intro slot₀ src₀ hi hj id m hlook hm
    obtain ⟨slot,hi',himage⟩ := h.get_left hi
    obtain ⟨src,hj',hsrc⟩ := h.get_left hj
    obtain ⟨m',hlook',hm'⟩ := image_lookup hsrc.1 hlook hm
    exact (NoUnforced.of_image himage.1).mp (hok slot src hi' hj' id m' hlook' hm')
  | mergeFailed i j order =>
    intro slot₀ src₀ hi hj hlimit id m hlook hm
    obtain ⟨slot,hi',himage⟩ := h.get_left hi
    obtain ⟨src,hj',hsrc⟩ := h.get_left hj
    obtain ⟨m',hlook',hm'⟩ := image_lookup hsrc.1 hlook hm
    rw [← hsrc.1.failedHarvests] at hlimit
    exact (NoUnforced.of_image himage.1).mp (hok slot src hi' hj' hlimit id m' hlook' hm')
  | applyRules i rules order =>
    intro slot₀ hi hrules id m hlook hm first hfirst
    obtain ⟨slot,hi',himage⟩ := h.get_left hi
    obtain ⟨m',hlook',hm'⟩ := image_lookup himage.1 hlook hm
    exact (NoUnforced.of_image himage.1).mp (hok slot hi' hrules id m' hlook' hm' first hfirst)

/-- A step with data is a step of the observations. -/
theorem step_image (hf : ∀ a b, f (Aggregate.aggregate a b) = Aggregate.aggregate (f a) (f b))
    (data : O → D) (h : Images f slots₀ slots) {op : TableOp O}
    (heq : step (fun o => f (data o)) slots op = some slots') :
    ∃ slots₀', step data slots₀ op = some slots₀' ∧ Images f slots₀' slots' := by
  cases op with
  | newTable maxTableSize now =>
    cases heq
    exact ⟨_,rfl,h.append ⟨.new maxTableSize now,rfl⟩⟩
  | add i nameSlice nameString scope o force =>
    obtain ⟨slot,hi,heq⟩ := Option.bind_eq_some_iff.mp heq
    cases heq
    obtain ⟨slot₀,hi₀,himage⟩ := h.get hi
    refine ⟨slots₀.set i (slot₀.add nameSlice nameString scope o (data o) force),?_,?_⟩
    · simp [step,hi₀]
    · exact h.set i (himage.add hf nameSlice nameString scope o (data o) force)
  | merge i j order =>
    obtain ⟨slot,hi,heq⟩ := Option.bind_eq_some_iff.mp heq
    obtain ⟨src,hj,heq⟩ := Option.bind_eq_some_iff.mp heq
    obtain ⟨slot₀,hi₀,himage⟩ := h.get hi
    obtain ⟨src₀,hj₀,hsrc⟩ := h.get hj
    split at heq
    · rename_i hguard
      cases heq
      have hperm : order.Perm src₀.table.metrics.keys := hguard.2.trans hsrc.1.keys_perm
      exact ⟨_,by simp [step,hi₀,hj₀,hguard.1,hperm],h.set i (himage.merge hf hsrc order)⟩
    · cases heq
  | mergeFailed i j order =>
    obtain ⟨slot,hi,heq⟩ := Option.bind_eq_some_iff.mp heq
    obtain ⟨src,hj,heq⟩ := Option.bind_eq_some_iff.mp heq
    obtain ⟨slot₀,hi₀,himage⟩ := h.get hi
    obtain ⟨src₀,hj₀,hsrc⟩ := h.get hj
    split at heq
    · rename_i hguard
      cases heq
      have hperm : order.Perm src₀.table.metrics.keys := hguard.2.trans hsrc.1.keys_perm
      exact ⟨_,by simp [step,hi₀,hj₀,hguard.1,hperm],h.set i (himage.mergeFailed hf hsrc order)⟩
    · cases heq
  | applyRules i rules order =>
    obtain ⟨slot,hi,heq⟩ := Option.bind_eq_some_iff.mp heq
    obtain ⟨slot₀,hi₀,himage⟩ := h.get hi
    split at heq
    · rename_i hguard
      cases heq
      have hperm : order.Perm slot₀.table.metrics.keys := hguard.trans himage.1.keys_perm
      exact ⟨_,by simp [step,hi₀,hperm],h.set i (himage.applyRules hf rules order)⟩
    · cases heq

end Images

/-- Every run is one of observations, with the data of the tables worked out. -/
theorem Run.provenance {data : O → E} {ops : List (TableOp O)} {slots : List (ForcedSlot O E)}
    (h : Run data Unmixed ops slots) :
    ∃ slots₀, Run .observation Unmixed ops slots₀ ∧
      Images (Provenance.value data) slots₀ slots := by
  induction h with
  | init => exact ⟨[],.init,.nil⟩
  | @step ops slots slots' op _ hok heq ih =>
    obtain ⟨slots₀,hrun,himages⟩ := ih
    have hvalue : ForcedSlot.step (fun o => (Provenance.observation o).value data) slots op =
        some slots' := heq
    obtain ⟨slots₀',heq₀,himages'⟩ := step_image (fun _ _ => rfl) .observation himages hvalue
    exact ⟨slots₀',hrun.step op (Unmixed.of_images himages hok) heq₀,himages'⟩

/-- In a run that mixes no forced metric into an unforced one, every table holds every metric it owes
a forced observation of, and its data was aggregated from observations that include it. -/
theorem unmixed_run_forced_kept {data : O → E} {ops : List (TableOp O)}
    {slots : List (ForcedSlot O E)} (h : Run data Unmixed ops slots) :
    ∃ slots₀, Run .observation Unmixed ops slots₀ ∧ Images (Provenance.value data) slots₀ slots ∧
      ∀ (i : ℕ) (slot : ForcedSlot O E), slots[i]? = some slot →
        ∃ slot₀ : ForcedSlot O (Provenance O), slots₀[i]? = some slot₀ ∧
        ∀ owed ∈ slot.owed, ∃ m m₀, slot.table.metrics.lookup owed.1 = some m ∧
          slot₀.table.metrics.lookup owed.1 = some m₀ ∧ m.data = m₀.data.value data ∧
          owed.2 ∈ m₀.data.observations := by
  obtain ⟨slots₀,hrun,himages⟩ := h.provenance
  refine ⟨slots₀,hrun,himages,fun i slot hi => ?_⟩
  obtain ⟨slot₀,hi₀,himage⟩ := himages.get hi
  refine ⟨slot₀,hi₀,fun owed howed => ?_⟩
  rw [himage.2] at howed
  obtain ⟨m₀,hlook,-,ho⟩ := hrun.kept slot₀ (List.mem_of_getElem? hi₀) owed howed
  exact ⟨MetricTable.imageOf _ m₀,m₀,by rw [himage.1.lookup,hlook]; rfl,hlook,rfl,ho⟩

/-- A full table still takes a forced metric from another full table. -/
theorem unmixed_run_forced_kept_merged :
    ∃ slots : List (ForcedSlot ℕ (MetricData ℤ)), ∃ slot, slots[1]? = some slot ∧
      (⟨ascii "m",[]⟩,7) ∈ slot.owed ∧ ∃ m, slot.table.metrics.lookup ⟨ascii "m",[]⟩ = some m ∧
        m.data = MetricTable.countData 7 := by
  let data : ℕ → MetricData ℤ := fun o => MetricTable.countData o
  have hrun : ∃ slots, Run data Unmixed
      [.newTable 0 0,.newTable 0 0,.add 0 none (ascii "m") [] 7 .forced,.merge 1 0 [⟨ascii "m",[]⟩]]
        slots ∧ ∃ slot, slots[1]? = some slot ∧ slot.owed = [(⟨ascii "m",[]⟩,7)] ∧
          slot.table.metrics.lookup ⟨ascii "m",[]⟩ = some ⟨.forced,MetricTable.countData 7⟩ := by
    refine ⟨_,.step _ (.step _ (.step _ (.step _ .init trivial rfl) trivial rfl) ?_ rfl) ?_ rfl,
      _,rfl,rfl,rfl⟩
    · intro slot hi _ m hm
      cases hi
      cases hm
    · intro slot src hi _ id m _ _ m' hm'
      cases hi
      cases hm'
  obtain ⟨slots,hrun,slot,hi,howed,hlook⟩ := hrun
  have hmem : (⟨ascii "m",[]⟩,7) ∈ slot.owed := howed ▸ List.mem_singleton_self _
  obtain ⟨slots₀,-,-,hkept⟩ := unmixed_run_forced_kept hrun
  obtain ⟨slot₀,-,hkept⟩ := hkept 1 slot hi
  obtain ⟨m,-,hm,-⟩ := hkept _ hmem
  rw [hlook,Option.some_inj] at hm
  exact ⟨slots,slot,hi,hmem,m,by rw [hlook,hm],by rw [← hm]⟩

/-- The operations one after the other. -/
def exec (data : O → D) : List (TableOp O) → List (ForcedSlot O D) → Option (List (ForcedSlot O D))
  | [],slots => some slots
  | op :: ops,slots => (step data slots op).bind (exec data ops)

lemma Run.of_exec {data : O → D} {ops ops' : List (TableOp O)} {slots slots' : List (ForcedSlot O D)}
    (h : Run data (fun _ _ => True) ops slots) (heq : exec data ops' slots = some slots') :
    Run data (fun _ _ => True) (ops ++ ops') slots' := by
  induction ops' generalizing ops slots with
  | nil =>
    cases heq
    rwa [List.append_nil]
  | cons op ops' ih =>
    obtain ⟨next,hstep,heq⟩ := Option.bind_eq_some_iff.mp heq
    rw [List.append_cons]
    exact ih (h.step op trivial hstep) heq

/-- A forced observation of a metric that is already there unforced is dropped with the metric when
it is merged into a full table. -/
theorem mixed_metric_dropped :
    ¬ ∀ (ops : List (TableOp ℕ)) (slots : List (ForcedSlot ℕ (Provenance ℕ))),
      Run .observation (fun _ _ => True) ops slots → ∀ slot ∈ slots, ∀ owed ∈ slot.owed,
        ∃ m, slot.table.metrics.lookup owed.1 = some m ∧ owed.2 ∈ m.data.observations := by
  intro h
  have hexec : ∃ slots, exec Provenance.observation
      [.newTable 1 0,.newTable 0 0,.add 0 none (ascii "m") [] 0 .unforced,
        .add 0 none (ascii "m") [] 1 .forced,.merge 1 0 [⟨ascii "m",[]⟩]] [] = some slots ∧
      ∃ slot ∈ slots, (⟨ascii "m",[]⟩,1) ∈ slot.owed ∧
        slot.table.metrics.lookup ⟨ascii "m",[]⟩ = none :=
    ⟨_,rfl,_,List.mem_cons_of_mem _ List.mem_cons_self,List.mem_cons_self,rfl⟩
  obtain ⟨slots,hexec,slot,hslot,howed,hnone⟩ := hexec
  obtain ⟨m,hlook,-⟩ := h _ slots (Run.init.of_exec hexec) slot hslot _ howed
  rw [hnone] at hlook
  cases hlook

end ForcedSlot
end PhpAgent
