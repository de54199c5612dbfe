import PhpAgent.Lib.IndexedTree
import PhpAgent.Util.Object

/-! The agent's metric tables, after `util_metrics.c`. A metric keeps its name where the source keeps
an index of the table's string pool. The hash function is a parameter. -/
namespace PhpAgent

open IndexedTree (Tree Ordered)

/-- `nrmetric_t` without its hash and links. The flags are `MET_IS_APDEX` and `MET_FORCED`. -/
structure NrMetric where
  name : Bytes
  isApdex : Bool
  forced : Bool
  count : UInt64
  total : UInt64
  exclusive : UInt64
  min : UInt64
  max : UInt64
  sumSquares : UInt64
deriving DecidableEq

/-- `nrmtable_t`. Children come after their parents, and every metric is on the path of its hash. -/
structure NrmTable where
  maxSize : ℤ
  allocated : ℤ
  metrics : Tree UInt32 NrMetric
  maxSize_nonneg : 0 ≤ maxSize
  fits : metrics.length ≤ allocated
  ordered : Ordered metrics
  complete : IndexedTree.Complete metrics

namespace NrmTable

def defaultMaxSize : ℤ := 2048

/-- `nrm_table_create`. -/
def tableCreate (maxSize : ℤ) : NrmTable where
  maxSize := if maxSize ≤ 0 then defaultMaxSize else maxSize
  allocated := if maxSize ≤ 0 then defaultMaxSize else maxSize
  metrics := []
  maxSize_nonneg := by
    split_ifs
    · decide
    · omega
  fits := by
    split_ifs
    · decide
    · simp
      omega
  ordered := IndexedTree.ordered_nil
  complete := IndexedTree.complete_nil

def number (t : NrmTable) : ℕ := t.metrics.length

/-- `nrm_find_internal`: the position of the metric. -/
def findInternal (t : NrmTable) (name : Bytes) (hash : UInt32) : Option ℕ :=
  IndexedTree.find t.metrics hash (fun metric => metric.name = name) t.number 0

/-- A new metric before anything is added to it; the minimum starts at `NR_TIME_MAX`. -/
def newMetric (name : Bytes) : NrMetric where
  name := name
  isApdex := false
  forced := false
  count := 0
  total := 0
  exclusive := 0
  min := 0xffffffffffffffff
  max := 0
  sumSquares := 0

/-- `nrm_create`: the new metric is the last one. -/
def create (t : NrmTable) (name : Bytes) (hash : UInt32) : NrmTable where
  maxSize := t.maxSize
  allocated := if t.allocated ≤ t.number then t.allocated+defaultMaxSize else t.allocated
  metrics :=
    IndexedTree.append t.metrics hash (newMetric name) (IndexedTree.last t.metrics hash t.number 0)
  maxSize_nonneg := t.maxSize_nonneg
  fits := by
    have := t.fits
    unfold number defaultMaxSize
    rw [IndexedTree.length_append]
    split_ifs <;> omega
  ordered := t.ordered.append hash (newMetric name) _
  complete := t.complete.append t.ordered hash (newMetric name)

def isFull (t : NrmTable) : Bool := t.maxSize ≤ t.number

def update (t : NrmTable) (i : ℕ) (f : NrMetric → NrMetric) : NrmTable where
  maxSize := t.maxSize
  allocated := t.allocated
  metrics := IndexedTree.update t.metrics i f
  maxSize_nonneg := t.maxSize_nonneg
  fits := by simpa using t.fits
  ordered := t.ordered.update i f
  complete := t.complete.update i f

/-- A link of the metric at position `i` is empty or leads to a later metric. -/
def validLink (t : NrmTable) (i : ℕ) : Option ℕ → Bool
  | none => true
  | some j => j < t.number ∧ i < j

/-- `nrm_table_validate`. -/
def tableValidate (t : NrmTable) : Bool :=
  0 ≤ t.allocated ∧ 0 ≤ t.maxSize ∧ t.number ≤ t.allocated ∧
    t.metrics.zipIdx.all fun (metric,i) => t.validLink i metric.left ∧ t.validLink i metric.right

def markForced (t : NrmTable) (i : ℕ) : NrmTable := t.update i fun m => { m with forced := true }

section Hash
variable (hash : Bytes → UInt32)

/-- `nrm_find`. -/
def find (t : NrmTable) (name : Bytes) : Option ℕ := t.findInternal name (hash name)

/-- `nrm_find_or_create`. There is no metric when the table is full and `force` is not set. -/
def findOrCreate (force : Bool) (t : NrmTable) (name : Bytes) : Option (NrmTable × ℕ) :=
  match t.find hash name with
  | some i => some (if force then t.markForced i else t,i)
  | none =>
    if t.isFull ∧ ¬force then none
    else
      let t' := t.create name (hash name)
      some (if force then t'.markForced t.number else t',t.number)

/-- The sums, the minimum and the maximum of `nrm_add_internal`. -/
def accumulate (count total exclusive min max sumSquares : UInt64) (m : NrMetric) : NrMetric :=
  { m with
    count := m.count+count
    total := m.total+total
    exclusive := m.exclusive+exclusive
    min := if min < m.min then min else m.min
    max := if m.max < max then max else m.max
    sumSquares := m.sumSquares+sumSquares }

def metricsDropped : Bytes := ascii "Supportability/MetricsDropped"

/-- `nrm_add_internal` on a metric that is found or forced. -/
def addTo (force : Bool) (t : NrmTable) (name : Bytes)
    (count total exclusive min max sumSquares : UInt64) : Option NrmTable :=
  (t.findOrCreate hash force name).map fun (t,i) =>
    t.update i (accumulate count total exclusive min max sumSquares)

/-- `nrm_add_internal`. A metric that has no room counts as dropped, which is forced. -/
def addInternal (force : Bool) (t : NrmTable) (name : Bytes)
    (count total exclusive min max sumSquares : UInt64) : NrmTable :=
  match t.addTo hash force name count total exclusive min max sumSquares with
  | some t => t
  | none => (t.addTo hash true metricsDropped 1 0 0 0 0 0).getD t

def addEx (t : NrmTable) (name : Bytes) (duration exclusive : UInt64) : NrmTable :=
  t.addInternal hash false name 1 duration exclusive duration duration (duration*duration)

def forceAddEx (t : NrmTable) (name : Bytes) (duration exclusive : UInt64) : NrmTable :=
  t.addInternal hash true name 1 duration exclusive duration duration (duration*duration)

def add (t : NrmTable) (name : Bytes) (duration : UInt64) : NrmTable :=
  t.addInternal hash false name 1 duration duration duration duration (duration*duration)

def forceAdd (t : NrmTable) (name : Bytes) (duration : UInt64) : NrmTable :=
  t.addInternal hash true name 1 duration duration duration duration (duration*duration)

/-- `nrm_duplicate_metric`. -/
def duplicateMetric (t : NrmTable) (currentName newName : Bytes) : NrmTable :=
  match (t.find hash currentName).bind fun i => t.metrics[i]? with
  | none => t
  | some ⟨_,m,_,_⟩ =>
    t.addInternal hash m.forced newName m.count m.total m.exclusive m.min m.max m.sumSquares

/-! ### Finding what was added -/

variable {hash} {t t' : NrmTable} {name other : Bytes}

/-- The metric can be found. -/
def Has (hash : Bytes → UInt32) (t : NrmTable) (name : Bytes) : Prop := (t.find hash name).isSome

lemma Has.kept (h : t.Has hash name) (hle : t.number ≤ t'.number)
    (hkept : IndexedTree.Kept (hash name) (fun metric => metric.name = name) t.metrics t'.metrics) :
    t'.Has hash name := by
  obtain ⟨i,hi⟩ := Option.isSome_iff_exists.mp h
  exact Option.isSome_iff_exists.mpr ⟨i,hkept.find hle hi⟩

lemma Has.update (h : t.Has hash name) (i : ℕ) {f : NrMetric → NrMetric}
    (hf : ∀ m, (f m).name = m.name) : (t.update i f).Has hash name := by
  apply h.kept (by simp [number,NrmTable.update])
  apply IndexedTree.kept_update
  intro m
  rw [hf m]

lemma Has.create (h : t.Has hash name) (other : Bytes) (k : UInt32) :
    (t.create other k).Has hash name := by
  apply h.kept (by simp [number,NrmTable.create])
  exact IndexedTree.kept_append t.ordered (newMetric other)

lemma has_create (hash : Bytes → UInt32) (t : NrmTable) (name : Bytes) : (t.create name (hash name)).Has hash name := by
  have h := IndexedTree.find_append (k := hash name) (p := fun metric => metric.name = name)
    t.ordered (d := newMetric name) (by simp [newMetric])
  unfold Has find findInternal number
  simpa [NrmTable.create,number] using h

lemma Has.markForced (h : t.Has hash name) (i : ℕ) : (t.markForced i).Has hash name :=
  h.update i fun _ => rfl

/-- A metric that is found or created can be found, and what could be found before still can. -/
theorem has_findOrCreate {force : Bool} {i : ℕ}
    (h : t.findOrCreate hash force name = some (t',i)) :
    t'.Has hash name ∧ ∀ other, t.Has hash other → t'.Has hash other := by
  unfold findOrCreate at h
  cases hfind : t.find hash name with
  | some j =>
    have hhas : t.Has hash name := Option.isSome_iff_exists.mpr ⟨j,hfind⟩
    simp only [hfind,Option.some_inj,Prod.mk.injEq] at h
    obtain ⟨rfl,rfl⟩ := h
    cases force
    · exact ⟨hhas,fun _ hother => hother⟩
    · exact ⟨hhas.markForced j,fun _ hother => hother.markForced j⟩
  | none =>
    simp only [hfind] at h
    have hhas := has_create hash t name
    split_ifs at h with hfull hforce
    · simp only [Option.some_inj,Prod.mk.injEq] at h
      obtain ⟨rfl,rfl⟩ := h
      exact ⟨hhas.markForced _,fun _ hother => (hother.create ..).markForced _⟩
    · simp only [Option.some_inj,Prod.mk.injEq] at h
      obtain ⟨rfl,rfl⟩ := h
      exact ⟨hhas,fun _ hother => hother.create ..⟩

lemma findOrCreate_true (hash : Bytes → UInt32) (t : NrmTable) (name : Bytes) :
    ∃ t' i, t.findOrCreate hash true name = some (t',i) := by
  unfold findOrCreate
  cases t.find hash name <;> simp

lemma has_addTo {force : Bool} {count total exclusive min max sumSquares : UInt64}
    (h : t.addTo hash force name count total exclusive min max sumSquares = some t') :
    t'.Has hash name ∧ ∀ other, t.Has hash other → t'.Has hash other := by
  obtain ⟨⟨t₁,i⟩,h₁,rfl⟩ := Option.map_eq_some_iff.mp h
  have hfound := has_findOrCreate h₁
  exact ⟨hfound.1.update i fun _ => rfl,fun other ho => (hfound.2 other ho).update i fun _ => rfl⟩

lemma addTo_true (hash : Bytes → UInt32) (t : NrmTable) (name : Bytes)
    (count total exclusive min max sumSquares : UInt64) :
    ∃ t', t.addTo hash true name count total exclusive min max sumSquares = some t' := by
  obtain ⟨t',i,h⟩ := findOrCreate_true hash t name
  exact ⟨_,Option.map_eq_some_iff.mpr ⟨_,h,rfl⟩⟩

/-- Nothing that was added is ever lost. -/
theorem Has.addInternal (h : t.Has hash other) (force : Bool) (name : Bytes)
    (count total exclusive min max sumSquares : UInt64) :
    (t.addInternal hash force name count total exclusive min max sumSquares).Has hash other := by
  unfold NrmTable.addInternal
  split
  · next t' ht' => exact (has_addTo ht').2 other h
  · obtain ⟨t',ht'⟩ := addTo_true hash t metricsDropped 1 0 0 0 0 0
    rw [ht']
    exact (has_addTo ht').2 other h

/-- A forced metric is added whatever the size of the table. -/
theorem has_forceAdd (t : NrmTable) (name : Bytes) (duration : UInt64) :
    (t.forceAdd hash name duration).Has hash name := by
  obtain ⟨t',ht'⟩ := addTo_true hash t name 1 duration duration duration duration
    (duration*duration)
  rw [forceAdd,NrmTable.addInternal,ht']
  exact (has_addTo ht').1

lemma Has.forceAdd (h : t.Has hash other) (name : Bytes) (duration : UInt64) :
    (t.forceAdd hash name duration).Has hash other :=
  h.addInternal ..

end Hash
end NrmTable
end PhpAgent
