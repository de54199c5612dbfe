import PhpAgent.Util.Metrics

/-! What a metric table holds after any sequence of calls. A ledger keeps the observations that were
accepted and counts those that were not. -/
namespace PhpAgent

/-- The values that one call adds to a metric. -/
structure Observation where
  name : Bytes
  forced : Bool
  count : UInt64
  total : UInt64
  exclusive : UInt64
  min : UInt64
  max : UInt64
  sumSquares : UInt64

namespace NrmTable

/-- The metrics of the table by position. -/
def data (t : NrmTable) : List NrMetric := t.metrics.map IndexedTree.Node.data

/-- The metric of a name, without a search through the tree. -/
def metric? (t : NrmTable) (name : Bytes) : Option NrMetric :=
  t.data.find? fun m => m.name = name

/-- `nrm_count`, which is 0 for NULL. -/
def nrmCount (m : Option NrMetric) : UInt64 := (m.map NrMetric.count).getD 0

/-- `nrm_find_internal` with the number of rounds of its loop bounded by `fuel`. -/
def findRounds (hash : Bytes → UInt32) (t : NrmTable) (name : Bytes) (fuel : ℕ) :
    Option (Option ℕ) :=
  if t.number = 0 then some none
  else
    (IndexedTree.locate t.metrics (hash name) (fun metric => metric.name = name) fuel 0).map
      fun (found,i) => if found then some i else none

/-- `nrm_add_internal` with the values of an observation. -/
def record (hash : Bytes → UInt32) (t : NrmTable) (o : Observation) : NrmTable :=
  t.addInternal hash o.forced o.name o.count o.total o.exclusive o.min o.max o.sumSquares

end NrmTable

def NrMetric.observe (m : NrMetric) (o : Observation) : NrMetric :=
  NrmTable.accumulate o.count o.total o.exclusive o.min o.max o.sumSquares
    { m with forced := m.forced || o.forced }

@[simp] lemma NrMetric.observe_name (m : NrMetric) (o : Observation) :
    (m.observe o).name = m.name := rfl

namespace Observation

/-- Unforced, of a name that the table does not have while it is full. -/
def Rejected (t : NrmTable) (o : Observation) : Prop :=
  o.forced = false ∧ t.metric? o.name = none ∧ t.isFull

instance (t : NrmTable) (o : Observation) : Decidable (o.Rejected t) :=
  inferInstanceAs (Decidable (_ ∧ _ ∧ _))

/-- What is added when an observation is rejected. -/
def drop : Observation := ⟨NrmTable.metricsDropped,true,1,0,0,0,0,0⟩

end Observation

/-- A name other than that of the metric for dropped metrics. -/
def MetricName : Type := { name : Bytes // name ≠ NrmTable.metricsDropped }

/-- The calls that add to a table. -/
inductive NrmCall
  | add (name : MetricName) (duration : UInt64)
  | addEx (name : MetricName) (duration exclusive : UInt64)
  | forceAdd (name : MetricName) (duration : UInt64)
  | forceAddEx (name : MetricName) (duration exclusive : UInt64)
  | duplicateMetric (currentName newName : MetricName)

namespace NrmCall

def exec (hash : Bytes → UInt32) (t : NrmTable) : NrmCall → NrmTable
  | add name duration => t.add hash name.1 duration
  | addEx name duration exclusive => t.addEx hash name.1 duration exclusive
  | forceAdd name duration => t.forceAdd hash name.1 duration
  | forceAddEx name duration exclusive => t.forceAddEx hash name.1 duration exclusive
  | duplicateMetric currentName newName => t.duplicateMetric hash currentName.1 newName.1

/-- What a call observes. A duplicate observes the values of the metric it copies. -/
def observation (t : NrmTable) : NrmCall → Option Observation
  | add name duration =>
    some ⟨name.1,false,1,duration,duration,duration,duration,duration*duration⟩
  | addEx name duration exclusive =>
    some ⟨name.1,false,1,duration,exclusive,duration,duration,duration*duration⟩
  | forceAdd name duration =>
    some ⟨name.1,true,1,duration,duration,duration,duration,duration*duration⟩
  | forceAddEx name duration exclusive =>
    some ⟨name.1,true,1,duration,exclusive,duration,duration,duration*duration⟩
  | duplicateMetric currentName newName =>
    (t.metric? currentName.1).map fun m =>
      ⟨newName.1,m.forced,m.count,m.total,m.exclusive,m.min,m.max,m.sumSquares⟩

end NrmCall

/-- The observations that a table accepted, and how many it did not. -/
structure NrmLedger where
  accepted : List Observation
  dropped : ℕ

namespace NrmLedger

def note (t : NrmTable) (ledger : NrmLedger) (o : Observation) : NrmLedger :=
  if o.Rejected t then { ledger with dropped := ledger.dropped+1 }
  else { ledger with accepted := ledger.accepted ++ [o] }

/-- One call, with its entry in the ledger. -/
def step (hash : Bytes → UInt32) (w : NrmTable × NrmLedger) (call : NrmCall) :
    NrmTable × NrmLedger :=
  (call.exec hash w.1,(call.observation w.1).elim w.2 (w.2.note w.1))

/-- A sequence of calls on a new table. -/
def run (hash : Bytes → UInt32) (maxSize : ℤ) (calls : List NrmCall) : NrmTable × NrmLedger :=
  calls.foldl (step hash) (NrmTable.tableCreate maxSize,⟨[],0⟩)

/-- Everything that was added under a name. -/
def of (ledger : NrmLedger) (name : Bytes) : List Observation :=
  (ledger.accepted ++ List.replicate ledger.dropped Observation.drop).filter fun o => o.name = name

end NrmLedger

/-! ### What one call changes -/

/-- Change the only metric of a name. -/
theorem find?_modify {l : List NrMetric} (hnodup : (l.map NrMetric.name).Nodup) {i : ℕ}
    {m : NrMetric} (hm : l[i]? = some m) (f : NrMetric → NrMetric) (hf : (f m).name = m.name)
    (other : Bytes) : (l.modify i f).find? (fun m => m.name = other) =
      if m.name = other then some (f m) else l.find? fun m => m.name = other := by
  induction l generalizing i with
  | nil => simp at hm
  | cons a l ih =>
    obtain ⟨hnotMem,hnodup⟩ := List.nodup_cons.mp hnodup
    cases i with
    | zero =>
      simp only [List.getElem?_cons_zero,Option.some_inj] at hm
      subst hm
      simp only [List.modify_zero_cons,List.find?_cons,hf]
      split_ifs with hname <;> simp [hname]
    | succ i =>
      simp only [List.getElem?_cons_succ] at hm
      have hne : a.name ≠ m.name := by
        rintro heq
        exact hnotMem (heq ▸ List.mem_map_of_mem (List.mem_of_getElem? hm))
      simp only [List.modify_succ_cons,List.find?_cons,ih hnodup hm]
      by_cases hname : a.name = other
      · have hother : m.name ≠ other := fun h => hne (hname.trans h.symm)
        simp [hname,hother]
      · simp [hname]

namespace NrmTable
variable {hash : Bytes → UInt32} {t t' : NrmTable} {name : Bytes}

/-- Metrics are filed under the hashes of their names, each name once. -/
structure Keyed (hash : Bytes → UInt32) (t : NrmTable) : Prop where
  key : ∀ (i : ℕ) (n : IndexedTree.Node UInt32 NrMetric), t.metrics[i]? = some n →
    n.key = hash n.data.name
  nodup : (t.data.map NrMetric.name).Nodup

@[simp] lemma data_update (t : NrmTable) (i : ℕ) (f : NrMetric → NrMetric) :
    (t.update i f).data = t.data.modify i f := by
  apply List.ext_getElem?
  intro j
  simp only [data,NrmTable.update,List.getElem?_map,IndexedTree.getElem?_update,
    List.getElem?_modify]
  split_ifs with hij
  · simp [Option.map_map,Function.comp_def]
  · simp

@[simp] lemma data_create (t : NrmTable) (name : Bytes) (k : UInt32) :
    (t.create name k).data = t.data ++ [newMetric name] := by
  have hhang (i : ℕ) : (t.metrics.modify i (IndexedTree.Node.hang k t.metrics.length)).map
      IndexedTree.Node.data = t.metrics.map IndexedTree.Node.data := by
    apply List.ext_getElem?
    intro j
    simp only [List.getElem?_map,List.getElem?_modify]
    split_ifs with hij
    · simp [Option.map_map,Function.comp_def]
    · simp
  simp [data,NrmTable.create,IndexedTree.append,hhang]

lemma keyed_tableCreate (hash : Bytes → UInt32) (maxSize : ℤ) : Keyed hash (tableCreate maxSize) where
  key := by simp [tableCreate]
  nodup := by simp [data,tableCreate]

lemma Keyed.update (h : Keyed hash t) (i : ℕ) {f : NrMetric → NrMetric}
    (hf : ∀ m, (f m).name = m.name) : Keyed hash (t.update i f) where
  key := by
    intro j n hn
    simp only [NrmTable.update,IndexedTree.getElem?_update] at hn
    split_ifs at hn with hij
    · obtain ⟨n₀,hn₀,rfl⟩ := Option.map_eq_some_iff.mp hn
      simpa [hf] using h.key j n₀ hn₀
    · exact h.key j n hn
  nodup := by
    have hnames : (t.data.modify i f).map NrMetric.name = t.data.map NrMetric.name := by
      apply List.ext_getElem?
      intro j
      simp only [List.getElem?_map,List.getElem?_modify]
      split_ifs with hij
      · simp [Option.map_map,Function.comp_def,hf]
      · simp
    rw [data_update,hnames]
    exact h.nodup

lemma Keyed.create (h : Keyed hash t) (hnew : t.metric? name = none) :
    Keyed hash (t.create name (hash name)) where
  key := by
    intro j n hn
    rcases Nat.lt_or_ge j t.metrics.length with hlt | hge
    · have hold := List.getElem?_eq_getElem hlt
      simp only [NrmTable.create,IndexedTree.getElem?_append_of_some _ hold,Option.some_inj] at hn
      have hkey := h.key j _ hold
      subst hn
      split_ifs
      · simpa using hkey
      · exact hkey
    · have hj : j = t.metrics.length := by
        have := (List.getElem?_eq_some_iff.mp hn).1
        simp only [NrmTable.create,IndexedTree.length_append] at this
        omega
      subst hj
      simp only [NrmTable.create,IndexedTree.getElem?_append_new,Option.some_inj] at hn
      subst hn
      rfl
  nodup := by
    have hnotMem : name ∉ t.data.map NrMetric.name := by
      intro hmem
      obtain ⟨m,hm,hname⟩ := List.mem_map.mp hmem
      have := List.find?_eq_none.mp hnew m hm
      simp [hname] at this
    simpa [List.nodup_append,newMetric] using
      ⟨h.nodup,fun m hm hname => hnotMem (List.mem_map.mpr ⟨m,hm,hname⟩)⟩

/-- The search finds the metric of the name, where it is. -/
theorem Keyed.find (h : Keyed hash t) (name : Bytes) :
    match t.find hash name with
    | none => t.metric? name = none
    | some i => ∃ m, t.data[i]? = some m ∧ m.name = name ∧ t.metric? name = some m := by
  have hiff := IndexedTree.find_isSome_iff (k := hash name) (p := fun metric => metric.name = name)
    t.ordered t.complete le_rfl
  cases hfind : t.find hash name with
  | some i =>
    obtain ⟨n,hn,-,hname⟩ := IndexedTree.find_some hfind
    simp only [decide_eq_true_eq] at hname
    have hdata : t.data[i]? = some n.data := by rw [data,List.getElem?_map,hn,Option.map_some]
    refine ⟨n.data,hdata,hname,?_⟩
    -- the name is there once, so the first metric of the name is this one
    have hmodify := find?_modify h.nodup hdata id rfl name
    rw [if_pos hname] at hmodify
    simpa [metric?] using hmodify
  | none =>
    unfold NrmTable.find findInternal number at hfind
    rw [hfind] at hiff
    simp only [Option.isSome_none,Bool.false_eq_true,false_iff,not_exists,not_and] at hiff
    refine List.find?_eq_none.mpr ?_
    intro m hm hname
    obtain ⟨n,hn,rfl⟩ := List.mem_map.mp hm
    obtain ⟨i,hi⟩ := List.mem_iff_getElem?.mp hn
    simp only [decide_eq_true_eq] at hname
    exact hiff i n hi (by rw [h.key i n hi,hname]) (by simpa using hname)

lemma metric?_update (h : Keyed hash t) {i : ℕ} {m : NrMetric} (hm : t.data[i]? = some m)
    {f : NrMetric → NrMetric} (hf : (f m).name = m.name) (other : Bytes) :
    (t.update i f).metric? other = if m.name = other then some (f m) else t.metric? other := by
  rw [metric?,data_update]
  exact find?_modify h.nodup hm f hf other

lemma metric?_create (t : NrmTable) (name : Bytes) (k : UInt32) (hnew : t.metric? name = none)
    (other : Bytes) : (t.create name k).metric? other =
      if name = other then some (newMetric name) else t.metric? other := by
  have hfind : t.data.find? (fun m => m.name = name) = none := hnew
  rw [metric?,data_create,List.find?_append]
  split_ifs with hname
  · subst hname
    simp [hfind,newMetric]
  · have hlast : [newMetric name].find? (fun m => m.name = other) = none := by
      simp [newMetric,hname]
    rw [hlast,Option.or_none]
    rfl

/-- The end of an addition, at the position of the metric. -/
theorem Keyed.observe (h : Keyed hash t) {i : ℕ} {m : NrMetric} (hm : t.data[i]? = some m)
    (o : Observation) : ∃ t', (if o.forced then t.markForced i else t).update i
        (accumulate o.count o.total o.exclusive o.min o.max o.sumSquares) = t' ∧ Keyed hash t' ∧
      ∀ other, t'.metric? other =
        if m.name = other then some (m.observe o) else t.metric? other := by
  refine ⟨_,rfl,?_⟩
  cases hforced : o.forced with
  | false =>
    have hobserve : accumulate o.count o.total o.exclusive o.min o.max o.sumSquares m =
        m.observe o := by
      simp [NrMetric.observe,hforced]
    refine ⟨h.update i fun _ => rfl,fun other => ?_⟩
    rw [← hobserve]
    exact metric?_update h hm rfl other
  | true =>
    have hmarked : (t.markForced i).data[i]? = some { m with forced := true } := by
      simp [markForced,hm]
    have hobserve : accumulate o.count o.total o.exclusive o.min o.max o.sumSquares
        { m with forced := true } = m.observe o := by
      simp [NrMetric.observe,hforced]
    have hkeyed : Keyed hash (t.markForced i) := h.update i fun _ => rfl
    refine ⟨hkeyed.update i fun _ => rfl,fun other => ?_⟩
    rw [← hobserve]
    refine (metric?_update hkeyed hmarked rfl other).trans ?_
    split_ifs with hname
    · rfl
    · exact (metric?_update h hm rfl other).trans (if_neg hname)

/-- A metric that is found, forced or has room gets the observation. -/
theorem Keyed.addTo (h : Keyed hash t) (o : Observation) (haccepted : ¬o.Rejected t) :
    ∃ t', t.addTo hash o.forced o.name o.count o.total o.exclusive o.min o.max o.sumSquares =
        some t' ∧ Keyed hash t' ∧
      ∀ other, t'.metric? other = if o.name = other then
        some (((t.metric? other).getD (newMetric other)).observe o) else t.metric? other := by
  have hspec := h.find o.name
  cases hfind : t.find hash o.name with
  | some i =>
    rw [hfind] at hspec
    obtain ⟨m,hm,hname,hmetric⟩ := hspec
    obtain ⟨t',ht',hkeyed,hother⟩ := h.observe hm o
    refine ⟨t',by simp [NrmTable.addTo,findOrCreate,hfind,← ht'],hkeyed,fun other => ?_⟩
    rw [hother,hname]
    split_ifs with hsame
    · rw [← hsame,hmetric,Option.getD_some]
    · rfl
  | none =>
    rw [hfind] at hspec
    have hroom : ¬(t.isFull ∧ ¬o.forced) := by
      rintro ⟨hfull,hforced⟩
      exact haccepted ⟨by simpa using hforced,hspec,hfull⟩
    have hm : (t.create o.name (hash o.name)).data[t.number]? = some (newMetric o.name) := by
      have hlength : t.data.length = t.number := List.length_map _
      rw [data_create,← hlength,List.getElem?_concat_length]
    obtain ⟨t',ht',hkeyed,hother⟩ := (h.create hspec).observe hm o
    refine ⟨t',by simp only [NrmTable.addTo,findOrCreate,hfind,if_neg hroom,Option.map_some,← ht'],
      hkeyed,fun other => ?_⟩
    rw [hother,metric?_create t _ _ hspec]
    change (if o.name = other then _ else _) = _
    split_ifs with hsame
    · rw [← hsame,hspec,Option.getD_none]
    · rfl

lemma Keyed.record (h : Keyed hash t) (o : Observation) (haccepted : ¬o.Rejected t) :
    Keyed hash (t.record hash o) ∧
      ∀ other, (t.record hash o).metric? other = if o.name = other then
        some (((t.metric? other).getD (newMetric other)).observe o) else t.metric? other := by
  obtain ⟨t',ht',hkeyed,hmetric⟩ := h.addTo o haccepted
  unfold NrmTable.record addInternal
  rw [ht']
  exact ⟨hkeyed,hmetric⟩

/-- A rejected observation is recorded as a dropped one. -/
theorem Keyed.record_rejected (h : Keyed hash t) {o : Observation} (hrejected : o.Rejected t) :
    t.record hash o = t.record hash .drop := by
  obtain ⟨hforced,hmetric,hfull⟩ := hrejected
  have hfind : t.find hash o.name = none := by
    have hspec := h.find o.name
    cases hfind : t.find hash o.name with
    | none => rfl
    | some i =>
      rw [hfind] at hspec
      obtain ⟨m,-,-,hm⟩ := hspec
      rw [hmetric] at hm
      contradiction
  have hnone : t.addTo hash o.forced o.name o.count o.total o.exclusive o.min o.max o.sumSquares =
      none := by
    simp [NrmTable.addTo,findOrCreate,hfind,hfull,hforced]
  obtain ⟨t',ht'⟩ := addTo_true hash t metricsDropped 1 0 0 0 0 0
  simp only [NrmTable.record,addInternal,Observation.drop,hnone,ht',Option.getD_some]

end NrmTable

/-! ### Runs -/

namespace NrmLedger
variable {hash : Bytes → UInt32} {t : NrmTable} {ledger : NrmLedger} {name : Bytes} {o : Observation}

/-- A metric that had these observations and no others. -/
def summary (name : Bytes) (observations : List Observation) : Option NrMetric :=
  if observations = [] then none
  else some (observations.foldl NrMetric.observe (NrmTable.newMetric name))

lemma summary_concat (name : Bytes) (observations : List Observation) (o : Observation) :
    summary name (observations ++ [o]) =
      some (((summary name observations).getD (NrmTable.newMetric name)).observe o) := by
  unfold summary
  rw [if_neg (by simp)]
  split_ifs with hempty
  · simp [hempty]
  · simp

/-- The table has what the ledger says. -/
structure Balanced (hash : Bytes → UInt32) (t : NrmTable) (ledger : NrmLedger) : Prop where
  keyed : t.Keyed hash
  metric? : ∀ name, t.metric? name = summary name (ledger.of name)
  accepted_name : ∀ o ∈ ledger.accepted, o.name ≠ NrmTable.metricsDropped

lemma balanced_tableCreate (hash : Bytes → UInt32) (maxSize : ℤ) :
    Balanced hash (NrmTable.tableCreate maxSize) ⟨[],0⟩ where
  keyed := NrmTable.keyed_tableCreate hash maxSize
  metric? := by
    intro name
    simp [of,summary,NrmTable.metric?,NrmTable.data,NrmTable.tableCreate]
  accepted_name := by simp

lemma of_accept (ledger : NrmLedger) (o : Observation) (ho : o.name ≠ NrmTable.metricsDropped)
    (name : Bytes) : of { ledger with accepted := ledger.accepted ++ [o] } name =
      if o.name = name then ledger.of name ++ [o] else ledger.of name := by
  unfold of
  by_cases hname : o.name = name
  · have hdrop : ¬Observation.drop.name = name := by
      rw [← hname]
      exact ho.symm
    simp [hname,hdrop]
  · simp [hname]

lemma of_drop (ledger : NrmLedger) (name : Bytes) :
    of { ledger with dropped := ledger.dropped+1 } name =
      if Observation.drop.name = name then ledger.of name ++ [Observation.drop]
      else ledger.of name := by
  unfold of
  rw [List.replicate_succ',← List.append_assoc,List.filter_append]
  by_cases hname : Observation.drop.name = name <;> simp [hname]

/-- An observation that the table accepts, as both sides see it. -/
theorem Balanced.record (h : Balanced hash t ledger) {ledger' : NrmLedger}
    (haccepted : ¬o.Rejected t) (hname : ∀ o ∈ ledger'.accepted, o.name ≠ NrmTable.metricsDropped)
    (hof : ∀ name, ledger'.of name =
      if o.name = name then ledger.of name ++ [o] else ledger.of name) :
    Balanced hash (t.record hash o) ledger' where
  keyed := (h.keyed.record o haccepted).1
  accepted_name := hname
  metric? := by
    intro name
    rw [(h.keyed.record o haccepted).2,hof,h.metric?]
    split_ifs
    · rw [summary_concat]
    · rfl

lemma Balanced.note (h : Balanced hash t ledger)
    (ho : o.name ≠ NrmTable.metricsDropped) : Balanced hash (t.record hash o) (ledger.note t o) := by
  unfold NrmLedger.note
  split_ifs with hrejected
  · rw [h.keyed.record_rejected hrejected]
    have hforced : ¬Observation.drop.Rejected t := fun hdrop => Bool.noConfusion hdrop.1
    exact h.record hforced h.accepted_name (of_drop ledger)
  · refine h.record hrejected ?_ (of_accept ledger o ho)
    intro o' ho'
    rcases List.mem_append.mp ho' with hold | hnew
    · exact h.accepted_name o' hold
    · rw [List.mem_singleton.mp hnew]
      exact ho

lemma exec_eq (h : t.Keyed hash) (call : NrmCall) :
    call.exec hash t = (call.observation t).elim t (t.record hash) := by
  cases call with
  | duplicateMetric currentName newName =>
    have hspec := h.find currentName.1
    unfold NrmCall.exec NrmTable.duplicateMetric
    cases hfind : t.find hash currentName.1 with
    | none =>
      rw [hfind] at hspec
      simp [NrmCall.observation,hfind,hspec]
    | some i =>
      rw [hfind] at hspec
      obtain ⟨m,hm,-,hmetric⟩ := hspec
      rw [NrmTable.data,List.getElem?_map,Option.map_eq_some_iff] at hm
      obtain ⟨⟨k,m',l,r⟩,hn,rfl⟩ := hm
      simp [NrmCall.observation,hfind,hmetric,hn,NrmTable.record]
  | _ => rfl

lemma observation_name {call : NrmCall} (h : call.observation t = some o) :
    o.name ≠ NrmTable.metricsDropped := by
  cases call with
  | duplicateMetric currentName newName =>
    obtain ⟨m,-,rfl⟩ := Option.map_eq_some_iff.mp h
    exact newName.2
  | add name | addEx name | forceAdd name | forceAddEx name =>
    cases h
    exact name.2

lemma Balanced.step {w : NrmTable × NrmLedger} (h : Balanced hash w.1 w.2) (call : NrmCall) :
    Balanced hash (NrmLedger.step hash w call).1 (NrmLedger.step hash w call).2 := by
  unfold NrmLedger.step
  rw [exec_eq h.keyed]
  cases ho : call.observation w.1 with
  | none => exact h
  | some o => exact h.note (observation_name ho)

lemma balanced_run (hash : Bytes → UInt32) (maxSize : ℤ) (calls : List NrmCall) :
    Balanced hash (run hash maxSize calls).1 (run hash maxSize calls).2 := by
  have hfold (w : NrmTable × NrmLedger) (hw : Balanced hash w.1 w.2) :
      Balanced hash (calls.foldl (NrmLedger.step hash) w).1
        (calls.foldl (NrmLedger.step hash) w).2 := by
    induction calls generalizing w with
    | nil => exact hw
    | cons call calls ih => exact ih _ (hw.step call)
  exact hfold _ (balanced_tableCreate hash maxSize)

/-! ### Totals -/

/-- The sums modulo `2^64`, the extremes and the flag of a metric. -/
structure Totals (m : NrMetric) (observations : List Observation) : Prop where
  count : m.count.toNat = (observations.map fun o => o.count.toNat).sum % 2^64
  total : m.total.toNat = (observations.map fun o => o.total.toNat).sum % 2^64
  exclusive : m.exclusive.toNat = (observations.map fun o => o.exclusive.toNat).sum % 2^64
  sumSquares : m.sumSquares.toNat = (observations.map fun o => o.sumSquares.toNat).sum % 2^64
  le_min : ∀ o ∈ observations, m.min ≤ o.min
  min_mem : ∃ o ∈ observations, m.min = o.min
  max_le : ∀ o ∈ observations, o.max ≤ m.max
  max_mem : ∃ o ∈ observations, m.max = o.max
  forced_iff : m.forced = true ↔ ∃ o ∈ observations, o.forced = true

/-- A sum that is kept in 64 bits. -/
theorem toNat_foldl (f : NrMetric → UInt64) (g : Observation → UInt64)
    (hf : ∀ m o, f (NrMetric.observe m o) = f m+g o) (m : NrMetric)
    (observations : List Observation) : (f (observations.foldl NrMetric.observe m)).toNat =
      ((f m).toNat+(observations.map fun o => (g o).toNat).sum) % 2^64 := by
  induction observations generalizing m with
  | nil =>
    rw [List.map_nil,List.sum_nil,Nat.add_zero,Nat.mod_eq_of_lt (f m).toNat_lt]
    rfl
  | cons o observations ih =>
    rw [List.foldl_cons,ih,hf,UInt64.toNat_add,List.map_cons,List.sum_cons,Nat.mod_add_mod,
      Nat.add_assoc]

/-- An extreme value is kept as long as no observation is more extreme. -/
theorem foldl_extreme (r : UInt64 → UInt64 → Prop) (f : NrMetric → UInt64)
    (g : Observation → UInt64) (hrefl : ∀ a, r a a) (htrans : ∀ a b c, r a b → r b c → r a c)
    (hf : ∀ m o, r (f (NrMetric.observe m o)) (f m) ∧ r (f (NrMetric.observe m o)) (g o) ∧
      (f (NrMetric.observe m o) = f m ∨ f (NrMetric.observe m o) = g o))
    (m : NrMetric) (observations : List Observation) :
    r (f (observations.foldl NrMetric.observe m)) (f m) ∧
      (∀ o ∈ observations, r (f (observations.foldl NrMetric.observe m)) (g o)) ∧
      (f (observations.foldl NrMetric.observe m) = f m ∨
        ∃ o ∈ observations, f (observations.foldl NrMetric.observe m) = g o) := by
  induction observations generalizing m with
  | nil => exact ⟨hrefl _,by simp,.inl rfl⟩
  | cons o observations ih =>
    obtain ⟨hstart,hall,hmem⟩ := ih (m.observe o)
    obtain ⟨hm,ho,heq⟩ := hf m o
    refine ⟨htrans _ _ _ hstart hm,?_,?_⟩
    · intro o' ho'
      rcases List.mem_cons.mp ho' with rfl | hrest
      · exact htrans _ _ _ hstart ho
      · exact hall o' hrest
    · rcases hmem with hmem | ⟨o',ho',hmem⟩
      · rcases heq with heq | heq
        · exact .inl (hmem.trans heq)
        · exact .inr ⟨o,List.mem_cons_self,hmem.trans heq⟩
      · exact .inr ⟨o',List.mem_cons_of_mem _ ho',hmem⟩

lemma foldl_min (m : NrMetric) (observations : List Observation) :
    (observations.foldl NrMetric.observe m).min ≤ m.min ∧
      (∀ o ∈ observations, (observations.foldl NrMetric.observe m).min ≤ o.min) ∧
      ((observations.foldl NrMetric.observe m).min = m.min ∨
        ∃ o ∈ observations, (observations.foldl NrMetric.observe m).min = o.min) := by
  apply foldl_extreme (· ≤ ·) NrMetric.min Observation.min (fun a => UInt64.le_refl a)
    (fun a b c => UInt64.le_trans)
  intro m o
  simp only [NrMetric.observe,NrmTable.accumulate]
  split_ifs with hlt
  · exact ⟨UInt64.le_of_lt hlt,UInt64.le_refl _,.inr rfl⟩
  · exact ⟨UInt64.le_refl _,UInt64.not_lt.mp hlt,.inl rfl⟩

lemma foldl_max (m : NrMetric) (observations : List Observation) :
    m.max ≤ (observations.foldl NrMetric.observe m).max ∧
      (∀ o ∈ observations, o.max ≤ (observations.foldl NrMetric.observe m).max) ∧
      ((observations.foldl NrMetric.observe m).max = m.max ∨
        ∃ o ∈ observations, (observations.foldl NrMetric.observe m).max = o.max) := by
  apply foldl_extreme (fun a b => b ≤ a) NrMetric.max Observation.max (fun a => UInt64.le_refl a)
    (fun a b c hab hbc => UInt64.le_trans hbc hab)
  intro m o
  simp only [NrMetric.observe,NrmTable.accumulate]
  split_ifs with hlt
  · exact ⟨UInt64.le_of_lt hlt,UInt64.le_refl _,.inr rfl⟩
  · exact ⟨UInt64.le_refl _,UInt64.not_lt.mp hlt,.inl rfl⟩

lemma foldl_forced (m : NrMetric) (observations : List Observation) :
    (observations.foldl NrMetric.observe m).forced = true ↔
      m.forced = true ∨ ∃ o ∈ observations, o.forced = true := by
  induction observations generalizing m with
  | nil => simp
  | cons o observations ih =>
    rw [List.foldl_cons,ih]
    simp [NrMetric.observe,NrmTable.accumulate,or_assoc]

lemma totals_of_summary {observations : List Observation} {m : NrMetric}
    (h : summary name observations = some m) : Totals m observations := by
  unfold summary at h
  split_ifs at h with hempty
  cases h
  obtain ⟨o,ho⟩ := List.exists_mem_of_ne_nil _ hempty
  obtain ⟨-,hle,hmin⟩ := foldl_min (NrmTable.newMetric name) observations
  obtain ⟨-,hge,hmax⟩ := foldl_max (NrmTable.newMetric name) observations
  have hsum (f : NrMetric → UInt64) (g : Observation → UInt64)
      (hf : ∀ m o, f (NrMetric.observe m o) = f m+g o) (hzero : f (NrmTable.newMetric name) = 0) :
      (f (observations.foldl NrMetric.observe (NrmTable.newMetric name))).toNat =
        (observations.map fun o => (g o).toNat).sum % 2^64 := by
    rw [toNat_foldl f g hf,hzero,UInt64.toNat_zero,Nat.zero_add]
  refine ⟨?_,?_,?_,?_,hle,?_,hge,?_,?_⟩
  · exact hsum NrMetric.count Observation.count (fun _ _ => rfl) rfl
  · exact hsum NrMetric.total Observation.total (fun _ _ => rfl) rfl
  · exact hsum NrMetric.exclusive Observation.exclusive (fun _ _ => rfl) rfl
  · exact hsum NrMetric.sumSquares Observation.sumSquares (fun _ _ => rfl) rfl
  · -- the initial minimum is the greatest value there is
    rcases hmin with hmin | hmin
    · refine ⟨o,ho,UInt64.le_antisymm (hle o ho) ?_⟩
      rw [hmin,UInt64.le_iff_toNat_le]
      have := o.min.toNat_lt
      change o.min.toNat ≤ 18446744073709551615
      omega
    · exact hmin
  · rcases hmax with hmax | hmax
    · refine ⟨o,ho,UInt64.le_antisymm ?_ (hge o ho)⟩
      rw [hmax,UInt64.le_iff_toNat_le]
      exact Nat.zero_le _
    · exact hmax
  · rw [foldl_forced]
    simp [NrmTable.newMetric]

/-- What a table answers, against what was accepted and what was not. -/
structure Accounted (hash : Bytes → UInt32) (t : NrmTable) (ledger : NrmLedger) : Prop where
  ends : ∀ (name : Bytes) (fuel : ℕ), t.number ≤ fuel →
    t.findRounds hash name fuel = some (t.find hash name)
  found_iff : ∀ name : MetricName, (t.find hash name.1).isSome ↔
    ∃ o ∈ ledger.accepted, o.name = name.1
  unique : ∀ (name : Bytes) (i j : ℕ) (m : NrMetric), t.find hash name = some i →
    t.data[j]? = some m → (m.name = name ↔ j = i)
  totals : ∀ (name : MetricName) (i : ℕ) (m : NrMetric), t.find hash name.1 = some i →
    t.data[i]? = some m → Totals m (ledger.accepted.filter fun o => o.name = name.1)
  validate : t.tableValidate = true
  dropped : NrmTable.nrmCount ((t.find hash NrmTable.metricsDropped).bind (t.data[·]?)) =
    UInt64.ofNat ledger.dropped

lemma findRounds_eq (hash : Bytes → UInt32) (t : NrmTable) (name : Bytes) {fuel : ℕ}
    (hfuel : t.number ≤ fuel) : t.findRounds hash name fuel = some (t.find hash name) := by
  unfold NrmTable.findRounds NrmTable.find NrmTable.findInternal
  split_ifs with hempty
  · rw [hempty]
    rfl
  · have hpos : 0 < t.metrics.length := Nat.pos_of_ne_zero hempty
    have hnumber : t.metrics.length ≤ t.number+0 := le_rfl
    have hsame := IndexedTree.find_fuel (k := hash name) (p := fun metric => metric.name = name)
      t.ordered hpos hfuel hnumber
    rw [IndexedTree.locate_eq t.ordered hpos hfuel,hsame]
    cases IndexedTree.find t.metrics (hash name) (fun metric => metric.name = name) t.number 0 <;> rfl

lemma tableValidate_eq (t : NrmTable) : t.tableValidate = true := by
  have hnonneg : (0 : ℤ) ≤ t.allocated := (Int.natCast_nonneg _).trans t.fits
  have hlink (i : ℕ) (n : IndexedTree.Node UInt32 NrMetric) (hn : t.metrics[i]? = some n)
      (link : Option ℕ) (h : ∀ j, link = some j → n.left = some j ∨ n.right = some j) :
      t.validLink i link = true := by
    cases link with
    | none => rfl
    | some j =>
      have hord := t.ordered i j n hn (h j rfl)
      exact decide_eq_true ⟨hord.2,hord.1⟩
  unfold NrmTable.tableValidate
  simp only [Bool.decide_and,Bool.and_eq_true,decide_eq_true_eq,List.all_eq_true]
  refine ⟨hnonneg,t.maxSize_nonneg,t.fits,?_⟩
  rintro ⟨n,i⟩ hn
  have hn' : t.metrics[i]? = some n := by simpa [List.mem_zipIdx_iff_getElem?] using hn
  exact ⟨hlink i n hn' n.left fun j hj => .inl hj,hlink i n hn' n.right fun j hj => .inr hj⟩

lemma of_metricName (ledger : NrmLedger) (name : MetricName) :
    ledger.of name.1 = ledger.accepted.filter fun o => o.name = name.1 := by
  have hdrop : ¬Observation.drop.name = name.1 := fun heq => name.2 heq.symm
  simp [of,hdrop]

lemma of_metricsDropped (h : Balanced hash t ledger) :
    ledger.of NrmTable.metricsDropped = List.replicate ledger.dropped Observation.drop := by
  have haccepted : ledger.accepted.filter (fun o => o.name = NrmTable.metricsDropped) = [] := by
    rw [List.filter_eq_nil_iff]
    intro o ho
    simpa using h.accepted_name o ho
  have hdrop : Observation.drop.name = NrmTable.metricsDropped := rfl
  simp [of,haccepted,hdrop]

/-- What `nrm_find` leads to is the metric of the name. -/
theorem Balanced.find (h : Balanced hash t ledger) (name : Bytes) :
    (t.find hash name).bind (t.data[·]?) = summary name (ledger.of name) := by
  rw [← h.metric?]
  have hspec := h.keyed.find name
  cases hfind : t.find hash name with
  | none =>
    rw [hfind] at hspec
    exact hspec.symm
  | some i =>
    rw [hfind] at hspec
    obtain ⟨m,hm,-,hmetric⟩ := hspec
    rw [hmetric,Option.bind_some,hm]

lemma Balanced.accounted (h : Balanced hash t ledger) : Accounted hash t ledger := by
  have hsome {name : Bytes} {i : ℕ} (hfind : t.find hash name = some i) :
      ∃ m, t.data[i]? = some m ∧ m.name = name ∧ t.metric? name = some m := by
    have hspec := h.keyed.find name
    rwa [hfind] at hspec
  refine ⟨fun name fuel => findRounds_eq hash t name,?_,?_,?_,tableValidate_eq t,?_⟩
  · intro name
    have hfound := h.keyed.find name.1
    have hmetric := h.metric? name.1
    rw [of_metricName,summary] at hmetric
    cases hfind : t.find hash name.1 with
    | none =>
      rw [hfind] at hfound
      rw [show t.metric? name.1 = none from hfound] at hmetric
      simpa using hmetric
    | some i =>
      obtain ⟨m,-,-,hm⟩ := hsome hfind
      rw [hm] at hmetric
      split_ifs at hmetric with hempty
      obtain ⟨o,ho⟩ := List.exists_mem_of_ne_nil _ hempty
      simpa using ⟨o,by simpa using List.mem_filter.mp ho⟩
  · intro name i j m hfind hm
    obtain ⟨m',hm',hname',-⟩ := hsome hfind
    constructor
    · intro hname
      have hnames : (t.data.map NrMetric.name)[j]? = (t.data.map NrMetric.name)[i]? := by
        rw [List.getElem?_map,List.getElem?_map,hm,hm',Option.map_some,Option.map_some,hname,hname']
      have hj : j < (t.data.map NrMetric.name).length := by
        simpa using (List.getElem?_eq_some_iff.mp hm).1
      exact (List.getElem?_inj hj h.keyed.nodup).mp hnames
    · rintro rfl
      rw [hm,Option.some_inj] at hm'
      rw [hm',hname']
  · intro name i m hfind hm
    have hsummary : summary name.1 (ledger.accepted.filter fun o => o.name = name.1) = some m := by
      rw [← of_metricName,← h.find,hfind,Option.bind_some,hm]
    exact totals_of_summary hsummary
  · rw [h.find,of_metricsDropped h]
    cases hsummary : summary NrmTable.metricsDropped
      (List.replicate ledger.dropped Observation.drop) with
    | none =>
      have hzero : ledger.dropped = 0 := by simpa [summary] using hsummary
      rw [hzero]
      rfl
    | some m =>
      have hcount := (totals_of_summary hsummary).count
      apply UInt64.toNat_inj.mp
      simpa [Observation.drop,NrmTable.nrmCount] using hcount

/-- Every sequence of calls on a new table leaves it accounted for. -/
theorem run_accounted (hash : Bytes → UInt32) (maxSize : ℤ) (calls : List NrmCall) :
    Accounted hash (run hash maxSize calls).1 (run hash maxSize calls).2 :=
  (balanced_run hash maxSize calls).accounted

end NrmLedger
end PhpAgent
