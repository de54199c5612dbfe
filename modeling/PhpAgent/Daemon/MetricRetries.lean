import PhpAgent.Daemon.MetricTables

/-! How often an observation can be part of a delivery of metrics. Observations are numbered; tables
are filled, harvested with the rules of `harvestMetrics`, and merged after a failed delivery. -/
namespace PhpAgent

structure MetricRetries where
  live : List (MetricTable (Provenance ℕ))
  flying : List (MetricTable (Provenance ℕ))
  next : ℕ
  attempts : ℕ → ℕ

inductive MetricRetryEvent
  | newTable (maxTableSize : ℤ) (now : Time)
  | add (i : ℕ) (nameSlice : Option Bytes) (nameString scope : Bytes) (force : MetricForce)
  | harvest (i : ℕ) (rules : MetricRules) (order : List MetricID) (now : Time)
  | failed (i j : ℕ) (order : List MetricID)
  | delivered (j : ℕ)

namespace MetricRetries

def initial : MetricRetries := ⟨[],[],0,fun _ => 0⟩

/-- One event. The maps of a table may be ranged over in any order. -/
def step (s : MetricRetries) : MetricRetryEvent → Option MetricRetries
  | .newTable maxTableSize now => some { s with live := s.live ++ [.new maxTableSize now] }
  | .add i nameSlice nameString scope force => do
    let mt ← s.live[i]?
    return { s with
      live := s.live.set i (mt.add nameSlice nameString scope (.observation s.next) force)
      next := s.next+1 }
  | .harvest i rules order now => do
    let mt ← s.live[i]?
    if order.Perm mt.metrics.keys then
      let metrics := mt.applyRules rules order
      let live := s.live.set i (.new Limits.maxMetrics now)
      if metrics.empty then return { s with live := live }
      else
        return { s with
          live := live
          flying := s.flying ++ [metrics]
          attempts := fun o =>
            if o ∈ metrics.observations then s.attempts o+1 else s.attempts o }
    else none
  | .failed i j order => do
    let mt ← s.live[i]?
    let src ← s.flying[j]?
    if order.Perm src.metrics.keys then
      return { s with
        live := s.live.set i (mt.mergeFailed src order)
        flying := s.flying.eraseIdx j }
    else none
  | .delivered j => do
    let _ ← s.flying[j]?
    return { s with flying := s.flying.eraseIdx j }

/-- The count of failed deliveries is not lost: rules are only applied to a table that was not
merged into, and no failed merge lowers the count of its target. -/
def Counted (s : MetricRetries) : MetricRetryEvent → Prop
  | .harvest i rules _ _ => ∀ mt, s.live[i]? = some mt → rules = [] ∨ mt.failedHarvests = 0
  | .failed i j _ => ∀ mt src, s.live[i]? = some mt → s.flying[j]? = some src →
      src.failedHarvests+1 ≤ Limits.failedMetricAttemptsLimit →
      mt.failedHarvests ≤ src.failedHarvests+1
  | _ => True

inductive Run (ok : MetricRetries → MetricRetryEvent → Prop) : MetricRetries → Prop
  | init : Run ok initial
  | step {s s' : MetricRetries} (e : MetricRetryEvent) : Run ok s → ok s e → s.step e = some s' →
      Run ok s'

/-- The run of a list of events. -/
def exec : List MetricRetryEvent → MetricRetries → Option MetricRetries
  | [], s => some s
  | e :: es, s => (s.step e).bind (exec es)

lemma Run.of_exec {s s' : MetricRetries} {es : List MetricRetryEvent}
    (hs : Run (fun _ _ => True) s) (h : exec es s = some s') : Run (fun _ _ => True) s' := by
  induction es generalizing s with
  | nil =>
    cases h
    exact hs
  | cons e es ih =>
    obtain ⟨s₁,hstep,h⟩ := Option.bind_eq_some_iff.mp h
    exact ih (.step e hs trivial hstep) h

/-! ### Tables as batches -/

def itemsOf (mt : MetricTable (Provenance ℕ)) : Set ℕ := { o | o ∈ mt.observations }

def failsOf (mt : MetricTable (Provenance ℕ)) : ℕ := mt.failedHarvests

def batches (s : MetricRetries) : List (Batch ℕ) :=
  Batch.ofContainers itemsOf failsOf s.live s.flying

def Sound (s : MetricRetries) : Prop :=
  Batch.Sound Limits.failedMetricAttemptsLimit { o | o < s.next } s.attempts s.batches

section Steps
variable {s s' : MetricRetries} {e : MetricRetryEvent} {mt src : MetricTable (Provenance ℕ)}
  {order : List MetricID}

lemma initial_sound : initial.Sound := by
  have hempty : { o | o < initial.next } = (∅ : Set ℕ) :=
    Set.eq_empty_of_forall_notMem fun o ho => Nat.not_lt_zero o ho
  rw [Sound,hempty]
  exact Batch.Sound.nil _

lemma itemsOf_new (maxTableSize : ℤ) (now : Time) : itemsOf (.new maxTableSize now) = ∅ :=
  Set.eq_empty_of_forall_notMem fun _ ho => List.not_mem_nil ho

lemma applyRules_items (mt : MetricTable (Provenance ℕ)) (rules : MetricRules)
    (order : List MetricID) : itemsOf (mt.applyRules rules order) ⊆ itemsOf mt := by
  intro o ho
  by_cases hrules : rules = []
  · subst hrules
    exact ho
  · simp only [itemsOf,Set.mem_ofPred_eq,mt.applyRules_eq hrules] at ho
    rcases MetricTable.mergeAll_observations ho with ho | ho
    · cases ho
    · exact MetricTable.ranged_observations ho

/-- Rules keep the count, if there are none or it is zero. -/
theorem applyRules_fails {mt : MetricTable (Provenance ℕ)} {rules : MetricRules}
    (h : rules = [] ∨ mt.failedHarvests = 0) (order : List MetricID) :
    failsOf (mt.applyRules rules order) = failsOf mt := by
  by_cases hrules : rules = []
  · subst hrules
    rfl
  · rw [failsOf,mt.applyRules_eq hrules,MetricTable.mergeAll_failedHarvests]
    exact (h.resolve_left hrules).symm

lemma mergeFailed_items (hlimit : src.failedHarvests+1 ≤ Limits.failedMetricAttemptsLimit) :
    itemsOf (mt.mergeFailed src order) ⊆ itemsOf mt ∪ itemsOf src := by
  intro o ho
  simp only [itemsOf,Set.mem_ofPred_eq,mt.mergeFailed_eq src order hlimit] at ho
  rcases MetricTable.mergeAll_observations ho with ho | ho
  · exact .inl ho
  · exact .inr (MetricTable.ranged_observations ho)

lemma mergeFailed_fails (hlimit : src.failedHarvests+1 ≤ Limits.failedMetricAttemptsLimit) :
    failsOf (mt.mergeFailed src order) = failsOf src+1 := by
  rw [failsOf,mt.mergeFailed_eq src order hlimit,MetricTable.mergeAll_failedHarvests]
  rfl

lemma Sound.add (h : s.Sound) {i : ℕ} {mt : MetricTable (Provenance ℕ)}
    (hi : s.live[i]? = some mt) (nameSlice : Option Bytes) (nameString scope : Bytes)
    (force : MetricForce) : Sound { s with
      live := s.live.set i (mt.add nameSlice nameString scope (.observation s.next) force)
      next := s.next+1 } := by
  have hused : insert s.next { o | o < s.next } = { o | o < s.next+1 } := by
    ext o
    exact Nat.lt_succ_iff_lt_or_eq.trans or_comm |>.symm
  have hitems : itemsOf (mt.add nameSlice nameString scope (.observation s.next) force) ⊆
      insert s.next (itemsOf mt) := by
    intro o ho
    rcases MetricTable.mergeMetric_observations ho with ho | ho
    · exact Set.mem_insert_of_mem _ ho
    · exact .inl (List.mem_singleton.mp ho)
  have hadd := (h.perm (Batch.ofContainers_live hi)).add (x := s.next) (fun hlt => Nat.lt_irrefl s.next hlt)
    hitems
  rw [hused] at hadd
  have hfails : failsOf (mt.add nameSlice nameString scope (.observation s.next) force) =
      failsOf mt := MetricTable.mergeMetric_failedHarvests _ _ _
  refine Batch.Sound.perm ?_ (Batch.ofContainers_set hi _).symm
  rw [Batch.ofContainer,hfails]
  exact hadd

lemma Sound.harvest (h : s.Sound) {i : ℕ} {mt : MetricTable (Provenance ℕ)}
    (hi : s.live[i]? = some mt) {rules : MetricRules} (now : Time)
    (hok : rules = [] ∨ mt.failedHarvests = 0) : Sound { s with
      live := s.live.set i (.new Limits.maxMetrics now)
      flying := s.flying ++ [mt.applyRules rules order]
      attempts := fun o =>
        if o ∈ (mt.applyRules rules order).observations then s.attempts o+1 else s.attempts o } := by
  have hlive := (h.perm (Batch.ofContainers_live hi)).shrink (applyRules_items mt rules order)
  have hnew : Batch.ofContainer itemsOf failsOf false (.new Limits.maxMetrics now) = ⟨∅,0,false⟩ := by
    rw [Batch.ofContainer,itemsOf_new]
    rfl
  have hmetrics : Batch.ofContainer itemsOf failsOf true (mt.applyRules rules order) =
      ⟨itemsOf (mt.applyRules rules order),failsOf mt,true⟩ := by
    rw [Batch.ofContainer,applyRules_fails hok]
  refine Batch.Sound.perm ?_ (Batch.ofContainers_push _).symm
  refine Batch.Sound.perm ?_ ((Batch.ofContainers_set hi _).symm.cons _)
  refine Batch.Sound.perm ?_ (List.Perm.swap _ _ _)
  rw [hnew,hmetrics]
  refine (hlive.launch rfl (fun o ho => ?_) fun o ho => ?_).empty
  · exact if_pos ho
  · exact if_neg ho

lemma Sound.failed (h : s.Sound) {i j : ℕ}
    (hi : s.live[i]? = some mt) (hj : s.flying[j]? = some src) (order : List MetricID)
    (hok : src.failedHarvests+1 ≤ Limits.failedMetricAttemptsLimit →
      mt.failedHarvests ≤ src.failedHarvests+1) : Sound { s with
      live := s.live.set i (mt.mergeFailed src order)
      flying := s.flying.eraseIdx j } := by
  have hboth := ((h.perm (Batch.ofContainers_live hi)).perm
    ((Batch.ofContainers_flying hj).cons _)).perm (List.Perm.swap _ _ _)
  refine Batch.Sound.perm ?_ (Batch.ofContainers_set hi _).symm
  by_cases hlimit : src.failedHarvests+1 ≤ Limits.failedMetricAttemptsLimit
  · rw [Batch.ofContainer,mergeFailed_fails hlimit]
    exact hboth.land rfl rfl (mergeFailed_items hlimit) (hok hlimit) hlimit
  · have hsame : mt.mergeFailed src order = mt := by
      simp [MetricTable.mergeFailed,not_le.mp hlimit]
    rw [hsame]
    exact hboth.tail

lemma step_sound (h : s.Sound) (hok : s.Counted e) (heq : s.step e = some s') : s'.Sound := by
  cases e with
  | newTable maxTableSize now =>
    cases heq
    refine Batch.Sound.perm ?_ (Batch.ofContainers_new _).symm
    rw [Batch.ofContainer,itemsOf_new]
    exact Batch.Sound.empty h
  | add i nameSlice nameString scope force =>
    obtain ⟨mt,hi,heq⟩ := Option.bind_eq_some_iff.mp heq
    cases heq
    exact h.add hi nameSlice nameString scope force
  | harvest i rules order now =>
    obtain ⟨mt,hi,heq⟩ := Option.bind_eq_some_iff.mp heq
    split at heq
    · simp only at heq
      split at heq
      · cases heq
        refine Batch.Sound.perm ?_ (Batch.ofContainers_set hi _).symm
        rw [Batch.ofContainer,itemsOf_new]
        exact (h.perm (Batch.ofContainers_live hi)).tail.empty
      · cases heq
        exact h.harvest hi now (hok mt hi)
    · cases heq
  | failed i j order =>
    obtain ⟨mt,hi,heq⟩ := Option.bind_eq_some_iff.mp heq
    obtain ⟨src,hj,heq⟩ := Option.bind_eq_some_iff.mp heq
    split at heq
    · cases heq
      exact h.failed hi hj order (hok mt src hi hj)
    · cases heq
  | delivered j =>
    obtain ⟨mt,hj,heq⟩ := Option.bind_eq_some_iff.mp heq
    cases heq
    exact (h.perm (Batch.ofContainers_flying hj)).tail

lemma Run.sound (h : Run Counted s) : s.Sound := by
  induction h with
  | init => exact initial_sound
  | step e _ hok heq ih => exact step_sound ih hok heq

end Steps
end MetricRetries
end PhpAgent
