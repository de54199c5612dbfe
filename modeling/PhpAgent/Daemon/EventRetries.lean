import PhpAgent.Daemon.AnalyticsEvents
import PhpAgent.Daemon.MetricRetries

/-! How often an event can be part of a delivery, and the bounds on retries of the daemon. Events are
numbered; reservoirs are filled, harvested, as a whole or in two halves, and merged after a failed
delivery. -/
namespace PhpAgent

structure EventRetries (P : Type) where
  live : List (AnalyticsEvents P ℕ)
  flying : List (AnalyticsEvents P ℕ)
  next : ℕ
  attempts : ℕ → ℕ

inductive EventRetryEvent (P : Type)
  | newEvents (max : ℕ)
  | add (i : ℕ) (priority : P)
  | harvest (i max : ℕ) (split : Bool)
  | failed (i j : ℕ)
  | delivered (j : ℕ)

namespace EventRetries
variable {P : Type}

/-- The numbers of the events of a reservoir. -/
def ids (events : AnalyticsEvents P ℕ) : List ℕ := events.events.map AnalyticsEvent.data

def initial : EventRetries P := ⟨[],[],0,fun _ => 0⟩

/-- `considerHarvestPayload`: a reservoir with events is delivered. -/
def deliver (s : EventRetries P) (events : AnalyticsEvents P ℕ) : EventRetries P :=
  if events.empty then s
  else
    { s with
      flying := s.flying ++ [events]
      attempts := fun o => if o ∈ ids events then s.attempts o+1 else s.attempts o }

variable [LT P] [DecidableLT P]

def step (s : EventRetries P) : EventRetryEvent P → Option (EventRetries P)
  | .newEvents max => some { s with live := s.live ++ [.new max] }
  | .add i priority => do
    let events ← s.live[i]?
    return { s with
      live := s.live.set i (events.addEvent ⟨priority,s.next⟩)
      next := s.next+1 }
  | .harvest i max split => do
    let events ← s.live[i]?
    let s := { s with live := s.live.set i (.new max) }
    if split then return (s.deliver events.split.1).deliver events.split.2
    else return s.deliver events
  | .failed i j => do
    let events ← s.live[i]?
    let other ← s.flying[j]?
    return { s with
      live := s.live.set i (events.mergeFailed other)
      flying := s.flying.eraseIdx j }
  | .delivered j => do
    let _ ← s.flying[j]?
    return { s with flying := s.flying.eraseIdx j }

omit [LT P] [DecidableLT P] in
/-- No failed merge lowers the count of its target. -/
def Counted (s : EventRetries P) : EventRetryEvent P → Prop
  | .failed i j => ∀ events other, s.live[i]? = some events → s.flying[j]? = some other →
      other.failedHarvests+1 ≤ Limits.failedEventsAttemptsLimit →
      events.failedHarvests ≤ other.failedHarvests+1
  | _ => True

inductive Run (ok : EventRetries P → EventRetryEvent P → Prop) : EventRetries P → Prop
  | init : Run ok initial
  | step {s s' : EventRetries P} (e : EventRetryEvent P) : Run ok s → ok s e → s.step e = some s' →
      Run ok s'

/-! ### Reservoirs as batches -/

def itemsOf (events : AnalyticsEvents P ℕ) : Set ℕ := { o | o ∈ ids events }

def failsOf (events : AnalyticsEvents P ℕ) : ℕ := events.failedHarvests

def batches (s : EventRetries P) : List (Batch ℕ) :=
  Batch.ofContainers itemsOf failsOf s.live s.flying

/-- The reservoirs are sound, and none has an event twice. -/
structure Sound (s : EventRetries P) : Prop where
  batches : Batch.Sound Limits.failedEventsAttemptsLimit { o | o < s.next } s.attempts s.batches
  nodup : ∀ events ∈ s.live ++ s.flying, (ids events).Nodup

section Steps
variable {s s' : EventRetries P} {e : EventRetryEvent P} {events : AnalyticsEvents P ℕ}

omit [LT P] [DecidableLT P] in
lemma initial_sound : (initial : EventRetries P).Sound where
  batches := by
    have hempty : { o | o < (initial : EventRetries P).next } = (∅ : Set ℕ) :=
      Set.eq_empty_of_forall_notMem fun o ho => Nat.not_lt_zero o ho
    rw [hempty]
    exact Batch.Sound.nil _
  nodup events hevents := by cases hevents

omit [LT P] [DecidableLT P] in
lemma itemsOf_new (max : ℕ) : itemsOf (.new max : AnalyticsEvents P ℕ) = ∅ :=
  Set.eq_empty_of_forall_notMem fun _ ho => List.not_mem_nil ho

omit [LT P] [DecidableLT P] in
lemma ids_subperm {es : List (AnalyticsEvent P ℕ)}
    (h : events.events.Subperm es) : (ids events).Subperm (es.map AnalyticsEvent.data) := by
  obtain ⟨l,hperm,hsub⟩ := h
  exact ⟨l.map AnalyticsEvent.data,hperm.map _,hsub.map _⟩

omit [LT P] [DecidableLT P] in
/-- What is known of the reservoirs after `live` and `flying` changed. -/
theorem nodup_set {live : List (AnalyticsEvents P ℕ)} {i : ℕ}
    (h : ∀ events ∈ live, (ids events).Nodup) (hevents : (ids events).Nodup) :
    ∀ events' ∈ live.set i events, (ids events').Nodup := by
  intro events' hmem
  rcases List.mem_or_eq_of_mem_set hmem with hmem | rfl
  · exact h events' hmem
  · exact hevents

omit [LT P] [DecidableLT P] in
/-- The events `x` and those of `events`, without doubles, keep none when some are lost. -/
theorem nodup_of_subperm {l m : List ℕ} (h : l.Subperm m) (hm : m.Nodup) : l.Nodup := by
  obtain ⟨k,hperm,hsub⟩ := h
  exact hperm.nodup_iff.mp (hm.sublist hsub)

lemma Sound.add (h : s.Sound) {i : ℕ} (hi : s.live[i]? = some events) (priority : P) : Sound { s with
      live := s.live.set i (events.addEvent ⟨priority,s.next⟩)
      next := s.next+1 } := by
  have hsub := ids_subperm (AnalyticsEvents.addEvent_subperm events ⟨priority,s.next⟩)
  have hlive := h.batches.perm (Batch.ofContainers_live hi)
  have hfresh : s.next ∉ ids events := fun hmem =>
    Nat.lt_irrefl _ (hlive.used_of_mem _ List.mem_cons_self hmem)
  have hmem : events ∈ s.live := List.mem_of_getElem? hi
  constructor
  · have hused : insert s.next { o | o < s.next } = { o | o < s.next+1 } := by
      ext o
      exact Nat.lt_succ_iff_lt_or_eq.trans or_comm |>.symm
    have hitems : itemsOf (events.addEvent ⟨priority,s.next⟩) ⊆ insert s.next (itemsOf events) := by
      intro o ho
      rcases List.mem_cons.mp (hsub.subset ho) with ho | ho
      · exact .inl ho
      · exact .inr ho
    have hadd := hlive.add (x := s.next) (fun hlt => Nat.lt_irrefl s.next hlt) hitems
    rw [hused] at hadd
    refine Batch.Sound.perm ?_ (Batch.ofContainers_set hi _).symm
    rw [Batch.ofContainer,failsOf,AnalyticsEvents.addEvent_failedHarvests]
    exact hadd
  · rw [List.forall_mem_append]
    refine ⟨nodup_set (fun e he => h.nodup e (List.mem_append_left _ he)) ?_,
      fun e he => h.nodup e (List.mem_append_right _ he)⟩
    refine nodup_of_subperm hsub (List.nodup_cons.mpr ⟨hfresh,?_⟩)
    exact h.nodup events (List.mem_append_left _ hmem)

omit [LT P] [DecidableLT P] in
/-- A reservoir is delivered, with `extra` still to be. -/
theorem deliver_batches {limit : ℕ} {used : Set ℕ} (extra : List (Batch ℕ))
    (h : Batch.Sound limit used s.attempts
      (Batch.ofContainer itemsOf failsOf false events :: (extra ++ s.batches))) :
    Batch.Sound limit used (s.deliver events).attempts (extra ++ (s.deliver events).batches) := by
  unfold deliver
  split
  · exact h.tail
  · refine Batch.Sound.perm (h.launch rfl (fun o ho => if_pos ho) fun o ho => if_neg ho) ?_
    have hpush : (Batch.ofContainer itemsOf failsOf true events :: s.batches).Perm
        (Batch.ofContainers itemsOf failsOf s.live (s.flying ++ [events])) :=
      (Batch.ofContainers_push events).symm
    exact List.perm_middle.symm.trans (List.Perm.append_left extra hpush)

omit [LT P] [DecidableLT P] in
lemma deliver_nodup (h : ∀ e ∈ s.live ++ s.flying, (ids e).Nodup) (hevents : (ids events).Nodup) :
    ∀ e ∈ (s.deliver events).live ++ (s.deliver events).flying, (ids e).Nodup := by
  unfold deliver
  split
  · exact h
  · intro e he
    rw [← List.append_assoc,List.mem_append,List.mem_singleton] at he
    rcases he with he | rfl
    · exact h e he
    · exact hevents

omit [LT P] [DecidableLT P] in
@[simp] lemma deliver_next (events : AnalyticsEvents P ℕ) : (s.deliver events).next = s.next := by
  unfold deliver
  split
  · rfl
  · rfl

omit [LT P] [DecidableLT P] in
lemma ids_split (events : AnalyticsEvents P ℕ) :
    ids events.split.1 ++ ids events.split.2 = ids events := by
  simp [ids,AnalyticsEvents.split]

omit [LT P] [DecidableLT P] in
/-- The reservoir is taken, with a new one in its place. -/
theorem taken_sound (h : s.Sound) {i : ℕ} (hi : s.live[i]? = some events) (max : ℕ) :
    Batch.Sound Limits.failedEventsAttemptsLimit { o | o < s.next } s.attempts
      (Batch.ofContainer itemsOf failsOf false events ::
        batches { s with live := s.live.set i (.new max) }) ∧
      ∀ e ∈ s.live.set i (.new max) ++ s.flying, (ids e).Nodup := by
  constructor
  · refine Batch.Sound.perm ?_ ((Batch.ofContainers_set hi _).symm.cons _)
    refine Batch.Sound.perm ?_ (List.Perm.swap _ _ _)
    have hnew : Batch.ofContainer itemsOf failsOf false (.new max : AnalyticsEvents P ℕ) =
        ⟨∅,0,false⟩ := by
      rw [Batch.ofContainer,itemsOf_new]
      rfl
    rw [hnew]
    exact (h.batches.perm (Batch.ofContainers_live hi)).empty
  · rw [List.forall_mem_append]
    exact ⟨nodup_set (fun e he => h.nodup e (List.mem_append_left _ he)) List.nodup_nil,
      fun e he => h.nodup e (List.mem_append_right _ he)⟩

lemma Sound.harvest (h : s.Sound) {i max : ℕ} {split : Bool}
    (heq : s.step (.harvest i max split) = some s') : s'.Sound := by
  obtain ⟨events,hi,heq⟩ := Option.bind_eq_some_iff.mp heq
  obtain ⟨htaken,hnodup⟩ := taken_sound h hi max
  have hids : (ids events).Nodup := h.nodup events (List.mem_append_left _ (List.mem_of_getElem? hi))
  cases split with
  | false =>
    cases heq
    constructor
    · rw [deliver_next]
      exact deliver_batches [] htaken
    · exact deliver_nodup hnodup hids
  | true =>
    cases heq
    rw [← ids_split events,List.nodup_append] at hids
    obtain ⟨hnodup₁,hnodup₂,hdisj⟩ := hids
    have hsub₁ : itemsOf events.split.1 ⊆ itemsOf events := by
      intro o ho
      rw [itemsOf,Set.mem_ofPred_eq,← ids_split]
      exact List.mem_append_left _ ho
    have hsub₂ : itemsOf events.split.2 ⊆ itemsOf events := by
      intro o ho
      rw [itemsOf,Set.mem_ofPred_eq,← ids_split]
      exact List.mem_append_right _ ho
    have hsplit := htaken.split (Batch.ofContainer itemsOf failsOf false events.split.1)
      (Batch.ofContainer itemsOf failsOf false events.split.2) hsub₁ hsub₂
      (Set.disjoint_left.mpr fun o ho₁ ho₂ => hdisj o ho₁ o ho₂ rfl) rfl rfl rfl rfl
    have hfirst := deliver_batches (s := { s with live := s.live.set i (.new max) })
      [Batch.ofContainer itemsOf failsOf false events.split.2] hsplit
    constructor
    · rw [deliver_next,deliver_next]
      exact deliver_batches [] hfirst
    · exact deliver_nodup (deliver_nodup hnodup hnodup₁) hnodup₂

lemma Sound.failed (h : s.Sound) {i j : ℕ} {events other : AnalyticsEvents P ℕ}
    (hi : s.live[i]? = some events) (hj : s.flying[j]? = some other)
    (hok : other.failedHarvests+1 ≤ Limits.failedEventsAttemptsLimit →
      events.failedHarvests ≤ other.failedHarvests+1) : Sound { s with
      live := s.live.set i (events.mergeFailed other)
      flying := s.flying.eraseIdx j } := by
  have hboth := ((h.batches.perm (Batch.ofContainers_live hi)).perm
    ((Batch.ofContainers_flying hj).cons _)).perm (List.Perm.swap _ _ _)
  have hlive : ∀ e ∈ s.live, (ids e).Nodup := fun e he => h.nodup e (List.mem_append_left _ he)
  have hflying : ∀ e ∈ s.flying.eraseIdx j, (ids e).Nodup := fun e he =>
    h.nodup e (List.mem_append_right _ (List.mem_of_mem_eraseIdx he))
  by_cases hlimit : other.failedHarvests+1 ≤ Limits.failedEventsAttemptsLimit
  · obtain ⟨hsub,hfails⟩ := events.mergeFailed_spec other hlimit
    have hids := ids_subperm hsub
    rw [List.map_append] at hids
    constructor
    · refine Batch.Sound.perm ?_ (Batch.ofContainers_set hi _).symm
      rw [Batch.ofContainer,failsOf,hfails]
      refine hboth.land rfl rfl (fun o ho => ?_) (hok hlimit) hlimit
      exact List.mem_append.mp (hids.subset ho)
    · rw [List.forall_mem_append]
      refine ⟨nodup_set hlive (nodup_of_subperm hids (List.nodup_append.mpr ⟨?_,?_,?_⟩)),hflying⟩
      · exact hlive events (List.mem_of_getElem? hi)
      · exact h.nodup other (List.mem_append_right _ (List.mem_of_getElem? hj))
      · rintro o ho _ ho' rfl
        exact Set.disjoint_left.mp (hboth.disjoint_head _ List.mem_cons_self) ho' ho
  · have hsame : events.mergeFailed other = events := by
      simp [AnalyticsEvents.mergeFailed,not_le.mp hlimit]
    rw [hsame]
    constructor
    · exact hboth.tail.perm (Batch.ofContainers_set hi _).symm
    · rw [List.forall_mem_append]
      exact ⟨nodup_set hlive (hlive events (List.mem_of_getElem? hi)),hflying⟩

lemma step_sound (h : s.Sound) (hok : s.Counted e) (heq : s.step e = some s') : s'.Sound := by
  cases e with
  | newEvents max =>
    cases heq
    constructor
    · refine Batch.Sound.perm ?_ (Batch.ofContainers_new _).symm
      rw [Batch.ofContainer,itemsOf_new]
      exact h.batches.empty
    · intro events hevents
      simp only [List.append_assoc,List.mem_append,List.mem_singleton] at hevents
      rcases hevents with hevents | rfl | hevents
      · exact h.nodup events (List.mem_append_left _ hevents)
      · exact List.nodup_nil
      · exact h.nodup events (List.mem_append_right _ hevents)
  | add i priority =>
    obtain ⟨events,hi,heq⟩ := Option.bind_eq_some_iff.mp heq
    cases heq
    exact h.add hi priority
  | harvest i max split => exact h.harvest heq
  | failed i j =>
    obtain ⟨events,hi,heq⟩ := Option.bind_eq_some_iff.mp heq
    obtain ⟨other,hj,heq⟩ := Option.bind_eq_some_iff.mp heq
    cases heq
    exact h.failed hi hj (hok events other hi hj)
  | delivered j =>
    obtain ⟨events,hj,heq⟩ := Option.bind_eq_some_iff.mp heq
    cases heq
    constructor
    · exact (h.batches.perm (Batch.ofContainers_flying hj)).tail
    · rw [List.forall_mem_append]
      exact ⟨fun e he => h.nodup e (List.mem_append_left _ he),fun e he =>
        h.nodup e (List.mem_append_right _ (List.mem_of_mem_eraseIdx he))⟩

lemma Run.sound (h : Run Counted s) : s.Sound := by
  induction h with
  | init => exact initial_sound
  | step e _ hok heq ih => exact step_sound ih hok heq

end Steps
end EventRetries

/-- In runs that lose no count, no observation is part of more than six deliveries of metrics and no
event of more than eleven. -/
theorem counted_runs_bounded {P : Type} [LT P] [DecidableLT P] :
    (∀ s, MetricRetries.Run MetricRetries.Counted s →
      ∀ o, s.attempts o ≤ Limits.failedMetricAttemptsLimit+1) ∧
    ∀ s : EventRetries P, EventRetries.Run EventRetries.Counted s →
      ∀ o, s.attempts o ≤ Limits.failedEventsAttemptsLimit+1 :=
  ⟨fun _ h => h.sound.bounded,fun _ h => h.sound.batches.bounded⟩

/-- A rule that matches nothing. -/
def idleRule : MetricRule :=
  ⟨false,false,false,false,0,[],ascii "^$",[],⟨fun _ _ => none,[],fun _ => false⟩⟩

/-- A metric whose first delivery, after a rule was applied, has failed is delivered again. -/
theorem counted_runs_bounded_retried : ∃ s, MetricRetries.Run MetricRetries.Counted s ∧
    s.attempts 0 = 2 ∧ s.attempts 0 ≤ Limits.failedMetricAttemptsLimit+1 := by
  have hrun : ∃ s, MetricRetries.Run MetricRetries.Counted s ∧ s.attempts 0 = 2 := by
    have created : MetricRetries.Run MetricRetries.Counted _ := .step (.newTable 10 0) .init trivial rfl
    have added := MetricRetries.Run.step (.add 0 none (ascii "m") [] .forced) created trivial rfl
    have harvested := MetricRetries.Run.step (.harvest 0 [idleRule] [⟨ascii "m",[]⟩] 0) added
      (fun mt hmt => .inr (by cases hmt; rfl)) rfl
    have failed := MetricRetries.Run.step (.failed 0 0 [⟨ascii "m",[]⟩]) harvested
      (fun mt src hmt hsrc _ => by cases hmt; cases hsrc; exact Nat.zero_le _) rfl
    exact ⟨_,MetricRetries.Run.step (.harvest 0 [] [⟨ascii "m",[]⟩] 0) failed (fun _ _ => .inl rfl) rfl,rfl⟩
  obtain ⟨s,hrun,htwice⟩ := hrun
  exact ⟨s,hrun,htwice,(counted_runs_bounded (P := ℤ)).1 s hrun 0⟩

/-- Harvests with a rule and failed deliveries, in turn. -/
def failingHarvests : ℕ → List MetricRetryEvent
  | 0 => []
  | n+1 => [.harvest 0 [idleRule] [⟨ascii "m",[]⟩] 0,.failed 0 0 [⟨ascii "m",[]⟩]] ++
      failingHarvests n

/-- Applying a rule forgets the failed deliveries. -/
theorem rules_forget_attempts :
    ¬ ((∀ s, MetricRetries.Run (fun _ _ => True) s →
        ∀ o, s.attempts o ≤ Limits.failedMetricAttemptsLimit+1) ∧
      ∀ s : EventRetries ℤ, EventRetries.Run (fun _ _ => True) s →
        ∀ o, s.attempts o ≤ Limits.failedEventsAttemptsLimit+1) := by
  rintro ⟨h,-⟩
  have hrun : ∃ s, MetricRetries.exec
      ([.newTable 10 0,.add 0 none (ascii "m") [] .forced] ++ failingHarvests 7)
        MetricRetries.initial = some s ∧ s.attempts 0 = 7 := ⟨_,rfl,rfl⟩
  obtain ⟨s,hexec,hseven⟩ := hrun
  have hle := h s (MetricRetries.Run.init.of_exec hexec) 0
  rw [hseven] at hle
  exact absurd hle (by decide)

end PhpAgent
