import PhpAgent.Util.MinmaxHeapCorrect
import PhpAgent.Util.Vector

/-! The pool of log events of a transaction: a bounded heap by priority, with a counter beside it. -/
namespace PhpAgent
open MinmaxHeap

/-- A log event; its texts and attributes are the body. -/
structure LogEvent (β : Type) where
  timestamp : ℕ
  priority : ℤ
  body : β
  deriving DecidableEq, Inhabited

namespace LogEvent
variable {β : Type}

def ageComparator (a b : LogEvent β) : ℤ :=
  if a.timestamp < b.timestamp then -1 else if b.timestamp < a.timestamp then 1 else 0

def priorityComparator (a b : LogEvent β) : ℤ :=
  if b.priority < a.priority then 1
  else if a.priority < b.priority then -1
  else ageComparator a b

/-- Priority first, then age. -/
def priorityKey (e : LogEvent β) : ℤ ×ₗ ℕ := toLex (e.priority,e.timestamp)

lemma priorityComparator_le (a b : LogEvent β) :
    priorityComparator a b ≤ 0 ↔ a.priorityKey ≤ b.priorityKey := by
  rw [priorityKey,priorityKey,Prod.Lex.toLex_le_toLex]
  unfold priorityComparator ageComparator
  split_ifs <;> simp only <;> omega

lemma priorityComparator_pos (a b : LogEvent β) :
    0 < priorityComparator a b ↔ priorityComparator b a < 0 := by
  unfold priorityComparator ageComparator
  split_ifs <;> omega

lemma isComparator_priorityComparator : IsComparator (priorityComparator (β := β)) :=
  isComparator_of_key priorityKey priorityComparator_le priorityComparator_pos

lemma priority_le_of_comparator {a b : LogEvent β} (h : priorityComparator a b ≤ 0) :
    a.priority ≤ b.priority := by
  rw [priorityComparator_le,priorityKey,priorityKey,Prod.Lex.toLex_le_toLex] at h
  rcases h with hlt | ⟨heq,-⟩
  · exact hlt.le
  · exact heq.le

end LogEvent

/-- `events` is NULL for a pool without a heap. -/
structure LogEvents (β : Type) where
  eventsAllocated : ℕ
  eventsUsed : ℕ
  eventsSeen : ℕ
  events : Option (MinmaxHeap (LogEvent β))

namespace LogEvents
variable {β : Type} [Inhabited β] {destroyed : List (LogEvent β)} {events : LogEvents β}
  {heap : MinmaxHeap (LogEvent β)}

/-- `NR_MAX_LOG_EVENTS_MAX_SAMPLES_STORED` -/
def maxSamplesStored : ℕ := 20000

def create (maxEvents : ℕ) : Option (LogEvents β) :=
  if maxSamplesStored < maxEvents then none
  else some
    { eventsAllocated := maxEvents
      eventsUsed := 0
      eventsSeen := 0
      events := if maxEvents ≠ 0 then MinmaxHeap.create maxEvents else none }

def numberSeen (events : Option (LogEvents β)) : ℕ := events.elim 0 eventsSeen
def numberSaved (events : Option (LogEvents β)) : ℕ := events.elim 0 eventsUsed

def isSampling (events : Option (LogEvents β)) : Bool :=
  match events with
  | none => false
  | some events => !decide (events.eventsUsed < events.eventsAllocated)

/-- Add an event to a pool, either of which may be NULL: the answer, the pool and the events that were
destroyed, oldest first. A pool of size 0 drops the event, and so does one without a heap. -/
def addEvent (events : Option (LogEvents β)) (event : Option (LogEvent β))
    (destroyed : List (LogEvent β)) : Option (Bool × Option (LogEvents β) × List (LogEvent β)) :=
  match event with
  | none => some (false,events,destroyed)
  | some event =>
    match events with
    | none => some (true,none,destroyed ++ [event])
    | some events =>
      let events := { events with eventsSeen := events.eventsSeen+1 }
      match events.events with
      | none => some (true,some events,destroyed ++ [event])
      | some heap =>
        if events.eventsAllocated = 0 then some (true,some events,destroyed ++ [event])
        else do
          let eventsSampled := isSampling (some events)
          let (heap,destroyed) ← heap.insert (fun _ => LogEvent.priorityComparator)
            (fun event destroyed => some (destroyed ++ [event])) event destroyed
          return (eventsSampled,
            some { events with
              events := some heap
              eventsUsed := if eventsSampled then events.eventsUsed else events.eventsUsed+1 },
            destroyed)

/-- Push the events of the pool on a vector, in the order of the heap's slots. -/
def toVector (events : Option (LogEvents β)) (vector : NrVector (LogEvent β)) :
    Option (NrVector (LogEvent β)) :=
  match events.bind LogEvents.events with
  | none => some vector
  | some heap => heap.iterate.map fun values => values.foldl NrVector.pushBack vector

/-- One event after the other. -/
def addEvents (events : Option (LogEvents β)) (given : List (LogEvent β)) :
    Option (Option (LogEvents β) × List (LogEvent β)) :=
  given.foldlM (fun st event => (addEvent st.1 (some event) st.2).map Prod.snd) (events,[])

/-- What is to hold of a pool of size `maxEvents` that was given the events: the counters, and what it
delivers, which with the rest makes up what was given, nothing of the rest having a higher
priority. -/
structure Samples (maxEvents : ℕ) (given : List (LogEvent β)) (events : Option (LogEvents β))
    (vector : NrVector (LogEvent β)) : Prop where
  seen : numberSeen events = given.length
  saved : numberSaved events = min given.length maxEvents
  delivers : ∃ delivered rest vector', toVector events vector = some vector' ∧
    vector'.elements = vector.elements ++ delivered ∧ delivered.length = numberSaved events ∧
    (delivered : Multiset (LogEvent β))+rest = given ∧
    ∀ x ∈ delivered, ∀ y ∈ rest, y.priority ≤ x.priority

/-! ### A pool with a heap -/

/-- A pool of size `b` with a heap: the counter is the size of the heap, and the heap has kept the
best of what it was given. -/
structure Sampling (b : ℕ) (given : Multiset (LogEvent β)) (events : LogEvents β)
    (heap : MinmaxHeap (LogEvent β)) (destroyed : List (LogEvent β)) : Prop where
  allocated : events.eventsAllocated = b
  heap_eq : events.events = some heap
  used_eq : events.eventsUsed = heap.used
  keeps : KeepsBest LogEvent.priorityComparator b given heap destroyed

/-- An event given to a pool with a heap is counted, and kept or destroyed by the heap. -/
theorem Sampling.addEvent {b : ℕ} (hb : 2 ≤ b) {given : Multiset (LogEvent β)}
    (h : Sampling b given events heap destroyed) (event : LogEvent β) :
    ∃ sampled events' heap' destroyed',
      LogEvents.addEvent (some events) (some event) destroyed =
        some (sampled,some events',destroyed') ∧
      events'.eventsSeen = events.eventsSeen+1 ∧
      Sampling b (event ::ₘ given) events' heap' destroyed' := by
  obtain ⟨hsize,hheap,hused,hkeeps⟩ := h
  obtain ⟨heap',destroyed',hins,hkeeps'⟩ :=
    hkeeps.insert LogEvent.isComparator_priorityComparator hb event
  have hold := hkeeps.used_eq hb
  have hnew := hkeeps'.used_eq hb
  rw [Multiset.card_cons] at hnew
  have hpos : events.eventsAllocated ≠ 0 := by omega
  refine ⟨!decide (events.eventsUsed < events.eventsAllocated),{ events with
      events := some heap'
      eventsSeen := events.eventsSeen+1
      eventsUsed := if !decide (events.eventsUsed < events.eventsAllocated) then events.eventsUsed
        else events.eventsUsed+1 },heap',destroyed',?_,rfl,⟨hsize,rfl,?_,hkeeps'⟩⟩
  · simp only [LogEvents.addEvent,hheap,if_neg hpos,hins,Option.bind_eq_bind,Option.bind_some,
      Option.pure_def,isSampling]
    rfl
  · -- The counter is left alone exactly when the heap was full.
    simp only [Bool.not_eq_true',decide_eq_false_iff_not]
    split_ifs <;> omega

lemma Sampling.addEvents {b : ℕ} (hb : 2 ≤ b) (l : List (LogEvent β))
    {given : Multiset (LogEvent β)} (h : Sampling b given events heap destroyed) :
    ∃ events' heap' destroyed', l.foldlM (fun st event =>
        (LogEvents.addEvent st.1 (some event) st.2).map Prod.snd) (some events,destroyed) =
          some (some events',destroyed') ∧
      events'.eventsSeen = events.eventsSeen+l.length ∧
      Sampling b (given+(l : Multiset (LogEvent β))) events' heap' destroyed' := by
  induction l generalizing given events heap destroyed with
  | nil => exact ⟨events,heap,destroyed,rfl,rfl,by simpa using h⟩
  | cons event l ih =>
    obtain ⟨sampled,events₁,heap₁,destroyed₁,hadd,hseen₁,h₁⟩ := h.addEvent hb event
    obtain ⟨events₂,heap₂,destroyed₂,hrun,hseen₂,h₂⟩ := ih h₁
    refine ⟨events₂,heap₂,destroyed₂,?_,?_,?_⟩
    · simpa [List.foldlM_cons,hadd] using hrun
    · rw [hseen₂,hseen₁,List.length_cons]
      omega
    · rwa [← Multiset.cons_coe,Multiset.add_cons,← Multiset.cons_add]

omit [Inhabited β] in
lemma elements_foldl_pushBack (values : List (LogEvent β)) (vector : NrVector (LogEvent β)) :
    (values.foldl NrVector.pushBack vector).elements = vector.elements ++ values := by
  induction values generalizing vector with
  | nil => simp
  | cons value values ih => simp [ih]

omit [Inhabited β] in
/-- What a pool with a heap delivers. -/
theorem Sampling.samples {b : ℕ} (hb : 2 ≤ b) {given : List (LogEvent β)}
    (h : Sampling b given events heap destroyed) (hseen : events.eventsSeen = given.length)
    (vector : NrVector (LogEvent β)) : Samples b given (some events) vector := by
  obtain ⟨-,hheap,hused,hkeeps⟩ := h
  have hcount := hkeeps.used_eq hb
  rw [Multiset.coe_card] at hcount
  obtain ⟨values,hiter,hvalues⟩ := hkeeps.valid.iterate_spec
  have hlength : values.length = heap.used := by
    rw [← card_stored,← hvalues,Multiset.coe_card]
  refine ⟨hseen,hused.trans hcount,values,destroyed,_,?_,elements_foldl_pushBack values vector,
    hlength.trans hused.symm,?_,?_⟩
  · simp only [toVector,Option.bind_some,hheap,hiter,Option.map_some]
  · rw [hvalues]
    exact hkeeps.partition
  · intro x hx y hy
    apply LogEvent.priority_le_of_comparator
    apply hkeeps.best x _ y hy
    rw [← hvalues]
    exact Multiset.mem_coe.mpr hx

/-! ### A pool without a heap -/

/-- Without a heap every event is counted and destroyed. -/
theorem addEvents_heapless (l : List (LogEvent β))
    (hheap : events.events = none) (destroyed : List (LogEvent β)) :
    l.foldlM (fun st event => (addEvent st.1 (some event) st.2).map Prod.snd)
        (some events,destroyed) =
      some (some { events with eventsSeen := events.eventsSeen+l.length },destroyed ++ l) := by
  induction l generalizing events destroyed with
  | nil => simp
  | cons event l ih =>
    have hstep : (addEvent (some events) (some event) destroyed).map Prod.snd =
        some (some { events with eventsSeen := events.eventsSeen+1 },destroyed ++ [event]) := by
      simp only [addEvent,hheap,Option.map_some]
    rw [List.foldlM_cons,hstep]
    simp only [Option.bind_eq_bind,Option.bind_some]
    rw [ih (by exact hheap)]
    simp only [List.length_cons,List.append_assoc,List.singleton_append]
    congr 4
    omega

/-- The heap refuses to be created for one event only, which the pool does not notice. -/
theorem addEvents_create {m : ℕ} (hm : m ≤ maxSamplesStored) (given : List (LogEvent β)) :
    ∃ events destroyed, addEvents (create m) given = some (events,destroyed) ∧
      ∀ vector, Samples m given events vector ↔ m ≠ 1 ∨ given = [] := by
  have hcreate : create m = some (⟨m,0,0,if m ≠ 0 then MinmaxHeap.create m else none⟩ :
      LogEvents β) := if_neg (not_lt.mpr hm)
  rw [addEvents,hcreate]
  by_cases hb : 2 ≤ m
  · obtain ⟨heap,hheap,hv,hbound,hused⟩ := create_spec (α := LogEvent β)
      LogEvent.priorityComparator m (by omega)
    have hstored : heap.stored = 0 := by simp [stored,hused]
    have h₀ : Sampling m (0 : Multiset (LogEvent β)) ⟨m,0,0,some heap⟩ heap [] :=
      ⟨rfl,rfl,hused.symm,hv,hbound,by simp [hstored],fun hne => absurd rfl hne,by simp⟩
    obtain ⟨events,heap',destroyed,hrun,hseen,h⟩ := h₀.addEvents hb given
    rw [zero_add] at h hseen
    rw [if_pos (by omega),hheap]
    exact ⟨_,destroyed,hrun,fun vector =>
      ⟨fun _ => .inl (by omega),fun _ => h.samples hb hseen vector⟩⟩
  · have hnone : (if m ≠ 0 then MinmaxHeap.create m else none : Option (MinmaxHeap (LogEvent β))) =
        none := by
      split_ifs with h
      · simp [MinmaxHeap.create,show m = 1 by omega]
      · rfl
    rw [hnone,addEvents_heapless given rfl []]
    refine ⟨_,_,rfl,fun vector => ⟨fun h => ?_,fun h => ?_⟩⟩
    · -- Nothing was saved, so there was nothing to save.
      have hsaved : 0 = min given.length m := h.saved
      rw [← List.length_eq_zero_iff]
      omega
    · have hzero : min given.length m = 0 := by
        rcases h with h | h
        · omega
        · simp [h]
      exact ⟨by simp [numberSeen],by simp [numberSaved,hzero],[],given,vector,rfl,by simp,
        by simp [numberSaved],by simp,by simp⟩

/-- Giving events to a fresh pool counts them all, saves as many as the pool may hold, and delivers the
saved ones, none of the others having a higher priority, exactly when the pool is not of size 1 or
nothing was given. -/
theorem addEvents_samples_iff {m : ℕ} (hm : m ≤ maxSamplesStored) (given : List (LogEvent β))
    (vector : NrVector (LogEvent β)) :
    (∃ events destroyed, addEvents (create m) given = some (events,destroyed) ∧
      Samples m given events vector) ↔ m ≠ 1 ∨ given = [] := by
  obtain ⟨events,destroyed,hrun,hiff⟩ := addEvents_create hm given
  rw [← hiff vector]
  constructor
  · rintro ⟨events',destroyed',hrun',h⟩
    obtain ⟨rfl,rfl⟩ := Prod.mk.inj (Option.some.inj (hrun.symm.trans hrun'))
    exact h
  · exact fun h => ⟨events,destroyed,hrun,h⟩

theorem samples_two_of_three :
    2 ≤ maxSamplesStored ∧ ∃ events destroyed,
      addEvents (create 2) [⟨5,1,"a"⟩,⟨6,3,"b"⟩,⟨7,2,"c"⟩] = some (events,destroyed) ∧
      Samples 2 [⟨5,1,"a"⟩,⟨6,3,"b"⟩,⟨7,2,"c"⟩] events (NrVector.init 8) :=
  ⟨by decide,(addEvents_samples_iff (by decide) _ _).mpr (.inl (by decide))⟩

/-- A pool for one event saves none. -/
theorem not_addEvents_samples :
    ¬ ∀ (m : ℕ) (given : List (LogEvent String)) (vector : NrVector (LogEvent String)),
      m ≤ maxSamplesStored → ∃ events destroyed,
        addEvents (create m) given = some (events,destroyed) ∧ Samples m given events vector := by
  intro h
  obtain ⟨events,destroyed,hrun,hsamples⟩ := h 1 [⟨5,1,"a"⟩] (NrVector.init 8) (by decide)
  have hevents : events = some ⟨1,0,1,none⟩ := (congrArg Prod.fst (Option.some.inj hrun)).symm
  have hsaved := hsamples.saved
  rw [hevents] at hsaved
  exact absurd hsaved (by decide)

end LogEvents
end PhpAgent
