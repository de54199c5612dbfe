import PhpAgent.Lib.ContainerHeap
import PhpAgent.Daemon.Collector

/-! The event reservoirs of the daemon, after `analytics_events.go`. The data of an event is only
ever copied, and its priority only compared. -/
namespace PhpAgent

structure AnalyticsEvent (P A : Type) where
  priority : P
  data : A
deriving DecidableEq

/-- `analyticsEvents`; `cap` is the capacity of its slice of events. -/
structure AnalyticsEvents (P A : Type) where
  numSeen : ℕ
  events : List (AnalyticsEvent P A)
  cap : ℕ
  failedHarvests : ℕ
deriving DecidableEq

namespace AnalyticsEvents
variable {P A : Type}

/-- `newAnalyticsEvents`. -/
def new (max : ℕ) : AnalyticsEvents P A := ⟨0,[],max,0⟩

def empty (events : AnalyticsEvents P A) : Bool := events.events.length = 0

/-- The two halves, each as long as its capacity. -/
def split (events : AnalyticsEvents P A) : AnalyticsEvents P A × AnalyticsEvents P A :=
  let half := events.events.length/2
  let rest := events.events.length-half
  (⟨half,events.events.take half,half,events.failedHarvests⟩,
    ⟨rest,events.events.drop half,rest,events.failedHarvests⟩)

section Adding
variable [LT P] [DecidableLT P]

/-- `IsLowerPriority`, between events. -/
def isLowerPriority (x y : AnalyticsEvent P A) : Bool := x.priority < y.priority

def addEvent (events : AnalyticsEvents P A) (e : AnalyticsEvent P A) : AnalyticsEvents P A :=
  let events := { events with numSeen := events.numSeen+1 }
  if events.events.length < events.cap then
    let pushed := events.events ++ [e]
    if pushed.length = events.cap then
      { events with events := ContainerHeap.init isLowerPriority pushed }
    else { events with events := pushed }
  else if events.cap = 0 then events
  else
    match events.events with
    | [] => events
    | least :: _ =>
      if isLowerPriority e least then events
      else
        { events with
          events := ContainerHeap.push isLowerPriority
            (ContainerHeap.pop isLowerPriority events.events) e }

def merge (events other : AnalyticsEvents P A) : AnalyticsEvents P A :=
  let allSeen := events.numSeen+other.numSeen
  { other.events.foldl addEvent events with numSeen := allSeen }

def mergeFailed (events other : AnalyticsEvents P A) : AnalyticsEvents P A :=
  let fails := other.failedHarvests+1
  if Limits.failedEventsAttemptsLimit < fails then events
  else { events with failedHarvests := fails }.merge other

lemma addEvent_subperm (events : AnalyticsEvents P A) (e : AnalyticsEvent P A) :
    (events.addEvent e).events.Subperm (e :: events.events) := by
  have hpushed : (events.events ++ [e]).Subperm (e :: events.events) :=
    (List.perm_append_singleton e events.events).subperm
  have hsame : events.events.Subperm (e :: events.events) := (List.sublist_cons_self _ _).subperm
  unfold addEvent
  simp only
  split
  · split
    · exact (ContainerHeap.init_perm _ _).subperm.trans hpushed
    · exact hpushed
  · split
    · exact hsame
    · split
      · exact hsame
      · split
        · exact hsame
        · refine (ContainerHeap.push_perm _ _ _).subperm.trans ?_
          exact (List.subperm_cons e).mpr (ContainerHeap.pop_subperm _ _)

/-- Apart from the events themselves, `AddEvent` only counts. -/
theorem addEvent_frame (events : AnalyticsEvents P A) (e : AnalyticsEvent P A) :
    ∃ kept, events.addEvent e = { events with numSeen := events.numSeen+1, events := kept } := by
  unfold addEvent
  simp only
  split
  · split
    · exact ⟨_,rfl⟩
    · exact ⟨_,rfl⟩
  · split
    · exact ⟨_,rfl⟩
    · split
      · exact ⟨_,rfl⟩
      · split
        · exact ⟨_,rfl⟩
        · exact ⟨_,rfl⟩

@[simp] lemma addEvent_failedHarvests (events : AnalyticsEvents P A) (e : AnalyticsEvent P A) :
    (events.addEvent e).failedHarvests = events.failedHarvests := by
  obtain ⟨kept,h⟩ := addEvent_frame events e
  rw [h]

@[simp] lemma addEvent_cap (events : AnalyticsEvents P A) (e : AnalyticsEvent P A) :
    (events.addEvent e).cap = events.cap := by
  obtain ⟨kept,h⟩ := addEvent_frame events e
  rw [h]

@[simp] lemma addEvent_numSeen (events : AnalyticsEvents P A) (e : AnalyticsEvent P A) :
    (events.addEvent e).numSeen = events.numSeen+1 := by
  obtain ⟨kept,h⟩ := addEvent_frame events e
  rw [h]

lemma foldl_addEvent (es : List (AnalyticsEvent P A)) (events : AnalyticsEvents P A) :
    (es.foldl addEvent events).events.Subperm (events.events ++ es) ∧
      (es.foldl addEvent events).failedHarvests = events.failedHarvests := by
  induction es generalizing events with
  | nil =>
    rw [List.append_nil]
    exact ⟨List.Subperm.refl _,rfl⟩
  | cons e es ih =>
    obtain ⟨hsub,hfails⟩ := ih (events.addEvent e)
    refine ⟨hsub.trans ?_,hfails.trans (addEvent_failedHarvests events e)⟩
    refine ((addEvent_subperm events e).append (List.Subperm.refl es)).trans ?_
    exact (List.perm_middle.symm).subperm

/-- A failed merge that is made: where its events come from, and its count. -/
theorem mergeFailed_spec (events other : AnalyticsEvents P A)
    (hlimit : other.failedHarvests+1 ≤ Limits.failedEventsAttemptsLimit) :
    (events.mergeFailed other).events.Subperm (events.events ++ other.events) ∧
      (events.mergeFailed other).failedHarvests = other.failedHarvests+1 := by
  unfold mergeFailed
  simp only [not_lt.mpr hlimit,if_false]
  exact foldl_addEvent other.events { events with failedHarvests := other.failedHarvests+1 }

end Adding
end AnalyticsEvents
end PhpAgent
