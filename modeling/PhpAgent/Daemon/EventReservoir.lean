import PhpAgent.Lib.Reservoir
import PhpAgent.Daemon.AnalyticsEvents

/-! What a reservoir of events keeps, over any history of additions and merges. -/
namespace PhpAgent
variable {P A : Type}

/-- How a reservoir came to be: made with a capacity, then given events and other reservoirs. -/
inductive Feed (P A : Type) where
  | new (max : ℕ)
  | addEvent (feed : Feed P A) (e : AnalyticsEvent P A)
  | merge (feed other : Feed P A)

namespace Feed

def max : Feed P A → ℕ
  | .new max => max
  | .addEvent feed _ => feed.max
  | .merge feed _ => feed.max

/-- The capacities of the reservoirs that were merged, and of those merged into them. -/
def merged : Feed P A → List ℕ
  | .new _ => []
  | .addEvent feed _ => feed.merged
  | .merge feed other => feed.merged ++ other.max :: other.merged

/-- The events added to the reservoir or to a merged one, each addition an event of its own. -/
def added : Feed P A → List (AnalyticsEvent P A)
  | .new _ => []
  | .addEvent feed e => e :: feed.added
  | .merge feed other => other.added ++ feed.added

def reservoir [LT P] [DecidableLT P] : Feed P A → AnalyticsEvents P A
  | .new max => .new max
  | .addEvent feed e => feed.reservoir.addEvent e
  | .merge feed other => feed.reservoir.merge other.reservoir

end Feed

namespace AnalyticsEvents
variable [LinearOrder P]

lemma isLowerPriority_eq (x y : AnalyticsEvent P A) :
    isLowerPriority x y = decide (x.priority < y.priority) := rfl

/-- A reservoir that has kept enough of the events `all`; its heap is in order once it is full. -/
structure Keeps (c : ℕ) (all : List (AnalyticsEvent P A)) (events : AnalyticsEvents P A) :
    Prop where
  within : events.events.length ≤ events.cap
  covers : Covers AnalyticsEvent.priority c all events.events
  heap : events.events.length = events.cap → ContainerHeap.Heap isLowerPriority events.events

variable {c : ℕ} {all : List (AnalyticsEvent P A)} {events : AnalyticsEvents P A}

lemma Keeps.perm (h : Keeps c all events) {all' : List (AnalyticsEvent P A)}
    (hperm : all'.Perm all) : Keeps c all' events := by
  obtain ⟨lost,hall,hlost⟩ := h.covers
  exact ⟨h.within,⟨lost,hperm.trans hall,hlost⟩,h.heap⟩

lemma keeps_addEvent (h : Keeps c all events) (hcap : c ≤ events.cap) (e : AnalyticsEvent P A) :
    Keeps c (e :: all) (events.addEvent e) := by
  have hpushed : Covers AnalyticsEvent.priority c (e :: all) (events.events ++ [e]) :=
    (h.covers.keep e).perm (List.perm_append_singleton e events.events)
  unfold addEvent
  simp only
  split
  · rename_i hroom
    have hlen : (events.events ++ [e]).length = events.events.length+1 := by simp
    split
    · rename_i hfull
      have hperm := ContainerHeap.init_perm isLowerPriority (events.events ++ [e])
      refine ⟨?_,hpushed.perm hperm,?_⟩
      · rw [hperm.length_eq,hfull]
      · intro _
        exact ContainerHeap.init_heap isLowerPriority_eq _
    · rename_i hnot
      refine ⟨?_,hpushed,?_⟩
      · rw [hlen]
        exact hroom
      · intro hfull
        exact absurd hfull hnot
  · rename_i hroom
    have hfull : events.events.length = events.cap := le_antisymm h.within (not_lt.mp hroom)
    split
    · rename_i hzero
      have hc : c = 0 := by omega
      exact ⟨h.within,h.covers.refuse (hc ▸ Nat.zero_le _),h.heap⟩
    · rename_i hzero
      split
      · rename_i hnil
        rw [hnil] at hfull
        exact absurd hfull.symm hzero
      · rename_i least rest hevents
        have hheap := h.heap hfull
        rw [hevents] at hheap
        have hroot := ContainerHeap.heap_root isLowerPriority_eq hheap
        have hlen : rest.length+1 = events.cap := by
          rw [← hfull,hevents,List.length_cons]
        split
        · rename_i hlower
          refine ⟨h.within,h.covers.refuse ?_,h.heap⟩
          have hall : ∀ x ∈ events.events, e.priority ≤ x.priority := by
            intro x hx
            rw [hevents] at hx
            rw [isLowerPriority_eq,decide_eq_true_eq] at hlower
            exact hlower.le.trans (hroot x hx)
          rw [covering_eq_length hall,hfull]
          exact hcap
        · rename_i hlower
          rw [isLowerPriority_eq,decide_eq_true_eq,not_lt] at hlower
          obtain ⟨hpop,hperm⟩ := ContainerHeap.pop_spec isLowerPriority_eq hheap
          rw [hevents]
          have hrest : rest.Perm (ContainerHeap.pop isLowerPriority (least :: rest)) :=
            (List.perm_cons least).mp hperm
          have hpush := ContainerHeap.push_perm isLowerPriority
            (ContainerHeap.pop isLowerPriority (least :: rest)) e
          have hcovers : Covers AnalyticsEvent.priority c (e :: all) (e :: rest) := by
            have hold := h.covers
            rw [hevents] at hold
            refine hold.replace ?_ hlower (by omega)
            intro y hy
            exact hroot y (List.mem_cons_of_mem _ hy)
          refine ⟨?_,hcovers.perm (hpush.trans (hrest.symm.cons e)),?_⟩
          · rw [hpush.length_eq,List.length_cons,← hrest.length_eq,hlen]
          · intro _
            exact ContainerHeap.push_heap isLowerPriority_eq hpop e

lemma keeps_foldl (es : List (AnalyticsEvent P A)) (h : Keeps c all events)
    (hcap : c ≤ events.cap) : Keeps c (es ++ all) (es.foldl addEvent events) ∧
      (es.foldl addEvent events).cap = events.cap := by
  induction es generalizing all events with
  | nil => exact ⟨h,rfl⟩
  | cons e es ih =>
    have hcap' : c ≤ (events.addEvent e).cap := by rwa [addEvent_cap]
    obtain ⟨hkeeps,hsame⟩ := ih (keeps_addEvent h hcap e) hcap'
    refine ⟨hkeeps.perm List.perm_middle.symm,hsame.trans (addEvent_cap events e)⟩

end AnalyticsEvents

namespace Feed
open AnalyticsEvents
variable [LinearOrder P]

@[simp] lemma reservoir_cap (feed : Feed P A) : feed.reservoir.cap = feed.max := by
  induction feed with
  | new max => rfl
  | addEvent feed e ih =>
    rw [reservoir,addEvent_cap,ih]
    rfl
  | merge feed other ih _ =>
    have hfold : ∀ (es : List (AnalyticsEvent P A)) (events : AnalyticsEvents P A),
        (es.foldl AnalyticsEvents.addEvent events).cap = events.cap := by
      intro es
      induction es with
      | nil => exact fun events => rfl
      | cons e es ihs => exact fun events => (ihs _).trans (addEvent_cap events e)
    exact (hfold _ _).trans ih

lemma reservoir_numSeen (feed : Feed P A) : feed.reservoir.numSeen = feed.added.length := by
  induction feed with
  | new max => rfl
  | addEvent feed e ih => rw [reservoir,addEvent_numSeen,ih,added,List.length_cons]
  | merge feed other ih ihOther =>
    have hmerge : (feed.merge other).reservoir.numSeen =
        feed.reservoir.numSeen+other.reservoir.numSeen := rfl
    rw [hmerge,ih,ihOther,added,List.length_append,Nat.add_comm]

/-- With no narrower reservoir anywhere in the history, what was dropped has `c` events above it. -/
theorem reservoir_keeps {c : ℕ} (feed : Feed P A) (hmax : c ≤ feed.max)
    (hwide : ∀ m ∈ feed.merged, c ≤ m) : Keeps c feed.added feed.reservoir := by
  induction feed with
  | new max =>
    refine ⟨Nat.zero_le _,covers_nil _ c,?_⟩
    intro _ i _ hi
    exact absurd hi (Nat.not_lt_zero i)
  | addEvent feed e ih => exact keeps_addEvent (ih hmax hwide) (by rwa [reservoir_cap]) e
  | merge feed other ih ihOther =>
    have hfeed := ih hmax fun m hm => hwide m (List.mem_append_left _ hm)
    have hother : Keeps c other.added other.reservoir := by
      refine ihOther (hwide _ (List.mem_append_right _ List.mem_cons_self)) ?_
      intro m hm
      exact hwide m (List.mem_append_right _ (List.mem_cons_of_mem _ hm))
    have hfold := (keeps_foldl other.reservoir.events hfeed (by rwa [reservoir_cap])).1
    exact ⟨hfold.within,hfold.covers.merge hother.covers,hfold.heap⟩

end Feed

open Feed AnalyticsEvents

/-- A reservoir counts every event, keeps as many as it has room for, and these are of the highest
priority; `Split` cuts them in two. -/
theorem reservoir_highest [LinearOrder P] (feed : Feed P A)
    (hwide : ∀ m ∈ feed.merged, feed.max ≤ m) :
    feed.reservoir.numSeen = feed.added.length ∧
      feed.reservoir.events.length = min feed.added.length feed.max ∧
      (∃ lost, feed.added.Perm (feed.reservoir.events ++ lost) ∧
        ∀ x ∈ feed.reservoir.events, ∀ y ∈ lost, y.priority ≤ x.priority) ∧
      feed.reservoir.split.1.events ++ feed.reservoir.split.2.events = feed.reservoir.events := by
  have hkeeps := reservoir_keeps feed le_rfl hwide
  have hwithin := hkeeps.within
  rw [reservoir_cap] at hwithin
  obtain ⟨hlen,hgreatest⟩ := hkeeps.covers.greatest hwithin
  exact ⟨reservoir_numSeen feed,hlen,hgreatest,List.take_append_drop _ _⟩

/-- Two events, merged with the survivors of four in a wider reservoir. -/
def sampleFeed : Feed ℕ Unit :=
  .merge (.addEvent (.addEvent (.new 2) ⟨5,()⟩) ⟨1,()⟩)
    (.addEvent (.addEvent (.addEvent (.addEvent (.new 3) ⟨2,()⟩) ⟨1,()⟩) ⟨6,()⟩) ⟨3,()⟩)

theorem reservoir_highest_sample : (∀ m ∈ sampleFeed.merged, sampleFeed.max ≤ m) ∧
    sampleFeed.reservoir.events.length = 2 ∧ sampleFeed.reservoir.numSeen = 6 :=
  have h := reservoir_highest sampleFeed (by decide)
  ⟨by decide,h.2.1,h.1⟩

end PhpAgent
