import PhpAgent.Lib.Intervals

/-! Exclusive time, after `nr_exclusive_time.c`: the time of a segment that none of its recorded
children accounts for. Times are microseconds (`nrtime_t`), counters are unbounded naturals. -/
namespace PhpAgent

/-- `nr_time_duration`: 0 when the stop precedes the start. -/
def timeDuration (start stop : ℕ) : ℕ := if stop < start then 0 else stop-start

lemma timeDuration_eq (start stop : ℕ) : timeDuration start stop = stop-start := by
  unfold timeDuration
  split <;> omega

inductive TransitionType
  | childStart
  | childStop
  deriving DecidableEq

/-- The start or the stop of a child. -/
structure Transition where
  time : ℕ
  type : TransitionType
  deriving DecidableEq

/-- `transitions.used` of the source is the length of the list. -/
structure ExclusiveTime where
  startTime : ℕ
  stopTime : ℕ
  capacity : ℕ
  transitions : List Transition
  deriving DecidableEq

namespace ExclusiveTime

def create (childSegments startTime stopTime : ℕ) : ExclusiveTime :=
  ⟨startTime,stopTime,childSegments*2,[]⟩

/-- Create the structure if there is none; else set its times and make room for more children. -/
def ensure (et : Option ExclusiveTime) (childSegments startTime stopTime : ℕ) : ExclusiveTime :=
  match et with
  | none => create childSegments startTime stopTime
  | some et =>
    let unused := et.capacity-et.transitions.length
    { et with
      startTime := startTime
      stopTime := stopTime
      capacity := if unused < childSegments*2 then et.transitions.length+childSegments*2
        else et.capacity }

/-- A child is refused when there is no room for it or when it stops before it starts. -/
def addChild (et : ExclusiveTime) (startTime stopTime : ℕ) : Bool × ExclusiveTime :=
  if et.capacity < et.transitions.length+2 then (false,et)
  else if stopTime < startTime then (false,et)
  else (true,{ et with
    transitions := et.transitions ++ [⟨startTime,.childStart⟩,⟨stopTime,.childStop⟩] })

/-- Time order, with starts before stops at the same time. -/
def transitionCompare (a b : Transition) : ℤ :=
  if a.time < b.time then -1
  else if b.time < a.time then 1
  else if a.type ≠ b.type then
    if a.type = .childStart then -1 else if b.type = .childStart then 1 else 0
  else 0

/-- The walk over the sorted transitions. Both exits to `end` of the source return at once. -/
def sweep (startTime stopTime : ℕ) : List Transition → ℕ → ℕ → ℕ → ℕ
  | [], _, _, exclusiveTime => exclusiveTime
  | ⟨time,.childStart⟩ :: ts, activeChildren, lastStart, exclusiveTime =>
    let lastStart :=
      if activeChildren = 0 then if startTime < time then time else startTime else lastStart
    sweep startTime stopTime ts (activeChildren+1) lastStart exclusiveTime
  | ⟨time,.childStop⟩ :: ts, activeChildren, lastStart, exclusiveTime =>
    if activeChildren = 0 then sweep startTime stopTime ts activeChildren lastStart exclusiveTime
    else if activeChildren = 1 then
      let duration :=
        if stopTime < time then timeDuration lastStart stopTime else timeDuration lastStart time
      if exclusiveTime < duration then 0
      else if stopTime < time then exclusiveTime-duration
      else sweep startTime stopTime ts (activeChildren-1) lastStart (exclusiveTime-duration)
    else sweep startTime stopTime ts (activeChildren-1) lastStart exclusiveTime

/-- `nr_exclusive_time_calculate`, which sorts the transitions in place. Transitions that compare
equal are equal, so every sort gives the same list. -/
def calculate (et : ExclusiveTime) : ℕ × ExclusiveTime :=
  if et.stopTime < et.startTime then (0,et)
  else if et.transitions.length = 0 then (timeDuration et.startTime et.stopTime,et)
  else
    let sorted := et.transitions.insertionSort (fun a b => transitionCompare a b ≤ 0)
    (sweep et.startTime et.stopTime sorted 0 0 (timeDuration et.startTime et.stopTime),
      { et with transitions := sorted })

/-- A missing structure has no exclusive time. -/
def calculate? : Option ExclusiveTime → ℕ
  | none => 0
  | some et => et.calculate.1

/-! ### The sweep counts uncovered ticks -/

/-- The transitions of the children with the given intervals. -/
def transitionsOf (ivs : List (ℕ × ℕ)) : List Transition :=
  ivs.flatMap fun iv => [⟨iv.1,.childStart⟩,⟨iv.2,.childStop⟩]

/-- How many of the transitions up to a tick are starts. -/
def starts (ts : List Transition) (x : ℕ) : ℕ :=
  ts.countP fun t => decide (t.type = .childStart ∧ t.time ≤ x)

/-- How many of the transitions up to a tick are stops. -/
def stops (ts : List Transition) (x : ℕ) : ℕ :=
  ts.countP fun t => decide (t.type = .childStop ∧ t.time ≤ x)

@[simp] lemma starts_nil (x : ℕ) : starts [] x = 0 := rfl
@[simp] lemma stops_nil (x : ℕ) : stops [] x = 0 := rfl

@[simp] lemma starts_cons_childStart (t : ℕ) (ts : List Transition) (x : ℕ) :
    starts (⟨t,.childStart⟩ :: ts) x = starts ts x + if t ≤ x then 1 else 0 := by
  simp [starts,List.countP_cons]

@[simp] lemma starts_cons_childStop (t : ℕ) (ts : List Transition) (x : ℕ) :
    starts (⟨t,.childStop⟩ :: ts) x = starts ts x := by
  simp [starts]

@[simp] lemma stops_cons_childStart (t : ℕ) (ts : List Transition) (x : ℕ) :
    stops (⟨t,.childStart⟩ :: ts) x = stops ts x := by
  simp [stops]

@[simp] lemma stops_cons_childStop (t : ℕ) (ts : List Transition) (x : ℕ) :
    stops (⟨t,.childStop⟩ :: ts) x = stops ts x + if t ≤ x then 1 else 0 := by
  simp [stops,List.countP_cons]

@[simp] lemma transitionsOf_nil : transitionsOf [] = [] := rfl
@[simp] lemma transitionsOf_cons (iv : ℕ × ℕ) (ivs : List (ℕ × ℕ)) :
    transitionsOf (iv :: ivs) = ⟨iv.1,.childStart⟩ :: ⟨iv.2,.childStop⟩ :: transitionsOf ivs := rfl

@[simp] lemma transitionsOf_append (xs ys : List (ℕ × ℕ)) :
    transitionsOf (xs ++ ys) = transitionsOf xs ++ transitionsOf ys := by
  simp [transitionsOf]

lemma starts_transitionsOf (ivs : List (ℕ × ℕ)) (x : ℕ) :
    starts (transitionsOf ivs) x = ivs.countP fun iv => decide (iv.1 ≤ x) := by
  induction ivs with
  | nil => rfl
  | cons iv ivs ih => simp [List.countP_cons,ih]

lemma stops_transitionsOf (ivs : List (ℕ × ℕ)) (x : ℕ) :
    stops (transitionsOf ivs) x = ivs.countP fun iv => decide (iv.2 ≤ x) := by
  induction ivs with
  | nil => rfl
  | cons iv ivs ih => simp [List.countP_cons,ih]

/-- The order of the comparator. -/
def Le (a b : Transition) : Prop := transitionCompare a b ≤ 0

lemma le_iff {a b : Transition} : Le a b ↔
    a.time < b.time ∨ a.time = b.time ∧ (a.type = .childStart ∨ b.type = .childStop) := by
  rcases a with ⟨s,a⟩
  rcases b with ⟨t,b⟩
  cases a <;> cases b <;> simp [Le,transitionCompare] <;> split_ifs <;> omega

instance : DecidableRel Le := fun a b => inferInstanceAs (Decidable (transitionCompare a b ≤ 0))

instance : Std.Total Le where
  total a b := by
    simp only [le_iff]
    cases a.type <;> cases b.type <;> simp <;> omega

instance : IsTrans Transition Le where
  trans a b c := by
    simp only [le_iff]
    cases a.type <;> cases b.type <;> cases c.type <;> simp <;> omega

lemma Le.time_le {a b : Transition} (h : Le a b) : a.time ≤ b.time := by
  rw [le_iff] at h
  omega

variable {ts : List Transition}

lemma starts_eq_zero {x : ℕ} (h : ∀ t ∈ ts, t.type = .childStart → x < t.time) : starts ts x = 0 := by
  apply List.countP_eq_zero.mpr
  intro t ht
  simp only [decide_eq_true_eq,not_and,not_le]
  exact h t ht

lemma stops_eq_zero {x : ℕ} (h : ∀ t ∈ ts, x < t.time) : stops ts x = 0 := by
  apply List.countP_eq_zero.mpr
  intro t ht
  simp only [decide_eq_true_eq,not_and,not_le]
  exact fun _ => h t ht

/-- With `active` children running, the list never stops one that is not and ends with none. -/
def Balanced : ℕ → List Transition → Prop
  | active, [] => active = 0
  | active, ⟨_,.childStart⟩ :: ts => Balanced (active+1) ts
  | active, ⟨_,.childStop⟩ :: ts => 0 < active ∧ Balanced (active-1) ts

lemma balanced_of_counts (hs : ts.Pairwise Le) {active : ℕ} (hle : ∀ x, stops ts x ≤ active+starts ts x)
    (hend : ∃ X, ∀ x, X ≤ x → stops ts x = active+starts ts x) : Balanced active ts := by
  induction ts generalizing active with
  | nil =>
    obtain ⟨X,hX⟩ := hend
    have := hX X le_rfl
    simpa [Balanced] using this.symm
  | cons t ts ih =>
    obtain ⟨ht,hts⟩ := List.pairwise_cons.mp hs
    obtain ⟨X,hX⟩ := hend
    rcases t with ⟨t,_ | _⟩
    · refine ih hts (fun x => ?_) ⟨max X t,fun x hx => ?_⟩
      · have := hle x
        simp only [starts_cons_childStart,stops_cons_childStart] at this
        split at this <;> omega
      · have := hX x (le_of_max_le_left hx)
        simp only [starts_cons_childStart,stops_cons_childStart,le_of_max_le_right hx,if_true] at this
        omega
    · have hlater : ∀ x, x < t → stops ts x = 0 := fun x hx =>
        stops_eq_zero fun u hu => lt_of_lt_of_le hx (ht u hu).time_le
      -- a start at the time of the stop would have been sorted before it
      have hnow : starts ts t = 0 := by
        apply starts_eq_zero
        intro u hu hstart
        have := le_iff.mp (ht u hu)
        simp only [hstart,reduceCtorEq,or_self,and_false,or_false] at this
        exact this
      have hpos : 0 < active := by
        have := hle t
        simp only [stops_cons_childStop,starts_cons_childStop,hnow,le_refl,if_true] at this
        omega
      refine ⟨hpos,ih hts (fun x => ?_) ⟨max X t,fun x hx => ?_⟩⟩
      · have := hle x
        have := hlater x
        simp only [stops_cons_childStop,starts_cons_childStop] at *
        split at * <;> omega
      · have := hX x (le_of_max_le_left hx)
        simp only [stops_cons_childStop,starts_cons_childStop,le_of_max_le_right hx,if_true] at this
        omega

/-- The ticks from `start` on that are covered, with `active` children running at first. -/
def region (stopTime active : ℕ) (ts : List Transition) (start : ℕ) : Finset ℕ :=
  {x ∈ Finset.Ico start stopTime | stops ts x < active+starts ts x}

lemma mem_region {stopTime active : ℕ} {start x : ℕ} : x ∈ region stopTime active ts start ↔
      (start ≤ x ∧ x < stopTime) ∧ stops ts x < active+starts ts x := by
  simp [region]

section Region
variable {startTime stopTime : ℕ} {t : ℕ} {ts : List Transition}

/-- Nothing happens before the first of the remaining transitions. -/
theorem counts_before {u : Transition} (h : ∀ v ∈ ts, Le u v) {x : ℕ} (hx : x < u.time) :
    starts ts x = 0 ∧ stops ts x = 0 := by
  constructor
  · apply starts_eq_zero
    intro v hv _
    exact lt_of_lt_of_le hx (h v hv).time_le
  · apply stops_eq_zero
    intro v hv
    exact lt_of_lt_of_le hx (h v hv).time_le

/-- The first child to run starts a covered stretch. -/
theorem region_first (h : ∀ v ∈ ts, Le ⟨t,.childStart⟩ v) :
    region stopTime 0 (⟨t,.childStart⟩ :: ts) startTime = region stopTime 1 ts (max t startTime) := by
  ext x
  have hbefore := fun hx : x < t => counts_before h hx
  simp only [mem_region,starts_cons_childStart,stops_cons_childStart] at *
  split_ifs <;> omega

/-- Another child only adds to what runs. -/
theorem region_another (h : ∀ v ∈ ts, Le ⟨t,.childStart⟩ v) {active : ℕ} (hpos : 0 < active)
    (start : ℕ) : region stopTime active (⟨t,.childStart⟩ :: ts) start =
      region stopTime (active+1) ts start := by
  ext x
  have hbefore := fun hx : x < t => counts_before h hx
  simp only [mem_region,starts_cons_childStart,stops_cons_childStart] at *
  split_ifs <;> omega

/-- The last running child ends the stretch that began at `lastStart`. -/
theorem card_region_last (h : ∀ v ∈ ts, Le ⟨t,.childStop⟩ v) {lastStart : ℕ}
    (hstart : startTime ≤ lastStart) (hlast : lastStart ≤ max t startTime) :
    (region stopTime 1 (⟨t,.childStop⟩ :: ts) lastStart).card =
      (min t stopTime-lastStart)+(region stopTime 0 ts startTime).card := by
  have hsplit : region stopTime 1 (⟨t,.childStop⟩ :: ts) lastStart =
      Finset.Ico lastStart (min t stopTime) ∪ region stopTime 0 ts startTime := by
    ext x
    have hbefore := fun hx : x < t => counts_before h hx
    simp only [Finset.mem_union,Finset.mem_Ico,mem_region,starts_cons_childStop,
      stops_cons_childStop] at *
    split_ifs <;> omega
  have hdisj : Disjoint (Finset.Ico lastStart (min t stopTime)) (region stopTime 0 ts startTime) := by
    rw [Finset.disjoint_left]
    intro x hx hr
    have hbefore := fun hx : x < t => counts_before h hx
    simp only [Finset.mem_Ico,mem_region] at *
    omega
  rw [hsplit,Finset.card_union_of_disjoint hdisj,Nat.card_Ico]

/-- A child that stops while others run changes nothing. -/
theorem region_still (h : ∀ v ∈ ts, Le ⟨t,.childStop⟩ v) {active : ℕ} (hpos : 0 < active)
    (hne : active ≠ 1) (start : ℕ) : region stopTime active (⟨t,.childStop⟩ :: ts) start =
      region stopTime (active-1) ts start := by
  ext x
  have hbefore := fun hx : x < t => counts_before h hx
  simp only [mem_region,starts_cons_childStop,stops_cons_childStop] at *
  split_ifs <;> omega

/-- Every later child starts after the segment has stopped. -/
theorem region_past {u : Transition} (h : ∀ v ∈ ts, Le u v) (hend : stopTime < u.time) :
    region stopTime 0 ts startTime = ∅ := by
  ext x
  have hbefore := fun hx : x < u.time => counts_before h hx
  simp only [mem_region,Finset.notMem_empty,iff_false] at *
  omega

/-- The stretch that ends with the last running child, inside the segment. -/
theorem duration_last (lastStart : ℕ) :
    (if stopTime < t then timeDuration lastStart stopTime else timeDuration lastStart t) =
      min t stopTime-lastStart := by
  simp only [timeDuration_eq]
  split <;> omega

end Region

/-- Where the stretch that is being covered began. -/
structure Began (startTime active lastStart : ℕ) (ts : List Transition) : Prop where
  start : 0 < active → startTime ≤ lastStart
  before : 0 < active → ∀ t ∈ ts, lastStart ≤ max t.time startTime

lemma Began.first {startTime t : ℕ} (h : ∀ v ∈ ts, Le ⟨t,.childStart⟩ v) :
    Began startTime 1 (max t startTime) ts where
  start _ := le_max_right _ _
  before _ v hv := by
    have hle : t ≤ v.time := (h v hv).time_le
    omega

lemma Began.tail {startTime active active' lastStart : ℕ} {u : Transition}
    (h : Began startTime active lastStart (u :: ts)) (hpos : 0 < active) :
    Began startTime active' lastStart ts where
  start _ := h.start hpos
  before _ v hv := h.before hpos v (List.mem_cons_of_mem u hv)

lemma Began.idle (startTime lastStart : ℕ) (ts : List Transition) :
    Began startTime 0 lastStart ts where
  start h := absurd h (lt_irrefl 0)
  before h := absurd h (lt_irrefl 0)

/-- `sweep` without a result in the two branches that nothing should reach: a child stops and none
runs, or the covered stretch is longer than the time that is left. -/
def sweepChecked (startTime stopTime : ℕ) : List Transition → ℕ → ℕ → ℕ → Option ℕ
  | [], _, _, exclusiveTime => some exclusiveTime
  | ⟨time,.childStart⟩ :: ts, activeChildren, lastStart, exclusiveTime =>
    let lastStart :=
      if activeChildren = 0 then if startTime < time then time else startTime else lastStart
    sweepChecked startTime stopTime ts (activeChildren+1) lastStart exclusiveTime
  | ⟨time,.childStop⟩ :: ts, activeChildren, lastStart, exclusiveTime =>
    if activeChildren = 0 then none
    else if activeChildren = 1 then
      let duration :=
        if stopTime < time then timeDuration lastStart stopTime else timeDuration lastStart time
      if exclusiveTime < duration then none
      else if stopTime < time then some (exclusiveTime-duration)
      else sweepChecked startTime stopTime ts (activeChildren-1) lastStart (exclusiveTime-duration)
    else sweepChecked startTime stopTime ts (activeChildren-1) lastStart exclusiveTime

/-- The sweep subtracts the covered ticks. -/
theorem sweep_eq {startTime stopTime : ℕ} (hs : ts.Pairwise Le)
    {active lastStart exclusiveTime : ℕ} (hb : Balanced active ts)
    (hlast : Began startTime active lastStart ts) :
    sweep startTime stopTime ts active lastStart exclusiveTime = exclusiveTime -
      (region stopTime active ts (if active = 0 then startTime else lastStart)).card := by
  induction ts generalizing active lastStart exclusiveTime with
  | nil =>
    have h0 : active = 0 := hb
    simp [sweep,region,h0]
  | cons t ts ih =>
    obtain ⟨ht,hts⟩ := List.pairwise_cons.mp hs
    rcases t with ⟨t,_ | _⟩
    · rw [sweep]
      rcases Nat.eq_zero_or_pos active with rfl | hpos
      · have hmax : (if startTime < t then t else startTime) = max t startTime := by
          split <;> omega
        simp only [if_true,hmax]
        rw [ih hts hb (Began.first ht),if_neg (Nat.succ_ne_zero _),region_first ht]
      · simp only [if_neg hpos.ne']
        rw [ih hts hb (hlast.tail hpos),if_neg (Nat.succ_ne_zero _),region_another ht hpos]
    · obtain ⟨hpos,hb⟩ := hb
      rw [sweep,if_neg hpos.ne',if_neg hpos.ne']
      by_cases h1 : active = 1
      · subst h1
        rw [card_region_last ht (hlast.start hpos) (hlast.before hpos _ List.mem_cons_self)]
        simp only [if_true,duration_last]
        split_ifs with hover hend
        · omega
        · rw [region_past ht hend,Finset.card_empty,Nat.add_zero]
        · rw [ih hts hb (Began.idle _ _ _)]
          simp only [Nat.sub_self,if_true]
          omega
      · rw [if_neg h1,ih hts hb (hlast.tail hpos),if_neg (by omega),region_still ht hpos h1]

/-- The checked sweep has the result of the sweep when no more is covered than is left. -/
theorem sweepChecked_eq {startTime stopTime : ℕ} (hs : ts.Pairwise Le)
    {active lastStart exclusiveTime : ℕ} (hb : Balanced active ts)
    (hlast : Began startTime active lastStart ts)
    (hroom : (region stopTime active ts (if active = 0 then startTime else lastStart)).card ≤
      exclusiveTime) :
    sweepChecked startTime stopTime ts active lastStart exclusiveTime =
      some (sweep startTime stopTime ts active lastStart exclusiveTime) := by
  induction ts generalizing active lastStart exclusiveTime with
  | nil => rfl
  | cons t ts ih =>
    obtain ⟨ht,hts⟩ := List.pairwise_cons.mp hs
    rcases t with ⟨t,_ | _⟩
    · rw [sweepChecked,sweep]
      rcases Nat.eq_zero_or_pos active with rfl | hpos
      · have hmax : (if startTime < t then t else startTime) = max t startTime := by
          split <;> omega
        simp only [if_true,hmax]
        apply ih hts hb (Began.first ht)
        rw [if_neg (Nat.succ_ne_zero _),← region_first ht]
        exact hroom
      · simp only [if_neg hpos.ne']
        apply ih hts hb (hlast.tail hpos)
        rw [if_neg hpos.ne',region_another ht hpos] at hroom
        rw [if_neg (Nat.succ_ne_zero _)]
        exact hroom
    · obtain ⟨hpos,hb⟩ := hb
      rw [if_neg hpos.ne'] at hroom
      rw [sweepChecked,sweep,if_neg hpos.ne',if_neg hpos.ne']
      by_cases h1 : active = 1
      · subst h1
        rw [card_region_last ht (hlast.start hpos) (hlast.before hpos _ List.mem_cons_self)] at hroom
        simp only [if_true,duration_last]
        split_ifs with hover hend
        · omega
        · rfl
        · apply ih hts hb (Began.idle _ _ _)
          simp only [Nat.sub_self,if_true]
          omega
      · rw [if_neg h1,if_neg h1]
        apply ih hts hb (hlast.tail hpos)
        rw [if_neg (by omega),← region_still ht hpos h1]
        exact hroom

/-- The children whose transitions are recorded, in any order. -/
structure Recorded (et : ExclusiveTime) (ivs : List (ℕ × ℕ)) : Prop where
  perm : et.transitions.Perm (transitionsOf ivs)
  valid : ∀ iv ∈ ivs, iv.1 ≤ iv.2

section Sorted
variable {ivs : List (ℕ × ℕ)} {ts : List Transition}

/-- What has started and stopped by a tick does not depend on the order. -/
theorem counts_of_perm (h : ts.Perm (transitionsOf ivs)) (x : ℕ) :
    starts ts x = ivs.countP (fun iv => decide (iv.1 ≤ x)) ∧
      stops ts x = ivs.countP (fun iv => decide (iv.2 ≤ x)) :=
  ⟨(h.countP_eq _).trans (starts_transitionsOf ivs x),(h.countP_eq _).trans (stops_transitionsOf ivs x)⟩

lemma balanced_of_perm (hpair : ts.Pairwise Le) (h : ts.Perm (transitionsOf ivs))
    (hvalid : ∀ iv ∈ ivs, iv.1 ≤ iv.2) : Balanced 0 ts := by
  apply balanced_of_counts hpair
  · intro x
    obtain ⟨hstarts,hstops⟩ := counts_of_perm h x
    rw [hstarts,hstops,Nat.zero_add]
    exact Intervals.count_stops_le hvalid x
  · obtain ⟨X,hX⟩ := Intervals.exists_count_stops_eq hvalid
    refine ⟨X,fun x hx => ?_⟩
    obtain ⟨hstarts,hstops⟩ := counts_of_perm h x
    rw [hstarts,hstops,Nat.zero_add,hX x hx]

lemma region_of_perm (h : ts.Perm (transitionsOf ivs)) (hvalid : ∀ iv ∈ ivs, iv.1 ≤ iv.2)
    (startTime stopTime : ℕ) : region stopTime 0 ts startTime =
      Finset.Ico startTime stopTime ∩ Intervals.ticks ivs := by
  ext x
  obtain ⟨hstarts,hstops⟩ := counts_of_perm h x
  rw [Finset.mem_inter,mem_region,Finset.mem_Ico,Intervals.mem_ticks_iff_count hvalid,hstarts,hstops,
    Nat.zero_add]

end Sorted

/-- The exclusive time is the number of ticks of the segment that no child covers. -/
theorem calculate_eq {et : ExclusiveTime} {ivs : List (ℕ × ℕ)} (h : et.Recorded ivs) :
    et.calculate.1 = (Finset.Ico et.startTime et.stopTime \ Intervals.ticks ivs).card := by
  unfold calculate
  split
  · rename_i hinv
    simp [Finset.Ico_eq_empty_of_le hinv.le]
  split
  · rename_i hlen
    have hnil : ivs = [] := by
      have := h.perm.length_eq
      cases ivs with
      | nil => rfl
      | cons iv ivs => simp [hlen] at this
    simp [hnil,timeDuration_eq]
  · set sorted := et.transitions.insertionSort Le with hsorted
    have hperm : sorted.Perm (transitionsOf ivs) := (List.perm_insertionSort _ _).trans h.perm
    have hpair : sorted.Pairwise Le := List.pairwise_insertionSort _ _
    have hregion := region_of_perm hperm h.valid et.startTime et.stopTime
    change sweep et.startTime et.stopTime sorted 0 0 _ = _
    rw [sweep_eq hpair (balanced_of_perm hpair hperm h.valid) (Began.idle _ _ _),if_pos rfl,hregion,
      timeDuration_eq,Finset.card_sdiff,Nat.card_Ico,Finset.inter_comm]

end ExclusiveTime
end PhpAgent
