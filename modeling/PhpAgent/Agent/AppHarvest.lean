import PhpAgent.Agent.AppInfo

/-! The counters of adaptive sampling, after `nr_app_harvest.c`. Times and deadlines are taken modulo
`2^64` where the source adds to them; the counters are taken as numbers. -/
namespace PhpAgent

open NrApp (nextHarvestTime harvestInit)

namespace NrAppHarvest

/-- `nr_app_harvest_calculate_threshold`; `power` stands for its floating-point part. -/
def calculateThreshold (power : ℕ → ℕ → ℕ) (target sampledTrueCount : ℕ) : ℕ :=
  if sampledTrueCount = 0 ∨ target = 0 ∨ sampledTrueCount < target then 0
  else power target sampledTrueCount

/-- `nr_app_harvest_is_first`. -/
def isFirst (ah : NrAppHarvest) (now : ℕ) : Bool :=
  now < (ah.connectTimestamp+ah.frequency) % 2^64

/-- The first part of `nr_app_harvest_private_should_sample`: begin a new cycle when it is time. -/
def roll (ah : NrAppHarvest) (now : ℕ) : NrAppHarvest :=
  if ah.nextHarvest ≤ now then
    { ah with
      prevTransactionsSeen :=
        if (ah.nextHarvest+ah.frequency) % 2^64 ≤ now then 0 else ah.transactionsSeen
      transactionsSeen := 0
      transactionsSampled := 0
      nextHarvest := nextHarvestTime ah.connectTimestamp ah.frequency now }
  else ah

/-- The decision of `nr_app_harvest_private_should_sample` for a transaction that was counted. The
value of `nr_random_range` is `range` of its bound. -/
def decides (power : ℕ → ℕ → ℕ) (range : ℕ → ℕ) (ah : NrAppHarvest) (now : ℕ) : Bool :=
  if ah.isFirst now then ah.transactionsSampled < ah.targetTransactionsPerCycle
  else if ah.transactionsSampled < ah.targetTransactionsPerCycle then
    range ah.prevTransactionsSeen < ah.targetTransactionsPerCycle
  else
    range ah.transactionsSeen <
      calculateThreshold power ah.targetTransactionsPerCycle ah.transactionsSampled

/-- `nr_app_harvest_private_should_sample`. -/
def shouldSample (power : ℕ → ℕ → ℕ) (range : ℕ → ℕ) (ah : NrAppHarvest) (now : ℕ) :
    NrAppHarvest × Bool :=
  let ah := ah.roll now
  let ah := { ah with transactionsSeen := ah.transactionsSeen+1 }
  if ah.decides power range now then
    ({ ah with transactionsSampled := ah.transactionsSampled+1 },true)
  else (ah,false)

/-- A structure of zeroes. -/
def zeroed : NrAppHarvest := ⟨0,0,0,0,0,0,0⟩

/-- One call for each time and random outcome, with the time and the answer of each. -/
def samples (power : ℕ → ℕ → ℕ) : NrAppHarvest → List (ℕ × (ℕ → ℕ)) →
    NrAppHarvest × List (ℕ × Bool)
  | ah, [] => (ah,[])
  | ah, (now,range) :: calls =>
    let (ah,answer) := ah.shouldSample power range now
    let (ah,answers) := samples power ah calls
    (ah,(now,answer) :: answers)

/-! ### Cycles -/

/-- The number of the cycle of a time. -/
def cycle (c f t : ℕ) : ℕ := (t-c)/f

/-- The end of the cycle of a time. -/
def cycleEnd (c f t : ℕ) : ℕ := c+f*(cycle c f t+1)

variable {c f t now : ℕ}

lemma le_cycle_iff (hf : 0 < f) (hc : c ≤ now) {k : ℕ} : k ≤ cycle c f now ↔ c+k*f ≤ now := by
  rw [cycle,Nat.le_div_iff_mul_le hf]
  omega

lemma cycleEnd_le_iff (hf : 0 < f) (hc : c ≤ now) :
    cycleEnd c f t ≤ now ↔ cycle c f t < cycle c f now := by
  rw [← Nat.succ_le_iff,le_cycle_iff hf hc,cycleEnd,Nat.mul_comm f]

lemma cycleEnd_add_le_iff (hf : 0 < f) (hc : c ≤ now) :
    cycleEnd c f t+f ≤ now ↔ cycle c f t+1 < cycle c f now := by
  have hsucc : cycleEnd c f t+f = c+(cycle c f t+1).succ*f := by
    rw [cycleEnd,Nat.succ_mul,Nat.mul_comm f,Nat.add_assoc]
  rw [hsucc,← Nat.succ_le_iff,le_cycle_iff hf hc]

lemma cycle_mono (c f : ℕ) {t t' : ℕ} (h : t ≤ t') : cycle c f t ≤ cycle c f t' :=
  Nat.div_le_div_right (Nat.sub_le_sub_right h c)

lemma nextHarvestTime_eq (hf : 0 < f) (hc : c ≤ now) (hfit : cycleEnd c f now < 2^64) :
    nextHarvestTime c f now = cycleEnd c f now := by
  unfold nextHarvestTime
  rw [if_neg (by omega),if_neg (by omega)]
  exact Nat.mod_eq_of_lt hfit

/-- The end of a cycle is the first time after it at which a harvest is due. -/
theorem isLeast_cycleEnd (hf : 0 < f) (hc : c ≤ now) :
    IsLeast { x | ∃ k, x = c+k*f ∧ now < x } (cycleEnd c f now) := by
  have hlt : now < cycleEnd c f now := by
    have := (cycleEnd_le_iff (t := now) hf hc).not.mpr (lt_irrefl _)
    omega
  refine ⟨⟨_,by rw [cycleEnd,Nat.mul_comm],hlt⟩,?_⟩
  rintro x ⟨k,rfl,hk⟩
  have hcycle : cycle c f now < k := by
    unfold cycle
    rw [Nat.div_lt_iff_lt_mul hf]
    omega
  unfold cycleEnd
  rw [Nat.mul_comm f]
  exact Nat.add_le_add_left (Nat.mul_le_mul_right f hcycle) c

/-! ### Bookkeeping -/

/-- The answers in the first cycle: the first ones up to the target are positive. -/
def firstAnswers (target n : ℕ) : List Bool :=
  List.replicate (min n target) true ++ List.replicate (n-min n target) false

lemma firstAnswers_succ (target n : ℕ) :
    firstAnswers target (n+1) = firstAnswers target n ++ [decide (n < target)] := by
  unfold firstAnswers
  by_cases h : n < target
  · rw [min_eq_left h,min_eq_left h.le]
    simp [h,List.replicate_succ']
  · have hle : target ≤ n := Nat.le_of_not_lt h
    rw [min_eq_right (by omega),min_eq_right hle,Nat.succ_sub hle,List.replicate_succ']
    simp [h]

lemma count_firstAnswers (target n : ℕ) : (firstAnswers target n).count true = min n target := by
  simp [firstAnswers,List.count_append,List.count_replicate]

/-- The counters after the calls of a history, at a time in the cycle of the last of them. -/
structure Tracks (c f target : ℕ) (ah : NrAppHarvest) (history : List (ℕ × Bool)) (now : ℕ) :
    Prop where
  connectTimestamp : ah.connectTimestamp = c
  frequency : ah.frequency = f
  target_eq : ah.targetTransactionsPerCycle = target
  nextHarvest : ah.nextHarvest = cycleEnd c f now
  seen : ah.transactionsSeen = history.countP fun e => cycle c f e.1 = cycle c f now
  sampled : ah.transactionsSampled =
    history.countP fun e => cycle c f e.1 = cycle c f now ∧ e.2 = true
  prev : ah.prevTransactionsSeen = history.countP fun e => cycle c f e.1+1 = cycle c f now
  past : ∀ e ∈ history, cycle c f e.1 ≤ cycle c f now
  first : (history.filter fun e => cycle c f e.1 = 0).map Prod.snd =
    firstAnswers target (history.countP fun e => cycle c f e.1 = 0)

variable {target : ℕ} {ah : NrAppHarvest} {history : List (ℕ × Bool)} {now' : ℕ}

lemma tracks_harvestInit (hf : 0 < f) (hc : c ≤ now) (target : ℕ)
    (hfit : cycleEnd c f now < 2^64) : Tracks c f target (harvestInit zeroed c f target now) [] now := by
  have hchanged : c ≠ zeroed.connectTimestamp ∨ f ≠ zeroed.frequency := .inr hf.ne'
  unfold harvestInit
  rw [if_pos hchanged]
  exact ⟨rfl,rfl,rfl,nextHarvestTime_eq hf hc hfit,rfl,rfl,rfl,by simp,rfl⟩

/-- Going on to a time in another cycle. -/
theorem Tracks.roll_later (h : Tracks c f target ah history now) (hf : 0 < f) (hc : c ≤ now')
    (hlater : cycle c f now < cycle c f now') (hfit : cycleEnd c f now' < 2^64) :
    Tracks c f target (ah.roll now') history now' := by
  have hlt (e : ℕ × Bool) (he : e ∈ history) : cycle c f e.1 < cycle c f now' :=
    (h.past e he).trans_lt hlater
  have hend : cycleEnd c f now+f ≤ cycleEnd c f now' := by
    unfold cycleEnd
    rw [Nat.add_assoc,← Nat.mul_succ]
    exact Nat.add_le_add_left (Nat.mul_le_mul_left f (Nat.succ_le_succ hlater)) c
  have hprev : (if (cycleEnd c f now+f) % 2^64 ≤ now' then 0 else ah.transactionsSeen) =
      history.countP fun e => cycle c f e.1+1 = cycle c f now' := by
    rw [Nat.mod_eq_of_lt (hend.trans_lt hfit)]
    have hiff := cycleEnd_add_le_iff (t := now) hf hc
    split_ifs with hgap
    · -- no call was made in the cycle before this one
      refine (List.countP_eq_zero.mpr ?_).symm
      intro e he
      have := h.past e he
      simp only [decide_eq_true_eq]
      omega
    · have hnext : cycle c f now' = cycle c f now+1 := by omega
      rw [h.seen,hnext]
      simp only [Nat.add_right_cancel_iff]
  unfold NrAppHarvest.roll
  rw [h.nextHarvest,h.connectTimestamp,h.frequency,nextHarvestTime_eq hf hc hfit,
    if_pos ((cycleEnd_le_iff hf hc).mpr hlater)]
  refine ⟨rfl,rfl,h.target_eq,rfl,?_,?_,hprev,fun e he => (hlt e he).le,h.first⟩
  · refine (List.countP_eq_zero.mpr fun e he => ?_).symm
    simpa using (hlt e he).ne
  · refine (List.countP_eq_zero.mpr fun e he => ?_).symm
    have := (hlt e he).ne
    simp [this]

/-- Going on to a later time, in the same cycle or another one. -/
theorem Tracks.roll (h : Tracks c f target ah history now) (hf : 0 < f) (hc : c ≤ now)
    (hle : now ≤ now') (hfit : cycleEnd c f now' < 2^64) :
    Tracks c f target (ah.roll now') history now' := by
  have hcycle := cycle_mono c f hle
  rcases hcycle.lt_or_eq with hlater | hsame
  · exact h.roll_later hf (hc.trans hle) hlater hfit
  · have hstay : ¬ah.nextHarvest ≤ now' := by
      rw [h.nextHarvest,cycleEnd_le_iff hf (hc.trans hle)]
      omega
    rw [NrAppHarvest.roll,if_neg hstay]
    refine { h with nextHarvest := ?_, seen := ?_, sampled := ?_, prev := ?_, past := ?_ }
    · rw [h.nextHarvest,cycleEnd,cycleEnd,hsame]
    · rw [← hsame,h.seen]
    · rw [← hsame,h.sampled]
    · rw [← hsame,h.prev]
    · rw [← hsame]
      exact h.past

lemma Tracks.isFirst_iff (h : Tracks c f target ah history now) (hf : 0 < f) (hc : c ≤ now)
    (hfit : cycleEnd c f now < 2^64) : ah.isFirst now = true ↔ cycle c f now = 0 := by
  have hle : c+f ≤ cycleEnd c f now := Nat.add_le_add_left (Nat.le_mul_of_pos_right f (by omega)) c
  have hone := le_cycle_iff (k := 1) hf hc
  rw [isFirst,h.connectTimestamp,h.frequency,Nat.mod_eq_of_lt (hle.trans_lt hfit),
    decide_eq_true_eq]
  omega

/-- In the first cycle a transaction is sampled as long as fewer than the target were seen. -/
theorem Tracks.decides_first (h : Tracks c f target ah history now) (hf : 0 < f) (hc : c ≤ now)
    (hfit : cycleEnd c f now < 2^64) (hfirst : cycle c f now = 0) (power : ℕ → ℕ → ℕ)
    (range : ℕ → ℕ) (seen : ℕ) :
    { ah with transactionsSeen := seen }.decides power range now =
      decide ((history.countP fun e => cycle c f e.1 = 0) < target) := by
  have hisFirst : { ah with transactionsSeen := seen }.isFirst now = true :=
    (h.isFirst_iff hf hc hfit).mpr hfirst
  have hsampled : ah.transactionsSampled =
      min (history.countP fun e => cycle c f e.1 = 0) target := by
    rw [← count_firstAnswers,← h.first,h.sampled,hfirst,List.count,List.countP_map,
      List.countP_filter]
    congr 1
    funext e
    simp [and_comm]
  rw [decides,if_pos hisFirst]
  change decide (ah.transactionsSampled < ah.targetTransactionsPerCycle) = _
  rw [hsampled,h.target_eq]
  simp

/-- One call. -/
theorem Tracks.shouldSample (h : Tracks c f target ah history now) (hf : 0 < f) (hc : c ≤ now)
    (hle : now ≤ now') (hfit : cycleEnd c f now' < 2^64) (power : ℕ → ℕ → ℕ) (range : ℕ → ℕ) :
    Tracks c f target (ah.shouldSample power range now').1
      (history ++ [(now',(ah.shouldSample power range now').2)]) now' := by
  have hroll := h.roll hf hc hle hfit
  have hfirst := hroll.decides_first hf (hc.trans hle) hfit
  set ah' := ah.roll now' with hah'
  have hanswer : (ah.shouldSample power range now').2 =
      { ah' with transactionsSeen := ah'.transactionsSeen+1 }.decides power range now' := by
    unfold NrAppHarvest.shouldSample
    rw [← hah']
    dsimp only
    split_ifs with hdecides
    · exact hdecides.symm
    · exact (Bool.eq_false_iff.mpr hdecides).symm
  have hstate : (ah.shouldSample power range now').1 = { ah' with
      transactionsSeen := ah'.transactionsSeen+1
      transactionsSampled :=
        ah'.transactionsSampled+(ah.shouldSample power range now').2.toNat } := by
    unfold NrAppHarvest.shouldSample
    rw [← hah']
    dsimp only
    split_ifs <;> rfl
  rw [hstate]
  refine ⟨hroll.connectTimestamp,hroll.frequency,hroll.target_eq,hroll.nextHarvest,?_,?_,?_,?_,?_⟩
  · simp [hroll.seen]
  · cases hans : (ah.shouldSample power range now').2 <;> simp [hroll.sampled]
  · simp [hroll.prev]
  · intro e he
    rcases List.mem_append.mp he with hold | hnew
    · exact hroll.past e hold
    · rw [List.mem_singleton.mp hnew]
  · by_cases hzero : cycle c f now' = 0
    · have hans := hanswer.trans (hfirst hzero power range _)
      rw [List.filter_append,List.map_append,hroll.first,List.countP_append,hans]
      simp [hzero,firstAnswers_succ]
    · rw [List.filter_append,List.map_append,hroll.first,List.countP_append]
      simp [hzero]

/-- A sequence of calls at times that do not go back. -/
theorem Tracks.samples (h : Tracks c f target ah history now) (hf : 0 < f) (hc : c ≤ now)
    (power : ℕ → ℕ → ℕ) (calls : List (ℕ × (ℕ → ℕ)))
    (hsorted : (now :: calls.map Prod.fst).Pairwise (· ≤ ·))
    (hfit : ∀ t ∈ calls.map Prod.fst, cycleEnd c f t < 2^64) :
    Tracks c f target (ah.samples power calls).1 (history ++ (ah.samples power calls).2)
      ((calls.map Prod.fst).getLastD now) := by
  induction calls generalizing ah history now with
  | nil => simpa [NrAppHarvest.samples] using h
  | cons call calls ih =>
    obtain ⟨now',range⟩ := call
    rw [List.map_cons,List.pairwise_cons] at hsorted
    have hle : now ≤ now' := hsorted.1 now' List.mem_cons_self
    have hstep := h.shouldSample hf hc hle (hfit now' List.mem_cons_self) power range
    have hrest := ih hstep (hc.trans hle) hsorted.2 fun t ht => hfit t (List.mem_cons_of_mem _ ht)
    rw [List.append_assoc] at hrest
    rw [List.map_cons,List.getLastD_cons]
    exact hrest

/-- What the counters say after the calls of a history, the last call being made at `now`. Cycle `k`
begins at `c+k*f`. -/
structure Counts (c f target : ℕ) (ah : NrAppHarvest) (history : List (ℕ × Bool)) (now : ℕ) :
    Prop where
  nextHarvest : IsLeast { x | ∃ k, x = c+k*f ∧ now < x } ah.nextHarvest
  seen : ah.transactionsSeen = history.countP fun e => cycle c f e.1 = cycle c f now
  sampled : ah.transactionsSampled =
    history.countP fun e => cycle c f e.1 = cycle c f now ∧ e.2 = true
  prev : ah.prevTransactionsSeen = history.countP fun e => cycle c f e.1+1 = cycle c f now
  first : (history.filter fun e => cycle c f e.1 = 0).map Prod.snd =
    firstAnswers target (history.countP fun e => cycle c f e.1 = 0)

/-- The counters of an application from its connection on, whatever the random numbers are and
whatever the threshold is. -/
theorem counts_samples (power : ℕ → ℕ → ℕ) (c f target now : ℕ) (calls : List (ℕ × (ℕ → ℕ)))
    (hf : 0 < f) (hc : c ≤ now) (hsorted : (now :: calls.map Prod.fst).Pairwise (· ≤ ·))
    (hfit : ∀ t ∈ now :: calls.map Prod.fst, cycleEnd c f t < 2^64) :
    Counts c f target ((harvestInit zeroed c f target now).samples power calls).1
      ((harvestInit zeroed c f target now).samples power calls).2
      ((calls.map Prod.fst).getLastD now) := by
  have hinit := tracks_harvestInit hf hc target (hfit now List.mem_cons_self)
  have hrun := hinit.samples hf hc power calls hsorted fun t ht => hfit t (List.mem_cons_of_mem _ ht)
  rw [List.nil_append] at hrun
  have hlast : c ≤ (calls.map Prod.fst).getLastD now := by
    have hmem : (calls.map Prod.fst).getLastD now ∈ now :: calls.map Prod.fst :=
      List.getLastD_mem_cons
    rcases List.mem_cons.mp hmem with heq | hmem
    · rw [heq]
      exact hc
    · exact hc.trans ((List.pairwise_cons.mp hsorted).1 _ hmem)
  refine ⟨?_,hrun.seen,hrun.sampled,hrun.prev,hrun.first⟩
  rw [hrun.nextHarvest]
  exact isLeast_cycleEnd hf hlast

/-- Two calls in the first cycle, none in the second and one in the third. -/
theorem counts_samples_gap : Counts 100 10 1
    ((harvestInit zeroed 100 10 1 103).samples (fun _ _ => 0)
      [(105,fun _ => 0),(109,fun _ => 0),(121,fun _ => 0)]).1
    ((harvestInit zeroed 100 10 1 103).samples (fun _ _ => 0)
      [(105,fun _ => 0),(109,fun _ => 0),(121,fun _ => 0)]).2 121 := by
  have h := counts_samples (fun _ _ => 0) 100 10 1 103
    [(105,fun _ => 0),(109,fun _ => 0),(121,fun _ => 0)] (by decide) (by decide) (by decide)
    (by decide)
  exact h

end NrAppHarvest
end PhpAgent
