import PhpAgent.Segment.ExclusiveTime

/-! Sequences of calls that record children, and the exclusive time after them: the duration less the
union of the recorded intervals inside the segment. -/
namespace PhpAgent

namespace ExclusiveTime
variable {et : ExclusiveTime} {ivs : List (ℕ × ℕ)}

/-- The record with further children. -/
def feed (et : ExclusiveTime) (ivs : List (ℕ × ℕ)) : ExclusiveTime :=
  { et with transitions := et.transitions ++ transitionsOf ivs }

@[simp] lemma feed_nil (et : ExclusiveTime) : et.feed [] = et := by simp [feed]

@[simp] lemma feed_feed (et : ExclusiveTime) (xs ys : List (ℕ × ℕ)) :
    (et.feed xs).feed ys = et.feed (xs ++ ys) := by
  simp [feed]

/-- There is room for `n` more children. -/
def Room (et : ExclusiveTime) (n : ℕ) : Prop := 0 < n → et.transitions.length+2*n ≤ et.capacity

lemma room_ensure (et : Option ExclusiveTime) (n start stop : ℕ) :
    (ensure et n start stop).Room n := by
  cases et with
  | none => simp [ensure,create,Room,Nat.mul_comm]
  | some et =>
    simp only [ensure,Room]
    intro hn
    split_ifs <;> omega

lemma addChild_eq (hroom : et.Room 1) (start stop : ℕ) :
    (et.addChild start stop).2 = et.feed (if start ≤ stop then [(start,stop)] else []) := by
  unfold addChild
  have hcap := hroom one_pos
  rw [if_neg (by omega)]
  by_cases hle : start ≤ stop
  · rw [if_neg (by omega),if_pos hle]
    rfl
  · rw [if_pos (by omega),if_neg hle,feed_nil]

lemma Room.feed {n : ℕ} (h : et.Room (n+1)) (hlen : ivs.length ≤ 1) : (et.feed ivs).Room n := by
  have hlen' : (transitionsOf ivs).length = 2*ivs.length := by
    simp [transitionsOf,Nat.mul_comm]
  simp only [Room,ExclusiveTime.feed,List.length_append,hlen'] at *
  omega

lemma Room.mono {m n : ℕ} (h : et.Room n) (hle : m ≤ n) : et.Room m := by
  unfold Room at *
  omega

/-! ### Sequences of calls -/

/-- A call that sets the times and makes room, or one that records a child. -/
inductive Call
  | ensure (childSegments startTime stopTime : ℕ)
  | addChild (startTime stopTime : ℕ)

/-- One call on a structure that is NULL at first; a child that is refused has no result. -/
def Call.apply (et : Option ExclusiveTime) : Call → Option (Option ExclusiveTime)
  | .ensure childSegments startTime stopTime =>
    some (some (ExclusiveTime.ensure et childSegments startTime stopTime))
  | .addChild startTime stopTime =>
    match et with
    | none => none
    | some et => if (et.addChild startTime stopTime).1 then
        some (some (et.addChild startTime stopTime).2) else none

def applyAll (et : Option ExclusiveTime) (calls : List Call) : Option (Option ExclusiveTime) :=
  calls.foldlM Call.apply et

/-- The child that a call records. -/
def Call.child : Call → Option (ℕ × ℕ)
  | .ensure _ _ _ => none
  | .addChild startTime stopTime => some (startTime,stopTime)

/-- What a structure has recorded; NULL has recorded nothing. -/
def RecordedBy (et : Option ExclusiveTime) (ivs : List (ℕ × ℕ)) : Prop :=
  match et with
  | none => ivs = []
  | some et => et.Recorded ivs

lemma recorded_ensure {o : Option ExclusiveTime} (h : RecordedBy o ivs)
    (n start stop : ℕ) : (ensure o n start stop).Recorded ivs := by
  cases o with
  | none =>
    rw [show ivs = [] from h]
    exact ⟨.refl _,fun iv hiv => absurd hiv List.not_mem_nil⟩
  | some et => exact ⟨h.perm,h.valid⟩

lemma recorded_feed {ivs new : List (ℕ × ℕ)} (h : et.Recorded ivs)
    (hnew : ∀ iv ∈ new, iv.1 ≤ iv.2) : (et.feed new).Recorded (ivs ++ new) where
  perm := by
    rw [transitionsOf_append]
    exact h.perm.append_right _
  valid iv hiv := by
    obtain hiv | hiv := List.mem_append.mp hiv
    · exact h.valid iv hiv
    · exact hnew iv hiv

/-- A child is recorded exactly when there is room and it does not stop before it starts. -/
theorem addChild_accepts_iff (start stop : ℕ) :
    (et.addChild start stop).1 = true ↔ et.Room 1 ∧ start ≤ stop := by
  unfold addChild Room
  split_ifs <;> simp <;> omega

lemma Call.apply_recorded {o o' : Option ExclusiveTime} {c : Call}
    (h : RecordedBy o ivs) (hc : c.apply o = some o') : RecordedBy o' (ivs ++ c.child.toList) := by
  cases c with
  | ensure n start stop =>
    obtain rfl := Option.some_inj.mp hc
    simpa [Call.child,RecordedBy] using recorded_ensure h n start stop
  | addChild start stop =>
    cases o with
    | none => cases hc
    | some et =>
      simp only [Call.apply,Option.ite_none_right_eq_some] at hc
      obtain ⟨haccept,hc⟩ := hc
      obtain rfl := Option.some_inj.mp hc
      obtain ⟨hroom,hle⟩ := (addChild_accepts_iff start stop).mp haccept
      rw [addChild_eq hroom,if_pos hle]
      exact recorded_feed h (by simpa using hle)

lemma applyAll_recorded (calls : List Call) {o o' : Option ExclusiveTime}
    (h : RecordedBy o ivs) (hrun : applyAll o calls = some o') :
    RecordedBy o' (ivs ++ calls.filterMap Call.child) := by
  induction calls generalizing o ivs with
  | nil =>
    obtain rfl := Option.some_inj.mp hrun
    simpa using h
  | cons c calls ih =>
    obtain ⟨o₁,hc,hrun⟩ := Option.bind_eq_some_iff.mp hrun
    have hrest := ih (Call.apply_recorded h hc) hrun
    rw [List.append_assoc] at hrest
    cases hchild : c.child with
    | none => simpa [List.filterMap_cons,hchild] using hrest
    | some iv => simpa [List.filterMap_cons,hchild] using hrest

/-- As many children as were asked for are accepted. -/
theorem applyAll_children {n : ℕ} (children : List (ℕ × ℕ)) (hlen : children.length ≤ n)
    (hvalid : ∀ iv ∈ children, iv.1 ≤ iv.2) (hroom : et.Room n) :
    applyAll (some et) (children.map fun iv => .addChild iv.1 iv.2) = some (some (et.feed children)) := by
  induction children generalizing et n with
  | nil =>
    rw [feed_nil]
    rfl
  | cons iv children ih =>
    obtain ⟨n,rfl⟩ : ∃ m, n = m+1 := Nat.exists_eq_add_one.mpr (by
      rw [List.length_cons] at hlen
      omega)
    have hle := hvalid iv List.mem_cons_self
    have haccept : (et.addChild iv.1 iv.2).1 = true :=
      (addChild_accepts_iff _ _).mpr ⟨hroom.mono (by omega),hle⟩
    have hone : (et.addChild iv.1 iv.2).2 = et.feed [iv] := by
      rw [addChild_eq (hroom.mono (by omega)),if_pos hle]
    have hfirst : Call.apply (some et) (.addChild iv.1 iv.2) = some (some (et.feed [iv])) := by
      rw [Call.apply,if_pos haccept,hone]
    rw [applyAll,List.map_cons,List.foldlM_cons,hfirst]
    change applyAll (some (et.feed [iv])) _ = _
    rw [ih (Nat.le_of_succ_le_succ hlen) (fun jv hjv => hvalid jv (List.mem_cons_of_mem _ hjv))
      (hroom.feed le_rfl),feed_feed]
    rfl

/-- As many children as were asked for are accepted. After any calls that were all accepted, and with
any sort by the comparator, the sweep takes none of the branches that are to be impossible, and what is
left of the duration is what the union of the children leaves of the segment. -/
theorem calculate_union {calls : List Call} {et : ExclusiveTime}
    (hrun : applyAll none calls = some (some et)) :
    (∀ children : List (ℕ × ℕ), (∀ iv ∈ children, iv.1 ≤ iv.2) → ∀ startTime stopTime,
      ∃ et', applyAll (some et) (.ensure children.length startTime stopTime ::
        children.map fun iv => .addChild iv.1 iv.2) = some (some et')) ∧
    ∀ sorted : List Transition, sorted.Perm et.transitions → sorted.Pairwise Le →
      sweepChecked et.startTime et.stopTime sorted 0 0 (et.stopTime-et.startTime) =
        some et.calculate.1 ∧
      et.calculate.1 = (et.stopTime-et.startTime)-
        (Intervals.ticks (calls.filterMap Call.child) ∩ Finset.Ico et.startTime et.stopTime).card := by
  have hrec : et.Recorded (calls.filterMap Call.child) := by
    have hnone : RecordedBy none [] := rfl
    have hall := applyAll_recorded calls hnone hrun
    rwa [List.nil_append] at hall
  constructor
  · intro children hvalid start stop
    exact ⟨_,applyAll_children children le_rfl hvalid (room_ensure (some et) children.length start stop)⟩
  · intro sorted hperm hsorted
    have hbal := balanced_of_perm hsorted (hperm.trans hrec.perm) hrec.valid
    have hregion := region_of_perm (hperm.trans hrec.perm) hrec.valid et.startTime et.stopTime
    have hvalue : et.calculate.1 = (et.stopTime-et.startTime)-
        (Intervals.ticks (calls.filterMap Call.child) ∩ Finset.Ico et.startTime et.stopTime).card := by
      rw [calculate_eq hrec,Finset.card_sdiff,Nat.card_Ico]
    refine ⟨?_,hvalue⟩
    rw [sweepChecked_eq hsorted hbal (Began.idle _ _ _),sweep_eq hsorted hbal (Began.idle _ _ _),
      if_pos rfl,hregion,hvalue,Finset.inter_comm]
    rw [if_pos rfl,hregion,← Nat.card_Ico]
    exact Finset.card_le_card Finset.inter_subset_left

/-- A segment from 10 to 20 with three children, one of them partly outside. -/
theorem calculate_union_three : ∃ et, applyAll none
      [.ensure 3 10 20,.addChild 12 15,.addChild 18 25,.addChild 14 16] = some (some et) ∧
    sweepChecked et.startTime et.stopTime (et.transitions.insertionSort Le) 0 0
        (et.stopTime-et.startTime) = some et.calculate.1 ∧
      et.calculate.1 = (et.stopTime-et.startTime)-
        (Intervals.ticks [(12,15),(18,25),(14,16)] ∩ Finset.Ico et.startTime et.stopTime).card := by
  refine ⟨(ensure none 3 10 20).feed [(12,15),(18,25),(14,16)],rfl,?_⟩
  exact (@calculate_union [.ensure 3 10 20,.addChild 12 15,.addChild 18 25,.addChild 14 16] _ rfl).2 _
    (List.perm_insertionSort _ _) (List.pairwise_insertionSort Le _)

end ExclusiveTime
end PhpAgent
