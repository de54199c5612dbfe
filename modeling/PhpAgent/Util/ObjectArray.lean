import PhpAgent.Util.Object

/-! Arrays of generic objects, after `util_object.c`. An object to be set is always a fresh one or a
copy, so that it is never the array itself. -/
namespace PhpAgent

/-- `nrarray_t`; the allocated slots behind the elements are never read. -/
structure NrArray where
  allocated : ℕ
  elements : List NrObj
  fits : elements.length ≤ allocated

namespace NrArray

/-- `NRO_CHUNK_SIZE`. -/
def chunkSize : ℕ := 8

def new : NrArray := ⟨chunkSize,[],Nat.zero_le _⟩

def size (a : NrArray) : ℕ := a.elements.length

/-- Append an element, with another chunk when all slots are taken. -/
def append (a : NrArray) (nobj : NrObj) : NrArray where
  allocated := if a.size = a.allocated then a.allocated+chunkSize else a.allocated
  elements := a.elements ++ [nobj]
  fits := by
    have hfits := a.fits
    rw [List.length_append,List.length_singleton,size,chunkSize]
    split_ifs <;> omega

def replace (a : NrArray) (idx : ℕ) (nobj : NrObj) : NrArray where
  allocated := a.allocated
  elements := a.elements.set idx nobj
  fits := by rw [List.length_set]; exact a.fits

/-- `nro_internal_setvalue_array`, with no result when it fails. Positions count from one; a zero
means the end before the subtraction and after it. -/
def setvalue (a : NrArray) (idx : ℤ) (nobj : Option NrObj) : Option NrArray :=
  match nobj with
  | none => none
  | some nobj =>
    if idx < 0 then none
    else if 0 < idx ∧ a.size < idx-1 then none
    else
      let idx := if 0 < idx then (if idx-1 = a.size then 0 else idx-1) else 0
      if idx = 0 then some (a.append nobj) else some (a.replace idx.toNat nobj)

/-- The array after `nro_set_array`, also after a failure. -/
def set (a : NrArray) (idx : ℤ) (nobj : NrObj) : NrArray := (a.setvalue idx (some nobj)).getD a

/-- `nro_get_array_value`. -/
def getValue (a : NrArray) (idx : ℤ) : Option NrObj :=
  if idx < 1 ∨ (a.size : ℤ) ≤ idx-1 then none else a.elements[(idx-1).toNat]?

/-! ### One set -/

variable {a : NrArray} {idx : ℤ} {nobj : NrObj}

@[simp] lemma elements_append (a : NrArray) (nobj : NrObj) :
    (a.append nobj).elements = a.elements ++ [nobj] := rfl

@[simp] lemma elements_replace (a : NrArray) (idx : ℕ) (nobj : NrObj) :
    (a.replace idx nobj).elements = a.elements.set idx nobj := rfl

@[simp] lemma size_append (a : NrArray) (nobj : NrObj) : (a.append nobj).size = a.size+1 :=
  List.length_append

/-- What a set at a position is for: replace the element there, or append one. -/
structure Sets (a : NrArray) (idx : ℤ) (nobj : NrObj) (a' : NrArray) : Prop where
  replaced : 1 ≤ idx → idx ≤ a.size → a'.elements = a.elements.set (idx-1).toNat nobj
  appended : idx = 0 ∨ idx = a.size+1 → a'.elements = a.elements ++ [nobj]
  refused : idx < 0 ∨ (a.size : ℤ)+1 < idx → a' = a

/-- The first element of an array that has one is appended again. -/
def Again (a : NrArray) (idx : ℤ) : Prop := idx = 1 ∧ 0 < a.size

lemma set_again (h : Again a idx) : a.set idx nobj = a.append nobj := by
  obtain ⟨rfl,hpos⟩ := h
  have hle : ¬(a.size : ℤ) < 0 := by omega
  simp [set,setvalue,hle]

lemma set_sets (h : ¬Again a idx) : Sets a idx nobj (a.set idx nobj) := by
  unfold Again at h
  refine ⟨fun hone hle => ?_,fun hend => ?_,fun hout => ?_⟩
  · have hidx : ¬idx < 0 ∧ ¬(a.size : ℤ) < idx-1 ∧ 0 < idx ∧ idx-1 ≠ a.size ∧ idx-1 ≠ 0 := by
      omega
    simp [set,setvalue,hidx]
  · have hidx : ¬idx < 0 ∧ ¬(0 < idx ∧ (a.size : ℤ) < idx-1) ∧ (0 < idx → idx-1 = a.size) := by
      omega
    by_cases hpos : 0 < idx
    · simp [set,setvalue,hidx,hidx.2.2 hpos]
    · simp [set,setvalue,hidx,hpos]
  · rcases hout with hneg | hbig
    · simp [set,setvalue,hneg]
    · have hidx : ¬idx < 0 ∧ 0 < idx ∧ (a.size : ℤ) < idx-1 := by omega
      simp [set,setvalue,hidx]

/-- A set does what it is for unless it is for the first of several elements. -/
theorem sets_iff : Sets a idx nobj (a.set idx nobj) ↔ ¬Again a idx := by
  refine ⟨fun hsets hagain => ?_,set_sets⟩
  have hlength := congrArg List.length
    (hsets.replaced (by rw [hagain.1]) (by rw [hagain.1]; exact_mod_cast hagain.2))
  rw [set_again hagain,elements_append,List.length_append,List.length_set,
    List.length_singleton] at hlength
  omega

/-! ### Reading -/

lemma getValue_eq_some_iff :
    a.getValue idx = some nobj ↔ 1 ≤ idx ∧ a.elements[(idx-1).toNat]? = some nobj := by
  unfold getValue
  split_ifs with h
  · refine iff_of_false (by simp) fun ⟨hone,hget⟩ => ?_
    have hlt := (List.getElem?_eq_some_iff.mp hget).1
    unfold size at h
    omega
  · exact (and_iff_right (by omega)).symm

/-- The value that was set is read back. -/
theorem Sets.getValue_self {a' : NrArray} (h : Sets a idx nobj a') (hone : 1 ≤ idx)
    (hle : idx ≤ a.size+1) : a'.getValue idx = some nobj := by
  refine getValue_eq_some_iff.mpr ⟨hone,?_⟩
  by_cases hend : idx = a.size+1
  · have hidx : (idx-1).toNat = a.elements.length := by rw [hend,size]; omega
    rw [h.appended (Or.inr hend),hidx]
    simp
  · rw [h.replaced hone (by omega)]
    exact List.getElem?_set_self (by unfold size at *; omega)

/-- The other values are kept. -/
theorem Sets.getValue_ne {a' : NrArray} {idx' : ℤ} {value : NrObj} (h : Sets a idx nobj a')
    (hne : idx ≠ idx') (hvalue : a.getValue idx' = some value) :
    a'.getValue idx' = some value := by
  obtain ⟨hone,hget⟩ := getValue_eq_some_iff.mp hvalue
  have hlt := (List.getElem?_eq_some_iff.mp hget).1
  refine getValue_eq_some_iff.mpr ⟨hone,?_⟩
  rcases lt_or_ge idx 0 with hneg | hnonneg
  · rwa [h.refused (Or.inl hneg)]
  · rcases lt_or_ge ((a.size : ℤ)+1) idx with hbig | hle
    · rwa [h.refused (Or.inr hbig)]
    · by_cases hend : idx = 0 ∨ idx = a.size+1
      · rw [h.appended hend,List.getElem?_append_left hlt,hget]
      · rw [h.replaced (by omega) (by omega),List.getElem?_set_ne (by omega),hget]

/-! ### Sequences of sets -/

/-- The array after a sequence of sets. -/
def run (a : NrArray) (sets : List (ℤ × NrObj)) : NrArray :=
  sets.foldl (fun a s => a.set s.1 s.2) a

/-- Every set of the sequence does what it is for. -/
def EachSets (a : NrArray) (sets : List (ℤ × NrObj)) : Prop :=
  ∀ before idx nobj after, sets = before ++ (idx,nobj) :: after →
    Sets (a.run before) idx nobj ((a.run before).set idx nobj)

/-- At each position the value that was set there last is read. -/
def ReadsBack (a : NrArray) (sets : List (ℤ × NrObj)) : Prop :=
  ∀ before (idx : ℤ) nobj after, sets = before ++ (idx,nobj) :: after → 1 ≤ idx →
    idx ≤ (a.run before).size+1 → (∀ s ∈ after, s.1 ≠ idx) → (a.run sets).getValue idx = some nobj

lemma run_append (a : NrArray) (sets sets' : List (ℤ × NrObj)) :
    a.run (sets ++ sets') = (a.run sets).run sets' := List.foldl_append

lemma run_cons (a : NrArray) (s : ℤ × NrObj) (sets : List (ℤ × NrObj)) :
    a.run (s :: sets) = (a.set s.1 s.2).run sets := rfl

lemma getValue_run {sets : List (ℤ × NrObj)} {value : NrObj} (heach : EachSets a sets)
    (hsets : ∀ s ∈ sets, s.1 ≠ idx) (hvalue : a.getValue idx = some value) :
    (a.run sets).getValue idx = some value := by
  induction sets generalizing a with
  | nil => exact hvalue
  | cons s sets ih =>
    have hstep : Sets a s.1 s.2 (a.set s.1 s.2) := heach [] s.1 s.2 sets rfl
    refine ih ?_ (fun s' hs' => hsets s' (List.mem_cons_of_mem _ hs'))
      (hstep.getValue_ne (hsets s List.mem_cons_self) hvalue)
    intro before idx' nobj' after heq
    exact heach (s :: before) idx' nobj' after (by rw [heq]; rfl)

lemma EachSets.readsBack {sets : List (ℤ × NrObj)} (h : EachSets a sets) : ReadsBack a sets := by
  rintro before idx nobj after rfl hone hle hafter
  rw [run_append,run_cons]
  have hself := (h before idx nobj after rfl).getValue_self hone hle
  refine getValue_run ?_ hafter hself
  intro before' idx' nobj' after' heq
  have hfull := h (before ++ (idx,nobj) :: before') idx' nobj' after' (by rw [heq]; simp)
  rwa [run_append,run_cons] at hfull

/-- In a sequence of sets each does what it is for, and what was set last is read back, exactly when
the first element is never set in an array that has one. -/
theorem run_sets_iff (a : NrArray) (sets : List (ℤ × NrObj)) :
    EachSets a sets ∧ ReadsBack a sets ↔
      ∀ before idx nobj after, sets = before ++ (idx,nobj) :: after → ¬Again (a.run before) idx := by
  have heach : EachSets a sets ↔
      ∀ before idx nobj after, sets = before ++ (idx,nobj) :: after →
        ¬Again (a.run before) idx := by
    constructor
    · intro h before idx nobj after heq
      exact sets_iff.mp (h before idx nobj after heq)
    · intro h before idx nobj after heq
      exact sets_iff.mpr (h before idx nobj after heq)
  rw [← heach]
  exact and_iff_left_of_imp EachSets.readsBack

/-- The second value set at the first position is appended, and the first one is read back. -/
theorem run_first_twice :
    let sets : List (ℤ × NrObj) := [(1,.int 4),(1,.int 5)]
    (new.run sets).size = 2 ∧ (new.run sets).getValue 1 = some (.int 4) ∧
      ¬ReadsBack new sets := by
  refine ⟨rfl,rfl,fun h => ?_⟩
  have hread := h [(1,.int 4)] 1 (.int 5) [] rfl le_rfl (by decide) (by simp)
  injection hread with hread
  injection hread with hread
  omega

end NrArray
end PhpAgent
