import Mathlib.Tactic

/-! Growable arrays, after `util_vector.c`, and the stacks of `util_stack.c`, which are vectors
whose last element is the top. Allocation does not fail: the allocators abort instead. -/
namespace PhpAgent

/-- The double-until-it-fits loop of `nr_vector_ensure_impl`. Doubling `capacity` times is always
enough, so the fuel is never spent (`le_doubleCapacity`). -/
def doubleCapacity (capacity : ℕ) : ℕ → ℕ → ℕ
  | 0, new => new
  | fuel+1, new => if new < capacity then doubleCapacity capacity fuel (new*2) else new

lemma le_doubleCapacity_of_pow {capacity : ℕ} (fuel new : ℕ) (h : capacity ≤ new*2^fuel) :
    capacity ≤ doubleCapacity capacity fuel new := by
  induction fuel generalizing new with
  | zero => simpa [doubleCapacity] using h
  | succ fuel ih =>
    rw [doubleCapacity]
    split_ifs with hlt
    · apply ih
      calc capacity ≤ new*2^(fuel+1) := h
        _ = new*2*2^fuel := by ring
    · omega

lemma le_doubleCapacity (capacity new : ℕ) (h : 0 < new) :
    capacity ≤ doubleCapacity capacity capacity new := by
  apply le_doubleCapacity_of_pow
  calc capacity ≤ 2^capacity := Nat.lt_two_pow_self.le
    _ ≤ new*2^capacity := Nat.le_mul_of_pos_left _ h

/-- `used` is the number of elements; they never exceed the allocation. -/
structure NrVector (α : Type) where
  capacity : ℕ
  elements : List α
  fits : elements.length ≤ capacity
  deriving DecidableEq

namespace NrVector
variable {α : Type}

def init (initial : ℕ) : NrVector α where
  capacity := if initial = 0 then 8 else initial
  elements := []
  fits := Nat.zero_le _

def size (v : NrVector α) : ℕ := v.elements.length

def get (v : NrVector α) (i : ℕ) : Option α := v.elements[i]?

/-- The capacity after making room for `capacity` elements. -/
def ensuredCapacity (v : NrVector α) (capacity : ℕ) : ℕ :=
  if capacity ≤ v.capacity then v.capacity
  else doubleCapacity capacity capacity (if v.capacity = 0 then 8 else v.capacity)

lemma le_ensuredCapacity (v : NrVector α) (capacity : ℕ) :
    capacity ≤ v.ensuredCapacity capacity := by
  unfold ensuredCapacity
  split_ifs with h h0
  · exact h
  · exact le_doubleCapacity _ _ (by decide)
  · exact le_doubleCapacity _ _ (Nat.pos_of_ne_zero h0)

/-- Append elements behind the used ones, the allocation ensured first. -/
def extend (v : NrVector α) (es : List α) : NrVector α where
  capacity := v.ensuredCapacity (v.size+es.length)
  elements := v.elements ++ es
  fits := by
    rw [List.length_append]
    exact v.le_ensuredCapacity _

def pushBack (v : NrVector α) (element : α) : NrVector α := v.extend [element]

def pushFront (v : NrVector α) (element : α) : NrVector α where
  capacity := v.ensuredCapacity (v.size+1)
  elements := element :: v.elements
  fits := v.le_ensuredCapacity (v.size+1)

/-- The capacity once `used` elements are left: halved when fewer than half the slots are used,
but never for fewer than four elements. -/
def shrunkCapacity (capacity used : ℕ) : ℕ :=
  if used < 4 ∨ capacity/2 ≤ used then capacity else capacity/2

lemma le_shrunkCapacity {capacity used : ℕ} (h : used ≤ capacity) :
    used ≤ shrunkCapacity capacity used := by
  unfold shrunkCapacity
  split_ifs <;> omega

/-- Remove by position. A position past the end is refused. -/
def remove (v : NrVector α) (pos : ℕ) : NrVector α where
  capacity := if pos < v.size then shrunkCapacity v.capacity (v.elements.eraseIdx pos).length
    else v.capacity
  elements := v.elements.eraseIdx pos
  fits := by
    have hle : (v.elements.eraseIdx pos).length ≤ v.elements.length :=
      (List.eraseIdx_sublist _ _).length_le
    split
    · exact le_shrunkCapacity (hle.trans v.fits)
    · exact hle.trans v.fits

def popBack (v : NrVector α) : NrVector α := v.remove (v.size-1)

/-- Overwrite by position. A position past the end is refused. -/
def replace (v : NrVector α) (pos : ℕ) (element : α) : NrVector α where
  capacity := v.capacity
  elements := v.elements.set pos element
  fits := by
    rw [List.length_set]
    exact v.fits

section Find
variable [DecidableEq α]

/-- The loop of `nr_vector_find_direct` run from position `i-1` down to 0. -/
def findDown (xs : List α) (needle : α) : ℕ → Option ℕ
  | 0 => none
  | i+1 => if xs[i]? = some needle then some i else findDown xs needle i

def findLast (v : NrVector α) (needle : α) : Option ℕ := findDown v.elements needle v.size

lemma findDown_eq_some {xs : List α} {needle : α} {n i : ℕ}
    (h : findDown xs needle n = some i) : xs[i]? = some needle := by
  induction n with
  | zero => simp [findDown] at h
  | succ n ih =>
    rw [findDown] at h
    split_ifs at h with hn
    · simpa [← Option.some_inj.mp h] using hn
    · exact ih h

lemma findDown_eq_none {xs : List α} {needle : α} {n : ℕ}
    (h : findDown xs needle n = none) : ∀ i < n, xs[i]? ≠ some needle := by
  induction n with
  | zero => simp
  | succ n ih =>
    rw [findDown] at h
    split_ifs at h with hn
    intro i hi
    rcases Nat.lt_succ_iff_lt_or_eq.mp hi with hlt | rfl
    · exact ih h i hlt
    · exact hn

end Find

@[simp] lemma elements_init (initial : ℕ) : (init initial : NrVector α).elements = [] := rfl
@[simp] lemma elements_extend (v : NrVector α) (es : List α) :
    (v.extend es).elements = v.elements ++ es := rfl
@[simp] lemma elements_pushBack (v : NrVector α) (e : α) :
    (v.pushBack e).elements = v.elements ++ [e] := rfl
@[simp] lemma elements_pushFront (v : NrVector α) (e : α) :
    (v.pushFront e).elements = e :: v.elements := rfl
@[simp] lemma elements_remove (v : NrVector α) (pos : ℕ) :
    (v.remove pos).elements = v.elements.eraseIdx pos := rfl
@[simp] lemma elements_replace (v : NrVector α) (pos : ℕ) (e : α) :
    (v.replace pos e).elements = v.elements.set pos e := rfl

@[simp] lemma elements_popBack (v : NrVector α) : v.popBack.elements = v.elements.dropLast := by
  simp [popBack,size,List.eraseIdx_length_sub_one]

end NrVector

/-- A stack grows at the end of its vector. -/
abbrev NrStack (α : Type) : Type := NrVector α

namespace NrStack
variable {α : Type}

/-- `NR_STACK_DEFAULT_CAPACITY`. -/
def defaultCapacity : ℕ := 32

def getTop (s : NrStack α) : Option α := s.elements.getLast?
def push (s : NrStack α) (e : α) : NrStack α := NrVector.pushBack s e
def pop (s : NrStack α) : NrStack α := NrVector.popBack s

def removeTopmost [DecidableEq α] (s : NrStack α) (e : α) : NrStack α :=
  match NrVector.findLast s e with
  | some i => NrVector.remove s i
  | none => s

@[simp] lemma elements_push (s : NrStack α) (e : α) : (push s e).elements = s.elements ++ [e] := rfl
@[simp] lemma elements_pop (s : NrStack α) : (pop s).elements = s.elements.dropLast :=
  NrVector.elements_popBack s

lemma mem_of_getTop {s : NrStack α} {e : α} (h : getTop s = some e) : e ∈ s.elements :=
  List.mem_of_getLast? h

section RemoveTopmost
variable [DecidableEq α]

lemma removeTopmost_sublist (s : NrStack α) (e : α) :
    List.Sublist (removeTopmost s e).elements s.elements := by
  unfold removeTopmost
  split
  · exact List.eraseIdx_sublist _ _
  · exact List.Sublist.refl _

lemma notMem_removeTopmost {s : NrStack α} (hs : s.elements.Nodup) (e : α) :
    e ∉ (removeTopmost s e).elements := by
  unfold removeTopmost
  split
  · rename_i i hi
    have hget := NrVector.findDown_eq_some hi
    intro hmem
    obtain ⟨j,hj,hje⟩ := List.mem_eraseIdx_iff_getElem?.mp hmem
    have hlt : j < s.elements.length := (List.getElem?_eq_some_iff.mp hje).1
    exact hj ((List.getElem?_inj hlt hs).mp (hje.trans hget.symm))
  · rename_i hi
    intro hmem
    obtain ⟨j,hj⟩ := List.mem_iff_getElem?.mp hmem
    exact NrVector.findDown_eq_none hi j (List.getElem?_eq_some_iff.mp hj).1 hj

end RemoveTopmost
end NrStack
end PhpAgent
