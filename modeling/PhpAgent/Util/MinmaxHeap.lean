import Mathlib.Tactic

/-! The min-max heap of `util_minmax_heap.c`: a complete binary tree in an array whose root is at
index 1. Memory is explicit: an access at or past the allocated capacity has no result, so every
statement that an operation returns a heap also says that it stayed inside its allocation. -/
namespace PhpAgent

/-- One slot of the element array. A zeroed slot holds the default value and is not in use. -/
structure HeapElement (α : Type) where
  used : Bool
  value : α
  deriving DecidableEq

/-- The heap proper. `bound` is 0 for an unbounded heap. -/
structure MinmaxHeap (α : Type) where
  bound : ℕ
  capacity : ℕ
  used : ℕ
  elements : ℕ → HeapElement α

namespace MinmaxHeap

/-- `NR_MINMAX_HEAP_CHUNK_SIZE`, the initial allocation of an unbounded heap. -/
def chunkSize : ℕ := 64

/-- Min layers are on even depths, starting at the root. -/
def isMin (n : ℕ) : Bool := Nat.log2 n % 2 == 0

def parent (n : ℕ) : ℕ := n/2
def firstChild (n : ℕ) : ℕ := n*2
def secondChild (n : ℕ) : ℕ := n*2+1

section Memory
variable {α : Type}

def read (h : MinmaxHeap α) (i : ℕ) : Option (HeapElement α) :=
  if i < h.capacity then some (h.elements i) else none

def write (h : MinmaxHeap α) (i : ℕ) (e : HeapElement α) : Option (MinmaxHeap α) :=
  if i < h.capacity then some { h with elements := Function.update h.elements i e } else none

def swap (h : MinmaxHeap α) (i j : ℕ) : Option (MinmaxHeap α) := do
  let tmp ← h.read i
  let e ← h.read j
  let h ← h.write i e
  h.write j tmp

end Memory

inductive CompareOp
  | lessThan
  | greaterThan
  | equal
  deriving DecidableEq

/-- Whether the result of a comparison is the expected one. -/
def CompareOp.holds : CompareOp → ℤ → Bool
  | .lessThan, result => decide (result < 0)
  | .greaterThan, result => decide (0 < result)
  | .equal, result => decide (result = 0)

section Operations
variable {α : Type} (cmp : α → α → ℤ)

def compare (h : MinmaxHeap α) (i j : ℕ) : Option ℤ := do
  let a ← h.read i
  let b ← h.read j
  return cmp a.value b.value

def compareExpect (h : MinmaxHeap α) (i j : ℕ) (op : CompareOp) : Option Bool := do
  let result ← compare cmp h i j
  return op.holds result

/-- Each call moves to the grandparent, so `i` itself is fuel enough. -/
def bubbleupMinmax : ℕ → MinmaxHeap α → ℕ → CompareOp → Option (MinmaxHeap α)
  | 0, _, _, _ => none
  | fuel+1, h, i, op => do
    let grandparent := parent (parent i)
    if grandparent ≤ 0 then
      return h
    if ← compareExpect cmp h i grandparent op then
      let h ← h.swap i grandparent
      bubbleupMinmax fuel h grandparent op
    else
      return h

def bubbleupMin (h : MinmaxHeap α) (i : ℕ) : Option (MinmaxHeap α) :=
  bubbleupMinmax cmp (i+1) h i .lessThan

def bubbleupMax (h : MinmaxHeap α) (i : ℕ) : Option (MinmaxHeap α) :=
  bubbleupMinmax cmp (i+1) h i .greaterThan

def bubbleup (h : MinmaxHeap α) (i : ℕ) : Option (MinmaxHeap α) := do
  let p := parent i
  if p ≤ 0 then
    return h
  let c ← compare cmp h i p
  if isMin i then
    if 0 < c then
      let h ← h.swap i p
      bubbleupMax cmp h p
    else
      bubbleupMin cmp h i
  else
    if c < 0 then
      let h ← h.swap i p
      bubbleupMin cmp h p
    else
      bubbleupMax cmp h i

/-- One step of the search below: keep `idx` unless `c` is in use and precedes it. An index of -1
is `none`; comparing against it would read outside the array. -/
def pickChild (h : MinmaxHeap α) (op : CompareOp) (idx : Option ℕ) (c : ℕ) : Option (Option ℕ) :=
  if c ≤ h.used then
    match idx with
    | none => none
    | some i => do return if ← compareExpect cmp h c i op then some c else some i
  else some idx

/-- The minimum or maximum child or grandchild of a node, `none` for -1. -/
def indexMinmaxChildGrandchild (h : MinmaxHeap α) (i : ℕ) (op : CompareOp) : Option (Option ℕ) :=
  let a := firstChild i
  let b := secondChild i
  [b,firstChild a,secondChild a,firstChild b,secondChild b].foldlM (pickChild cmp h op)
    (if a ≤ h.used then some a else none)

/-- Each call moves down two levels inside `1, ..., used`, so `used` is fuel enough. -/
def trickledownMinmax : ℕ → MinmaxHeap α → ℕ → CompareOp → Option (MinmaxHeap α)
  | 0, _, _, _ => none
  | fuel+1, h, i, op => do
    match ← indexMinmaxChildGrandchild cmp h i op with
    | none => return h
    | some m =>
      if secondChild i < m then
        if ← compareExpect cmp h m i op then
          let h ← h.swap i m
          if ← compareExpect cmp h m (parent m) op then
            trickledownMinmax fuel h m op
          else
            let h ← h.swap m (parent m)
            trickledownMinmax fuel h m op
        else
          return h
      else
        if ← compareExpect cmp h m i op then
          h.swap i m
        else
          return h

def trickledownMax (h : MinmaxHeap α) (i : ℕ) : Option (MinmaxHeap α) :=
  trickledownMinmax cmp (h.used+1) h i .greaterThan

def trickledownMin (h : MinmaxHeap α) (i : ℕ) : Option (MinmaxHeap α) :=
  trickledownMinmax cmp (h.used+1) h i .lessThan

def trickledown (h : MinmaxHeap α) (i : ℕ) : Option (MinmaxHeap α) :=
  if isMin i then trickledownMin cmp h i else trickledownMax cmp h i

/-- A bound of 1 or below 0 is refused. -/
def create [Inhabited α] (bound : ℤ) : Option (MinmaxHeap α) :=
  if bound = 1 ∨ bound < 0 then none
  else some
    { bound := bound.toNat
      capacity := if 0 < bound then bound.toNat+1 else chunkSize
      used := 0
      elements := fun _ => ⟨false,default⟩ }

/-- Double the allocation when it is full, zeroing the new half. -/
def grow [Inhabited α] (h : MinmaxHeap α) : MinmaxHeap α :=
  if h.capacity ≤ h.used+1 then
    { h with
      capacity := h.capacity*2
      elements := fun i => if i < h.capacity then h.elements i else ⟨false,default⟩ }
  else h

/-- The tail of an insertion: make room, append, restore the order. -/
def append [Inhabited α] (h : MinmaxHeap α) (value : α) : Option (MinmaxHeap α) := do
  let h := h.grow
  let h ← { h with used := h.used+1 }.write (h.used+1) ⟨true,value⟩
  bubbleup cmp h h.used

def peekMin (h : MinmaxHeap α) : Option (Option α) :=
  if h.used = 0 then some none else do return some (← h.read 1).value

def peekMax (h : MinmaxHeap α) : Option (Option α) := do
  if h.used = 0 then
    return none
  if h.used = 1 then
    return some (← h.read 1).value
  if h.used = 2 then
    return some (← h.read 2).value
  if 0 < (← compare cmp h 2 3) then
    return some (← h.read 2).value
  else
    return some (← h.read 3).value

/-- Overwrite slot `i` with the last element, release the last slot and sink slot `i`. -/
def refill (h : MinmaxHeap α) (i : ℕ) : Option (MinmaxHeap α) := do
  let last ← h.read h.used
  let h ← h.write i last
  let e ← h.read h.used
  let h ← h.write h.used { e with used := false }
  trickledown cmp { h with used := h.used-1 } i

def popMin (h : MinmaxHeap α) : Option (Option α × MinmaxHeap α) := do
  if h.used = 0 then
    return (none,h)
  let e ← h.read 1
  if h.used = 1 then
    let h ← h.write 1 { e with used := false }
    return (some e.value,{ h with used := h.used-1 })
  let h ← refill cmp h 1
  return (some e.value,h)

def popMax (h : MinmaxHeap α) : Option (Option α × MinmaxHeap α) := do
  if h.used = 0 then
    return (none,h)
  if h.used ≤ 2 then
    let e ← h.read h.used
    let h ← h.write h.used { e with used := false }
    return (some e.value,{ h with used := h.used-1 })
  let c ← compare cmp h 2 3
  let idx := if c < 0 then 3 else 2
  let e ← h.read idx
  let h ← refill cmp h idx
  return (some e.value,h)

/-- The values of the slots in use, in the order `nr_minmax_heap_iterate` visits them. -/
def iterate (h : MinmaxHeap α) : Option (List α) := do
  let es ← (List.range (h.used+1)).mapM h.read
  return (es.filter HeapElement.used).map HeapElement.value

end Operations

/-- Insertion. The comparator and the destructor may read and change a state outside the heap: a
full bounded heap gives the destructor either the new value or the minimum it evicts for it. -/
def insert {α σ : Type} [Inhabited α] (cmp : σ → α → α → ℤ) (destructor : α → σ → Option σ)
    (h : MinmaxHeap α) (value : α) (s : σ) : Option (MinmaxHeap α × σ) := do
  if h.bound ≠ 0 ∧ h.bound ≤ h.used then
    match ← h.peekMin with
    | none => none
    | some min =>
      if 0 < cmp s min value then
        return (h,← destructor value s)
      let (_,h) ← popMin (cmp s) h
      let s ← destructor min s
      return (← append (cmp s) h value,s)
  else
    return (← append (cmp s) h value,s)

end MinmaxHeap
end PhpAgent
