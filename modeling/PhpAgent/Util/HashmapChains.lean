import Mathlib.Data.List.AList
import PhpAgent.Lib.LinkedChain
import PhpAgent.Util.Hashmap

/-! Hash maps as they lie in memory, after `util_hashmap.c`: an array of heads and chains of buckets that
are linked both ways. The hash function and `malloc` are parameters. -/
namespace PhpAgent.HashTable
open LinkedChain

variable {α : Type}

/-- `nr_hashmap_bucket_t`; the item is the key and the value. -/
abbrev Bucket (α : Type) : Type := Cell ℕ (Bytes × α)

abbrev Heap (α : Type) : Type := AList fun _ : ℕ => Bucket α

/-- `nr_hashmap_t`, with the memory its buckets are in. Of the destructor only matters whether there is
one. -/
structure Table (α : Type) where
  dtorFunc : Bool
  log2NumBuckets : ℕ
  buckets : List (Option ℕ)
  elements : ℕ
  heap : Heap α

/-- `nr_hashmap_create_internal`. -/
def createInternal (log2NumBuckets : ℕ) (dtorFunc : Bool) : Table α :=
  ⟨dtorFunc,Buckets.log2Number log2NumBuckets,List.replicate (2 ^ Buckets.log2Number log2NumBuckets) none,0,∅⟩

/-! ### Pointers -/

/-- `p->prev = prev`, where `p` is not NULL. -/
def linkPrev (heap : Heap α) (p prev : Option ℕ) : Option (Heap α) :=
  match p with
  | none => some heap
  | some p => do
    let b ← heap.lookup p
    return heap.insert p { b with prev := prev }

/-- `p->next = next`, where `p` is not NULL. -/
def linkNext (heap : Heap α) (p next : Option ℕ) : Option (Heap α) :=
  match p with
  | none => some heap
  | some p => do
    let b ← heap.lookup p
    return heap.insert p { b with next := next }

/-- The loop of `nr_hashmap_fetch`. A chain that comes back to itself would not end. -/
def fetchFrom (heap : Heap α) (key : Bytes) : ℕ → Option ℕ → Option (Option ℕ)
  | _,none => some none
  | 0,some _ => none
  | n + 1,some p => do
    let b ← heap.lookup p
    if b.item.1 = key then some (some p) else fetchFrom heap key n b.next

/-- The inner loop of `nr_hashmap_apply`: what the function is applied to. -/
def walk (heap : Heap α) : ℕ → Option ℕ → Option (List (Bytes × α))
  | _,none => some []
  | 0,some _ => none
  | n + 1,some p => do
    let b ← heap.lookup p
    return b.item :: (← walk heap n b.next)

namespace Table

variable (mkhash : Bytes → UInt32) (malloc : List ℕ → ℕ) (h : Table α)

/-- `nr_hashmap_hash_key`. -/
def hashKey (key : Bytes) : ℕ := hashmapHashKey mkhash h.log2NumBuckets key

/-- `nr_hashmap_fetch`. -/
def fetch (hash : ℕ) (key : Bytes) : Option (Option ℕ) := do
  let head ← h.buckets[hash]?
  fetchFrom h.heap key h.heap.keys.length head

/-- `nr_hashmap_add_internal`. -/
def addInternal (hash : ℕ) (key : Bytes) (value : α) : Option (Table α) := do
  let bucket := malloc h.heap.keys
  let head ← h.buckets[hash]?
  let heap := h.heap.insert bucket ⟨none,head,key,value⟩
  let heap ← linkPrev heap head (some bucket)
  return { h with
    heap := heap
    buckets := h.buckets.set hash (some bucket)
    elements := h.elements + 1 }

/-- What is passed to the destructor. -/
def destroyed (value : α) : List α := if h.dtorFunc then [value] else []

/-- `nr_hashmap_set`. -/
def set (key : Bytes) (value : α) : Option (Bool × Table α) :=
  if key = [] then some (false,h)
  else do
    let hash := h.hashKey mkhash key
    match ← h.fetch hash key with
    | some _ => return (false,h)
    | none => return (true,← h.addInternal malloc hash key value)

/-- `nr_hashmap_update`, with what is destroyed. -/
def update (key : Bytes) (value : α) : Option (List α × Table α) :=
  if key = [] then some ([],h)
  else do
    let hash := h.hashKey mkhash key
    match ← h.fetch hash key with
    | some p =>
      let b ← h.heap.lookup p
      return (h.destroyed b.item.2,{ h with heap := h.heap.insert p { b with item := (b.item.1,value) } })
    | none => return ([],← h.addInternal malloc hash key value)

/-- `nr_hashmap_get`, by `nr_hashmap_get_into`. -/
def get (key : Bytes) : Option (Option α) :=
  if key = [] then some none
  else do
    match ← h.fetch (h.hashKey mkhash key) key with
    | some p =>
      let b ← h.heap.lookup p
      return some b.item.2
    | none => return none

/-- `nr_hashmap_has`. -/
def has (key : Bytes) : Option Bool :=
  if key = [] then some false else (h.fetch (h.hashKey mkhash key) key).map Option.isSome

/-- A bucket is taken out of its chain, which `nr_hashmap_delete` does in three steps, and freed. -/
def unlink (hash p : ℕ) : Option (α × Table α) := do
  let b ← h.heap.lookup p
  let heap ← linkPrev h.heap b.next b.prev
  let b ← heap.lookup p
  let heap ← linkNext heap b.prev b.next
  let b ← heap.lookup p
  let head ← h.buckets[hash]?
  let buckets := if head = some p then h.buckets.set hash b.next else h.buckets
  return (b.item.2,{ h with heap := heap.erase p, buckets := buckets, elements := h.elements - 1 })

/-- `nr_hashmap_delete`, with what is destroyed. -/
def delete (key : Bytes) : Option (Bool × List α × Table α) :=
  if key = [] then some (false,[],h)
  else do
    let hash := h.hashKey mkhash key
    match ← h.fetch hash key with
    | some p =>
      let (value,h') ← h.unlink hash p
      return (true,h.destroyed value,h')
    | none => return (false,[],h)

/-- `nr_hashmap_apply`: what the function is applied to, in order. -/
def apply : Option (List (Bytes × α)) :=
  (h.buckets.mapM fun head => walk h.heap h.heap.keys.length head).map List.flatten

end Table

/-! ### Runs -/

inductive Op (α : Type)
  | set (key : Bytes) (value : α)
  | update (key : Bytes) (value : α)
  | get (key : Bytes)
  | has (key : Bytes)
  | delete (key : Bytes)
  | count
  | apply

inductive Answer (α : Type)
  | status (ok : Bool)
  | nothing
  | value (v : Option α)
  | found (b : Bool)
  | count (n : ℕ)
  | visited (entries : List (Bytes × α))

variable (mkhash : Bytes → UInt32) (malloc : List ℕ → ℕ)

/-- One call: what it returns, what it destroys and the table after it. -/
def step (h : Table α) : Op α → Option (Answer α × List α × Table α)
  | .set key value => (h.set mkhash malloc key value).map fun r => (.status r.1,[],r.2)
  | .update key value => (h.update mkhash malloc key value).map fun r => (.nothing,r)
  | .get key => (h.get mkhash key).map fun v => (.value v,[],h)
  | .has key => (h.has mkhash key).map fun b => (.found b,[],h)
  | .delete key => (h.delete mkhash key).map fun r => (.status r.1,r.2)
  | .count => some (.count h.elements,[],h)
  | .apply => h.apply.map fun entries => (.visited entries,[],h)

/-- The calls of a run with what they return and destroy. There is no result when a pointer is followed
to where no bucket is. -/
def run (h : Table α) : List (Op α) → Option (List (Answer α × List α) × Table α)
  | [] => some ([],h)
  | op :: ops => do
    let (answer,destroyed,h) ← step mkhash malloc h op
    let (answers,h) ← run h ops
    return ((answer,destroyed) :: answers,h)

/-! ### The map -/

/-- A map from keys to values. -/
abbrev KeyMap (α : Type) : Type := Bytes → Option α

namespace KeyMap

def next (m : KeyMap α) : Op α → KeyMap α
  | .set key value => if key = [] ∨ (m key).isSome then m else Function.update m key (some value)
  | .update key value => if key = [] then m else Function.update m key (some value)
  | .delete key => Function.update m key none
  | _ => m

/-- The values that a call replaces or removes. -/
def discards (m : KeyMap α) : Op α → List α
  | .update key _ => (m key).toList
  | .delete key => (m key).toList
  | _ => []

/-- What a call of a map may answer. The order in which entries are visited is left open. -/
def Answers (m : KeyMap α) : Op α → Answer α → Prop
  | .set key _,.status ok => ok = true ↔ key ≠ [] ∧ m key = none
  | .update _ _,.nothing => True
  | .get key,.value v => v = m key
  | .has key,.found b => b = (m key).isSome
  | .delete key,.status ok => ok = (m key).isSome
  | .count,.count n => n = {key | (m key).isSome}.ncard
  | .apply,.visited entries =>
    (entries.map Prod.fst).Nodup ∧ ∀ key value, (key,value) ∈ entries ↔ m key = some value
  | _,_ => False

/-- All calls of a run answer as those of the map, and what is replaced or removed is destroyed once. -/
def AnswersAll (dtorFunc : Bool) (m : KeyMap α) : List (Op α) → List (Answer α × List α) → Prop
  | [],answers => answers = []
  | op :: ops,answers => ∃ answer rest, answers = (answer,if dtorFunc then m.discards op else []) :: rest ∧
      m.Answers op answer ∧ AnswersAll dtorFunc (m.next op) ops rest

end KeyMap

/-! ### The memory -/

/-- The buckets of a heap. -/
def view (heap : Heap α) : View ℕ (Bytes × α) := fun p => heap.lookup p

lemma view_insert (heap : Heap α) (p : ℕ) (b : Bucket α) :
    view (heap.insert p b) = Function.update (view heap) p (some b) := by
  funext q
  by_cases hq : q = p
  · subst hq
    rw [Function.update_self]
    exact AList.lookup_insert heap
  · rw [Function.update_of_ne hq]
    exact AList.lookup_insert_ne hq

lemma view_erase (heap : Heap α) (p : ℕ) : view (heap.erase p) = Function.update (view heap) p none := by
  funext q
  by_cases hq : q = p
  · subst hq
    rw [Function.update_self]
    exact AList.lookup_erase q heap
  · rw [Function.update_of_ne hq]
    exact AList.lookup_erase_ne hq

lemma linkPrev_view (heap : Heap α) (p : Option ℕ) (hlive : ∀ q, p = some q → heap.lookup q ≠ none)
    (prev : Option ℕ) :
    ∃ heap', linkPrev heap p prev = some heap' ∧ view heap' = setPrev (view heap) p prev := by
  cases p with
  | none => exact ⟨heap,rfl,rfl⟩
  | some p =>
    obtain ⟨b,hb⟩ := Option.ne_none_iff_exists'.mp (hlive p rfl)
    refine ⟨heap.insert p { b with prev := prev },by simp [linkPrev,hb],?_⟩
    have hview : view heap p = some b := hb
    rw [view_insert,setPrev,hview]
    rfl

lemma linkNext_view (heap : Heap α) (p : Option ℕ) (hlive : ∀ q, p = some q → heap.lookup q ≠ none)
    (next : Option ℕ) :
    ∃ heap', linkNext heap p next = some heap' ∧ view heap' = setNext (view heap) p next := by
  cases p with
  | none => exact ⟨heap,rfl,rfl⟩
  | some p =>
    obtain ⟨b,hb⟩ := Option.ne_none_iff_exists'.mp (hlive p rfl)
    refine ⟨heap.insert p { b with next := next },by simp [linkNext,hb],?_⟩
    have hview : view heap p = some b := hb
    rw [view_insert,setNext,hview]
    rfl

variable {heap : Heap α} {prev head : Option ℕ} {l : List (ℕ × Bytes × α)}

lemma mem_keys_of_seg (h : Seg (view heap) prev head l none) {p : ℕ} (hp : p ∈ addrs l) :
    p ∈ heap.keys := by
  obtain ⟨⟨q,x⟩,hmem,rfl⟩ := List.mem_map.mp hp
  obtain ⟨_,_,hcell⟩ := h.live hmem
  have hsome : (heap.lookup q).isSome := by
    change (view heap q).isSome
    rw [hcell]
    rfl
  exact AList.mem_keys.mpr (AList.lookup_isSome.mp hsome)

/-- A chain has no more buckets than the heap. -/
theorem length_le_of_seg (h : Seg (view heap) prev head l none) (hnodup : (addrs l).Nodup) :
    l.length ≤ heap.keys.length := by
  have hsub : addrs l ⊆ heap.keys := fun p hp => mem_keys_of_seg h hp
  have hle := (hnodup.subperm hsub).length_le
  rwa [addrs,List.length_map] at hle

/-- The loop finds the first bucket with the key. -/
theorem fetchFrom_seg (key : Bytes) {n : ℕ} (h : Seg (view heap) prev head l none) (hn : l.length ≤ n) :
    fetchFrom heap key n head = some ((l.find? fun e => e.2.1 = key).map Prod.fst) := by
  induction l generalizing prev head n with
  | nil =>
    cases h
    cases n <;> rfl
  | cons e l ih =>
    obtain ⟨p,x⟩ := e
    obtain ⟨rfl,next,hp,hseg⟩ := h
    obtain ⟨n,rfl⟩ : ∃ m, n = m + 1 := ⟨n - 1,by rw [List.length_cons] at hn; omega⟩
    have hlookup : heap.lookup p = some ⟨prev,next,x⟩ := hp
    rw [fetchFrom,hlookup]
    by_cases hkey : x.1 = key
    · simp [hkey]
    · simp only [Option.bind_eq_bind,Option.bind_some,if_neg hkey]
      rw [ih hseg (by rw [List.length_cons] at hn; omega),List.find?_cons_of_neg (by simpa using hkey)]

lemma walk_seg {n : ℕ} (h : Seg (view heap) prev head l none) (hn : l.length ≤ n) :
    walk heap n head = some (l.map Prod.snd) := by
  induction l generalizing prev head n with
  | nil =>
    cases h
    cases n <;> rfl
  | cons e l ih =>
    obtain ⟨p,x⟩ := e
    obtain ⟨rfl,next,hp,hseg⟩ := h
    obtain ⟨n,rfl⟩ : ∃ m, n = m + 1 := ⟨n - 1,by rw [List.length_cons] at hn; omega⟩
    have hlookup : heap.lookup p = some ⟨prev,next,x⟩ := hp
    have hrest := ih hseg (n := n) (by rw [List.length_cons] at hn; omega)
    rw [walk,hlookup]
    simp [hrest]

end PhpAgent.HashTable
