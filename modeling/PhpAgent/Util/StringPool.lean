import PhpAgent.Lib.IndexedTree
import PhpAgent.Util.Object

/-! String pools, after `util_string_pool.c`. The strings lie in byte tables and are found through a
tree that is ordered by their hashes. The hash function is a parameter. -/
namespace PhpAgent

open IndexedTree (Node Tree)

/-- A string pool by its contents. Indices start at 1, and 0 stands for no string. -/
abbrev StringPool : Type := List Bytes

namespace StringPool

def find (pool : StringPool) (s : Bytes) : ℕ := if s ∈ pool then pool.idxOf s+1 else 0

def add (pool : StringPool) (s : Bytes) : ℕ × StringPool :=
  if s ∈ pool then (pool.find s,pool) else (pool.length+1,pool ++ [s])

def get (pool : StringPool) (idx : ℕ) : Option Bytes := if idx = 0 then none else pool[idx-1]?

lemma add_pos (pool : StringPool) (s : Bytes) : 0 < (pool.add s).1 := by
  unfold add find
  split <;> simp_all

lemma find_add (pool : StringPool) (s : Bytes) : (pool.add s).2.find s = (pool.add s).1 := by
  unfold add
  split_ifs with h
  · rfl
  · simp [find,List.idxOf_append_of_notMem h]

lemma prefix_add (pool : StringPool) (s : Bytes) : pool <+: (pool.add s).2 := by
  unfold add
  split_ifs
  · exact List.prefix_rfl
  · exact List.prefix_append ..

variable {pool : StringPool}

lemma mem_add {s s' : Bytes} : s' ∈ (pool.add s).2 ↔ s' ∈ pool ∨ s' = s := by
  unfold add
  split_ifs with h
  · exact ⟨.inl,fun hs => hs.elim id fun heq => heq ▸ h⟩
  · simp

/-- The pool after a sequence of additions. -/
def addMany (pool : StringPool) (strings : List Bytes) : StringPool :=
  strings.foldl (fun pool s => (pool.add s).2) pool

lemma prefix_addMany (pool : StringPool) (strings : List Bytes) :
    pool <+: pool.addMany strings := by
  induction strings generalizing pool with
  | nil => exact List.prefix_rfl
  | cons s strings ih => exact (pool.prefix_add s).trans (ih _)

variable {s : Bytes}

lemma mem_addMany {strings : List Bytes} : s ∈ pool.addMany strings ↔ s ∈ pool ∨ s ∈ strings := by
  induction strings generalizing pool with
  | nil => simp [addMany]
  | cons s' strings ih =>
    change s ∈ addMany _ strings ↔ _
    rw [ih,mem_add,List.mem_cons,or_assoc]

lemma find_of_longer {pool pool' : StringPool} (h : pool <+: pool') (hs : s ∈ pool) :
    pool'.find s = pool.find s := by
  obtain ⟨rest,rfl⟩ := h
  rw [find,find,if_pos hs,if_pos (List.mem_append_left _ hs),List.idxOf_append_of_mem hs]

lemma nodup_addMany (h : pool.Nodup) (strings : List Bytes) : (pool.addMany strings).Nodup := by
  induction strings generalizing pool with
  | nil => exact h
  | cons s strings ih =>
    have hadd : (pool.add s).2.Nodup := by
      unfold add
      split_ifs with hs
      · exact h
      · simpa [List.nodup_append] using ⟨h,fun s' hs' heq => hs (heq ▸ hs')⟩
    exact ih hadd

lemma length_addMany (strings : List Bytes) :
    (addMany [] strings).length = strings.toFinset.card := by
  rw [← List.toFinset_card_of_nodup (nodup_addMany List.nodup_nil strings)]
  congr 1
  ext s
  simp [mem_addMany]

/-- A string that is added for the first time gets the next index. -/
theorem find_addMany {strings : List Bytes} {i : ℕ} (hs : strings[i]? = some s) (hnew : s ∉ strings.take i) :
    (addMany [] strings).find s = (strings.take i).toFinset.card+1 := by
  obtain ⟨hi,rfl⟩ := List.getElem?_eq_some_iff.mp hs
  have hsplit : strings = strings.take i ++ strings[i] :: strings.drop (i+1) := by simp
  have hnotMem : strings[i] ∉ addMany [] (strings.take i) := by simpa [mem_addMany] using hnew
  have hinit : (add (addMany [] (strings.take i)) strings[i]).2 <+: addMany [] strings := by
    conv_rhs => rw [hsplit,addMany,List.foldl_append]
    exact prefix_addMany ..
  rw [find_of_longer hinit (mem_add.mpr (.inr rfl)),find_add,add,if_neg hnotMem,length_addMany]

lemma find_inj {s s' : Bytes} (hs : s ∈ pool) (hs' : s' ∈ pool) : pool.find s = pool.find s' ↔ s = s' := by
  rw [find,find,if_pos hs,if_pos hs',Nat.add_right_cancel_iff,List.idxOf_inj hs]

lemma get_find (hs : s ∈ pool) : pool.get (pool.find s) = some s := by
  have hlt := List.idxOf_lt_length_of_mem hs
  simp [get,find,hs,List.getElem?_eq_getElem hlt]

end StringPool

/-- A C string: no byte of it is the terminator. -/
@[ext] structure CString where
  bytes : Bytes
  zero_notMem : 0 ∉ bytes
deriving DecidableEq

lemma bytes_injective : Function.Injective CString.bytes := fun _ _ => CString.ext

/-- `nrstable_t`: the memory of the table and how much of it is used. -/
structure NrStable where
  bytes : Bytes
  numBytesUsed : ℕ

/-- A pointer into a table. Tables are counted in the order in which they were allocated. -/
structure StringPtr where
  table : ℕ
  offset : ℕ

/-- What an index has besides its hash and links: its length in `entries` and its pointer in
`strings`, which may be NULL. -/
structure PoolString where
  length : ℕ
  string : Option StringPtr

/-- `nrstrpool_t`. The table at the head of the source's list is the last one here. -/
structure NrStrpool where
  size : ℕ
  entries : Tree UInt32 PoolString
  tables : List NrStable

namespace NrStrpool

/-- `NR_STRPOOL_STARTING_SIZE` and `NR_STRPOOL_INCREASE_SIZE`. -/
def increaseSize : ℕ := 4096

/-- `NR_STRPOOL_TABLE_SIZE`. -/
def tableSize : ℕ := 32768

/-- `nr_string_pool_create`. -/
def create : NrStrpool := ⟨increaseSize,[],[]⟩

def numEntries (pool : NrStrpool) : ℕ := pool.entries.length

/-- The bytes before the terminator. -/
def readString (tables : List NrStable) (string : Option StringPtr) : Option Bytes := do
  let ptr ← string
  let table ← tables[ptr.table]?
  return (table.bytes.drop ptr.offset).takeWhile (· ≠ 0)

/-- The entry at an index. A slot that was not used yet is zero, with a NULL string. -/
def entry (pool : NrStrpool) (idx : ℕ) : Node UInt32 PoolString :=
  pool.entries[idx-1]?.getD ⟨0,⟨0,none⟩,none,none⟩

/-- A string is never equal to NULL. -/
def isMatch (pool : NrStrpool) (string : Bytes) (length : ℕ) (data : PoolString) : Bool :=
  length = data.length ∧ readString pool.tables data.string = some string

/-- `nr_string_get`. -/
def get (pool : NrStrpool) (idx : ℕ) : Option Bytes :=
  if idx = 0 ∨ pool.numEntries < idx then none
  else readString pool.tables (pool.entry idx).data.string

/-- The loop of `nr_string_find_internal`; there is no result when the fuel runs out. -/
def findLoop (pool : NrStrpool) (string : Bytes) (hash : UInt32) (length : ℕ) : ℕ → ℕ → Option ℕ
  | 0, _ => none
  | _+1, 0 => some 0
  | fuel+1, idx+1 =>
    let entry := pool.entry (idx+1)
    if hash = entry.key ∧ pool.isMatch string length entry.data then some (idx+1)
    else findLoop pool string hash length fuel ((entry.next hash).elim 0 (·+1))

/-- `nr_string_find_internal`. -/
def findInternal (pool : NrStrpool) (string : Bytes) (hash : UInt32) (length : ℕ) : Option ℕ :=
  findLoop pool string hash length (pool.numEntries+2) 1

/-- The loop of `nr_string_add_internal` ends at a match or at the parent of the new node. -/
def addLoop (pool : NrStrpool) (string : Bytes) (hash : UInt32) (length : ℕ) :
    ℕ → ℕ → Option (Bool × ℕ)
  | 0, _ => none
  | fuel+1, idx =>
    let entry := pool.entry idx
    if hash = entry.key ∧ pool.isMatch string length entry.data then some (true,idx)
    else
      match entry.next hash with
      | none => some (false,idx)
      | some next => addLoop pool string hash length fuel (next+1)

/-- More entries are allocated when none is left. -/
def grow (pool : NrStrpool) : NrStrpool :=
  if pool.size = pool.numEntries then { pool with size := pool.size+increaseSize } else pool

/-- The tables after another one was allocated, if the newest has no room for the string. -/
def tablesFor (tables : List NrStable) (length : ℕ) : List NrStable :=
  match tables.getLast? with
  | none => tables ++ [⟨List.replicate (max (length+1) tableSize) 0,0⟩]
  | some table =>
    if table.bytes.length-table.numBytesUsed < length+1 then
      tables ++ [⟨List.replicate (max (length+1) tableSize) 0,0⟩]
    else tables

def writeBytes (memory : Bytes) (offset : ℕ) (bytes : Bytes) : Bytes :=
  memory.take offset ++ bytes ++ memory.drop (offset+bytes.length)

/-- Copy a string and its terminator to the free part of a table. -/
def pushString (table : NrStable) (string : Bytes) (length : ℕ) : NrStable where
  bytes := writeBytes table.bytes table.numBytesUsed (string ++ [0])
  numBytesUsed := table.numBytesUsed+(length+1)

/-- Store a string in the newest table. -/
def store (tables : List NrStable) (string : Bytes) (length : ℕ) :
    List NrStable × StringPtr :=
  let tables := tablesFor tables length
  let newest := tables.length-1
  (tables.modify newest (pushString · string length),
    ⟨newest,(tables[newest]?.map NrStable.numBytesUsed).getD 0⟩)

/-- `nr_string_add_internal`. -/
def addInternal (pool : NrStrpool) (string : Bytes) (hash : UInt32) (length : ℕ) :
    Option (NrStrpool × ℕ) := do
  let pool := pool.grow
  let (found,idx) ←
    if pool.numEntries = 0 then some (false,0)
    else addLoop pool string hash length pool.numEntries 1
  if found then return (pool,idx)
  let (tables,ptr) := store pool.tables string length
  let entries := IndexedTree.append pool.entries hash ⟨length,some ptr⟩ (idx-1)
  return (⟨pool.size,entries,tables⟩,pool.numEntries+1)

section Hash
variable (hash : Bytes → UInt32)

/-- `nr_string_find`. -/
def find (pool : NrStrpool) (string : CString) : Option ℕ :=
  pool.findInternal string.bytes (hash string.bytes) string.bytes.length

/-- `nr_string_add`. -/
def add (pool : NrStrpool) (string : CString) : Option (NrStrpool × ℕ) :=
  pool.addInternal string.bytes (hash string.bytes) string.bytes.length

/-- The pool and the returned indices after a sequence of additions. -/
def addAll (pool : NrStrpool) : List CString → Option (NrStrpool × List ℕ)
  | [] => some (pool,[])
  | string :: strings => do
    let (pool,idx) ← pool.add hash string
    let (pool,idxs) ← addAll pool strings
    return (pool,idx :: idxs)

end Hash

/-! ### The string tables -/

/-- The pointer leads to the string and its terminator, in the used part of a table. -/
def Holds (tables : List NrStable) (string : Option StringPtr) (s : Bytes) : Prop :=
  ∃ ptr table, string = some ptr ∧ tables[ptr.table]? = some table ∧
    ptr.offset+(s.length+1) ≤ table.numBytesUsed ∧ s ++ [0] <+: table.bytes.drop ptr.offset

/-- No table uses more than it has. -/
def Bounded (tables : List NrStable) : Prop :=
  ∀ table ∈ tables, table.numBytesUsed ≤ table.bytes.length

variable {tables : List NrStable}

lemma readString_of_holds {string : Option StringPtr} {s : CString}
    (h : Holds tables string s.bytes) : readString tables string = some s.bytes := by
  obtain ⟨ptr,table,rfl,htable,-,rest,hrest⟩ := h
  have hstop : ∀ b ∈ s.bytes, (b ≠ 0 : Bool) = true := by
    intro b hb
    simpa using ne_of_mem_of_not_mem hb s.zero_notMem
  simp only [readString,htable,Option.bind_eq_bind,Option.bind_some,← hrest,List.append_assoc]
  rw [List.takeWhile_append_of_pos hstop]
  simp

lemma length_writeBytes {memory bytes : Bytes} {offset : ℕ}
    (h : offset+bytes.length ≤ memory.length) :
    (writeBytes memory offset bytes).length = memory.length := by
  simp only [writeBytes,List.length_append,List.length_take,List.length_drop]
  omega

/-- What was written is there. -/
theorem drop_writeBytes {memory : Bytes} {offset : ℕ} (bytes : Bytes) (h : offset ≤ memory.length) :
    bytes <+: (writeBytes memory offset bytes).drop offset := by
  refine ⟨memory.drop (offset+bytes.length),?_⟩
  rw [writeBytes,List.append_assoc,List.drop_append_of_le_length (by simp [h])]
  simp

/-- Bytes before the place of a write stay. -/
theorem prefix_drop_writeBytes {memory s : Bytes} {offset offset' : ℕ} (bytes : Bytes)
    (h : s <+: memory.drop offset) (hle : offset+s.length ≤ offset')
    (hlen : offset' ≤ memory.length) : s <+: (writeBytes memory offset' bytes).drop offset := by
  have hs : s = ((memory.take offset').drop offset).take s.length := by
    rw [List.drop_take,List.take_take,min_eq_left (by omega)]
    exact List.prefix_iff_eq_take.mp h
  rw [writeBytes,List.append_assoc,List.drop_append_of_le_length (by simp; omega)]
  rw [hs]
  exact (List.take_prefix ..).trans (List.prefix_append ..)

lemma bounded_tablesFor (h : Bounded tables) (length : ℕ) : Bounded (tablesFor tables length) := by
  have hnew : Bounded (tables ++ [⟨List.replicate (max (length+1) tableSize) 0,0⟩]) := by
    intro table htable
    rcases List.mem_append.mp htable with hold | hnew
    · exact h table hold
    · rw [List.mem_singleton.mp hnew]
      simp
  unfold tablesFor
  split
  · exact hnew
  · split_ifs
    · exact hnew
    · exact h

/-- The newest table has room for the string. -/
theorem room_tablesFor (tables : List NrStable) (length : ℕ) :
    ∃ older table, tablesFor tables length = older ++ [table] ∧
      table.numBytesUsed+(length+1) ≤ table.bytes.length := by
  have hnew : ∃ older table, tables ++ [⟨List.replicate (max (length+1) tableSize) 0,0⟩] =
      older ++ [table] ∧ table.numBytesUsed+(length+1) ≤ table.bytes.length :=
    ⟨tables,_,rfl,by simp⟩
  unfold tablesFor
  split
  · exact hnew
  · next table htable =>
    split_ifs with hroom
    · exact hnew
    · obtain ⟨older,rfl⟩ := List.getLast?_eq_some_iff.mp htable
      exact ⟨older,table,rfl,by omega⟩

lemma tablesFor_getElem? {i : ℕ} {table : NrStable}
    (h : tables[i]? = some table) (length : ℕ) : (tablesFor tables length)[i]? = some table := by
  have hnew (t : NrStable) : (tables ++ [t])[i]? = some table := by
    rw [List.getElem?_append_left (List.getElem?_eq_some_iff.mp h).1,h]
  unfold tablesFor
  split
  · exact hnew _
  · split_ifs
    · exact hnew _
    · exact h

lemma store_eq {tables older : List NrStable} {table : NrStable} {string : Bytes} {length : ℕ}
    (h : tablesFor tables length = older ++ [table]) : store tables string length =
      (older ++ [pushString table string length],⟨older.length,table.numBytesUsed⟩) := by
  simp [store,h,List.modify_eq_take_drop]

/-- Storing a string keeps the others and gives a pointer to it. -/
theorem store_spec (hbound : Bounded tables) (s : Bytes) : Bounded (store tables s s.length).1 ∧
      Holds (store tables s s.length).1 (some (store tables s s.length).2) s ∧
      ∀ string s', Holds tables string s' → Holds (store tables s s.length).1 string s' := by
  obtain ⟨older,table,htables,hroom⟩ := room_tablesFor tables s.length
  have hbound' := bounded_tablesFor hbound s.length
  rw [store_eq htables]
  have hlen : (writeBytes table.bytes table.numBytesUsed (s ++ [0])).length = table.bytes.length :=
    length_writeBytes (by simpa using hroom)
  refine ⟨?_,?_,?_⟩
  · intro t ht
    rcases List.mem_append.mp ht with hold | hnew
    · apply hbound' t
      rw [htables]
      exact List.mem_append_left _ hold
    · rw [List.mem_singleton.mp hnew]
      simpa only [pushString,hlen] using hroom
  · refine ⟨_,pushString table s s.length,rfl,by simp,by simp [pushString],?_⟩
    have hle : table.numBytesUsed ≤ table.bytes.length := by omega
    exact drop_writeBytes _ hle
  · rintro string s' ⟨ptr,t,rfl,ht,hused,hs'⟩
    have ht' := tablesFor_getElem? ht s.length
    rw [htables] at ht'
    rcases Nat.lt_or_ge ptr.table older.length with hlt | hge
    · refine ⟨ptr,t,rfl,?_,hused,hs'⟩
      rw [List.getElem?_append_left hlt] at ht' ⊢
      exact ht'
    · -- the string lies in the table that is written to
      have hidx : ptr.table = older.length := by
        have := (List.getElem?_eq_some_iff.mp ht').1
        simp at this
        omega
      rw [hidx] at ht'
      simp only [List.getElem?_concat_length,Option.some_inj] at ht'
      subst ht'
      refine ⟨ptr,_,rfl,by rw [hidx,List.getElem?_concat_length],?_,?_⟩
      · simp only [pushString]
        omega
      · exact prefix_drop_writeBytes _ hs' (by simpa using hused) (by omega)

/-! ### The pool as a list of strings -/

/-- The pool has the strings of the list, each at its place and on the path of its hash. -/
structure Represents (hash : Bytes → UInt32) (pool : NrStrpool) (strings : StringPool) : Prop where
  ordered : IndexedTree.Ordered pool.entries
  complete : IndexedTree.Complete pool.entries
  bounded : Bounded pool.tables
  fits : pool.numEntries ≤ pool.size
  length_eq : pool.numEntries = strings.length
  nodup : strings.Nodup
  zero_notMem : ∀ s ∈ strings, 0 ∉ s
  stored : ∀ (i : ℕ) (n : Node UInt32 PoolString) (s : Bytes), pool.entries[i]? = some n →
    strings[i]? = some s → n.key = hash s ∧ n.data.length = s.length ∧
      Holds pool.tables n.data.string s

variable {hash : Bytes → UInt32} {pool : NrStrpool} {strings : StringPool} {string : CString}

lemma represents_create (hash : Bytes → UInt32) : Represents hash create [] where
  ordered := IndexedTree.ordered_nil
  complete := IndexedTree.complete_nil
  bounded := by simp [Bounded,create]
  fits := by simp [numEntries,create]
  length_eq := rfl
  nodup := List.nodup_nil
  zero_notMem := by simp
  stored := by simp [create]

lemma Represents.read (h : Represents hash pool strings) {i : ℕ} {n : Node UInt32 PoolString}
    (hn : pool.entries[i]? = some n) : readString pool.tables n.data.string = strings[i]? := by
  have hi : i < strings.length := by
    rw [← h.length_eq]
    exact (List.getElem?_eq_some_iff.mp hn).1
  have hs := List.getElem?_eq_getElem hi
  have hholds := (h.stored i n _ hn hs).2.2
  rw [hs]
  exact readString_of_holds (s := ⟨strings[i],h.zero_notMem _ (List.getElem_mem hi)⟩) hholds

lemma Represents.get (h : Represents hash pool strings) (idx : ℕ) :
    pool.get idx = strings.get idx := by
  unfold NrStrpool.get StringPool.get
  by_cases hidx : idx = 0
  · simp [hidx]
  · by_cases hlt : pool.numEntries < idx
    · rw [if_pos (.inr hlt),if_neg hidx,List.getElem?_eq_none]
      rw [← h.length_eq]
      omega
    · have hi : idx-1 < pool.entries.length := by
        unfold numEntries at hlt
        omega
      have hn := List.getElem?_eq_getElem hi
      rw [if_neg (by tauto),if_neg hidx,← h.read hn,entry,hn,Option.getD_some]

/-- The search for a string ends at its index, if it has one. -/
theorem Represents.indexedTree_find (h : Represents hash pool strings) (s : Bytes) {fuel : ℕ}
    (hfuel : pool.numEntries ≤ fuel) :
    IndexedTree.find pool.entries (hash s) (pool.isMatch s s.length) fuel 0 =
      if s ∈ strings then some (strings.idxOf s) else none := by
  have hiff := IndexedTree.find_isSome_iff (k := hash s) (p := pool.isMatch s s.length) h.ordered
    h.complete hfuel
  cases hfind : IndexedTree.find pool.entries (hash s) (pool.isMatch s s.length) fuel 0 with
  | some r =>
    obtain ⟨n,hn,-,hmatch⟩ := IndexedTree.find_some hfind
    have hread := h.read hn
    simp only [isMatch,Bool.decide_and,Bool.and_eq_true,decide_eq_true_eq] at hmatch
    rw [hmatch.2] at hread
    obtain ⟨hr,hs⟩ := List.getElem?_eq_some_iff.mp hread.symm
    rw [← hs,if_pos (List.getElem_mem hr),h.nodup.idxOf_getElem]
  | none =>
    rw [if_neg]
    intro hmem
    have hidx := List.idxOf_lt_length_of_mem hmem
    have hs : strings[strings.idxOf s]? = some s := by
      rw [List.getElem?_eq_getElem hidx,List.getElem_idxOf]
    rw [← h.length_eq] at hidx
    have hn := List.getElem?_eq_getElem hidx
    obtain ⟨hkey,hlength,-⟩ := h.stored _ _ _ hn hs
    have hread := h.read hn
    rw [hs] at hread
    rw [hfind] at hiff
    simp only [Option.isSome_none,Bool.false_eq_true,false_iff,not_exists,not_and] at hiff
    exact hiff _ _ hn hkey (by simp [isMatch,hlength,hread])

lemma findLoop_eq (hord : IndexedTree.Ordered pool.entries) (s : Bytes) (k : UInt32) (length : ℕ)
    {fuel i : ℕ} (hi : i < pool.entries.length) (hfuel : pool.entries.length ≤ fuel+i) :
    pool.findLoop s k length (fuel+1) (i+1) =
      some ((IndexedTree.find pool.entries k (pool.isMatch s length) fuel i).elim 0 (·+1)) := by
  induction fuel generalizing i with
  | zero => omega
  | succ fuel ih =>
    have hn := List.getElem?_eq_getElem hi
    have hentry : pool.entry (i+1) = pool.entries[i] := by simp [entry,hn]
    rw [findLoop,IndexedTree.find]
    simp only [hentry,hn]
    split_ifs with hfound
    · rfl
    · cases hj : pool.entries[i].next k with
      | none => simp [findLoop]
      | some j =>
        have hlt := hord.next hn hj
        exact ih hlt.2 (by omega)

lemma addLoop_eq (pool : NrStrpool) (s : Bytes) (k : UInt32) (length fuel i : ℕ)
    (hord : IndexedTree.Ordered pool.entries) (hi : i < pool.entries.length) :
    pool.addLoop s k length fuel (i+1) =
      (IndexedTree.locate pool.entries k (pool.isMatch s length) fuel i).map fun r =>
        (r.1,r.2+1) := by
  induction fuel generalizing i with
  | zero => rfl
  | succ fuel ih =>
    have hn := List.getElem?_eq_getElem hi
    have hentry : pool.entry (i+1) = pool.entries[i] := by simp [entry,hn]
    rw [addLoop,IndexedTree.locate]
    simp only [hentry,hn]
    split_ifs with hfound
    · rfl
    · cases hj : pool.entries[i].next k with
      | none => rfl
      | some j => exact ih j (hord.next hn hj).2

/-- A lookup gives the index of the string, also on the empty pool. -/
theorem Represents.find (h : Represents hash pool strings) (string : CString) :
    pool.find hash string = some (strings.find string.bytes) := by
  unfold NrStrpool.find findInternal
  by_cases hempty : pool.entries = []
  · -- the slot of the first entry is still zero
    have hstrings : strings = [] := by
      have := h.length_eq
      rw [numEntries,hempty] at this
      exact List.eq_nil_of_length_eq_zero this.symm
    simp [findLoop,entry,isMatch,readString,numEntries,hempty,hstrings,StringPool.find,Node.next]
  · have hpos := List.length_pos_iff.mpr hempty
    have hfuel : pool.entries.length ≤ pool.numEntries+1 := Nat.le_succ _
    rw [findLoop_eq h.ordered _ _ _ hpos hfuel,h.indexedTree_find _ (Nat.le_succ _),StringPool.find]
    split_ifs <;> rfl

lemma Represents.grow (h : Represents hash pool strings) :
    Represents hash pool.grow strings ∧ pool.grow.numEntries < pool.grow.size := by
  unfold NrStrpool.grow
  split_ifs with hfull
  · refine ⟨{ h with fits := ?_ },?_⟩
    · exact h.fits.trans (Nat.le_add_right ..)
    · change pool.numEntries < pool.size+increaseSize
      rw [hfull]
      exact Nat.lt_add_of_pos_right (by decide)
  · exact ⟨h,lt_of_le_of_ne h.fits (Ne.symm hfull)⟩

/-- The loop of an addition ends at the index of the string or at the last node of its path. -/
theorem Represents.addLoop (h : Represents hash pool strings) (hpos : 0 < pool.entries.length)
    (s : Bytes) : pool.addLoop s (hash s) s.length pool.numEntries 1 =
      some (if s ∈ strings then (true,strings.idxOf s+1)
        else (false,IndexedTree.last pool.entries (hash s) pool.numEntries 0+1)) := by
  have hfuel : pool.entries.length ≤ pool.numEntries+0 := le_rfl
  rw [addLoop_eq pool s _ _ _ 0 h.ordered hpos,IndexedTree.locate_eq h.ordered hpos hfuel,
    h.indexedTree_find s le_rfl]
  split_ifs <;> rfl

/-- The pool with a new string, hung below the last node of its path. -/
def append (pool : NrStrpool) (s : Bytes) (k : UInt32) : NrStrpool where
  size := pool.size
  entries := IndexedTree.append pool.entries k ⟨s.length,some (store pool.tables s s.length).2⟩
    (IndexedTree.last pool.entries k pool.entries.length 0)
  tables := (store pool.tables s s.length).1

lemma Represents.append (h : Represents hash pool strings) (hroom : pool.numEntries < pool.size)
    (hnew : string.bytes ∉ strings) :
    Represents hash (pool.append string.bytes (hash string.bytes)) (strings ++ [string.bytes]) := by
  obtain ⟨hbound,hholds,hkept⟩ := store_spec h.bounded string.bytes
  have hlength : pool.entries.length = strings.length := h.length_eq
  refine ⟨h.ordered.append _ _ _,h.complete.append h.ordered _ _,hbound,?_,?_,?_,?_,?_⟩
  · simpa [numEntries,NrStrpool.append] using hroom
  · simpa [numEntries,NrStrpool.append] using hlength
  · exact List.nodup_append.mpr ⟨h.nodup,List.nodup_singleton _,by
      intro s hs s' hs' heq
      rw [List.mem_singleton.mp hs'] at heq
      exact hnew (heq ▸ hs)⟩
  · intro s hs
    rcases List.mem_append.mp hs with hold | hlast
    · exact h.zero_notMem s hold
    · rw [List.mem_singleton.mp hlast]
      exact string.zero_notMem
  · intro i n s hn hs
    rcases Nat.lt_or_ge i pool.entries.length with hlt | hge
    · -- an old entry keeps its hash, its length and its string
      have hold := List.getElem?_eq_getElem hlt
      rw [List.getElem?_append_left (hlength ▸ hlt)] at hs
      obtain ⟨hkey,hlen,hstring⟩ := h.stored i _ s hold hs
      simp only [NrStrpool.append,IndexedTree.getElem?_append_of_some _ hold,Option.some_inj] at hn
      subst hn
      split_ifs
      · rw [Node.hang_key,Node.hang_data]
        exact ⟨hkey,hlen,hkept _ _ hstring⟩
      · exact ⟨hkey,hlen,hkept _ _ hstring⟩
    · have hi : i = pool.entries.length := by
        have := (List.getElem?_eq_some_iff.mp hs).1
        simp at this
        omega
      subst hi
      simp only [NrStrpool.append,IndexedTree.getElem?_append_new,Option.some_inj] at hn
      rw [hlength,List.getElem?_concat_length,Option.some_inj] at hs
      subst hn hs
      exact ⟨rfl,rfl,hholds⟩

/-- An addition ends, and it does to the pool what it does to the list. -/
theorem Represents.add (h : Represents hash pool strings) (string : CString) :
    ∃ pool', pool.add hash string = some (pool',(strings.add string.bytes).1) ∧
      Represents hash pool' (strings.add string.bytes).2 := by
  obtain ⟨hgrow,hroom⟩ := h.grow
  unfold NrStrpool.add addInternal StringPool.add
  by_cases hempty : pool.grow.numEntries = 0
  · have hstrings : strings = [] := by
      rw [hgrow.length_eq] at hempty
      exact List.eq_nil_of_length_eq_zero hempty
    have hentries : pool.grow.entries = [] := List.eq_nil_of_length_eq_zero hempty
    subst hstrings
    refine ⟨pool.grow.append string.bytes (hash string.bytes),?_,?_⟩
    · simp [hentries,NrStrpool.append,IndexedTree.append,numEntries]
    · exact hgrow.append hroom (by simp)
  · have hpos : 0 < pool.grow.entries.length := Nat.pos_of_ne_zero hempty
    simp only [if_neg hempty,hgrow.addLoop hpos,Option.bind_eq_bind,Option.bind_some]
    by_cases hmem : string.bytes ∈ strings
    · simp only [if_pos hmem,StringPool.find]
      exact ⟨pool.grow,rfl,hgrow⟩
    · simp only [if_neg hmem]
      rw [← hgrow.length_eq]
      exact ⟨pool.grow.append string.bytes (hash string.bytes),rfl,hgrow.append hroom hmem⟩

/-- A sequence of additions ends; each returns the index that its string has afterwards. -/
theorem Represents.addAll (h : Represents hash pool strings) (added : List CString) :
    ∃ pool', Represents hash pool' (strings.addMany (added.map CString.bytes)) ∧
      pool.addAll hash added = some (pool',added.map fun s =>
        (strings.addMany (added.map CString.bytes)).find s.bytes) := by
  induction added generalizing pool strings with
  | nil => exact ⟨pool,h,rfl⟩
  | cons s added ih =>
    obtain ⟨pool₁,hpool₁,hrep₁⟩ := h.add s
    obtain ⟨pool₂,hrep₂,hpool₂⟩ := ih hrep₁
    refine ⟨pool₂,hrep₂,?_⟩
    have hidx : (strings.addMany ((s :: added).map CString.bytes)).find s.bytes =
        (strings.add s.bytes).1 := by
      rw [← StringPool.find_add]
      exact StringPool.find_of_longer (StringPool.prefix_addMany _ _)
        (StringPool.mem_add.mpr (.inr rfl))
    simp only [NrStrpool.addAll,hpool₁,hpool₂,Option.bind_eq_bind,Option.bind_some,List.map_cons]
    rw [← List.map_cons,hidx]
    rfl

/-- What a sequence of additions to an empty pool returns, and what can be found afterwards. -/
structure Indexed (hash : Bytes → UInt32) (added : List CString) (pool : NrStrpool)
    (idxs : List ℕ) : Prop where
  length_eq : idxs.length = added.length
  eq_iff : ∀ (i j : ℕ) (s s' : CString) (idx idx' : ℕ), added[i]? = some s → added[j]? = some s' →
    idxs[i]? = some idx → idxs[j]? = some idx' → (idx = idx' ↔ s = s')
  first : ∀ (i : ℕ) (s : CString), added[i]? = some s → s ∉ added.take i →
    idxs[i]? = some ((added.take i).toFinset.card+1)
  get : ∀ (i : ℕ) (s : CString) (idx : ℕ), added[i]? = some s → idxs[i]? = some idx →
    pool.get idx = some s.bytes
  find : ∀ (i : ℕ) (s : CString) (idx : ℕ), added[i]? = some s → idxs[i]? = some idx →
    pool.find hash s = some idx ∧ 0 < idx
  find_of_notMem : ∀ s : CString, s ∉ added → pool.find hash s = some 0

/-- Every sequence of additions ends, with one index for each string. -/
theorem addAll_indexed (hash : Bytes → UInt32) (added : List CString) :
    ∃ pool idxs, create.addAll hash added = some (pool,idxs) ∧ Indexed hash added pool idxs := by
  obtain ⟨pool,hrep,hpool⟩ := (represents_create hash).addAll added
  have hmem {s : CString} : s.bytes ∈ StringPool.addMany [] (added.map CString.bytes) ↔ s ∈ added := by
    rw [StringPool.mem_addMany,List.mem_map_of_injective bytes_injective]
    simp
  have hidx {i : ℕ} {s : CString} (hs : added[i]? = some s) :
      (added.map fun s => (StringPool.addMany [] (added.map CString.bytes)).find s.bytes)[i]? =
        some ((StringPool.addMany [] (added.map CString.bytes)).find s.bytes) := by
    rw [List.getElem?_map,hs,Option.map_some]
  refine ⟨pool,_,hpool,by simp,?_,?_,?_,?_,?_⟩
  · intro i j s s' idx idx' hs hs' hidx₁ hidx₂
    rw [hidx hs,Option.some_inj] at hidx₁
    rw [hidx hs',Option.some_inj] at hidx₂
    rw [← hidx₁,← hidx₂,StringPool.find_inj (hmem.mpr (List.mem_of_getElem? hs))
      (hmem.mpr (List.mem_of_getElem? hs')),CString.ext_iff]
  · intro i s hs hnew
    rw [hidx hs,StringPool.find_addMany (i := i) (by rw [List.getElem?_map,hs,Option.map_some])]
    · rw [← Finset.card_image_of_injective _ bytes_injective]
      congr 3
      ext b
      simp only [← List.map_take,List.mem_toFinset,Finset.mem_image,List.mem_map]
    · rw [← List.map_take,List.mem_map_of_injective bytes_injective]
      exact hnew
  · intro i s idx hs hidx'
    rw [hidx hs,Option.some_inj] at hidx'
    rw [← hidx',hrep.get,StringPool.get_find (hmem.mpr (List.mem_of_getElem? hs))]
  · intro i s idx hs hidx'
    rw [hidx hs,Option.some_inj] at hidx'
    rw [hrep.find,← hidx']
    refine ⟨rfl,?_⟩
    rw [StringPool.find,if_pos (hmem.mpr (List.mem_of_getElem? hs))]
    exact Nat.succ_pos _
  · intro s hs
    rw [hrep.find,StringPool.find,if_neg (mt hmem.mp hs)]

end NrStrpool
end PhpAgent
