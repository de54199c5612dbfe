import PhpAgent.Util.HashmapChains

/-! The chains of a hash map stand for a finite map. -/
namespace PhpAgent.HashTable
open LinkedChain

variable {α : Type} {mkhash : Bytes → UInt32}

/-- The head of a chain. -/
def Table.head (h : Table α) (i : ℕ) : Option ℕ := h.buckets[i]?.join

/-- The chains `c` are linked in the memory of the table and hold the entries of a map, each in the
chain of its hash. -/
structure Stores (mkhash : Bytes → UInt32) (h : Table α) (c : ℕ → List (ℕ × Bytes × α))
    (m : KeyMap α) : Prop where
  size : h.buckets.length = 2 ^ h.log2NumBuckets
  chain : ∀ i, Seg (view h.heap) none (h.head i) (c i) none
  keyed : ∀ i, ∀ e ∈ c i, h.hashKey mkhash e.2.1 = i
  nodup : ∀ i, ((c i).map fun e => e.2.1).Nodup
  elements : h.elements = ∑ i ∈ Finset.range (2 ^ h.log2NumBuckets), (c i).length
  map : ∀ key value, m key = some value ↔ ∃ p, (p,key,value) ∈ c (h.hashKey mkhash key)
  named : m [] = none

variable {h : Table α} {c : ℕ → List (ℕ × Bytes × α)} {m : KeyMap α}

lemma hashKey_lt (h : Table α) (key : Bytes) : h.hashKey mkhash key < 2 ^ h.log2NumBuckets :=
  hashmapHashKey_lt mkhash h.log2NumBuckets key

lemma createInternal_stores (log2NumBuckets : ℕ) (dtorFunc : Bool) :
    Stores mkhash (createInternal log2NumBuckets dtorFunc : Table α) (fun _ => []) (fun _ => none) where
  size := List.length_replicate
  chain i := by
    change Option.join _ = none
    rw [createInternal]
    dsimp only
    rw [List.getElem?_replicate]
    split_ifs <;> rfl
  keyed i e he := by cases he
  nodup i := List.nodup_nil
  elements := by simp [createInternal]
  map key value := by simp
  named := rfl

namespace Stores

lemma head_eq (hs : Stores mkhash h c m) {i : ℕ} (hi : i < 2 ^ h.log2NumBuckets) :
    h.buckets[i]? = some (h.head i) := by
  rw [← hs.size] at hi
  rw [Table.head,List.getElem?_eq_getElem hi]
  rfl

lemma nodup_addrs (hs : Stores mkhash h c m) (i : ℕ) : (addrs (c i)).Nodup :=
  (hs.chain i).nodup_addrs (hs.nodup i).of_map

/-- A bucket is in one chain only. -/
theorem apart (hs : Stores mkhash h c m) {i j q : ℕ} (hi : q ∈ addrs (c i)) (hj : q ∈ addrs (c j)) :
    i = j := by
  obtain ⟨⟨p,x⟩,hx,rfl⟩ := List.mem_map.mp hi
  obtain ⟨⟨p',y⟩,hy,heq⟩ := List.mem_map.mp hj
  obtain rfl : p' = p := heq
  obtain rfl := (hs.chain i).item_unique (hs.chain j) hx hy
  rw [← hs.keyed i _ hx,← hs.keyed j _ hy]

/-- The chain of a key holds the key when the map does, and then `nr_hashmap_fetch` finds its bucket. -/
theorem fetch (hs : Stores mkhash h c m) (key : Bytes) :
    (m key = none ∧ h.fetch (h.hashKey mkhash key) key = some none ∧
      ∀ e ∈ c (h.hashKey mkhash key), e.2.1 ≠ key) ∨
    ∃ p value l l', m key = some value ∧ h.fetch (h.hashKey mkhash key) key = some (some p) ∧
      c (h.hashKey mkhash key) = l ++ (p,key,value) :: l' := by
  have hfetch : h.fetch (h.hashKey mkhash key) key =
      some (((c (h.hashKey mkhash key)).find? fun e => e.2.1 = key).map Prod.fst) := by
    rw [Table.fetch,hs.head_eq (hashKey_lt h key)]
    exact fetchFrom_seg key (hs.chain _) (length_le_of_seg (hs.chain _) (hs.nodup_addrs _))
  rw [hfetch]
  cases hfind : (c (h.hashKey mkhash key)).find? fun e => e.2.1 = key with
  | none =>
    have hno : ∀ e ∈ c (h.hashKey mkhash key), e.2.1 ≠ key := by simpa using hfind
    refine .inl ⟨?_,rfl,hno⟩
    rw [Option.eq_none_iff_forall_ne_some]
    intro value hvalue
    obtain ⟨p,hp⟩ := (hs.map key value).mp hvalue
    exact hno _ hp rfl
  | some e =>
    obtain ⟨hkey,l,l',hsplit,-⟩ := List.find?_eq_some_iff_append.mp hfind
    obtain ⟨p,key',value⟩ := e
    obtain rfl : key' = key := by simpa using hkey
    refine .inr ⟨p,value,l,l',?_,rfl,hsplit⟩
    rw [hs.map]
    exact ⟨p,hsplit ▸ List.mem_append_right _ List.mem_cons_self⟩

/-! ### Changes of one chain -/

/-- A table in which one chain was changed. -/
theorem change (hs : Stores mkhash h c m) {h' : Table α} {i : ℕ} {l : List (ℕ × Bytes × α)}
    {m' : KeyMap α} (hi : i < 2 ^ h.log2NumBuckets) (hlog : h'.log2NumBuckets = h.log2NumBuckets)
    (hsize : h'.buckets.length = h.buckets.length) (hheads : ∀ j ≠ i, h'.head j = h.head j)
    (hkept : ∀ j ≠ i, ∀ q ∈ addrs (c j), view h'.heap q = view h.heap q)
    (hchain : Seg (view h'.heap) none (h'.head i) l none)
    (hkeyed : ∀ e ∈ l, h.hashKey mkhash e.2.1 = i) (hnodup : (l.map fun e => e.2.1).Nodup)
    (helements : h'.elements + (c i).length = h.elements + l.length)
    (hmap : ∀ key value, m' key = some value ↔
      if h.hashKey mkhash key = i then ∃ p, (p,key,value) ∈ l else m key = some value)
    (hnamed : m' [] = none) : Stores mkhash h' (Function.update c i l) m' := by
  have hhash : ∀ key, h'.hashKey mkhash key = h.hashKey mkhash key := by
    intro key
    rw [Table.hashKey,hlog,Table.hashKey]
  refine ⟨by rw [hsize,hs.size,hlog],fun j => ?_,fun j e he => ?_,fun j => ?_,?_,fun key value => ?_,hnamed⟩
  · by_cases hj : j = i
    · subst hj
      rwa [Function.update_self]
    · rw [Function.update_of_ne hj,hheads j hj]
      exact (hs.chain j).congr (hkept j hj)
  · rw [hhash]
    by_cases hj : j = i
    · subst hj
      rw [Function.update_self] at he
      exact hkeyed e he
    · rw [Function.update_of_ne hj] at he
      exact hs.keyed j e he
  · by_cases hj : j = i
    · subst hj
      rwa [Function.update_self]
    · rw [Function.update_of_ne hj]
      exact hs.nodup j
  · rw [hlog]
    have hmem : i ∈ Finset.range (2 ^ h.log2NumBuckets) := Finset.mem_range.mpr hi
    have hsum := Finset.add_sum_erase _ (fun j => (c j).length) hmem
    have hsum' := Finset.add_sum_erase _ (fun j => (Function.update c i l j).length) hmem
    have hrest : ∑ j ∈ (Finset.range (2 ^ h.log2NumBuckets)).erase i, (Function.update c i l j).length =
        ∑ j ∈ (Finset.range (2 ^ h.log2NumBuckets)).erase i, (c j).length := by
      refine Finset.sum_congr rfl fun j hj => ?_
      rw [Function.update_of_ne (Finset.ne_of_mem_erase hj)]
    have helems := hs.elements
    simp only [Function.update_self] at hsum'
    omega
  · rw [hmap,hhash]
    by_cases hkey : h.hashKey mkhash key = i
    · rw [if_pos hkey,hkey,Function.update_self]
    · rw [if_neg hkey,Function.update_of_ne hkey]
      exact hs.map key value

lemma head_set {h : Table α} (buckets : List (Option ℕ)) {i : ℕ} {x : Option ℕ}
    (hb : h.buckets = buckets.set i x) (hi : i < buckets.length) :
    h.head i = x ∧ ∀ j ≠ i, h.head j = buckets[j]?.join := by
  refine ⟨?_,fun j hj => ?_⟩
  · rw [Table.head,hb,List.getElem?_set_self hi]
    rfl
  · rw [Table.head,hb,List.getElem?_set_ne hj.symm]

/-- The buckets of a chain are live. -/
theorem live (hs : Stores mkhash h c m) {i q : ℕ} (hq : q ∈ addrs (c i)) : h.heap.lookup q ≠ none := by
  rw [← Option.isSome_iff_ne_none,AList.lookup_isSome,AList.mem_keys]
  exact mem_keys_of_seg (hs.chain i) hq

variable {key : Bytes} {malloc : List ℕ → ℕ}

/-- A key that is new is put in front of its chain. -/
theorem addInternal (hs : Stores mkhash h c m) (hmalloc : ∀ l, malloc l ∉ l) (hkey : key ≠ [])
    (hnew : ∀ e ∈ c (h.hashKey mkhash key), e.2.1 ≠ key) (value : α) :
    ∃ h' c', h.addInternal malloc (h.hashKey mkhash key) key value = some h' ∧
      h'.dtorFunc = h.dtorFunc ∧ Stores mkhash h' c' (Function.update m key (some value)) := by
  set i := h.hashKey mkhash key with hi
  set p := malloc h.heap.keys with hp
  have hfresh : ∀ j, p ∉ addrs (c j) := fun j hmem => hmalloc _ (mem_keys_of_seg (hs.chain j) hmem)
  have hlt : i < h.buckets.length := hs.size ▸ hashKey_lt h key
  have hlive : ∀ q, h.head i = some q →
      (h.heap.insert p ⟨none,h.head i,key,value⟩ : Heap α).lookup q ≠ none := by
    intro q hq
    have hqp : q ≠ p := by
      rintro rfl
      exact hfresh i ((hs.chain i).head_mem hq)
    rw [AList.lookup_insert_ne hqp]
    exact hs.live ((hs.chain i).head_mem hq)
  obtain ⟨heap,hlink,hview⟩ := linkPrev_view _ _ hlive (some p)
  rw [view_insert] at hview
  have hadd : h.addInternal malloc i key value = some { h with
      heap := heap
      buckets := h.buckets.set i (some p)
      elements := h.elements + 1 } := by
    have hhead : h.buckets[i]? = some (h.head i) := hs.head_eq (hashKey_lt h key)
    simp only [Table.addInternal,hhead,Option.bind_eq_bind,Option.bind_some,← hp,hlink]
    rfl
  have hheads := head_set h.buckets (h := { h with
      heap := heap
      buckets := h.buckets.set i (some p)
      elements := h.elements + 1 }) rfl hlt
  refine ⟨_,Function.update c i ((p,key,value) :: c i),hadd,rfl,?_⟩
  refine hs.change (hs.size ▸ hlt) rfl (List.length_set ..) hheads.2 ?_ ?_ ?_ ?_ ?_ ?_ ?_
  · intro j hj q hq
    rw [hview,setPrev_of_ne,Function.update_of_ne]
    · rintro rfl
      exact hfresh j hq
    · intro heq
      exact hj (hs.apart hq ((hs.chain i).head_mem heq))
  · rw [hheads.1]
    dsimp only
    rw [hview]
    exact (hs.chain i).push (hs.nodup_addrs i) (hfresh i) (key,value)
  · rw [List.forall_mem_cons]
    exact ⟨rfl,hs.keyed i⟩
  · rw [List.map_cons,List.nodup_cons]
    refine ⟨fun hmem => ?_,hs.nodup i⟩
    obtain ⟨e,he,heq⟩ := List.mem_map.mp hmem
    exact hnew e he heq
  · rw [List.length_cons]
    dsimp only
    omega
  · intro key' value'
    by_cases hsame : key' = key
    · subst hsame
      rw [Function.update_self,if_pos rfl]
      constructor
      · intro heq
        cases heq
        exact ⟨p,List.mem_cons_self⟩
      · rintro ⟨q,hq⟩
        obtain heq | hq := List.mem_cons.mp hq
        · cases heq
          rfl
        · exact absurd rfl (hnew _ hq)
    · rw [Function.update_of_ne hsame]
      split_ifs with hhash
      · rw [hs.map,hhash]
        constructor
        · rintro ⟨q,hq⟩
          exact ⟨q,List.mem_cons_of_mem _ hq⟩
        · rintro ⟨q,hq⟩
          obtain heq | hq := List.mem_cons.mp hq
          · cases heq
            exact absurd rfl hsame
          · exact ⟨q,hq⟩
      · rfl
  · rw [Function.update_of_ne (Ne.symm hkey)]
    exact hs.named

variable {l l' : List (ℕ × Bytes × α)} {value : α}

/-- The keys of a chain at which a bucket is. -/
theorem keys_split (hs : Stores mkhash h c m) {i p : ℕ} (hsplit : c i = l ++ (p,key,value) :: l') :
    ∀ e ∈ l ++ l', e.2.1 ≠ key := by
  have hnodup := hs.nodup i
  rw [hsplit,List.map_append,List.map_cons,List.nodup_middle,← List.map_append,List.nodup_cons] at hnodup
  intro e he heq
  exact hnodup.1 (List.mem_map.mpr ⟨e,he,heq⟩)

lemma mem_split_of_ne {p q : ℕ} {key key' : Bytes} {value w : α}
    (hne : key' ≠ key) : (q,key',w) ∈ l ++ (p,key,value) :: l' ↔ (q,key',w) ∈ l ++ l' := by
  simp [hne]

/-- The bucket of a key gets another value. -/
theorem replace (hs : Stores mkhash h c m) {p : ℕ}
    (hsplit : c (h.hashKey mkhash key) = l ++ (p,key,value) :: l')
    (hkey : key ≠ []) (value' : α) :
    ∃ b c', h.heap.lookup p = some b ∧ b.item = (key,value) ∧
      Stores mkhash { h with heap := h.heap.insert p { b with item := (b.item.1,value') } } c'
        (Function.update m key (some value')) := by
  set i := h.hashKey mkhash key with hi
  have hchain := hs.chain i
  rw [hsplit] at hchain
  obtain ⟨next,hcell,hl,hl'⟩ := hchain.neighbours
  have hnodup := hs.nodup_addrs i
  have hsplit' : addrs (c i) = addrs l ++ p :: addrs l' := by
    rw [hsplit]
    exact List.map_append
  rw [hsplit',List.nodup_append] at hnodup
  obtain ⟨-,hnodupr,hapart⟩ := hnodup
  have hfront : p ∉ addrs l := fun hmem => hapart p hmem p List.mem_cons_self rfl
  have hback : p ∉ addrs l' := (List.nodup_cons.mp hnodupr).1
  have hwrite : ∀ q ≠ p, view (h.heap.insert p ⟨lastOr none l,next,key,value'⟩ : Heap α) q =
      view h.heap q := by
    intro q hq
    rw [view_insert,Function.update_of_ne hq]
  refine ⟨_,Function.update c i (l ++ (p,key,value') :: l'),hcell,rfl,?_⟩
  refine hs.change (hashKey_lt h key) rfl rfl (fun j _ => rfl) ?_ ?_ ?_ ?_ ?_ ?_ ?_
  · intro j hj q hq
    refine hwrite q ?_
    rintro rfl
    exact hj (hs.apart hq (hsplit' ▸ List.mem_append_right _ List.mem_cons_self))
  · refine seg_append.mpr ⟨some p,hl.congr fun q hq => hwrite q ?_,rfl,next,?_,
      hl'.congr fun q hq => hwrite q ?_⟩
    · rintro rfl
      exact hfront hq
    · exact congrFun (view_insert ..) p |>.trans (Function.update_self ..)
    · rintro rfl
      exact hback hq
  · intro e he
    have hmem : ∃ e' ∈ c i, e'.2.1 = e.2.1 := by
      rw [hsplit]
      simp only [List.mem_append,List.mem_cons] at he ⊢
      obtain he | rfl | he := he
      · exact ⟨e,.inl he,rfl⟩
      · exact ⟨_,.inr (.inl rfl),rfl⟩
      · exact ⟨e,.inr (.inr he),rfl⟩
    obtain ⟨e',he',heq⟩ := hmem
    rw [← heq]
    exact hs.keyed i e' he'
  · have hkeys := hs.nodup i
    rw [hsplit,List.map_append,List.map_cons] at hkeys
    rwa [List.map_append,List.map_cons]
  · rw [hsplit,List.length_append,List.length_append,List.length_cons,List.length_cons]
  · intro key' w
    have hothers := hs.keys_split hsplit
    by_cases hsame : key' = key
    · subst hsame
      rw [Function.update_self,if_pos rfl]
      constructor
      · intro heq
        cases heq
        exact ⟨p,List.mem_append_right _ List.mem_cons_self⟩
      · rintro ⟨q,hq⟩
        rw [List.mem_append,List.mem_cons,or_left_comm,← List.mem_append] at hq
        obtain heq | hq := hq
        · cases heq
          rfl
        · exact absurd rfl (hothers _ hq)
    · rw [Function.update_of_ne hsame]
      split_ifs with hhash
      · rw [hs.map,hhash]
        simp only [hsplit,mem_split_of_ne hsame]
      · rfl
  · rw [Function.update_of_ne (Ne.symm hkey)]
    exact hs.named

/-- The bucket at `p`, behind `l` and in front of `next` in chain `i`, was taken out. -/
structure Unlinked (h : Table α) (i p : ℕ) (l : List (ℕ × Bytes × α)) (next : Option ℕ) (h' : Table α) :
    Prop where
  dtorFunc : h'.dtorFunc = h.dtorFunc
  log2NumBuckets : h'.log2NumBuckets = h.log2NumBuckets
  elements : h'.elements = h.elements - 1
  size : h'.buckets.length = h.buckets.length
  head : h'.head i = if l = [] then next else h.head i
  heads : ∀ j ≠ i, h'.head j = h.head j
  view : ∀ q ≠ p, view h'.heap q =
    setNext (setPrev (view h.heap) next (lastOr none l)) (lastOr none l) next q

/-- The three steps that read the bucket see the same links, as it is not one of its neighbours. -/
lemma unlink_spec {i p : ℕ} {l : List (ℕ × Bytes × α)} {next : Option ℕ}
    (hcell : view h.heap p = some ⟨lastOr none l,next,key,value⟩)
    (hl : Seg (view h.heap) none (h.head i) l (some p)) (hhead : h.buckets[i]? = some (h.head i))
    (hfront : p ∉ addrs l) (hback : next ≠ some p)
    (hnext : ∀ q, next = some q → h.heap.lookup q ≠ none)
    (hlast : ∀ q, lastOr none l = some q → h.heap.lookup q ≠ none)
    (hapart : ∀ q, lastOr none l = some q → next ≠ some q) :
    ∃ h', h.unlink i p = some (value,h') ∧ Unlinked h i p l next h' := by
  obtain ⟨heap₁,hlink₁,hview₁⟩ := linkPrev_view h.heap next hnext (lastOr none l)
  have hcell₁ : heap₁.lookup p = some ⟨lastOr none l,next,key,value⟩ := by
    change view heap₁ p = _
    rw [hview₁,setPrev_of_ne hback]
    exact hcell
  obtain ⟨heap₂,hlink₂,hview₂⟩ := linkNext_view heap₁ (lastOr none l) (fun q hq => by
    change view heap₁ q ≠ none
    rw [hview₁,setPrev_of_ne (hapart q hq)]
    exact hlast q hq) next
  have hcell₂ : heap₂.lookup p = some ⟨lastOr none l,next,key,value⟩ := by
    change view heap₂ p = _
    rw [hview₂,setNext_of_ne fun heq => hfront (mem_of_lastOr heq)]
    exact hcell₁
  set buckets := if h.head i = some p then h.buckets.set i next else h.buckets with hbuckets
  set h' : Table α := { h with heap := heap₂.erase p, buckets := buckets, elements := h.elements - 1 }
    with hh'
  have hunlink : h.unlink i p = some (value,h') := by
    have hcell' : h.heap.lookup p = some ⟨lastOr none l,next,key,value⟩ := hcell
    simp only [Table.unlink,hcell',Option.bind_eq_bind,Option.bind_some,hlink₁,hcell₁,hlink₂,hcell₂,hhead]
    rfl
  have hlength : buckets.length = h.buckets.length := by
    rw [hbuckets]
    split_ifs
    · exact List.length_set ..
    · rfl
  have hlt : i < h.buckets.length := (List.getElem?_eq_some_iff.mp hhead).1
  have hheads : h'.head i = (if l = [] then next else h.head i) ∧ ∀ j ≠ i, h'.head j = h.head j := by
    by_cases hfirst : h.head i = some p
    · have hset := head_set h.buckets (h := h') (x := next) (if_pos hfirst) hlt
      rw [if_pos ((hl.head_eq_iff hfront).mp hfirst)]
      exact hset
    · have hsame : h'.buckets = h.buckets := if_neg hfirst
      rw [if_neg (mt (hl.head_eq_iff hfront).mpr hfirst)]
      exact ⟨by rw [Table.head,hsame]; rfl,fun j _ => by rw [Table.head,hsame]; rfl⟩
  refine ⟨h',hunlink,rfl,rfl,rfl,hlength,hheads.1,hheads.2,fun q hq => ?_⟩
  rw [hh',view_erase,Function.update_of_ne hq,hview₂,hview₁]

/-- The bucket of a key is taken out and freed. -/
theorem unlink (hs : Stores mkhash h c m) {p : ℕ}
    (hsplit : c (h.hashKey mkhash key) = l ++ (p,key,value) :: l') :
    ∃ h' c', h.unlink (h.hashKey mkhash key) p = some (value,h') ∧ h'.dtorFunc = h.dtorFunc ∧
      Stores mkhash h' c' (Function.update m key none) := by
  set i := h.hashKey mkhash key with hi
  have hchain := hs.chain i
  rw [hsplit] at hchain
  obtain ⟨next,hcell,hl,hl'⟩ := hchain.neighbours
  have hnodup := hs.nodup_addrs i
  have hsplit' : addrs (c i) = addrs l ++ p :: addrs l' := by
    rw [hsplit]
    exact List.map_append
  rw [hsplit',List.nodup_append] at hnodup
  obtain ⟨-,hnodupr,hapart⟩ := hnodup
  have hfront : p ∉ addrs l := fun hmem => hapart p hmem p List.mem_cons_self rfl
  have hback : p ∉ addrs l' := (List.nodup_cons.mp hnodupr).1
  have hnext : ∀ q, next = some q → q ∈ addrs l' := fun q => hl'.head_mem
  have hlast : ∀ q, lastOr none l = some q → q ∈ addrs l := fun q => mem_of_lastOr
  obtain ⟨h',hunlink,hout⟩ := unlink_spec hcell hl (hs.head_eq (hashKey_lt h key)) hfront
    (fun heq => hback (hnext p heq))
    (fun q hq => hs.live (i := i) (hsplit' ▸ List.mem_append_right _ (List.mem_cons_of_mem _ (hnext q hq))))
    (fun q hq => hs.live (i := i) (hsplit' ▸ List.mem_append_left _ (hlast q hq)))
    (fun q hq heq => hapart q (hlast q hq) q (List.mem_cons_of_mem _ (hnext q heq)) rfl)
  refine ⟨h',Function.update c i (l ++ l'),hunlink,hout.dtorFunc,?_⟩
  refine hs.change (hashKey_lt h key) hout.log2NumBuckets hout.size hout.heads ?_ ?_ ?_ ?_ ?_ ?_ ?_
  · intro j hj q hq
    have hother : q ∉ addrs l ++ p :: addrs l' := fun hmem => hj (hs.apart hq (hsplit' ▸ hmem))
    rw [List.mem_append,List.mem_cons,not_or,not_or] at hother
    rw [hout.view q hother.2.1,setNext_of_ne fun heq => hother.1 (hlast q heq),
      setPrev_of_ne fun heq => hother.2.2 (hnext q heq)]
  · rw [hout.head]
    refine (hl.unlink hl' (hsplit ▸ hs.nodup_addrs i)).congr fun q hq => hout.view q ?_
    rintro rfl
    rw [addrs,List.map_append,List.mem_append] at hq
    exact hq.elim hfront hback
  · intro e he
    refine hs.keyed i e ?_
    rw [hsplit]
    simp only [List.mem_append,List.mem_cons] at he ⊢
    exact he.imp_right .inr
  · have hkeys := hs.nodup i
    rw [hsplit] at hkeys
    refine hkeys.sublist (List.Sublist.map _ ?_)
    exact (List.sublist_cons_self _ _).append_left _
  · have hle : (c i).length ≤ h.elements := by
      rw [hs.elements]
      exact Finset.single_le_sum (f := fun j => (c j).length) (fun j _ => Nat.zero_le _)
        (Finset.mem_range.mpr (hashKey_lt h key))
    have hlen : (c i).length = (l ++ l').length + 1 := by
      rw [hsplit,List.length_append,List.length_append,List.length_cons]
      omega
    rw [hout.elements]
    omega
  · intro key' w
    have hothers := hs.keys_split hsplit
    by_cases hsame : key' = key
    · subst hsame
      rw [Function.update_self,if_pos rfl]
      refine iff_of_false (fun heq => by cases heq) ?_
      rintro ⟨q,hq⟩
      exact hothers _ hq rfl
    · rw [Function.update_of_ne hsame]
      split_ifs with hhash
      · rw [hs.map,hhash]
        simp only [hsplit,mem_split_of_ne hsame]
      · rfl
  · by_cases hkey : [] = key
    · rw [← hkey,Function.update_self]
    · rw [Function.update_of_ne hkey]
      exact hs.named

/-! ### Calls -/

/-- The number of keys of the map. -/
theorem ncard_keys (hs : Stores mkhash h c m) : h.elements = {key | (m key).isSome}.ncard := by
  have hkeys : {key | (m key).isSome} =
      ↑((Finset.range (2 ^ h.log2NumBuckets)).biUnion fun i => ((c i).map fun e => e.2.1).toFinset) := by
    ext key
    simp only [Set.mem_ofPred_eq,Option.isSome_iff_exists,Finset.coe_biUnion,Set.mem_iUnion,
      List.coe_toFinset,Finset.coe_range,Set.mem_Iio,List.mem_map]
    constructor
    · rintro ⟨value,hvalue⟩
      obtain ⟨p,hp⟩ := (hs.map key value).mp hvalue
      exact ⟨_,hashKey_lt h key,_,hp,rfl⟩
    · rintro ⟨i,hi,⟨p,key',value⟩,he,rfl⟩
      refine ⟨value,(hs.map _ _).mpr ⟨p,?_⟩⟩
      rw [hs.keyed i _ he]
      exact he
  rw [hkeys,Set.ncard_coe_finset,Finset.card_biUnion,hs.elements]
  · refine Finset.sum_congr rfl fun i _ => ?_
    rw [List.toFinset_card_of_nodup (hs.nodup i),List.length_map]
  · intro i _ j _ hij
    change Disjoint _ _
    rw [Finset.disjoint_left]
    intro key hi hj
    rw [List.mem_toFinset,List.mem_map] at hi hj
    obtain ⟨e,he,rfl⟩ := hi
    obtain ⟨e',he',heq⟩ := hj
    rw [← hs.keyed i e he,← heq,hs.keyed j e' he'] at hij
    exact hij rfl

lemma buckets_eq (hs : Stores mkhash h c m) :
    h.buckets = (List.range (2 ^ h.log2NumBuckets)).map h.head := by
  apply List.ext_getElem?
  intro i
  rw [List.getElem?_map]
  by_cases hi : i < 2 ^ h.log2NumBuckets
  · rw [hs.head_eq hi,List.getElem?_range hi]
    rfl
  · rw [List.getElem?_eq_none (hs.size.trans_le (not_lt.mp hi)),
      List.getElem?_eq_none (by rw [List.length_range]; exact not_lt.mp hi)]
    rfl

lemma mapM_walk (hs : Stores mkhash h c m) (is : List ℕ) :
    ((is.map h.head).mapM fun head => walk h.heap h.heap.keys.length head) =
      some (is.map fun i => (c i).map Prod.snd) := by
  induction is with
  | nil => rfl
  | cons i is ih =>
    have hwalk := walk_seg (hs.chain i) (length_le_of_seg (hs.chain i) (hs.nodup_addrs i))
    rw [List.map_cons,List.mapM_cons,hwalk,ih]
    rfl

/-- What `nr_hashmap_apply` goes through. -/
theorem apply (hs : Stores mkhash h c m) :
    ∃ entries, h.apply = some entries ∧ (entries.map Prod.fst).Nodup ∧
      ∀ key value, (key,value) ∈ entries ↔ m key = some value := by
  refine ⟨((List.range (2 ^ h.log2NumBuckets)).map fun i => (c i).map Prod.snd).flatten,?_,?_,?_⟩
  · have hwalk := hs.mapM_walk (List.range (2 ^ h.log2NumBuckets))
    rw [← hs.buckets_eq] at hwalk
    rw [Table.apply,hwalk]
    rfl
  · rw [List.map_flatten,List.map_map,← List.flatMap_def,List.nodup_flatMap]
    refine ⟨fun i _ => ?_,List.nodup_range.pairwise_of_forall_ne fun i _ j _ hij => ?_⟩
    · have hkeys := hs.nodup i
      rwa [Function.comp_apply,List.map_map]
    · intro key hi hj
      simp only [Function.comp_apply,List.map_map,List.mem_map] at hi hj
      obtain ⟨e,he,rfl⟩ := hi
      obtain ⟨e',he',heq⟩ := hj
      refine hij ?_
      rw [← hs.keyed i e he,← hs.keyed j e' he']
      exact congrArg _ heq.symm
  · intro key value
    rw [hs.map]
    simp only [List.mem_flatten,List.mem_map,List.mem_range]
    constructor
    · rintro ⟨_,⟨i,hi,rfl⟩,hmem⟩
      obtain ⟨⟨p,x⟩,he,rfl⟩ := List.mem_map.mp hmem
      exact ⟨p,by rw [hs.keyed i _ he]; exact he⟩
    · rintro ⟨p,hp⟩
      exact ⟨_,⟨_,hashKey_lt h key,rfl⟩,List.mem_map.mpr ⟨_,hp,rfl⟩⟩

lemma update_none_of_none {m : KeyMap α} (h : m key = none) : Function.update m key none = m := by
  rw [← h,Function.update_eq_self]

/-- A call of the table is one of the map. -/
theorem step (hs : Stores mkhash h c m) (hmalloc : ∀ l, malloc l ∉ l) (op : Op α) :
    ∃ answer h' c', HashTable.step mkhash malloc h op =
        some (answer,if h.dtorFunc then m.discards op else [],h') ∧
      m.Answers op answer ∧ h'.dtorFunc = h.dtorFunc ∧ Stores mkhash h' c' (m.next op) := by
  cases op with
  | set key value =>
    by_cases hkey : key = []
    · refine ⟨.status false,h,c,?_,?_,rfl,?_⟩
      · simp [HashTable.step,Table.set,hkey,KeyMap.discards]
      · simp [KeyMap.Answers,hkey]
      · rwa [KeyMap.next,if_pos (.inl hkey)]
    obtain ⟨hnone,hfetch,hnew⟩ | ⟨p,old,l,l',hold,hfetch,-⟩ := hs.fetch key
    · obtain ⟨h',c',hadd,hdtor,hs'⟩ := hs.addInternal hmalloc hkey hnew value
      refine ⟨.status true,h',c',?_,?_,hdtor,?_⟩
      · simp [HashTable.step,Table.set,hkey,hfetch,hadd,KeyMap.discards]
      · simp [KeyMap.Answers,hkey,hnone]
      · rwa [KeyMap.next,if_neg (by simp [hkey,hnone])]
    · refine ⟨.status false,h,c,?_,?_,rfl,?_⟩
      · simp [HashTable.step,Table.set,hkey,hfetch,KeyMap.discards]
      · simp [KeyMap.Answers,hold]
      · rwa [KeyMap.next,if_pos (.inr (by rw [hold]; rfl))]
  | update key value =>
    by_cases hkey : key = []
    · refine ⟨.nothing,h,c,?_,trivial,rfl,?_⟩
      · simp [HashTable.step,Table.update,hkey,KeyMap.discards,hs.named]
      · rwa [KeyMap.next,if_pos hkey]
    obtain ⟨hnone,hfetch,hnew⟩ | ⟨p,old,l,l',hold,hfetch,hsplit⟩ := hs.fetch key
    · obtain ⟨h',c',hadd,hdtor,hs'⟩ := hs.addInternal hmalloc hkey hnew value
      refine ⟨.nothing,h',c',?_,trivial,hdtor,?_⟩
      · simp [HashTable.step,Table.update,hkey,hfetch,hadd,KeyMap.discards,hnone]
      · rwa [KeyMap.next,if_neg hkey]
    · obtain ⟨b,c',hlookup,hitem,hs'⟩ := hs.replace hsplit hkey value
      refine ⟨.nothing,{ h with heap := h.heap.insert p { b with item := (b.item.1,value) } },c',?_,
        trivial,rfl,?_⟩
      · simp [HashTable.step,Table.update,hkey,hfetch,hlookup,KeyMap.discards,hold,Table.destroyed,hitem]
      · rwa [KeyMap.next,if_neg hkey]
  | get key =>
    refine ⟨.value (m key),h,c,?_,rfl,rfl,hs⟩
    by_cases hkey : key = []
    · simp [HashTable.step,Table.get,hkey,KeyMap.discards,hs.named]
    obtain ⟨hnone,hfetch,-⟩ | ⟨p,old,l,l',hold,hfetch,hsplit⟩ := hs.fetch key
    · simp [HashTable.step,Table.get,hkey,hfetch,KeyMap.discards,hnone]
    · obtain ⟨b,-,hlookup,hitem,-⟩ := hs.replace hsplit hkey old
      simp [HashTable.step,Table.get,hkey,hfetch,KeyMap.discards,hold,hlookup,hitem]
  | has key =>
    refine ⟨.found (m key).isSome,h,c,?_,rfl,rfl,hs⟩
    by_cases hkey : key = []
    · simp [HashTable.step,Table.has,hkey,KeyMap.discards,hs.named]
    obtain ⟨hnone,hfetch,-⟩ | ⟨p,old,l,l',hold,hfetch,-⟩ := hs.fetch key
    · simp [HashTable.step,Table.has,hkey,hfetch,KeyMap.discards,hnone]
    · simp [HashTable.step,Table.has,hkey,hfetch,KeyMap.discards,hold]
  | delete key =>
    by_cases hkey : key = []
    · refine ⟨.status false,h,c,?_,?_,rfl,?_⟩
      · simp [HashTable.step,Table.delete,hkey,KeyMap.discards,hs.named]
      · simp [KeyMap.Answers,hkey,hs.named]
      · rwa [KeyMap.next,hkey,update_none_of_none hs.named]
    obtain ⟨hnone,hfetch,-⟩ | ⟨p,old,l,l',hold,hfetch,hsplit⟩ := hs.fetch key
    · refine ⟨.status false,h,c,?_,?_,rfl,?_⟩
      · simp [HashTable.step,Table.delete,hkey,hfetch,KeyMap.discards,hnone]
      · simp [KeyMap.Answers,hnone]
      · rwa [KeyMap.next,update_none_of_none hnone]
    · obtain ⟨h',c',hunlink,hdtor,hs'⟩ := hs.unlink hsplit
      refine ⟨.status true,h',c',?_,?_,hdtor,hs'⟩
      · simp [HashTable.step,Table.delete,hkey,hfetch,hunlink,KeyMap.discards,hold,Table.destroyed]
      · simp [KeyMap.Answers,hold]
  | count => exact ⟨.count h.elements,h,c,by simp [HashTable.step,KeyMap.discards],hs.ncard_keys,rfl,hs⟩
  | apply =>
    obtain ⟨entries,happly,hentries⟩ := hs.apply
    exact ⟨.visited entries,h,c,by simp [HashTable.step,happly,KeyMap.discards],hentries,rfl,hs⟩

lemma run (hs : Stores mkhash h c m) (hmalloc : ∀ l, malloc l ∉ l) (ops : List (Op α)) :
    ∃ answers h', HashTable.run mkhash malloc h ops = some (answers,h') ∧
      m.AnswersAll h.dtorFunc ops answers := by
  induction ops generalizing h c m with
  | nil => exact ⟨[],h,rfl,rfl⟩
  | cons op ops ih =>
    obtain ⟨answer,h₁,c₁,hstep,hanswer,hdtor,hs₁⟩ := hs.step hmalloc op
    obtain ⟨answers,h₂,hrun,hanswers⟩ := ih hs₁
    refine ⟨(answer,if h.dtorFunc then m.discards op else []) :: answers,h₂,?_,answer,answers,rfl,
      hanswer,?_⟩
    · simp [HashTable.run,hstep,hrun]
    · rwa [← hdtor]

end Stores

/-- Every run on a new hash map answers as a finite map does, under any hash function. No pointer is
followed to where no bucket is, and what is replaced or removed is destroyed once, where there is a
destructor. -/
theorem run_answersAll (mkhash : Bytes → UInt32) (malloc : List ℕ → ℕ) (hmalloc : ∀ live, malloc live ∉ live)
    (log2NumBuckets : ℕ) (dtorFunc : Bool) (ops : List (Op α)) :
    ∃ answers h, run mkhash malloc (createInternal log2NumBuckets dtorFunc) ops = some (answers,h) ∧
      KeyMap.AnswersAll dtorFunc (fun _ => none) ops answers :=
  (createInternal_stores log2NumBuckets dtorFunc).run hmalloc ops

/-- All keys collide, and the memory is taken behind what is live. -/
theorem run_answersAll_collide :
    ∃ answers h, run (fun _ => 0) (fun live => live.sum + 1) (createInternal 0 true)
        [.set (ascii "a") 1,.set [0] 2,.update [0] 3,.delete (ascii "a"),.apply] = some (answers,h) ∧
      KeyMap.AnswersAll true (fun _ => none)
        [.set (ascii "a") 1,.set [0] 2,.update [0] 3,.delete (ascii "a"),.apply] answers := by
  refine run_answersAll (fun _ => 0) (fun live => live.sum + 1) (fun live hmem => ?_) 0 true _
  have hle : live.sum + 1 ≤ live.sum := List.single_le_sum (fun _ _ => Nat.zero_le _) _ hmem
  omega

end PhpAgent.HashTable
