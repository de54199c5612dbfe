import PhpAgent.Util.Object

/-! Hash maps, after `util_hashmap.c`. The hash function is a parameter. -/
namespace PhpAgent

/-! ### Lists of buckets -/

namespace Buckets

/-- How many buckets are made, which is a power of two, when so many are asked for. -/
def log2Number (log2NumBuckets : ℕ) : ℕ := if log2NumBuckets = 0 then 8 else min log2NumBuckets 24

variable {β : Type}

lemma getD_empty (n i : ℕ) : (List.replicate n ([] : List β)).getD i [] = [] := by
  rw [List.getD_eq_getElem?_getD,List.getElem?_replicate]
  split_ifs
  · rfl
  · rfl

/-- An entry that is put in front of one bucket. -/
lemma getD_modify_cons {buckets : List (List β)} {j : ℕ} (hj : j < buckets.length) (i : ℕ) (e : β) :
    (buckets.modify i (e :: ·)).getD j [] =
      if i = j then e :: buckets.getD j [] else buckets.getD j [] := by
  rw [List.getD_eq_getElem?_getD,List.getD_eq_getElem?_getD,List.getElem?_modify,
    List.getElem?_eq_getElem hj]
  split_ifs
  · rfl
  · rfl

end Buckets

/-! ### Hash maps -/

/-- `nr_hashmap_hash_key`. -/
def hashmapHashKey (mkhash : Bytes → UInt32) (log2NumBuckets : ℕ) (key : Bytes) : ℕ :=
  (mkhash key).toNat%2^log2NumBuckets

lemma hashmapHashKey_lt (mkhash : Bytes → UInt32) (log2NumBuckets : ℕ) (key : Bytes) :
    hashmapHashKey mkhash log2NumBuckets key < 2^log2NumBuckets := Nat.mod_lt _ (Nat.two_pow_pos _)

/-- `nr_hashmap_t`. A bucket is a list of keys and values. -/
structure NrHashmap (mkhash : Bytes → UInt32) (α : Type) where
  log2NumBuckets : ℕ
  buckets : List (List (Bytes × α))
  length_buckets : buckets.length = 2^log2NumBuckets
  keyed : ∀ i bucket, buckets[i]? = some bucket →
    ∀ e ∈ bucket, hashmapHashKey mkhash log2NumBuckets e.1 = i
  nodup : ∀ bucket ∈ buckets, (bucket.map Prod.fst).Nodup

namespace NrHashmap

variable {mkhash : Bytes → UInt32} {α : Type} {h : NrHashmap mkhash α} {key : Bytes} {e : Bytes × α}

def hashKey (h : NrHashmap mkhash α) (key : Bytes) : ℕ := hashmapHashKey mkhash h.log2NumBuckets key

/-- The bucket of a key. -/
def bucket (h : NrHashmap mkhash α) (key : Bytes) : List (Bytes × α) :=
  h.buckets.getD (h.hashKey key) []

/-- `nr_hashmap_fetch`. -/
def fetch (h : NrHashmap mkhash α) (key : Bytes) : Option α :=
  ((h.bucket key).find? fun e => e.1 = key).map Prod.snd

/-- `nr_hashmap_get`. -/
def get (h : NrHashmap mkhash α) (key : Bytes) : Option α := if key = [] then none else h.fetch key

/-- What `nr_hashmap_apply` goes through. -/
def entries (h : NrHashmap mkhash α) : List (Bytes × α) := h.buckets.flatten

/-- `nr_hashmap_create_internal`. -/
def createInternal (mkhash : Bytes → UInt32) (α : Type) (log2NumBuckets : ℕ) : NrHashmap mkhash α :=
  { log2NumBuckets := Buckets.log2Number log2NumBuckets
    buckets := List.replicate (2^Buckets.log2Number log2NumBuckets) []
    length_buckets := List.length_replicate
    keyed := by
      intro i bucket hbucket e he
      rw [List.eq_of_mem_replicate (List.mem_of_getElem? hbucket)] at he
      exact absurd he List.not_mem_nil
    nodup := by
      intro bucket hbucket
      rw [List.eq_of_mem_replicate hbucket]
      exact List.nodup_nil }

/-- `nr_hashmap_create`. -/
def create (mkhash : Bytes → UInt32) (α : Type) : NrHashmap mkhash α := createInternal mkhash α 0

lemma fetch_eq_none_iff : h.fetch key = none ↔ ∀ e ∈ h.bucket key, e.1 ≠ key := by
  simp [fetch]

/-- `nr_hashmap_add_internal`, of a key that is not there. -/
def addInternal (h : NrHashmap mkhash α) (key : Bytes) (value : α) (hnew : h.fetch key = none) :
    NrHashmap mkhash α where
  log2NumBuckets := h.log2NumBuckets
  buckets := h.buckets.modify (h.hashKey key) ((key,value) :: ·)
  length_buckets := (List.length_modify ..).trans h.length_buckets
  keyed := by
    intro i bucket hbucket e he
    rw [List.getElem?_modify] at hbucket
    split_ifs at hbucket with hi
    · obtain ⟨old,hold,rfl⟩ := Option.map_eq_some_iff.mp hbucket
      obtain rfl | hmem := List.mem_cons.mp he
      · exact hi
      · exact h.keyed i old hold e hmem
    · exact h.keyed i bucket (by simpa using hbucket) e he
  nodup := by
    intro bucket hbucket
    obtain ⟨i,hi⟩ := List.mem_iff_getElem?.mp hbucket
    rw [List.getElem?_modify] at hi
    split_ifs at hi with heq
    · obtain ⟨old,hold,rfl⟩ := Option.map_eq_some_iff.mp hi
      rw [List.map_cons,List.nodup_cons]
      refine ⟨?_,h.nodup old (List.mem_of_getElem? hold)⟩
      intro hmem
      obtain ⟨e,he,hkey⟩ := List.mem_map.mp hmem
      have hbucket : h.bucket key = old := by
        rw [bucket,List.getD_eq_getElem?_getD,heq,hold,Option.getD_some]
      exact fetch_eq_none_iff.mp hnew e (hbucket ▸ he) hkey
    · exact h.nodup bucket (List.mem_of_getElem? (by simpa using hi))

/-- `nr_hashmap_set`; without a result when it fails. -/
def set (h : NrHashmap mkhash α) (key : Bytes) (value : α) : Option (NrHashmap mkhash α) :=
  if key = [] then none
  else if hnew : h.fetch key = none then some (h.addInternal key value hnew)
  else none

/-- A change of the value that `nr_hashmap_get` points to. -/
def modify (h : NrHashmap mkhash α) (key : Bytes) (f : α → α) : NrHashmap mkhash α where
  log2NumBuckets := h.log2NumBuckets
  buckets := h.buckets.map fun bucket => bucket.map fun e => if e.1 = key then (e.1,f e.2) else e
  length_buckets := (List.length_map _).trans h.length_buckets
  keyed := by
    intro i bucket hbucket e he
    rw [List.getElem?_map] at hbucket
    obtain ⟨old,hold,rfl⟩ := Option.map_eq_some_iff.mp hbucket
    obtain ⟨e',he',rfl⟩ := List.mem_map.mp he
    have hkey := h.keyed i old hold e' he'
    split_ifs
    · exact hkey
    · exact hkey
  nodup := by
    intro bucket hbucket
    obtain ⟨old,hold,rfl⟩ := List.mem_map.mp hbucket
    have hfst : (old.map fun e => if e.1 = key then (e.1,f e.2) else e).map Prod.fst =
        old.map Prod.fst := by
      rw [List.map_map]
      apply List.map_congr_left
      intro e _
      dsimp only [Function.comp]
      split_ifs
      · rfl
      · rfl
    rw [hfst]
    exact h.nodup old hold

/-! ### Entries -/

lemma mem_entries : e ∈ h.entries ↔ e ∈ h.bucket e.1 := by
  unfold entries
  rw [List.mem_flatten]
  constructor
  · rintro ⟨bucket,hbucket,he⟩
    obtain ⟨i,hi⟩ := List.mem_iff_getElem?.mp hbucket
    have hkey : h.hashKey e.1 = i := h.keyed i bucket hi e he
    rw [NrHashmap.bucket,List.getD_eq_getElem?_getD,hkey,hi]
    exact he
  · intro he
    rw [NrHashmap.bucket,List.getD_eq_getElem?_getD] at he
    cases hi : h.buckets[h.hashKey e.1]? with
    | none =>
      rw [hi] at he
      exact absurd he List.not_mem_nil
    | some bucket =>
      rw [hi] at he
      exact ⟨bucket,List.mem_of_getElem? hi,he⟩

lemma entries_create : (create mkhash α).entries = [] := List.flatten_replicate_nil

lemma mem_entries_addInternal {value : α} (hnew : h.fetch key = none) :
    e ∈ (h.addInternal key value hnew).entries ↔ e = (key,value) ∨ e ∈ h.entries := by
  have hlt : h.hashKey e.1 < h.buckets.length := by
    rw [h.length_buckets]
    exact hashmapHashKey_lt mkhash h.log2NumBuckets e.1
  have hbucket : (h.addInternal key value hnew).bucket e.1 =
      if h.hashKey key = h.hashKey e.1 then (key,value) :: h.bucket e.1 else h.bucket e.1 :=
    Buckets.getD_modify_cons hlt (h.hashKey key) (key,value)
  rw [mem_entries,mem_entries,hbucket]
  constructor
  · intro he
    split_ifs at he with hsame
    · exact List.mem_cons.mp he
    · exact .inr he
  · rintro (rfl | he)
    · rw [if_pos rfl]
      exact List.mem_cons_self
    · split_ifs
      · exact List.mem_cons_of_mem _ he
      · exact he

lemma mem_entries_modify {f : α → α} : e ∈ (h.modify key f).entries ↔
      ∃ e' ∈ h.entries, (if e'.1 = key then (e'.1,f e'.2) else e') = e := by
  have hentries : (h.modify key f).entries =
      h.entries.map fun e => if e.1 = key then (e.1,f e.2) else e := by
    simp only [entries,modify,List.map_flatten]
  rw [hentries,List.mem_map]

/-! ### Values -/

lemma fetch_eq_some_iff {value : α} : h.fetch key = some value ↔ (key,value) ∈ h.entries := by
  have hnodup : ((h.bucket key).map Prod.fst).Nodup := by
    rw [bucket,List.getD_eq_getElem?_getD]
    cases hb : h.buckets[h.hashKey key]? with
    | none => exact List.nodup_nil
    | some b => exact h.nodup b (List.mem_of_getElem? hb)
  rw [mem_entries]
  constructor
  · intro hfetch
    obtain ⟨e,he,rfl⟩ := Option.map_eq_some_iff.mp hfetch
    have hkey : e.1 = key := by simpa using List.find?_some he
    rw [← hkey] at he ⊢
    exact List.mem_of_find?_eq_some he
  · intro hmem
    have hsome : ((h.bucket key).find? fun e => e.1 = key).isSome := by
      rw [List.find?_isSome]
      exact ⟨(key,value),hmem,by simp⟩
    obtain ⟨e,he⟩ := Option.isSome_iff_exists.mp hsome
    have hkey : e.1 = key := by simpa using List.find?_some he
    have heq : e = (key,value) :=
      List.inj_on_of_nodup_map hnodup (List.mem_of_find?_eq_some he) hmem hkey
    rw [fetch,he,heq]
    rfl

lemma fetch_create (key : Bytes) : (create mkhash α).fetch key = none := by
  rw [Option.eq_none_iff_forall_ne_some]
  intro value hfetch
  rw [fetch_eq_some_iff,entries_create] at hfetch
  exact absurd hfetch List.not_mem_nil

lemma fetch_addInternal {value : α} (hnew : h.fetch key = none)
    (k : Bytes) : (h.addInternal key value hnew).fetch k = if k = key then some value else h.fetch k := by
  ext v
  rw [fetch_eq_some_iff,mem_entries_addInternal]
  split_ifs with hk
  · rw [hk]
    constructor
    · rintro (heq | hold)
      · rw [(Prod.mk.inj heq).2]
      · rw [← fetch_eq_some_iff,hnew] at hold
        cases hold
    · intro heq
      rw [Option.some.inj heq]
      exact .inl rfl
  · rw [fetch_eq_some_iff]
    exact or_iff_right fun heq => hk (Prod.mk.inj heq).1

lemma fetch_modify (h : NrHashmap mkhash α) (key : Bytes) (f : α → α) (k : Bytes) :
    (h.modify key f).fetch k = if k = key then (h.fetch k).map f else h.fetch k := by
  ext v
  rw [fetch_eq_some_iff,mem_entries_modify]
  split_ifs with hk
  · rw [Option.map_eq_some_iff]
    constructor
    · rintro ⟨⟨k',v'⟩,he,heq⟩
      split_ifs at heq with hkey
      · obtain ⟨rfl,rfl⟩ := Prod.mk.inj heq
        exact ⟨v',fetch_eq_some_iff.mpr he,rfl⟩
      · exact absurd ((Prod.mk.inj heq).1.trans hk) hkey
    · rintro ⟨v',hv,rfl⟩
      exact ⟨(k,v'),fetch_eq_some_iff.mp hv,by rw [if_pos hk]⟩
  · rw [fetch_eq_some_iff]
    constructor
    · rintro ⟨⟨k',v'⟩,he,heq⟩
      split_ifs at heq with hkey
      · exact absurd ((Prod.mk.inj heq).1.symm.trans hkey) hk
      · rw [← heq]
        exact he
    · intro he
      exact ⟨(k,v),he,if_neg hk⟩

end NrHashmap
end PhpAgent
