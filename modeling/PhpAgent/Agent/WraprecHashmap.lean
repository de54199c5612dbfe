import PhpAgent.Lib.CString
import PhpAgent.Lib.CType
import PhpAgent.Util.Hashmap

/-! The records of user functions, found by function and scope, after
`php_user_instrument_wraprec_hashmap.c`. A pointer is the position of what was made in the list of its
kind; the hash function is a parameter. -/
namespace PhpAgent.WraprecHashmap
open Json (code)

/-- `nr_func_hashmap_key_t`, and `nr_scope_hashmap_key_t`, which has no `is_method`. -/
structure Key where
  isMethod : Bool
  name : Bytes
  nameLen : ℕ
  nameHash : UInt64
deriving DecidableEq

/-- `nr_func_hashmap_t` and `nr_scope_hashmap_t`. A value is a pointer. -/
structure Table where
  log2NumBuckets : ℕ
  buckets : List (List (Key × ℕ))
  elements : ℕ
deriving DecidableEq

/-- `nr_strncmp` finds no difference. -/
def strncmpEq (a b : Bytes) (n : ℕ) : Bool := cstr ((a ++ [0]).take n) = cstr ((b ++ [0]).take n)

/-- `nr_func_hashmap_key_equals`, `nr_scope_hashmap_key_equals`. -/
def keyEquals (a b : Key) : Bool :=
  a.nameHash = b.nameHash ∧ a.nameLen = b.nameLen ∧ strncmpEq a.name b.name a.nameLen

namespace Table

/-- `nr_func_hashmap_create_internal`, `nr_scope_hashmap_create_internal`. -/
def createInternal (log2NumBuckets : ℕ) : Table :=
  ⟨Buckets.log2Number log2NumBuckets,List.replicate (2 ^ Buckets.log2Number log2NumBuckets) [],0⟩

/-- `nr_func_hashmap_hash_key`, `nr_scope_hashmap_hash_key`. -/
def hashKey (t : Table) (key : Key) : ℕ := key.nameHash.toNat % 2 ^ t.log2NumBuckets

/-- `nr_func_hashmap_lookup_internal`, `nr_scope_hashmap_lookup_internal`, by `fetch_internal`. -/
def lookup (t : Table) (key : Key) : Option ℕ :=
  ((t.buckets.getD (t.hashKey key) []).find? fun b => keyEquals b.1 key).map Prod.snd

/-- The key as a bucket keeps it. -/
def storedKey (key : Key) : Key := { key with name := strndup key.name key.nameLen }

/-- `nr_func_hashmap_add_internal`, `nr_scope_hashmap_add_internal`. -/
def addInternal (t : Table) (key : Key) (value : ℕ) : Table :=
  { t with
    buckets := t.buckets.modify (t.hashKey key) ((storedKey key,value) :: ·)
    elements := t.elements + 1 }

end Table

/-- `nruserfn_t`, as far as it is filled in here. -/
structure Wraprec where
  funcname : Bytes
  funcnameLC : Bytes
  classname : Option Bytes
  classnameLC : Option Bytes
  isMethod : Bool
deriving DecidableEq

/-- `scope_ht`, `global_funcs_ht`, which is the first of the function maps, and the records. -/
structure Maps where
  scopeHt : Table
  funcHts : List Table
  wraprecs : List Wraprec
deriving DecidableEq

/-- `nr_php_user_instrument_wraprec_hashmap_init`. -/
def init : Maps := ⟨Table.createInternal 0,[Table.createInternal 0],[]⟩

/-- The loop of `name2keys` after so many rounds: what the function key and the scope key point to. The
name is followed by its NUL. -/
def splitLoop (fullName : Bytes) : ℕ → Bool × Bytes × Bytes
  | 0 => (false,fullName,[])
  | i + 1 =>
    if fullName[i]? = some (code ':') ∧ (fullName ++ [0])[i + 1]? = some (code ':') then
      (true,fullName.drop (i + 2),fullName.take i)
    else splitLoop fullName i

/-- `nr_php_user_instrument_wraprec_hashmap_name2keys`. -/
def name2keys (hash : Bytes → UInt64) (fullName : Bytes) : Key × Key :=
  let (isMethod,func,scope) := splitLoop fullName fullName.length
  (⟨isMethod,func,func.length,hash func⟩,⟨false,scope,scope.length,if isMethod then hash scope else 0⟩)

namespace Maps

/-- `nr_scope_hashmap_update_internal`. -/
def scopeUpdate (s : Maps) (key : Key) : ℕ × Maps :=
  match s.scopeHt.lookup key with
  | some funcHt => (funcHt,s)
  | none =>
    (s.funcHts.length,{ s with
      scopeHt := s.scopeHt.addInternal key s.funcHts.length
      funcHts := s.funcHts ++ [Table.createInternal 0] })

/-- `nr_func_hashmap_update_internal` on the map at a pointer, with whether the record is new. -/
def funcUpdate (s : Maps) (funcHt : ℕ) (key : Key) (make : Wraprec) : Option (ℕ × Bool × Maps) := do
  let ht ← s.funcHts[funcHt]?
  match ht.lookup key with
  | some wraprec => return (wraprec,false,s)
  | none =>
    return (s.wraprecs.length,true,{ s with
      funcHts := s.funcHts.set funcHt (ht.addInternal key s.wraprecs.length)
      wraprecs := s.wraprecs ++ [make] })

/-- The contents of a new record. -/
def newWraprec (func scope : Key) : Wraprec :=
  let funcname := strndup func.name func.nameLen
  let classname := if func.isMethod then some (strndup scope.name scope.nameLen) else none
  ⟨funcname,funcname.map tolower,classname,classname.map (·.map tolower),func.isMethod⟩

/-- `nr_php_user_instrument_wraprec_hashmap_add`. -/
def add (hash : Bytes → UInt64) (s : Maps) (namestr : Bytes) : Option (ℕ × Maps) :=
  let (func,scope) := name2keys hash namestr
  let (funcHt,s) := if func.isMethod then s.scopeUpdate scope else (0,s)
  (s.funcUpdate funcHt func (newWraprec func scope)).map fun r => (r.1,r.2.2)

/-- The keys that `nr_php_user_instrument_wraprec_hashmap_get` makes of strings. -/
def stringKey (hash : Bytes → UInt64) (isMethod : Bool) (s : Bytes) : Key := ⟨isMethod,s,s.length,hash s⟩

/-- `nr_php_user_instrument_wraprec_hashmap_get`. -/
def get (hash : Bytes → UInt64) (s : Maps) (funcName : Bytes) (scopeName : Option Bytes) : Option ℕ := do
  let funcHt ← match scopeName with
    | some scope => s.scopeHt.lookup (stringKey hash false scope)
    | none => some 0
  let ht ← s.funcHts[funcHt]?
  ht.lookup (stringKey hash scopeName.isSome funcName)

/-- Names added one after the other, with the records that are returned. -/
def addAll (hash : Bytes → UInt64) (s : Maps) : List Bytes → Option (List ℕ × Maps)
  | [] => some ([],s)
  | name :: names => do
    let (r,s) ← s.add hash name
    let (rs,s) ← addAll hash s names
    return (r :: rs,s)

end Maps

/-! ### What is promised -/

/-- `nr_php_user_instrument_is_name_valid`. -/
def NameValid (name : Bytes) : Prop := name ≠ [] ∧ name.getLast? ≠ some (code ':')

/-- The name split at its last double colon; without one it is a function. -/
def SplitsAt (name : Bytes) : Option Bytes → Bytes → Prop
  | none,func => func = name ∧ ¬[code ':',code ':'] <:+: name
  | some scope,func =>
    name = scope ++ code ':' :: code ':' :: func ∧ ¬[code ':',code ':'] <:+: code ':' :: func

/-- After names were added, they share records exactly when they are split alike, and a lookup returns
the record of exactly the names that are split into its function and scope. -/
def Serves (hash : Bytes → UInt64) (names : List Bytes) (scope : Option Bytes) (func : Bytes) : Prop :=
  ∃ rs s, Maps.addAll hash init names = some (rs,s) ∧ rs.length = names.length ∧
    (∀ n r n' r', (n,r) ∈ names.zip rs → (n',r') ∈ names.zip rs →
      (r = r' ↔ ∃ sc f, SplitsAt n sc f ∧ SplitsAt n' sc f)) ∧
    ∀ r, s.get hash func scope = some r ↔ ∃ n, (n,r) ∈ names.zip rs ∧ SplitsAt n scope func

/-- Two texts that the comparison of keys takes for one: it stops at the first NUL. -/
def Confused (hash : Bytes → UInt64) (a b : Bytes) : Prop :=
  hash a = hash b ∧ a.length = b.length ∧ cstr a = cstr b

/-- Different functions and scopes, of the names and of the lookup, are not taken for one. -/
def Apart (hash : Bytes → UInt64) (names : List Bytes) (scope : Option Bytes) (func : Bytes) : Prop :=
  ∀ n ∈ names, ∀ sc f, SplitsAt n sc f → ∀ sc' f',
    ((sc' = scope ∧ f' = func) ∨ ∃ n' ∈ names, SplitsAt n' sc' f') →
    Confused hash f f' → Option.Rel (Confused hash) sc sc' → sc = sc' ∧ f = f'

/-! ### Keys -/

/-- What of a key takes part in comparisons. -/
abbrev Ident : Type := UInt64 × ℕ × Bytes

def Key.ident (key : Key) : Ident := (key.nameHash,key.nameLen,cstr key.name)

/-- A key that points to as many bytes as it says. -/
def Key.Whole (key : Key) : Prop := key.name.length = key.nameLen

lemma cstr_cstr (s : Bytes) : cstr (cstr s) = cstr s := by
  have hall : ∀ c ∈ cstr s, decide (c ≠ 0) = true := fun c hc =>
    List.mem_takeWhile_imp (p := fun c => decide (c ≠ 0)) hc
  exact List.takeWhile_eq_self_iff.mpr hall

lemma keyEquals_iff {a b : Key} (hb : b.Whole) :
    keyEquals a b = true ↔ a.nameHash = b.nameHash ∧ a.nameLen = b.nameLen ∧
      cstr ((a.name ++ [0]).take a.nameLen) = cstr b.name := by
  rw [keyEquals,decide_eq_true_iff]
  refine and_congr_right fun _ => and_congr_right fun hlen => ?_
  rw [strncmpEq,decide_eq_true_iff,hlen,← hb,List.take_left]

lemma keyEquals_storedKey {a b : Key} (ha : a.Whole) (hb : b.Whole) :
    keyEquals (Table.storedKey a) b = true ↔ a.ident = b.ident := by
  have hname : cstr ((strndup a.name a.nameLen ++ [0]).take a.nameLen) = cstr a.name := by
    have htake : a.name.take a.nameLen = a.name := List.take_of_length_le ha.le
    have hle := (cstr_initial a.name).length_le
    rw [strndup,htake]
    obtain hlt | heq := lt_or_eq_of_le (hle.trans_eq ha)
    · rw [List.take_of_length_le (by rw [List.length_append,List.length_singleton]; exact hlt),
        cstr_append_zero (zero_not_mem_cstr _)]
    · rw [← heq,List.take_left,cstr_cstr]
  rw [keyEquals_iff hb,Key.ident,Key.ident,Prod.mk.injEq,Prod.mk.injEq]
  change _ ∧ _ ∧ cstr ((strndup a.name a.nameLen ++ [0]).take a.nameLen) = _ ↔ _
  rw [hname]
  rfl

/-! ### Tables -/

namespace Table

def Sized (t : Table) : Prop := t.buckets.length = 2 ^ t.log2NumBuckets

variable {t : Table} {key key' : Key} {value : ℕ}

lemma sized_createInternal (n : ℕ) : (createInternal n).Sized := List.length_replicate

lemma Sized.addInternal (h : t.Sized) (key : Key) (value : ℕ) : (t.addInternal key value).Sized :=
  (List.length_modify ..).trans h

lemma lookup_createInternal (n : ℕ) (key : Key) : (createInternal n).lookup key = none := by
  rw [lookup,createInternal,Buckets.getD_empty]
  rfl

lemma lookup_congr (hkey : key.Whole) (hkey' : key'.Whole) (h : key.ident = key'.ident) :
    t.lookup key = t.lookup key' := by
  rw [Key.ident,Key.ident,Prod.mk.injEq,Prod.mk.injEq] at h
  obtain ⟨hhash,hlen,hname⟩ := h
  have heq : (fun b : Key × ℕ => keyEquals b.1 key) = fun b => keyEquals b.1 key' := by
    funext b
    rw [Bool.eq_iff_iff,keyEquals_iff hkey,keyEquals_iff hkey',hhash,hlen,hname]
  rw [lookup,lookup,hashKey,hashKey,hhash,heq]

/-- What was added is found under all keys that compare as its own. -/
theorem lookup_addInternal (h : t.Sized) (hkey : key.Whole) (hkey' : key'.Whole) :
    (t.addInternal key value).lookup key' =
      if key.ident = key'.ident then some value else t.lookup key' := by
  have hlt : t.hashKey key' < t.buckets.length := by
    rw [h]
    exact Nat.mod_lt _ (Nat.two_pow_pos _)
  have hbucket : (t.addInternal key value).buckets.getD (t.hashKey key') [] =
      if t.hashKey key = t.hashKey key' then (storedKey key,value) :: t.buckets.getD (t.hashKey key') []
      else t.buckets.getD (t.hashKey key') [] :=
    Buckets.getD_modify_cons hlt (t.hashKey key) (storedKey key,value)
  have hsame : (t.addInternal key value).hashKey key' = t.hashKey key' := rfl
  rw [lookup,hsame,hbucket]
  by_cases hident : key.ident = key'.ident
  · have hhash : t.hashKey key = t.hashKey key' := by
      have hfst : key.nameHash = key'.nameHash := congrArg Prod.fst hident
      rw [hashKey,hashKey,hfst]
    have hfound := (keyEquals_storedKey hkey hkey').mpr hident
    rw [if_pos hhash,if_pos hident,List.find?_cons_of_pos (p := fun b : Key × ℕ => keyEquals b.1 key') hfound]
    rfl
  · rw [if_neg hident]
    split_ifs
    · have hskip := mt (keyEquals_storedKey hkey hkey').mp hident
      rw [List.find?_cons_of_neg (p := fun b : Key × ℕ => keyEquals b.1 key') hskip]
      rfl
    · rfl

end Table

/-! ### Two levels of maps -/

/-- What of a scope and a function takes part in comparisons. -/
abbrev Path : Type := Option Ident × Ident

namespace Maps

variable {s : Maps} {log : List (Path × ℕ)} {scope : Option Key} {func : Key}

/-- The map that a scope points to. -/
def funcHt (s : Maps) : Option Key → Option ℕ
  | none => some 0
  | some scope => s.scopeHt.lookup scope

/-- The record at a scope and a function. -/
def find (s : Maps) (scope : Option Key) (func : Key) : Option ℕ :=
  (s.funcHt scope).bind fun p => s.funcHts[p]?.bind fun ht => ht.lookup func

/-- The records were handed out under the paths of `log`, one for each. -/
structure Holds (s : Maps) (log : List (Path × ℕ)) : Prop where
  sized : s.scopeHt.Sized ∧ ∀ ht ∈ s.funcHts, ht.Sized
  nonempty : 0 < s.funcHts.length
  points : ∀ scope p, scope.Whole → s.scopeHt.lookup scope = some p → 0 < p ∧ p < s.funcHts.length
  scopes : ∀ scope scope' p, scope.Whole → scope'.Whole → s.scopeHt.lookup scope = some p →
    s.scopeHt.lookup scope' = some p → scope.ident = scope'.ident
  found : ∀ scope func, (∀ k ∈ scope, k.Whole) → func.Whole → ∀ r,
    s.find scope func = some r ↔ ((scope.map Key.ident,func.ident),r) ∈ log
  fresh : ∀ e ∈ log, e.2 < s.wraprecs.length
  single : ∀ e ∈ log, ∀ e' ∈ log, e.2 = e'.2 → e.1 = e'.1

lemma init_holds : init.Holds [] where
  sized := ⟨Table.sized_createInternal 0,by
    rw [init,List.forall_mem_singleton]
    exact Table.sized_createInternal 0⟩
  nonempty := Nat.one_pos
  points scope p _ h := by
    rw [init,Table.lookup_createInternal] at h
    cases h
  scopes scope scope' p _ _ h := by
    rw [init,Table.lookup_createInternal] at h
    cases h
  found scope func _ _ r := by
    have hnone : init.find scope func = none := by
      cases scope with
      | none => exact Table.lookup_createInternal 0 func
      | some scope =>
        have hscope : init.funcHt (some scope) = none := Table.lookup_createInternal 0 scope
        rw [find,hscope]
        rfl
    rw [hnone]
    exact iff_of_false (fun h => by cases h) List.not_mem_nil
  fresh := List.forall_mem_nil _
  single := List.forall_mem_nil _

/-- Two scopes with one map compare as one. -/
theorem Holds.scope_ident (h : s.Holds log) {scope' : Option Key} {p : ℕ} (hscope : ∀ k ∈ scope, k.Whole)
    (hscope' : ∀ k ∈ scope', k.Whole) (hp : s.funcHt scope = some p) (hp' : s.funcHt scope' = some p) :
    scope.map Key.ident = scope'.map Key.ident := by
  cases scope with
  | none =>
    cases scope' with
    | none => rfl
    | some k' =>
      cases hp
      exact absurd (h.points k' 0 (hscope' k' rfl) hp').1 (Nat.lt_irrefl 0)
  | some k =>
    cases scope' with
    | none =>
      cases hp'
      exact absurd (h.points k 0 (hscope k rfl) hp).1 (Nat.lt_irrefl 0)
    | some k' => exact congrArg some (h.scopes k k' p (hscope k rfl) (hscope' k' rfl) hp hp')

/-- A scope that is new gets a map of its own, in which there is nothing yet. -/
theorem Holds.scopeUpdate (h : s.Holds log) {key : Key} (hkey : key.Whole) :
    (s.scopeUpdate key).2.Holds log ∧
      (s.scopeUpdate key).2.scopeHt.lookup key = some (s.scopeUpdate key).1 := by
  unfold Maps.scopeUpdate
  cases hlook : s.scopeHt.lookup key with
  | some p => exact ⟨h,hlook⟩
  | none =>
    have hadd {k : Key} (hk : k.Whole) : (s.scopeHt.addInternal key s.funcHts.length).lookup k =
        if key.ident = k.ident then some s.funcHts.length else s.scopeHt.lookup k :=
      Table.lookup_addInternal h.sized.1 hkey hk
    have hself := hadd hkey
    rw [if_pos rfl] at hself
    refine ⟨⟨⟨h.sized.1.addInternal _ _,?_⟩,?_,?_,?_,?_,h.fresh,h.single⟩,hself⟩
    · intro ht hmem
      obtain hmem | hmem := List.mem_append.mp hmem
      · exact h.sized.2 ht hmem
      · rw [List.mem_singleton.mp hmem]
        exact Table.sized_createInternal 0
    · rw [List.length_append]
      exact Nat.lt_add_right _ h.nonempty
    · intro k p hk hp
      rw [List.length_append,List.length_singleton]
      dsimp only at hp
      rw [hadd hk] at hp
      split_ifs at hp
      · cases hp
        exact ⟨h.nonempty,Nat.lt_succ_self _⟩
      · exact (h.points k p hk hp).imp_right Nat.lt_succ_of_lt
    · intro k k' p hk hk' hp hp'
      dsimp only at hp hp'
      rw [hadd hk] at hp
      rw [hadd hk'] at hp'
      split_ifs at hp hp' with hident hident' hident'
      · exact hident.symm.trans hident'
      · cases hp
        exact absurd (h.points k' _ hk' hp').2 (Nat.lt_irrefl _)
      · cases hp'
        exact absurd (h.points k _ hk hp).2 (Nat.lt_irrefl _)
      · exact h.scopes k k' p hk hk' hp hp'
    · intro scope func hscope hfunc r
      rw [← h.found scope func hscope hfunc r]
      have hfind : ∀ p, p < s.funcHts.length →
          ((s.funcHts ++ [Table.createInternal 0])[p]?.bind fun ht => ht.lookup func) =
            s.funcHts[p]?.bind fun ht => ht.lookup func := by
        intro p hp
        rw [List.getElem?_append_left hp]
      cases scope with
      | none =>
        change (some 0).bind _ = some r ↔ (some 0).bind _ = some r
        rw [Option.bind_some,Option.bind_some,hfind 0 h.nonempty]
      | some k =>
        have hk := hscope k rfl
        change ((s.scopeHt.addInternal key s.funcHts.length).lookup k).bind _ = some r ↔
          (s.scopeHt.lookup k).bind _ = some r
        rw [hadd hk]
        split_ifs with hident
        · have hnone : s.scopeHt.lookup k = none := by rw [← Table.lookup_congr hkey hk hident,hlook]
          rw [hnone,Option.bind_some,List.getElem?_concat_length,Option.bind_some,
            Table.lookup_createInternal]
          exact iff_of_false (fun h => by cases h) (fun h => by cases h)
        · cases hold : s.scopeHt.lookup k with
          | none => rfl
          | some p => rw [Option.bind_some,Option.bind_some,hfind p (h.points k p hk hold).2]

lemma funcHt_congr {scope' : Option Key} (hscope : ∀ k ∈ scope, k.Whole) (hscope' : ∀ k ∈ scope', k.Whole)
    (h : scope.map Key.ident = scope'.map Key.ident) : s.funcHt scope = s.funcHt scope' := by
  cases scope with
  | none =>
    cases scope' with
    | none => rfl
    | some k' => cases h
  | some k =>
    cases scope' with
    | none => cases h
    | some k' => exact Table.lookup_congr (hscope k rfl) (hscope' k' rfl) (Option.some.inj h)

/-- The record of a path is handed out, a new one if there is none. -/
theorem Holds.funcUpdate (h : s.Holds log) (hscope : ∀ k ∈ scope, k.Whole) (hfunc : func.Whole) {p : ℕ}
    (hp : s.funcHt scope = some p) (make : Wraprec) :
    ∃ r new s', s.funcUpdate p func make = some (r,new,s') ∧
      s'.Holds (((scope.map Key.ident,func.ident),r) :: log) := by
  have hlt : p < s.funcHts.length := by
    cases scope with
    | none =>
      cases hp
      exact h.nonempty
    | some k => exact (h.points k p (hscope k rfl) hp).2
  have hget : s.funcHts[p]? = some s.funcHts[p] := List.getElem?_eq_getElem hlt
  have hfind : s.find scope func = s.funcHts[p].lookup func := by
    rw [Maps.find,hp,Option.bind_some,hget,Option.bind_some]
  unfold Maps.funcUpdate
  cases hlook : s.funcHts[p].lookup func with
  | some r =>
    have hlog := (h.found scope func hscope hfunc r).mp (hfind.trans hlook)
    refine ⟨r,false,s,by simp [hget,hlook],h.sized,h.nonempty,h.points,h.scopes,?_,?_,?_⟩
    · intro scope' func' hscope' hfunc' r'
      rw [h.found scope' func' hscope' hfunc' r',List.mem_cons]
      refine ⟨.inr,fun hmem => hmem.elim (fun heq => heq ▸ hlog) id⟩
    · rw [List.forall_mem_cons]
      exact ⟨h.fresh _ hlog,h.fresh⟩
    · have hkept : ∀ e ∈ ((scope.map Key.ident,func.ident),r) :: log, e ∈ log :=
        List.forall_mem_cons.mpr ⟨hlog,fun e he => he⟩
      exact fun e he e' he' => h.single e (hkept e he) e' (hkept e' he')
  | none =>
    set ht := s.funcHts[p] with hht
    have hsized : ht.Sized := h.sized.2 ht (List.getElem_mem hlt)
    refine ⟨s.wraprecs.length,true,{ s with
      funcHts := s.funcHts.set p (ht.addInternal func s.wraprecs.length)
      wraprecs := s.wraprecs ++ [make] },by simp [hget,hlook],⟨h.sized.1,?_⟩,?_,?_,h.scopes,?_,?_,?_⟩
    · intro ht' hmem
      obtain hmem | rfl := List.mem_or_eq_of_mem_set hmem
      · exact h.sized.2 ht' hmem
      · exact hsized.addInternal _ _
    · rw [List.length_set]
      exact h.nonempty
    · intro k q hk hq
      rw [List.length_set]
      exact h.points k q hk hq
    · intro scope' func' hscope' hfunc' r'
      rw [List.mem_cons,Prod.mk.injEq,← h.found scope' func' hscope' hfunc' r']
      change ((s.funcHt scope').bind fun q =>
        (s.funcHts.set p (ht.addInternal func s.wraprecs.length))[q]?.bind fun ht => ht.lookup func') =
          some r' ↔ _
      by_cases hsame : s.funcHt scope' = some p
      · have hold : s.find scope' func' = ht.lookup func' := by
          rw [Maps.find,hsame,Option.bind_some,hget,Option.bind_some]
        have hscopes := h.scope_ident hscope' hscope hsame hp
        rw [hsame,hold,Option.bind_some,List.getElem?_set_self hlt,Option.bind_some,
          Table.lookup_addInternal hsized hfunc hfunc',hscopes]
        split_ifs with hident
        · rw [← Table.lookup_congr hfunc hfunc' hident,hlook,hident]
          simp [eq_comm]
        · simp [Ne.symm hident]
      · have hother : (s.funcHt scope').bind (fun q =>
            (s.funcHts.set p (ht.addInternal func s.wraprecs.length))[q]?.bind fun ht => ht.lookup func') =
              s.find scope' func' := by
          rw [Maps.find]
          cases hq : s.funcHt scope' with
          | none => rfl
          | some q =>
            have hne : p ≠ q := fun heq => hsame (heq ▸ hq)
            rw [Option.bind_some,Option.bind_some,List.getElem?_set_ne hne]
        rw [hother]
        refine ⟨.inr,fun hor => hor.resolve_left fun heq => hsame ?_⟩
        rw [← hp]
        exact funcHt_congr hscope' hscope (congrArg Prod.fst heq.1)
    · rw [List.forall_mem_cons,List.length_append,List.length_singleton]
      exact ⟨Nat.lt_succ_self _,fun e he => Nat.lt_succ_of_lt (h.fresh e he)⟩
    · rw [List.forall_mem_cons]
      refine ⟨List.forall_mem_cons.mpr ⟨fun _ => rfl,fun e he heq => ?_⟩,fun e he => ?_⟩
      · exact absurd (heq ▸ h.fresh e he) (Nat.lt_irrefl _)
      · rw [List.forall_mem_cons]
        exact ⟨fun heq => absurd (heq ▸ h.fresh e he) (Nat.lt_irrefl _),h.single e he⟩

end Maps

/-! ### Splitting names -/

/-- A double colon stands at a place. -/
def PairAt (l : Bytes) (i : ℕ) : Prop := l[i]? = some (code ':') ∧ l[i + 1]? = some (code ':')

lemma infix_iff_pairAt {l : Bytes} : [code ':',code ':'] <:+: l ↔ ∃ i, PairAt l i := by
  constructor
  · rintro ⟨a,b,rfl⟩
    refine ⟨a.length,?_,?_⟩
    · simp
    · rw [List.append_assoc,List.getElem?_append_right (Nat.le_succ _),Nat.succ_sub le_rfl,Nat.sub_self]
      rfl
  · rintro ⟨i,hi,hi'⟩
    obtain ⟨hlt,hget⟩ := List.getElem?_eq_some_iff.mp hi
    obtain ⟨hlt',hget'⟩ := List.getElem?_eq_some_iff.mp hi'
    refine ⟨l.take i,l.drop (i + 2),?_⟩
    calc l.take i ++ [code ':',code ':'] ++ l.drop (i + 2)
        = l.take i ++ code ':' :: code ':' :: l.drop (i + 2) := by simp
      _ = l.take i ++ l.drop i := by
        rw [List.drop_eq_getElem_cons hlt,List.drop_eq_getElem_cons hlt',hget,hget']
      _ = l := List.take_append_drop i l

lemma pairAt_drop {l : Bytes} {n i : ℕ} : PairAt (l.drop n) i ↔ PairAt l (n + i) := by
  rw [PairAt,PairAt,List.getElem?_drop,List.getElem?_drop,Nat.add_assoc]

/-- The last double colon decides. -/
theorem splitsAt_some_iff {name scope func : Bytes} :
    SplitsAt name (some scope) func ↔
      ∃ i, PairAt name i ∧ (∀ j, i < j → ¬PairAt name j) ∧ scope = name.take i ∧ func = name.drop (i + 2) := by
  have hbehind : ∀ i, (∀ j, i < j → ¬PairAt name j) ↔ ¬[code ':',code ':'] <:+: name.drop (i + 1) := by
    intro i
    rw [infix_iff_pairAt,not_exists]
    constructor
    · intro h j hj
      exact h (i + 1 + j) (by omega) (pairAt_drop.mp hj)
    · intro h j hj hpair
      refine h (j - (i + 1)) (pairAt_drop.mpr ?_)
      rwa [Nat.add_sub_cancel' hj]
  constructor
  · rintro ⟨hname,hlast⟩
    have hdrop : name.drop (scope.length + 1) = code ':' :: func := by
      rw [hname,← List.drop_drop,List.drop_left]
      rfl
    refine ⟨scope.length,⟨?_,?_⟩,(hbehind _).mpr (hdrop ▸ hlast),?_,?_⟩
    · rw [hname]
      simp
    · rw [hname,List.getElem?_append_right (Nat.le_succ _),Nat.succ_sub le_rfl,Nat.sub_self]
      rfl
    · rw [hname,List.take_left]
    · rw [hname,← List.drop_drop,List.drop_left]
      rfl
  · rintro ⟨i,⟨hi,hi'⟩,hlast,rfl,rfl⟩
    obtain ⟨hlt,hget⟩ := List.getElem?_eq_some_iff.mp hi
    obtain ⟨hlt',hget'⟩ := List.getElem?_eq_some_iff.mp hi'
    have hdrop : name.drop (i + 1) = code ':' :: name.drop (i + 2) := by
      rw [List.drop_eq_getElem_cons hlt',hget']
    refine ⟨?_,hdrop ▸ (hbehind i).mp hlast⟩
    rw [← hdrop,← hget,← List.drop_eq_getElem_cons hlt,List.take_append_drop]

variable {name : Bytes}

lemma splitsAt_unique {scope scope' : Option Bytes} {func func' : Bytes}
    (h : SplitsAt name scope func) (h' : SplitsAt name scope' func') : scope = scope' ∧ func = func' := by
  cases scope with
  | none =>
    cases scope' with
    | none => exact ⟨rfl,h.1.trans h'.1.symm⟩
    | some scope' =>
      obtain ⟨i,hi,-⟩ := splitsAt_some_iff.mp h'
      exact absurd (infix_iff_pairAt.mpr ⟨i,hi⟩) h.2
  | some scope =>
    obtain ⟨i,hi,hlast,rfl,rfl⟩ := splitsAt_some_iff.mp h
    cases scope' with
    | none => exact absurd (infix_iff_pairAt.mpr ⟨i,hi⟩) h'.2
    | some scope' =>
      obtain ⟨j,hj,hlast',rfl,rfl⟩ := splitsAt_some_iff.mp h'
      obtain hlt | rfl | hgt := lt_trichotomy i j
      · exact absurd hj (hlast j hlt)
      · exact ⟨rfl,rfl⟩
      · exact absurd hi (hlast' i hgt)

/-- What a round looks for. -/
theorem pairAt_iff {i : ℕ} :
    (name[i]? = some (code ':') ∧ (name ++ [0])[i + 1]? = some (code ':')) ↔ PairAt name i := by
  refine and_congr_right fun hi => ?_
  obtain ⟨hlt,-⟩ := List.getElem?_eq_some_iff.mp hi
  obtain hin | hend := Nat.lt_or_ge (i + 1) name.length
  · rw [List.getElem?_append_left hin]
  · have hlast : i + 1 = name.length := by omega
    rw [hlast,List.getElem?_concat_length,List.getElem?_eq_none le_rfl]
    decide

/-- The parts of a name that the loop leaves. -/
def splitOf (name : Bytes) : Option Bytes × Bytes :=
  let (isMethod,func,scope) := splitLoop name name.length
  (if isMethod then some scope else none,func)

lemma splitLoop_cases (name : Bytes) (n : ℕ) :
    (splitLoop name n = (false,name,[]) ∧ ∀ i < n, ¬PairAt name i) ∨
      ∃ i < n, splitLoop name n = (true,name.drop (i + 2),name.take i) ∧ PairAt name i ∧
        ∀ j, i < j → j < n → ¬PairAt name j := by
  induction n with
  | zero => exact .inl ⟨rfl,fun i hi => absurd hi (Nat.not_lt_zero i)⟩
  | succ n ih =>
    unfold splitLoop
    by_cases hpair : PairAt name n
    · rw [if_pos (pairAt_iff.mpr hpair)]
      exact .inr ⟨n,Nat.lt_succ_self n,rfl,hpair,fun j hj hj' => absurd hj' (by omega)⟩
    · rw [if_neg (mt pairAt_iff.mp hpair)]
      obtain ⟨heq,hno⟩ | ⟨i,hi,heq,hat,hno⟩ := ih
      · refine .inl ⟨heq,fun i hi => ?_⟩
        obtain hi | rfl := Nat.lt_succ_iff_lt_or_eq.mp hi
        · exact hno i hi
        · exact hpair
      · refine .inr ⟨i,Nat.lt_succ_of_lt hi,heq,hat,fun j hj hj' => ?_⟩
        obtain hj' | rfl := Nat.lt_succ_iff_lt_or_eq.mp hj'
        · exact hno j hj hj'
        · exact hpair

lemma splitsAt_splitOf (name : Bytes) : SplitsAt name (splitOf name).1 (splitOf name).2 := by
  have hin : ∀ i, PairAt name i → i < name.length := fun i hi => (List.getElem?_eq_some_iff.mp hi.1).1
  obtain ⟨heq,hno⟩ | ⟨i,hi,heq,hat,hno⟩ := splitLoop_cases name name.length
  · rw [splitOf,heq]
    refine ⟨rfl,?_⟩
    rw [infix_iff_pairAt]
    rintro ⟨i,hi⟩
    exact hno i (hin i hi) hi
  · rw [splitOf,heq]
    exact splitsAt_some_iff.mpr ⟨i,hat,fun j hj hpair => hno j hj (hin j hpair) hpair,rfl,rfl⟩

lemma splitsAt_iff {scope : Option Bytes} {func : Bytes} :
    SplitsAt name scope func ↔ splitOf name = (scope,func) := by
  constructor
  · intro h
    obtain ⟨rfl,rfl⟩ := splitsAt_unique (splitsAt_splitOf name) h
    rfl
  · intro h
    have hsplit := splitsAt_splitOf name
    rwa [h] at hsplit

/-! ### Names added and looked up -/

/-- The path of a scope and a function given as texts. -/
def pathOf (hash : Bytes → UInt64) (parts : Option Bytes × Bytes) : Path :=
  (parts.1.map fun scope => (hash scope,scope.length,cstr scope),(hash parts.2,parts.2.length,cstr parts.2))

variable {hash : Bytes → UInt64} {s : Maps} {log : List (Path × ℕ)}

/-- The keys of a name, and its scope where it has one. -/
theorem name2keys_spec (hash : Bytes → UInt64) (name : Bytes) :
    let keys := name2keys hash name
    let scope := if keys.1.isMethod then some keys.2 else none
    keys.1.Whole ∧ keys.2.Whole ∧ (scope.map Key.ident,keys.1.ident) = pathOf hash (splitOf name) := by
  unfold name2keys splitOf
  obtain ⟨isMethod,func,scope⟩ := splitLoop name name.length
  cases isMethod with
  | false => exact ⟨rfl,rfl,rfl⟩
  | true => exact ⟨rfl,rfl,rfl⟩

/-- Adding a name hands out the record of its path. -/
theorem Maps.Holds.add (h : s.Holds log) (hash : Bytes → UInt64) (name : Bytes) :
    ∃ r s', s.add hash name = some (r,s') ∧ s'.Holds ((pathOf hash (splitOf name),r) :: log) := by
  obtain ⟨hfunc,hscope,hpath⟩ := name2keys_spec hash name
  set keys := name2keys hash name with hkeys
  rw [← hpath]
  by_cases hmethod : keys.1.isMethod = true
  · obtain ⟨h₁,hlook⟩ := h.scopeUpdate hscope
    have hwhole : ∀ k ∈ some keys.2, k.Whole := fun k hk => Option.some.inj hk ▸ hscope
    obtain ⟨r,new,s',hupdate,h'⟩ := h₁.funcUpdate hwhole hfunc hlook (Maps.newWraprec keys.1 keys.2)
    refine ⟨r,s',?_,by rwa [if_pos hmethod]⟩
    rw [Maps.add,← hkeys]
    dsimp only
    rw [if_pos hmethod,hupdate]
    rfl
  · have hnone : ∀ k ∈ (none : Option Key), k.Whole := fun k hk => by cases hk
    obtain ⟨r,new,s',hupdate,h'⟩ := h.funcUpdate hnone hfunc rfl
      (Maps.newWraprec keys.1 keys.2)
    refine ⟨r,s',?_,by rwa [if_neg hmethod]⟩
    rw [Maps.add,← hkeys]
    dsimp only
    rw [if_neg hmethod,hupdate]
    rfl

lemma Maps.Holds.addAll (h : s.Holds log) (hash : Bytes → UInt64) (names : List Bytes) :
    ∃ rs s', Maps.addAll hash s names = some (rs,s') ∧ rs.length = names.length ∧
      ∃ log', s'.Holds log' ∧ ∀ e, e ∈ log' ↔
        (∃ n r, (n,r) ∈ names.zip rs ∧ e = (pathOf hash (splitOf n),r)) ∨ e ∈ log := by
  induction names generalizing s log with
  | nil => exact ⟨[],s,rfl,rfl,log,h,fun e => by simp⟩
  | cons name names ih =>
    obtain ⟨r,s₁,hadd,h₁⟩ := h.add hash name
    obtain ⟨rs,s₂,hall,hlen,log',h₂,hlog⟩ := ih h₁
    refine ⟨r :: rs,s₂,by simp [Maps.addAll,hadd,hall],by rw [List.length_cons,hlen,List.length_cons],
      log',h₂,fun e => ?_⟩
    rw [hlog,List.zip_cons_cons,List.mem_cons]
    constructor
    · rintro (⟨n,r',hmem,rfl⟩ | rfl | hold)
      · exact .inl ⟨n,r',List.mem_cons_of_mem _ hmem,rfl⟩
      · exact .inl ⟨name,r,List.mem_cons_self,rfl⟩
      · exact .inr hold
    · rintro (⟨n,r',hmem,rfl⟩ | hold)
      · obtain heq | hmem := List.mem_cons.mp hmem
        · cases heq
          exact .inr (.inl rfl)
        · exact .inl ⟨n,r',hmem,rfl⟩
      · exact .inr (.inr hold)

/-- A lookup finds the record of its path. -/
theorem Maps.Holds.get (h : s.Holds log) (scope : Option Bytes) (func : Bytes) (r : ℕ) :
    s.get hash func scope = some r ↔ (pathOf hash (scope,func),r) ∈ log := by
  cases scope with
  | none =>
    have hfound := h.found none (Maps.stringKey hash false func) (fun k hk => by cases hk) rfl r
    exact hfound
  | some scope =>
    have hfound := h.found (some (Maps.stringKey hash false scope)) (Maps.stringKey hash true func)
      (fun k hk => Option.some.inj hk ▸ rfl) rfl r
    exact hfound

/-- A path has one record. -/
theorem Maps.Holds.functional (h : s.Holds log) (parts : Option Bytes × Bytes) {r r' : ℕ}
    (hr : (pathOf hash parts,r) ∈ log) (hr' : (pathOf hash parts,r') ∈ log) : r = r' := by
  have hget := (h.get parts.1 parts.2 r).mpr hr
  have hget' := (h.get parts.1 parts.2 r').mpr hr'
  exact Option.some.inj (hget.symm.trans hget')

/-- Parts are taken for others when their paths are the same. -/
theorem pathOf_eq_iff {scope scope' : Option Bytes} {func func' : Bytes} :
    pathOf hash (scope,func) = pathOf hash (scope',func') ↔
      Confused hash func func' ∧ Option.Rel (Confused hash) scope scope' := by
  have hparts : ∀ a b : Bytes, (hash a,a.length,cstr a) = (hash b,b.length,cstr b) ↔ Confused hash a b := by
    intro a b
    rw [Prod.mk.injEq,Prod.mk.injEq,Confused]
  rw [pathOf,pathOf,Prod.mk.injEq,hparts,and_comm]
  refine and_congr_right fun _ => ?_
  cases scope with
  | none =>
    cases scope' with
    | none => exact iff_of_true rfl .none
    | some b => exact iff_of_false (fun h => by cases h) (fun h => by cases h)
  | some a =>
    cases scope' with
    | none => exact iff_of_false (fun h => by cases h) (fun h => by cases h)
    | some b =>
      dsimp only
      rw [Option.map_some,Option.map_some,Option.some_inj,hparts]
      exact ⟨.some,fun h => by cases h; assumption⟩

lemma mem_names_zip {names : List Bytes} {rs : List ℕ} (hlen : rs.length = names.length) {n : Bytes}
    (hn : n ∈ names) : ∃ r, (n,r) ∈ names.zip rs := by
  have hmap : (names.zip rs).map Prod.fst = names := List.map_fst_zip hlen.ge
  rw [← hmap] at hn
  obtain ⟨⟨m,r⟩,hmem,rfl⟩ := List.mem_map.mp hn
  exact ⟨r,hmem⟩

/-- Records are shared and found as promised exactly when no two different functions and scopes, of
the names and of the lookup, agree in their hashes, their lengths and the bytes up to the first NUL. -/
theorem serves_iff_apart (hash : Bytes → UInt64) (names : List Bytes) (scope : Option Bytes) (func : Bytes) :
    Serves hash names scope func ↔ Apart hash names scope func := by
  obtain ⟨rs,s,hall,hlen,log,hholds,hlog⟩ := Maps.init_holds.addAll hash names
  have hmem : ∀ {n r}, (n,r) ∈ names.zip rs → (pathOf hash (splitOf n),r) ∈ log :=
    fun h => (hlog _).mpr (.inl ⟨_,_,h,rfl⟩)
  have hget : ∀ r, s.get hash func scope = some r ↔
      ∃ n, (n,r) ∈ names.zip rs ∧ pathOf hash (scope,func) = pathOf hash (splitOf n) := by
    intro r
    rw [hholds.get,hlog]
    constructor
    · rintro (⟨n,r',hin,heq⟩ | hnil)
      · obtain ⟨hparts,rfl⟩ := Prod.mk.inj heq
        exact ⟨n,hin,hparts⟩
      · cases hnil
    · rintro ⟨n,hin,heq⟩
      exact .inl ⟨n,r,hin,by rw [heq]⟩
  have hsame : ∀ {n r n' r'}, (n,r) ∈ names.zip rs → (n',r') ∈ names.zip rs →
      (r = r' ↔ pathOf hash (splitOf n) = pathOf hash (splitOf n')) := by
    intro n r n' r' hin hin'
    refine ⟨fun heq => hholds.single _ (hmem hin) _ (hmem hin') heq,fun heq => ?_⟩
    exact hholds.functional (splitOf n) (hmem hin) (heq ▸ hmem hin')
  have hsplit : ∀ n n', (∃ sc f, SplitsAt n sc f ∧ SplitsAt n' sc f) ↔ splitOf n = splitOf n' := by
    intro n n'
    constructor
    · rintro ⟨sc,f,h,h'⟩
      exact (splitsAt_iff.mp h).trans (splitsAt_iff.mp h').symm
    · intro heq
      exact ⟨_,_,splitsAt_splitOf n,heq ▸ splitsAt_splitOf n'⟩
  constructor
  · rintro ⟨rs',s',hall',-,hshare,hfind⟩
    cases hall.symm.trans hall'
    intro n hn sc f hsc sc' f' hother hconf hconf'
    have hpath : pathOf hash (sc,f) = pathOf hash (sc',f') := pathOf_eq_iff.mpr ⟨hconf,hconf'⟩
    have hn_split := splitsAt_iff.mp hsc
    obtain ⟨r,hin⟩ := mem_names_zip hlen hn
    obtain ⟨rfl,rfl⟩ | ⟨n',hn',hsc'⟩ := hother
    · -- the lookup finds the record of the name, so the name is split so
      have hgot := (hget r).mpr ⟨n,hin,by rw [hn_split,hpath]⟩
      obtain ⟨n',hin',hsc'⟩ := (hfind r).mp hgot
      have heq := (hsplit n n').mp ((hshare n r n' r hin hin').mp rfl)
      rw [hn_split,splitsAt_iff.mp hsc',Prod.mk.injEq] at heq
      exact heq
    · obtain ⟨r',hin'⟩ := mem_names_zip hlen hn'
      have hrec : r = r' := (hsame hin hin').mpr (by rw [hn_split,splitsAt_iff.mp hsc',hpath])
      have heq := (hsplit n n').mp ((hshare n r n' r' hin hin').mp hrec)
      rw [hn_split,splitsAt_iff.mp hsc',Prod.mk.injEq] at heq
      exact heq
  · intro hapart
    have hpath : ∀ {n}, n ∈ names → ∀ parts, (parts = (scope,func) ∨ ∃ n' ∈ names, splitOf n' = parts) →
        (pathOf hash (splitOf n) = pathOf hash parts ↔ splitOf n = parts) := by
      intro n hn parts hparts
      refine ⟨fun heq => ?_,fun heq => by rw [heq]⟩
      obtain ⟨hconf,hconf'⟩ := pathOf_eq_iff.mp heq
      have hor : (parts.1 = scope ∧ parts.2 = func) ∨ ∃ n' ∈ names, SplitsAt n' parts.1 parts.2 :=
        hparts.imp Prod.ext_iff.mp fun ⟨n',hn',h⟩ => ⟨n',hn',splitsAt_iff.mpr h⟩
      have heqs := hapart n hn _ _ (splitsAt_splitOf n) _ _ hor hconf hconf'
      exact Prod.ext heqs.1 heqs.2
    refine ⟨rs,s,hall,hlen,fun n r n' r' hin hin' => ?_,fun r => ?_⟩
    · rw [hsame hin hin',hsplit]
      exact hpath (List.of_mem_zip hin).1 _ (.inr ⟨n',(List.of_mem_zip hin').1,rfl⟩)
    · rw [hget]
      refine exists_congr fun n => and_congr_right fun hin => ?_
      rw [splitsAt_iff,eq_comm]
      exact hpath (List.of_mem_zip hin).1 _ (.inl rfl)

/-- A text without NUL is confused with no other. -/
theorem Confused.eq {hash : Bytes → UInt64} {a b : Bytes} (h : Confused hash a b) (ha : (0 : UInt8) ∉ a) :
    a = b := by
  have hcstr : cstr a = a := List.takeWhile_eq_self_iff.mpr fun c hc =>
    decide_eq_true fun hzero => ha (hzero ▸ hc)
  have hlen : (cstr b).length = b.length := by rw [← h.2.2,hcstr,h.2.1]
  rw [← hcstr,h.2.2,(cstr_initial b).eq_of_length hlen]

/-- Names without NUL are told apart, whatever the hashes. -/
theorem apart_of_no_nul (hash : Bytes → UInt64) {names : List Bytes} (h : ∀ n ∈ names, (0 : UInt8) ∉ n)
    (scope : Option Bytes) (func : Bytes) : Apart hash names scope func := by
  intro n hn sc f hsplit sc' f' _ hconf hconf'
  cases sc with
  | none =>
    cases hconf'
    exact ⟨rfl,hconf.eq (hsplit.1 ▸ h n hn)⟩
  | some sc =>
    obtain ⟨hscope⟩ := hconf'
    have hno := h n hn
    rw [hsplit.1,List.mem_append,List.mem_cons,List.mem_cons,not_or,not_or,not_or] at hno
    exact ⟨congrArg some (hscope.eq hno.1),hconf.eq hno.2.2.2⟩

/-- Two functions whose names differ behind a NUL share their record when their hashes are the same. -/
theorem not_serves_nul : ¬∀ (hash : Bytes → UInt64) (names : List Bytes) (scope : Option Bytes) (func : Bytes),
    (∀ n ∈ names, NameValid n) → Serves hash names scope func := by
  intro h
  obtain ⟨rs,s,hall,-,hshare,-⟩ := h (fun _ => 0) [[97,0,98],[97,0,99]] none [97,0,98] (by
    rw [List.forall_mem_cons,List.forall_mem_singleton]
    exact ⟨⟨by decide,by decide⟩,by decide,by decide⟩)
  have hrun : (Maps.addAll (fun _ => 0) init [[97,0,98],[97,0,99]]).map Prod.fst = some [0,0] := by
    decide
  rw [hall,Option.map_some,Option.some_inj] at hrun
  dsimp only at hrun
  subst hrun
  obtain ⟨sc,f,hsplit,hsplit'⟩ := (hshare [97,0,98] 0 [97,0,99] 0 (by decide) (by decide)).mp rfl
  have hne : splitOf [97,0,98] ≠ splitOf [97,0,99] := by decide
  exact hne ((splitsAt_iff.mp hsplit).trans (splitsAt_iff.mp hsplit').symm)

end PhpAgent.WraprecHashmap
