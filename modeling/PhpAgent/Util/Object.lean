import PhpAgent.Lib.CType

/-! Byte strings and the generic objects of `util_object.c`. A C string is the list of its bytes
before the terminator. -/
namespace PhpAgent

abbrev Bytes : Type := List UInt8

instance : LawfulBEq Bytes := inferInstance

/-- A string literal of the source. -/
def ascii (s : String) : Bytes := s.toList.map fun c => c.toNat.toUInt8

/-- `nrobj_t` without the two numeric codes for an invalid object. An `int` has set the lower four bytes
of the union; `above` is what stands in the four behind them, zero in an object that was zeroed. -/
inductive NrObj
  | none
  | boolean (b : Bool)
  | int (i : ℤ) (above : UInt32 := 0)
  | long (i : ℤ)
  | ulong (n : ℕ)
  | double (d : Double)
  | string (s : Bytes)
  | jstring (s : Bytes)
  | hash (entries : List (Bytes × NrObj))
  | array (elements : List NrObj)

/-- The entries of a hash in the order they were first set. -/
abbrev NrHash : Type := List (Bytes × NrObj)

mutual

/-- `nro_copy`: the copy is a zeroed object, of which an `int` sets four bytes. -/
def NrObj.copy : NrObj → NrObj
  | .int i _ => .int i
  | .hash entries => .hash (copyMembers entries)
  | .array elements => .array (copyElements elements)
  | o => o

def copyMembers : List (Bytes × NrObj) → List (Bytes × NrObj)
  | [] => []
  | (key,value) :: rest => (key,value.copy) :: copyMembers rest

def copyElements : List NrObj → List NrObj
  | [] => []
  | value :: rest => value.copy :: copyElements rest

end

lemma copyMembers_eq (entries : List (Bytes × NrObj)) :
    copyMembers entries = entries.map fun e => (e.1,e.2.copy) := by
  induction entries with
  | nil => rfl
  | cons e entries ih => rw [copyMembers,ih,List.map_cons]

lemma copyElements_eq (elements : List NrObj) : copyElements elements = elements.map NrObj.copy := by
  induction elements with
  | nil => rfl
  | cons o elements ih => rw [copyElements,ih,List.map_cons]

namespace NrHash

/-- `nro_set_hash`: replace the value in place or append. An empty key is refused. -/
def set (h : NrHash) (key : Bytes) (value : NrObj) : NrHash :=
  if key = [] then h
  else if key ∈ h.map Prod.fst then h.map fun e => if e.1 = key then (e.1,value) else e
  else h ++ [(key,value)]

/-- The setters of the source ignore a NULL string. -/
def setString (h : NrHash) (key : String) (value : Option Bytes) : NrHash :=
  match value with
  | .none => h
  | some s => h.set (ascii key) (.string s)

def get? (h : NrHash) (key : Bytes) : Option NrObj := h.lookup key

lemma get?_set_ne {key key' : Bytes} (hne : key' ≠ key) (h : NrHash) (value : NrObj) :
    (h.set key value).get? key' = h.get? key' := by
  unfold set get?
  split_ifs with hk hmem
  · rfl
  · clear hmem
    induction h with
    | nil => rfl
    | cons e h ih =>
      rw [List.map_cons,List.lookup_cons,List.lookup_cons,ih]
      by_cases he : e.1 = key
      · simp [he,beq_eq_false_iff_ne.mpr hne]
      · simp [he]
  · rw [List.lookup_append]
    have hcons : List.lookup key' [(key,value)] = Option.none := by
      simp [List.lookup_cons,beq_eq_false_iff_ne.mpr hne]
    rw [hcons,Option.or_none]

lemma get?_set_self {key : Bytes} (hk : key ≠ []) (h : NrHash) (value : NrObj) :
    (h.set key value).get? key = some value := by
  unfold set get?
  rw [if_neg hk]
  split_ifs with hmem
  · induction h with
    | nil => simp at hmem
    | cons e h ih =>
      rw [List.map_cons,List.lookup_cons]
      by_cases he : e.1 = key
      · simp [he]
      · have hrest : key ∈ h.map Prod.fst := by
          rw [List.map_cons,List.mem_cons] at hmem
          exact hmem.resolve_left (Ne.symm he)
        simp only [he,if_false]
        rw [beq_eq_false_iff_ne.mpr (Ne.symm he)]
        exact ih hrest
  · have hnone : List.lookup key h = Option.none := by
      rw [List.lookup_eq_none_iff]
      intro e he
      simp only [bne_iff_ne,ne_eq]
      rintro rfl
      exact hmem (List.mem_map_of_mem he)
    rw [List.lookup_append,hnone]
    simp

lemma get?_setString_ne {key : Bytes} {key' : String} (hne : key ≠ ascii key') (h : NrHash)
    (value : Option Bytes) :
    (h.setString key' value).get? key = h.get? key := by
  cases value with
  | none => rfl
  | some s => exact get?_set_ne hne h (.string s)

lemma get?_setString_self {key : String} (hk : ascii key ≠ []) (h : NrHash) (value : Option Bytes) :
    (h.setString key value).get? (ascii key) = (value.map .string).or (h.get? (ascii key)) := by
  cases value with
  | none => rfl
  | some s => exact get?_set_self hk h (.string s)

lemma get?_copyMembers (h : NrHash) (key : Bytes) :
    NrHash.get? (copyMembers h) key = (h.get? key).map NrObj.copy := by
  rw [copyMembers_eq]
  unfold get?
  induction h with
  | nil => rfl
  | cons e h ih =>
    rw [List.map_cons,List.lookup_cons,List.lookup_cons,ih]
    cases key == e.1 <;> rfl

lemma copyMembers_set (h : NrHash) (key : Bytes) (value : NrObj) :
    copyMembers (h.set key value) = NrHash.set (copyMembers h) key value.copy := by
  have hkeys : (h.map fun e => (e.1,e.2.copy)).map Prod.fst = h.map Prod.fst := by
    rw [List.map_map]
    rfl
  simp only [copyMembers_eq]
  unfold set
  rw [hkeys]
  split_ifs
  · rfl
  · rw [List.map_map,List.map_map]
    apply List.map_congr_left
    intro e _
    simp only [Function.comp_apply]
    split_ifs <;> rfl
  · rw [List.map_append,List.map_singleton]

end NrHash
end PhpAgent
