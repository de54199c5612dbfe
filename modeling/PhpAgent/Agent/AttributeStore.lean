import PhpAgent.Agent.Attributes

/-! The attributes of a transaction, after `nr_attributes.c`. -/
namespace PhpAgent

/-- `nr_attribute_t`. -/
structure NrAttribute where
  key : Bytes
  keyHash : UInt32
  value : NrObj
  destinations : Destinations

/-- `nr_attributes_t`. The lists have the newest attribute first. -/
structure NrAttributes where
  config : Option NrAttributeConfig
  numUserAttributes : ℤ
  agentAttributeList : List NrAttribute
  userAttributeList : List NrAttribute

namespace NrAttributes

/-- `NR_ATTRIBUTE_KEY_LENGTH_LIMIT`. -/
def keyLengthLimit : ℕ := 255

/-- `NR_ATTRIBUTE_VALUE_LENGTH_LIMIT`. -/
def valueLengthLimit : ℕ := 255

/-- `NR_ATTRIBUTE_USER_LIMIT`. -/
def userLimit : ℤ := 64

/-- `nr_attributes_create`. -/
def create (config : Option NrAttributeConfig) : NrAttributes := ⟨config,0,[],[]⟩

/-- The key of an attribute, compared by its hash first. -/
def hasKey (key : Bytes) (keyHash : UInt32) (a : NrAttribute) : Bool :=
  keyHash = a.keyHash ∧ strcmp key a.key = .eq

/-- `nr_attributes_remove_duplicate`. -/
def removeDuplicate (ats : NrAttributes) (key : Bytes) (keyHash : UInt32) (isUser : Bool) :
    NrAttributes :=
  if isUser then
    { ats with
      userAttributeList := ats.userAttributeList.eraseP (hasKey key keyHash)
      numUserAttributes :=
        if ats.userAttributeList.any (hasKey key keyHash) then ats.numUserAttributes-1
        else ats.numUserAttributes }
  else { ats with agentAttributeList := ats.agentAttributeList.eraseP (hasKey key keyHash) }

/-- `nr_attributes_is_valid_value`. An object that is invalid is `none`. -/
def isValidValue : Option NrObj → Bool
  | none => false
  | some (.double d) => d.IsFinite
  | some (.jstring _) => false
  | some (.hash _) => false
  | some (.array _) => false
  | some _ => true

section Hash
variable (hash : Bytes → UInt32)

/-- `nr_attributes_remove_attribute`. -/
def removeAttribute (ats : NrAttributes) (key : Option Bytes) (isUser : Bool) : NrAttributes :=
  match key with
  | none => ats
  | some key => ats.removeDuplicate key (hash key) isUser

/-- `nr_attribute_config_apply`, with the key's hash and a configuration that may be NULL. -/
def finalDestinations (ats : NrAttributes) (key : Bytes) (defaultDestinations : Destinations) :
    Destinations :=
  match ats.config with
  | none => defaultDestinations
  | some config => config.apply key (hash key) defaultDestinations

/-- Put an attribute in front of its list. -/
def prepend (ats : NrAttributes) (isUser : Bool) (a : NrAttribute) : NrAttributes :=
  if isUser then
    { ats with
      numUserAttributes := ats.numUserAttributes+1
      userAttributeList := a :: ats.userAttributeList }
  else { ats with agentAttributeList := a :: ats.agentAttributeList }

/-- `nr_attributes_add_internal`; the flag says that it succeeded. -/
def addInternal (ats : NrAttributes) (defaultDestinations : Destinations) (isUser : Bool)
    (key : Option Bytes) (value : Option NrObj) : NrAttributes × Bool :=
  match key, value with
  | some key, some value =>
    if key = [] ∨ ¬isValidValue (some value) then (ats,false)
    else if keyLengthLimit < key.length then (ats,false)
    else
      let destinations := ats.finalDestinations hash key defaultDestinations
      if destinations = 0 then (ats,false)
      else
        let ats := ats.removeDuplicate key (hash key) isUser
        if isUser ∧ userLimit = ats.numUserAttributes then (ats,false)
        else (ats.prepend isUser ⟨key,hash key,value.copy,destinations⟩,true)
  | _, _ => (ats,false)

/-- A string is cut to what fits into the buffer of `nr_attributes_add`. -/
def boundValue : NrObj → NrObj
  | .string s => .string (s.take valueLengthLimit)
  | value => value

/-- `nr_attributes_add`. -/
def add (ats : NrAttributes) (defaultDestinations : Destinations) (isUser : Bool)
    (key : Option Bytes) (value : Option NrObj) : NrAttributes × Bool :=
  ats.addInternal hash defaultDestinations isUser key (value.map boundValue)

/-- `nr_attributes_user_add`. -/
def userAdd (ats : NrAttributes) (defaultDestinations : Destinations) (key : Option Bytes)
    (value : Option NrObj) : NrAttributes × Bool :=
  ats.add hash defaultDestinations true key value

/-- `nr_attributes_user_add_string`; a NULL string is an empty one. -/
def userAddString (ats : NrAttributes) (defaultDestinations : Destinations) (key : Option Bytes)
    (value : Option Bytes) : NrAttributes × Bool :=
  ats.userAdd hash defaultDestinations key (some (.string (value.getD [])))

/-- `nr_attributes_user_add_long`. -/
def userAddLong (ats : NrAttributes) (defaultDestinations : Destinations) (key : Option Bytes)
    (lng : ℤ) : NrAttributes × Bool :=
  ats.userAdd hash defaultDestinations key (some (.long lng))

/-- `nr_attributes_agent_add_long`. -/
def agentAddLong (ats : NrAttributes) (defaultDestinations : Destinations) (key : Option Bytes)
    (lng : ℤ) : NrAttributes × Bool :=
  ats.add hash defaultDestinations false key (some (.long lng))

/-- `nr_attributes_agent_add_string`. -/
def agentAddString (ats : NrAttributes) (defaultDestinations : Destinations) (key : Option Bytes)
    (str : Option Bytes) : NrAttributes × Bool :=
  ats.add hash defaultDestinations false key (some (.string (str.getD [])))

end Hash

/-! ### Runs -/

/-- An addition: for the user or the agent, with its default destinations, key and value. -/
structure Addition where
  isUser : Bool
  defaultDestinations : Destinations
  key : Option Bytes
  value : Option NrObj

/-- The calls that change the attributes. -/
inductive Call
  | userAdd (d : Destinations) (key : Option Bytes) (value : Option NrObj)
  | userAddString (d : Destinations) (key value : Option Bytes)
  | userAddLong (d : Destinations) (key : Option Bytes) (lng : ℤ)
  | agentAddLong (d : Destinations) (key : Option Bytes) (lng : ℤ)
  | agentAddString (d : Destinations) (key str : Option Bytes)
  | remove (key : Option Bytes) (isUser : Bool)

/-- The attributes after a call and, for an addition, whether it succeeded. -/
def exec (hash : Bytes → UInt32) (ats : NrAttributes) : Call → NrAttributes × Option Bool
  | .userAdd d key value => (ats.userAdd hash d key value).map id some
  | .userAddString d key value => (ats.userAddString hash d key value).map id some
  | .userAddLong d key lng => (ats.userAddLong hash d key lng).map id some
  | .agentAddLong d key lng => (ats.agentAddLong hash d key lng).map id some
  | .agentAddString d key str => (ats.agentAddString hash d key str).map id some
  | .remove key isUser => (ats.removeAttribute hash key isUser,none)

/-- What a call adds, if it is an addition. -/
def Call.addition : Call → Option Addition
  | .userAdd d key value => some ⟨true,d,key,value⟩
  | .userAddString d key value => some ⟨true,d,key,some (.string (value.getD []))⟩
  | .userAddLong d key lng => some ⟨true,d,key,some (.long lng)⟩
  | .agentAddLong d key lng => some ⟨false,d,key,some (.long lng)⟩
  | .agentAddString d key str => some ⟨false,d,key,some (.string (str.getD []))⟩
  | .remove _ _ => none

/-- The last value added for a key, for the user and for the agent. -/
abbrev Values : Type := Bool → Option Bytes → Option NrObj

/-- The values after a call: a successful addition sets one, a removal clears one. The value that is
kept of an addition is `bound` of it. -/
def noteCall (bound : NrObj → NrObj) (values : Values) (call : Call) (status : Option Bool) :
    Values :=
  match call, call.addition with
  | .remove key isUser, _ =>
    fun user k => if user = isUser ∧ k = key then none else values user k
  | _, some a =>
    if status = some true then
      fun user k => if user = a.isUser ∧ k = a.key then a.value.map bound else values user k
    else values
  | _, none => values

/-- One call, with the values that were added. -/
def step (hash : Bytes → UInt32) (bound : NrObj → NrObj) (w : NrAttributes × Values) (call : Call) :
    NrAttributes × Values :=
  ((w.1.exec hash call).1,noteCall bound w.2 call (w.1.exec hash call).2)

/-- A sequence of calls on new attributes. -/
def run (hash : Bytes → UInt32) (bound : NrObj → NrObj) (config : Option NrAttributeConfig)
    (calls : List Call) : NrAttributes × Values :=
  calls.foldl (step hash bound) (create config,fun _ _ => none)

def list (ats : NrAttributes) (isUser : Bool) : List NrAttribute :=
  if isUser then ats.userAttributeList else ats.agentAttributeList

/-- The stored value of a key. -/
def value? (ats : NrAttributes) (isUser : Bool) (key : Option Bytes) : Option NrObj :=
  ((ats.list isUser).find? fun a => some a.key = key).map NrAttribute.value

/-- What holds of the attributes after a sequence of calls. -/
structure Kept (hash : Bytes → UInt32) (ats : NrAttributes) (values : Values) : Prop where
  nodup : ∀ isUser, ((ats.list isUser).map NrAttribute.key).Nodup
  num_eq : ats.numUserAttributes = ats.userAttributeList.length
  num_le : ats.numUserAttributes ≤ userLimit
  value : ∀ isUser key, ats.value? isUser key = values isUser key
  failure : ∀ call : Call, (ats.exec hash call).2 = some false →
    ∀ isUser key, (ats.exec hash call).1.value? isUser key = ats.value? isUser key

/-! ### Adding and removing -/

variable {hash : Bytes → UInt32} {ats : NrAttributes} {bound : NrObj → NrObj} {values : Values}
  {key : Bytes}

@[simp] lemma list_removeDuplicate (ats : NrAttributes) (key : Bytes) (keyHash : UInt32)
    (isUser user : Bool) : (ats.removeDuplicate key keyHash isUser).list user =
      if user = isUser then (ats.list user).eraseP (hasKey key keyHash) else ats.list user := by
  cases isUser <;> cases user <;> rfl

@[simp] lemma list_prepend (ats : NrAttributes) (isUser : Bool) (a : NrAttribute) (user : Bool) :
    (ats.prepend isUser a).list user =
      if user = isUser then a :: ats.list user else ats.list user := by
  cases isUser <;> cases user <;> rfl

/-- The state of the lists and the counter. -/
structure WellFormed (hash : Bytes → UInt32) (ats : NrAttributes) : Prop where
  nodup : ∀ isUser, ((ats.list isUser).map NrAttribute.key).Nodup
  keyHash : ∀ isUser, ∀ a ∈ ats.list isUser, a.keyHash = hash a.key
  num_eq : ats.numUserAttributes = ats.userAttributeList.length
  num_le : ats.numUserAttributes ≤ userLimit

lemma wellFormed_create (hash : Bytes → UInt32) (config : Option NrAttributeConfig) :
    WellFormed hash (create config) where
  nodup isUser := by cases isUser <;> exact List.nodup_nil
  keyHash isUser := by cases isUser <;> simp [create,list]
  num_eq := rfl
  num_le := show (0:ℤ) ≤ userLimit by decide

lemma WellFormed.hasKey_iff (h : WellFormed hash ats) {isUser : Bool} {a : NrAttribute}
    (ha : a ∈ ats.list isUser) (key : Bytes) : hasKey key (hash key) a = true ↔ a.key = key := by
  rw [hasKey,decide_eq_true_eq,h.keyHash isUser a ha,strcmp_eq_iff]
  constructor
  · rintro ⟨-,rfl⟩
    rfl
  · rintro rfl
    exact ⟨rfl,rfl⟩

lemma WellFormed.removeDuplicate (h : WellFormed hash ats) (key : Bytes) (isUser : Bool) :
    WellFormed hash (ats.removeDuplicate key (hash key) isUser) where
  nodup user := by
    rw [list_removeDuplicate]
    split_ifs
    · exact (h.nodup user).sublist ((List.eraseP_sublist ..).map _)
    · exact h.nodup user
  keyHash user a ha := by
    rw [list_removeDuplicate] at ha
    split_ifs at ha
    · exact h.keyHash user a (List.mem_of_mem_eraseP ha)
    · exact h.keyHash user a ha
  num_eq := by
    cases isUser with
    | false => exact h.num_eq
    | true =>
      have hnum := h.num_eq
      simp only [NrAttributes.removeDuplicate,if_true,List.length_eraseP]
      split_ifs with hany
      · obtain ⟨a,ha,-⟩ := List.any_eq_true.mp hany
        have hpos : 0 < ats.userAttributeList.length := List.length_pos_of_mem ha
        omega
      · exact hnum
  num_le := by
    cases isUser with
    | false => exact h.num_le
    | true =>
      have hle := h.num_le
      simp only [NrAttributes.removeDuplicate,if_true]
      split_ifs <;> omega

/-- Erasing the one attribute of a key leaves the others. -/
theorem find?_eraseP {as : List NrAttribute} (hnodup : (as.map NrAttribute.key).Nodup)
    {p : NrAttribute → Bool} (hp : ∀ a ∈ as, p a = true ↔ a.key = key) (k : Option Bytes) :
    (as.eraseP p).find? (fun a => some a.key = k) =
      if k = some key then none else as.find? fun a => some a.key = k := by
  induction as with
  | nil => simp
  | cons a as ih =>
    have hrest : ∀ a' ∈ as, p a' = true ↔ a'.key = key := fun a' ha' =>
      hp a' (List.mem_cons_of_mem a ha')
    rw [List.map_cons,List.nodup_cons] at hnodup
    by_cases hkey : a.key = key
    · rw [List.eraseP_cons_of_pos ((hp a List.mem_cons_self).mpr hkey)]
      by_cases hk : k = some key
      · rw [if_pos hk,List.find?_eq_none]
        intro a' ha'
        have hne : a'.key ≠ a.key := fun heq => hnodup.1 (heq ▸ List.mem_map_of_mem ha')
        simpa [hk,← hkey] using hne
      · have hne : ¬some a.key = k := fun heq => hk (by rw [← heq,hkey])
        simp [hk,hne]
    · rw [List.eraseP_cons_of_neg (fun hpos => hkey ((hp a List.mem_cons_self).mp hpos))]
      by_cases hak : some a.key = k
      · have hk : ¬k = some key := fun heq => hkey (Option.some.inj (hak.trans heq))
        simp [hak,hk]
      · simpa [hak] using ih hnodup.2 hrest

lemma WellFormed.value?_removeDuplicate (h : WellFormed hash ats) (key : Bytes)
    (isUser user : Bool) (k : Option Bytes) :
    (ats.removeDuplicate key (hash key) isUser).value? user k =
      if user = isUser ∧ k = some key then none else ats.value? user k := by
  unfold value?
  rw [list_removeDuplicate]
  by_cases hu : user = isUser
  · have hp : ∀ a ∈ ats.list user, hasKey key (hash key) a = true ↔ a.key = key := fun a ha =>
      h.hasKey_iff ha key
    rw [if_pos hu,find?_eraseP (h.nodup user) hp]
    by_cases hk : k = some key <;> simp [hu,hk]
  · simp [hu]

lemma value?_prepend (ats : NrAttributes) (isUser : Bool) (a : NrAttribute) (user : Bool)
    (k : Option Bytes) : (ats.prepend isUser a).value? user k =
      if user = isUser ∧ k = some a.key then some a.value else ats.value? user k := by
  unfold value?
  rw [list_prepend]
  by_cases hu : user = isUser
  · by_cases hk : some a.key = k
    · simp [hu,hk.symm]
    · have hk' : ¬k = some a.key := fun h => hk h.symm
      simp [hu,hk,hk']
  · simp [hu]

/-- When the limit is reached after the removal, nothing was removed. -/
theorem WellFormed.removeDuplicate_eq (h : WellFormed hash ats) {keyHash : UInt32}
    (hlimit : userLimit = (ats.removeDuplicate key keyHash true).numUserAttributes) :
    ats.removeDuplicate key keyHash true = ats := by
  have hle := h.num_le
  simp only [NrAttributes.removeDuplicate,if_true] at hlimit ⊢
  by_cases hany : ats.userAttributeList.any (hasKey key keyHash) = true
  · rw [if_pos hany] at hlimit
    omega
  · have hnot : ∀ a ∈ ats.userAttributeList, ¬hasKey key keyHash a = true := fun a ha hpos =>
      hany (List.any_eq_true.mpr ⟨a,ha,hpos⟩)
    rw [if_neg hany,List.eraseP_of_forall_not hnot]

/-- An addition fails and changes nothing, or it replaces the attribute of its key. -/
theorem WellFormed.addInternal_cases (h : WellFormed hash ats) (d : Destinations) (isUser : Bool)
    (key : Option Bytes) (value : Option NrObj) :
    ats.addInternal hash d isUser key value = (ats,false) ∨
      ∃ k v, ∃ destinations, key = some k ∧ value = some v ∧
        (isUser = true → (ats.removeDuplicate k (hash k) isUser).numUserAttributes < userLimit) ∧
        ats.addInternal hash d isUser key value =
          ((ats.removeDuplicate k (hash k) isUser).prepend isUser ⟨k,hash k,v.copy,destinations⟩,true) := by
  cases key with
  | none => exact .inl (by cases value <;> rfl)
  | some key =>
    cases value with
    | none => exact .inl rfl
    | some value =>
      unfold addInternal
      dsimp only
      by_cases hinvalid : key = [] ∨ ¬isValidValue (some value)
      · exact .inl (if_pos hinvalid)
      rw [if_neg hinvalid]
      by_cases hlong : keyLengthLimit < key.length
      · exact .inl (if_pos hlong)
      rw [if_neg hlong]
      by_cases hzero : ats.finalDestinations hash key d = 0
      · exact .inl (if_pos hzero)
      rw [if_neg hzero]
      by_cases hfull : isUser = true ∧
          userLimit = (ats.removeDuplicate key (hash key) isUser).numUserAttributes
      · obtain ⟨rfl,hlimit⟩ := hfull
        refine .inl ?_
        rw [if_pos ⟨rfl,hlimit⟩,h.removeDuplicate_eq hlimit]
      · rw [if_neg hfull]
        refine .inr ⟨key,value,_,rfl,rfl,?_,rfl⟩
        intro hu
        have hle := (h.removeDuplicate key isUser).num_le
        have hne : userLimit ≠ (ats.removeDuplicate key (hash key) isUser).numUserAttributes :=
          fun heq => hfull ⟨hu,heq⟩
        omega

/-- A key that is not in its list is put in front. -/
theorem WellFormed.prepend (h : WellFormed hash ats) {isUser : Bool} {a : NrAttribute}
    (ha : a.keyHash = hash a.key) (hnew : ats.value? isUser (some a.key) = none)
    (hnum : isUser = true → ats.numUserAttributes < userLimit) :
    WellFormed hash (ats.prepend isUser a) where
  nodup user := by
    rw [list_prepend]
    split_ifs with hu
    · subst hu
      rw [List.map_cons,List.nodup_cons]
      refine ⟨?_,h.nodup user⟩
      intro hmem
      obtain ⟨a',ha',hkey⟩ := List.mem_map.mp hmem
      unfold value? at hnew
      rw [Option.map_eq_none_iff,List.find?_eq_none] at hnew
      exact hnew a' ha' (decide_eq_true (congrArg some hkey))
    · exact h.nodup user
  keyHash user a' ha' := by
    rw [list_prepend] at ha'
    split_ifs at ha' with hu
    · cases List.mem_cons.mp ha' with
      | inl heq => exact heq ▸ ha
      | inr hmem => exact h.keyHash user a' hmem
    · exact h.keyHash user a' ha'
  num_eq := by
    cases isUser with
    | false => exact h.num_eq
    | true => exact (congrArg (· + 1) h.num_eq).trans (by simp [NrAttributes.prepend])
  num_le := by
    cases isUser with
    | false => exact h.num_le
    | true => exact Int.add_one_le_of_lt (hnum rfl)

/-! ### What is kept -/

/-- An addition is one of its value, cut as it is kept. -/
theorem exec_addition {call : Call} {a : Addition} (h : call.addition = some a) :
    ats.exec hash call = (ats.addInternal hash a.defaultDestinations a.isUser a.key
      (a.value.map boundValue)).map id some := by
  cases call <;> cases h <;> rfl

@[simp] lemma value?_none (ats : NrAttributes) (isUser : Bool) : ats.value? isUser none = none := by
  simp [value?]

/-- What is kept of a value: it is cut, and copied. -/
def keptValue (value : NrObj) : NrObj := (boundValue value).copy

lemma keptValue_eq : keptValue = NrObj.copy ∘ boundValue := rfl

/-- A call keeps the lists and the counter, and the values. -/
theorem WellFormed.step (h : WellFormed hash ats)
    (hvalues : ∀ isUser key, ats.value? isUser key = values isUser key) (call : Call) :
    WellFormed hash (NrAttributes.step hash keptValue (ats,values) call).1 ∧
      ∀ isUser key, (NrAttributes.step hash keptValue (ats,values) call).1.value? isUser key =
        (NrAttributes.step hash keptValue (ats,values) call).2 isUser key := by
  unfold NrAttributes.step
  cases hadd : call.addition with
  | none =>
    cases call <;> cases hadd
    rename_i key isUser
    cases key with
    | none =>
      refine ⟨h,?_⟩
      intro user k
      change ats.value? user k = if user = isUser ∧ k = none then none else values user k
      split_ifs with heq
      · rw [heq.2,value?_none]
      · exact hvalues user k
    | some key =>
      refine ⟨h.removeDuplicate key isUser,?_⟩
      intro user k
      change (ats.removeDuplicate key (hash key) isUser).value? user k =
        if user = isUser ∧ k = some key then none else values user k
      rw [h.value?_removeDuplicate,hvalues]
  | some a =>
    have hnote : ∀ status, noteCall keptValue values call status =
        if status = some true then
          fun user k => if user = a.isUser ∧ k = a.key then a.value.map keptValue else values user k
        else values := by
      intro status
      cases call <;> cases hadd <;> rfl
    rw [exec_addition hadd,hnote]
    obtain hfail | ⟨key,value,destinations,hkey,hvalue,hnum,hsuccess⟩ := h.addInternal_cases
      a.defaultDestinations a.isUser a.key (a.value.map boundValue)
    · rw [hfail]
      exact ⟨h,hvalues⟩
    · rw [hsuccess]
      have hgone : (ats.removeDuplicate key (hash key) a.isUser).value? a.isUser (some key) = none := by
        rw [h.value?_removeDuplicate,if_pos ⟨rfl,rfl⟩]
      refine ⟨(h.removeDuplicate key a.isUser).prepend rfl hgone hnum,?_⟩
      intro user k
      change NrAttributes.value? (NrAttributes.prepend _ _ _) _ _ =
        if user = a.isUser ∧ k = a.key then a.value.map keptValue else values user k
      have hkept : a.value.map keptValue = some value.copy := by
        rw [keptValue_eq,← Option.map_map,hvalue,Option.map_some]
      rw [value?_prepend,h.value?_removeDuplicate,hkey,hkept,hvalues]
      dsimp only
      split_ifs <;> rfl

/-- What a call does to the values that are held. -/
theorem WellFormed.exec_spec (h : WellFormed hash ats) (call : Call) :
    WellFormed hash (ats.exec hash call).1 ∧ ∀ isUser key, (ats.exec hash call).1.value? isUser key =
      noteCall keptValue ats.value? call (ats.exec hash call).2 isUser key :=
  h.step (fun _ _ => rfl) call

/-- A sequence of calls, from attributes that keep their values. -/
theorem WellFormed.foldl_step (calls : List Call) (h : WellFormed hash ats)
    (hvalues : ∀ isUser key, ats.value? isUser key = values isUser key) :
    WellFormed hash (calls.foldl (NrAttributes.step hash keptValue) (ats,values)).1 ∧
      ∀ isUser key,
        (calls.foldl (NrAttributes.step hash keptValue) (ats,values)).1.value? isUser key =
          (calls.foldl (NrAttributes.step hash keptValue) (ats,values)).2 isUser key := by
  induction calls generalizing ats values with
  | nil => exact ⟨h,hvalues⟩
  | cons call calls ih =>
    have hstep := h.step hvalues call
    exact ih hstep.1 hstep.2

/-- An addition that fails leaves the attributes. -/
theorem WellFormed.exec_of_failure (h : WellFormed hash ats) {call : Call}
    (hfail : (ats.exec hash call).2 = some false) : (ats.exec hash call).1 = ats := by
  cases hadd : call.addition with
  | none =>
    cases call <;> cases hadd
    cases hfail
  | some a =>
    rw [exec_addition hadd] at hfail ⊢
    obtain hsame | ⟨key,value,destinations,-,-,-,hsuccess⟩ := h.addInternal_cases
      a.defaultDestinations a.isUser a.key (a.value.map boundValue)
    · rw [hsame]
      rfl
    · rw [hsuccess] at hfail
      cases hfail

/-- After any sequence of additions and removals the keys of a list are distinct, the counter counts
the attributes of the user and stays within the limit, the value of a key is the last one that was
added, cut to the length of a value, and an addition that fails leaves every value. -/
theorem run_kept (hash : Bytes → UInt32) (config : Option NrAttributeConfig) (calls : List Call) :
    Kept hash (run hash keptValue config calls).1 (run hash keptValue config calls).2 := by
  have hempty : ∀ isUser key, (create config).value? isUser key = none := by
    intro isUser key
    cases isUser <;> rfl
  obtain ⟨hwf,hvalues⟩ := (wellFormed_create hash config).foldl_step calls hempty
  exact
    { nodup := hwf.nodup
      num_eq := hwf.num_eq
      num_le := hwf.num_le
      value := hvalues
      failure := fun call hfail isUser key =>
        congrArg (fun ats => NrAttributes.value? ats isUser key) (hwf.exec_of_failure hfail) }

/-- A string that is too long is not kept as it was added. -/
theorem not_forall_run_kept_id :
    ¬∀ (hash : Bytes → UInt32) (config : Option NrAttributeConfig) (calls : List Call),
      Kept hash (run hash id config calls).1 (run hash id config calls).2 := by
  intro h
  have hstored : ∀ s : Bytes, (run (fun _ => 0) id none
      [.userAddString 1 (some [0x61]) (some s)]).1.value? true (some [0x61]) =
        some (.string (s.take valueLengthLimit)) := fun _ => rfl
  have hadded : ∀ s : Bytes, (run (fun _ => 0) id none
      [.userAddString 1 (some [0x61]) (some s)]).2 true (some [0x61]) = some (.string s) :=
    fun _ => rfl
  have hvalue := (h (fun _ => 0) none
    [.userAddString 1 (some [0x61]) (some (List.replicate 256 0x62))]).value true (some [0x61])
  rw [hstored,hadded] at hvalue
  have hbytes : (List.replicate 256 (0x62 : UInt8)).take valueLengthLimit =
      List.replicate 256 0x62 := by
    injection hvalue with hobject
    injection hobject
  have hlength := congrArg List.length hbytes
  rw [List.take_replicate,List.length_replicate,List.length_replicate] at hlength
  exact absurd hlength (by decide)

/-! ### Refused additions of the user -/

/-- When an addition of the user is refused: by its key, its value, the destinations that the
configuration leaves of it, or the number of attributes. -/
def Refuses (hash : Bytes → UInt32) (ats : NrAttributes) (d : Destinations) (key : Bytes)
    (value : Option NrObj) : Prop :=
  key = [] ∨ keyLengthLimit < key.length ∨ isValidValue value = false ∨
    ats.finalDestinations hash key d = 0 ∨
    (ats.value? true (some key) = none ∧ ats.numUserAttributes = userLimit)

lemma isValidValue_map_boundValue (value : Option NrObj) :
    isValidValue (value.map boundValue) = isValidValue value := by
  cases value with
  | none => rfl
  | some value => cases value <;> rfl

/-- Nothing is removed for a key that is not there. -/
theorem WellFormed.removeDuplicate_of_absent (h : WellFormed hash ats)
    (habsent : ats.value? true (some key) = none) :
    ats.removeDuplicate key (hash key) true = ats := by
  unfold value? at habsent
  rw [Option.map_eq_none_iff,List.find?_eq_none] at habsent
  have hnot : ∀ a ∈ ats.userAttributeList, ¬hasKey key (hash key) a = true := by
    intro a ha hkey
    apply habsent a ha
    have hin : a ∈ ats.list true := ha
    rw [(h.hasKey_iff hin key).mp hkey]
    exact decide_eq_true rfl
  have hany : ¬ats.userAttributeList.any (hasKey key (hash key)) = true := by
    intro hany
    obtain ⟨a,ha,hkey⟩ := List.any_eq_true.mp hany
    exact hnot a ha hkey
  simp only [NrAttributes.removeDuplicate,if_true,if_neg hany,List.eraseP_of_forall_not hnot]

/-- The limit is met after the removal exactly when it is met before and the key is not there. -/
theorem WellFormed.limit_iff (h : WellFormed hash ats) (key : Bytes) :
    userLimit = (ats.removeDuplicate key (hash key) true).numUserAttributes ↔
      ats.value? true (some key) = none ∧ ats.numUserAttributes = userLimit := by
  constructor
  · intro hlimit
    have hsame := h.removeDuplicate_eq hlimit
    have hgone := h.value?_removeDuplicate key true true (some key)
    rw [if_pos ⟨rfl,rfl⟩] at hgone
    rw [hsame] at hlimit hgone
    exact ⟨hgone,hlimit.symm⟩
  · rintro ⟨habsent,hnum⟩
    rw [h.removeDuplicate_of_absent habsent,hnum]

/-- An addition of the user fails exactly when it is refused. -/
theorem WellFormed.userAdd_snd_iff (h : WellFormed hash ats) (d : Destinations) (key : Bytes)
    (value : Option NrObj) :
    (ats.userAdd hash d (some key) value).2 = false ↔ ats.Refuses hash d key value := by
  have hlimit := h.limit_iff key
  have hvalid := isValidValue_map_boundValue value
  unfold userAdd add Refuses
  cases value with
  | none => simp [addInternal,isValidValue]
  | some value =>
    rw [Option.map_some] at hvalid ⊢
    unfold addInternal
    dsimp only
    rw [hvalid,← hlimit]
    split_ifs with hkey hlong hzero hfull
    · rcases hkey with rfl | hkey
      · simp
      · simp [Bool.eq_false_iff.mpr hkey]
    · simp [hlong]
    · simp [hzero]
    · simp [hfull.2]
    · have hnot := not_or.mp hkey
      have hroom : ¬userLimit = (ats.removeDuplicate key (hash key) true).numUserAttributes :=
        fun heq => hfull ⟨rfl,heq⟩
      simpa [hnot.1,not_not.mp hnot.2,hlong,hroom] using hzero

/-- The names of the user's attributes. -/
theorem mem_keys_iff (ats : NrAttributes) (key : Bytes) :
    key ∈ ats.userAttributeList.map NrAttribute.key ↔ ats.value? true (some key) ≠ none := by
  simp [value?,list,List.find?_eq_none]

end NrAttributes
end PhpAgent
