import Mathlib.Data.List.DropRight
import PhpAgent.Lib.JsonDecode

/-! Reading a JSON object into a record whose fields have names. A name is found without regard to case,
the members are read in order, and null changes nothing. -/
namespace PhpAgent.Json

/-- A name with its case folded. Besides the ASCII letters only the long s and the Kelvin sign fold to
ASCII. -/
def foldName : List UInt8 → List UInt8
  | [] => []
  | [c] => [upper c]
  | [c,d] => if c = 0xc5 ∧ d = 0xbf then [code 'S'] else upper c :: foldName [d]
  | c :: d :: e :: rest =>
    if c = 0xc5 ∧ d = 0xbf then code 'S' :: foldName (e :: rest)
    else if c = 0xe2 ∧ d = 0x84 ∧ e = 0xaa then code 'K' :: foldName rest
    else upper c :: foldName (d :: e :: rest)
where
  upper (c : UInt8) : UInt8 := if code 'a' ≤ c ∧ c ≤ code 'z' then c-0x20 else c

/-- A field: its name, and what its value makes of the record; none is a value of another type. -/
structure StructField (σ : Type) where
  name : List UInt8
  set : List UInt8 → σ → Option σ

/-- The field with a name, with regard to case if there is one. -/
def findField {σ : Type} (fields : List (StructField σ)) (key : List UInt8) : Option (StructField σ) :=
  (fields.find? fun f => f.name = key).or (fields.find? fun f => foldName f.name = foldName key)

def isNull (b : List UInt8) : Bool := accepts b && trimmed b = ['n','u','l','l'].map code

def setMember {σ : Type} (fields : List (StructField σ)) (s : σ) (member : List UInt8 × List UInt8) : Option σ :=
  (stringValue member.1).bind fun key =>
    match findField fields key with
    | some f => f.set member.2 s
    | none => some s

def decodeStruct {σ : Type} (fields : List (StructField σ)) (b : List UInt8) (s : σ) : Option σ :=
  if isNull b then some s else (members b).bind fun ms => ms.foldlM (setMember fields) s

/-! ### Scalars -/

/-- An unsigned number of 64 bits; null leaves what was there. -/
def decodeUint64 (b : List UInt8) (old : ℕ) : Option ℕ :=
  if isNull b then some old
  else if b ≠ [] ∧ b.all isDigit ∧ digitsValue b < 2^64 then some (digitsValue b)
  else none

def parseInt64 (b : List UInt8) : Option ℤ :=
  let negative := b.head? = some (code '-')
  let ds := if negative then b.tail else b
  let value : ℤ := if negative then -(digitsValue ds : ℤ) else digitsValue ds
  if ds ≠ [] ∧ ds.all isDigit ∧ -2^63 ≤ value ∧ value < 2^63 then some value else none

/-- A signed number of 64 bits. -/
def decodeInt64 (b : List UInt8) (old : ℤ) : Option ℤ := if isNull b then some old else parseInt64 b

/-- A pointer to a signed number of 64 bits: null is nil. -/
def decodeIntPtr (b : List UInt8) : Option (Option ℤ) :=
  if isNull b then some none else (parseInt64 b).map some

def decodeStringPtr (b : List UInt8) : Option (Option (List UInt8)) :=
  if isNull b then some none else (stringValue b).map some

/-! ### The last member with a name -/

def named (name key : List UInt8) : Bool := (stringValue key).map foldName = some (foldName name)

def lastOf (name : List UInt8) (ms : List (List UInt8 × List UInt8)) (last : Option (List UInt8)) :
    Option (List UInt8) :=
  ms.foldl (fun last member => if named name member.1 then some member.2 else last) last

/-- The value of the last member with a name. -/
def lastValue (name b : List UInt8) : Option (List UInt8) := lastOf name ((members b).getD []) none

lemma name_of_findField {σ : Type} {fields : List (StructField σ)} {key : List UInt8} {f : StructField σ}
    (h : findField fields key = some f) : f ∈ fields ∧ foldName f.name = foldName key := by
  rcases Option.or_eq_some_iff.mp h with hexact | ⟨_,hfold⟩
  · have hname : f.name = key := by simpa using List.find?_some hexact
    exact ⟨List.mem_of_find?_eq_some hexact,by rw [hname]⟩
  · exact ⟨List.mem_of_find?_eq_some hfold,by simpa using List.find?_some hfold⟩

lemma findField_isSome {σ : Type} {fields : List (StructField σ)} {f : StructField σ} {key : List UInt8}
    (hf : f ∈ fields) (hname : foldName f.name = foldName key) : (findField fields key).isSome := by
  have hfold : (fields.find? fun f => foldName f.name = foldName key).isSome := by
    rw [List.find?_isSome]
    exact ⟨f,hf,decide_eq_true hname⟩
  rw [findField]
  cases fields.find? fun f => f.name = key with
  | none => exact hfold
  | some g => rfl

lemma members_of_isNull {b : List UInt8} (h : isNull b = true) : members b = none := by
  obtain ⟨_,htrimmed⟩ := Bool.and_eq_true_iff.mp h
  have hnull : trimmed b = ['n','u','l','l'].map code := of_decide_eq_true htrimmed
  have hinitial : trimmed b <+: b.dropWhile isSpace := List.rdropWhile_prefix isSpace _
  obtain ⟨rest,hrest⟩ := hinitial
  rw [hnull] at hrest
  unfold members
  rw [← hrest]
  split_ifs
  rfl

section Get
variable {σ β : Type} {fields : List (StructField σ)} {name : List UInt8} (get : σ → β)
  (read : List UInt8 → Option β)

/-- A part of the record that the fields of one name set, from their value alone. -/
structure Sets (fields : List (StructField σ)) (name : List UInt8) : Prop where
  known : ∃ f ∈ fields, foldName f.name = foldName name
  set : ∀ f ∈ fields, ∀ v s s', f.set v s = some s' →
    if foldName f.name = foldName name then read v = some (get s') else get s' = get s

/-- What the last member says of the part, or what was there before. -/
def Says (last : Option (List UInt8)) (old new : β) : Prop :=
  match last with
  | some v => read v = some new
  | none => new = old

variable {get read}

lemma Sets.member (h : Sets get read fields name) {s₀ s s' : σ} {last : Option (List UInt8)}
    {member : List UInt8 × List UInt8} (hstates : Says read last (get s₀) (get s))
    (hset : setMember fields s member = some s') :
    Says read (if named name member.1 then some member.2 else last) (get s₀) (get s') := by
  obtain ⟨key,hkey,hset⟩ := Option.bind_eq_some_iff.mp hset
  have hnamed : named name member.1 = decide (foldName key = foldName name) := by
    rw [named,hkey]
    simp
  rw [hnamed]
  cases hfind : findField fields key with
  | none =>
    rw [hfind] at hset
    obtain rfl := Option.some.inj hset
    have hne : ¬ foldName key = foldName name := by
      intro heq
      obtain ⟨f,hf,hname⟩ := h.known
      have hsome := findField_isSome hf (hname.trans heq.symm)
      rw [hfind] at hsome
      cases hsome
    simpa [hne] using hstates
  | some f =>
    rw [hfind] at hset
    obtain ⟨hf,hname⟩ := name_of_findField hfind
    have hget := h.set f hf _ _ _ hset
    rw [hname] at hget
    by_cases heq : foldName key = foldName name
    · rw [if_pos heq] at hget
      simpa [heq,Says] using hget
    · rw [if_neg heq] at hget
      simp only [heq,decide_false,Bool.false_eq_true,if_false]
      rw [hget]
      exact hstates

lemma Sets.foldlM (h : Sets get read fields name) (ms : List (List UInt8 × List UInt8))
    {s₀ s s' : σ} {last : Option (List UInt8)} (hstates : Says read last (get s₀) (get s))
    (hset : ms.foldlM (setMember fields) s = some s') :
    Says read (lastOf name ms last) (get s₀) (get s') := by
  induction ms generalizing s last with
  | nil =>
    obtain rfl := Option.some.inj hset
    exact hstates
  | cons member ms ih =>
    obtain ⟨s₁,hfirst,hrest⟩ := Option.bind_eq_some_iff.mp hset
    exact ih (h.member hstates hfirst) hrest

/-- A part that one name sets is what the last member with that name says. -/
theorem Sets.decodeStruct (h : Sets get read fields name) {b : List UInt8} {s s' : σ}
    (hdecode : decodeStruct fields b s = some s') : Says read (lastValue name b) (get s) (get s') := by
  unfold Json.decodeStruct at hdecode
  split_ifs at hdecode with hnull
  · obtain rfl := Option.some.inj hdecode
    rw [lastValue,members_of_isNull hnull]
    exact rfl
  · obtain ⟨ms,hms,hfold⟩ := Option.bind_eq_some_iff.mp hdecode
    rw [lastValue,hms]
    have hstates : Says read none (get s) (get s) := rfl
    exact h.foldlM ms hstates hfold

end Get
end PhpAgent.Json
