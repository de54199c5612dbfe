import PhpAgent.Lib.CString
import PhpAgent.Util.Object

/-! Base 64, after `util_base64.c`. Lengths, `int`s of the source, are numbers here; the four times a
length for which `nr_b64_encode` asks `malloc` is no `int` from 2^29 bytes on. -/
namespace PhpAgent.Base64
open Json (code)

/-- `table64`. -/
def table64 : Bytes := ascii "ABCDEFGHIJKLMNOPQRSTUVWXYZabcdefghijklmnopqrstuvwxyz0123456789+/"

/-- The character that stands for six bits. -/
def digit (v : UInt8) : UInt8 := table64.getD v.toNat 0

/-- `nr_b64_is_valid_character`. -/
def isValidCharacter (c : UInt8) : Bool :=
  c = code '=' ∨ c = code '/' ∨ c = code '+' ∨ (code '0' ≤ c ∧ c ≤ code '9') ∨
    (code 'a' ≤ c ∧ c ≤ code 'z') ∨ (code 'A' ≤ c ∧ c ≤ code 'Z')

/-- The six bits of each of the four places that three bytes take. -/
def obuf (a b c : UInt8) : UInt8 × UInt8 × UInt8 × UInt8 :=
  ((a &&& 0xfc) >>> 2,((a &&& 0x03) <<< 4) ||| ((b &&& 0xf0) >>> 4),
    ((b &&& 0x0f) <<< 2) ||| ((c &&& 0xc0) >>> 6),c &&& 0x3f)

/-- The loop of `nr_b64_encode`, three bytes in a round. -/
def encodeLoop : Bytes → Bytes
  | [] => []
  | [a] => [digit (obuf a 0 0).1,digit (obuf a 0 0).2.1,code '=',code '=']
  | [a,b] => [digit (obuf a b 0).1,digit (obuf a b 0).2.1,digit (obuf a b 0).2.2.1,code '=']
  | a :: b :: c :: rest =>
    digit (obuf a b c).1 :: digit (obuf a b c).2.1 :: digit (obuf a b c).2.2.1 ::
      digit (obuf a b c).2.2.2 :: encodeLoop rest

/-- `nr_b64_encode`; `*retlen` is the length. -/
def b64Encode (data : Bytes) : Option Bytes := if data = [] then none else some (encodeLoop data)

/-- One character of a quantum. The search of the table ends at its NUL, which a NUL of the source
equals. -/
def decodeCharacter (x : ℕ) (c : UInt8) : ℕ :=
  let v := (table64.takeWhile (· ≠ c)).length
  if (table64 ++ [0]).getD v 0 = c then x * 64 + v
  else if c = code '=' then x * 64
  else x

/-- `decodeQuantum`. Behind its end a string is read as its NUL. -/
def decodeQuantum (src : Bytes) : Bytes :=
  let x := ((List.range 4).map fun i => src.getD i 0).foldl decodeCharacter 0
  [(x / 2 ^ 16).toUInt8,(x / 2 ^ 8).toUInt8,x.toUInt8]

/-- The decoding of so many quantums, the last of which loses a byte for each `=`. -/
def decodeLoop (equalsTerm : ℕ) : ℕ → Bytes → Bytes
  | 0,_ => []
  | 1,src => (decodeQuantum src).take (3 - equalsTerm)
  | n + 1,src => decodeQuantum src ++ decodeLoop equalsTerm n (src.drop 4)

/-- The number of padding characters, two at most. -/
def equalsTerm (src : Bytes) : ℕ :=
  let length := (src.takeWhile (· ≠ code '=')).length
  if src[length]? = some (code '=') then
    if src[length + 1]? = some (code '=') then 2 else 1
  else 0

/-- `nr_b64_decode`; `*retlen` is the length. -/
def b64Decode (src : Bytes) : Option Bytes :=
  if src.all isValidCharacter then
    let length := (src.takeWhile (· ≠ code '=')).length
    let numQuantums := (length + equalsTerm src) / 4
    if numQuantums = 0 then none else some (decodeLoop (equalsTerm src) numQuantums src)
  else none

/-! ### One quantum -/

/-- The alphabet, checked once for all six bits. -/
theorem table64_spec : (∀ n : Fin 64, isValidCharacter (digit n.val.toUInt8) = true ∧ digit n.val.toUInt8 ≠ code '=' ∧
      (table64.takeWhile (· ≠ digit n.val.toUInt8)).length = n.val ∧
      (table64 ++ [0]).getD n.val 0 = digit n.val.toUInt8) ∧
    (table64 ++ [0]).getD (table64.takeWhile (· ≠ code '=')).length 0 ≠ code '=' := by
  decide +kernel

lemma toUInt8_toNat (v : UInt8) : v.toNat.toUInt8 = v := UInt8.ofNat_toNat

lemma digit_valid (v : UInt8) (h : v < 64) : isValidCharacter (digit v) = true ∧ digit v ≠ code '=' := by
  obtain ⟨hvalid,hne,-⟩ := table64_spec.1 ⟨v.toNat,UInt8.lt_iff_toNat_lt.mp h⟩
  rw [toUInt8_toNat] at hvalid hne
  exact ⟨hvalid,hne⟩

/-- A character adds six bits. -/
def StandsFor (c : UInt8) (v : ℕ) : Prop := ∀ x, decodeCharacter x c = x * 64 + v

lemma standsFor_digit {v : UInt8} (h : v < 64) : StandsFor (digit v) v.toNat := by
  obtain ⟨-,-,hindex,hfound⟩ := table64_spec.1 ⟨v.toNat,UInt8.lt_iff_toNat_lt.mp h⟩
  rw [toUInt8_toNat] at hindex hfound
  intro x
  rw [decodeCharacter,hindex]
  exact if_pos hfound

/-- Padding is read as six bits that are zero. -/
theorem standsFor_equals : StandsFor (code '=') 0 := by
  intro x
  rw [decodeCharacter,if_neg table64_spec.2,if_pos rfl,Nat.add_zero]

/-- The bits of the parts of a byte. -/
theorem parts_toNat (a : UInt8) :
    ((a &&& 0xfc) >>> 2).toNat = a.toNat / 4 ∧ ((a &&& 0x03) <<< 4).toNat = 2 ^ 4 * (a.toNat % 4) ∧
    ((a &&& 0xf0) >>> 4).toNat = a.toNat / 16 ∧ ((a &&& 0x0f) <<< 2).toNat = 2 ^ 2 * (a.toNat % 16) ∧
    ((a &&& 0xc0) >>> 6).toNat = a.toNat / 64 ∧ (a &&& 0x3f).toNat = a.toNat % 64 := by
  have hall : ∀ n : Fin 256, let a := UInt8.ofFin n
      ((a &&& 0xfc) >>> 2).toNat = n.val / 4 ∧ ((a &&& 0x03) <<< 4).toNat = 2 ^ 4 * (n.val % 4) ∧
      ((a &&& 0xf0) >>> 4).toNat = n.val / 16 ∧ ((a &&& 0x0f) <<< 2).toNat = 2 ^ 2 * (n.val % 16) ∧
      ((a &&& 0xc0) >>> 6).toNat = n.val / 64 ∧ (a &&& 0x3f).toNat = n.val % 64 := by
    decide +kernel
  exact hall a.toFin

/-- The digits of three bytes are six bits each. -/
theorem obuf_toNat (a b c : UInt8) :
    (obuf a b c).1.toNat = a.toNat / 4 ∧
    (obuf a b c).2.1.toNat = a.toNat % 4 * 16 + b.toNat / 16 ∧
    (obuf a b c).2.2.1.toNat = b.toNat % 16 * 4 + c.toNat / 64 ∧
    (obuf a b c).2.2.2.toNat = c.toNat % 64 := by
  obtain ⟨ha,ha',-⟩ := parts_toNat a
  obtain ⟨-,-,hb,hb',-⟩ := parts_toNat b
  obtain ⟨-,-,-,-,hc,hc'⟩ := parts_toNat c
  have hlt := b.toNat_lt
  have hlt' := c.toNat_lt
  refine ⟨ha,?_,?_,hc'⟩
  · rw [obuf,UInt8.toNat_or,ha',hb,← Nat.two_pow_add_eq_or_of_lt (by omega),Nat.mul_comm]
  · rw [obuf,UInt8.toNat_or,hb',hc,← Nat.two_pow_add_eq_or_of_lt (by omega),Nat.mul_comm]

lemma obuf_lt (a b c : UInt8) :
    (obuf a b c).1 < 64 ∧ (obuf a b c).2.1 < 64 ∧ (obuf a b c).2.2.1 < 64 ∧ (obuf a b c).2.2.2 < 64 := by
  obtain ⟨h₀,h₁,h₂,h₃⟩ := obuf_toNat a b c
  have ha := a.toNat_lt
  have hb := b.toNat_lt
  have hc := c.toNat_lt
  have hsixty : (64 : UInt8).toNat = 64 := rfl
  simp only [UInt8.lt_iff_toNat_lt,hsixty]
  omega

/-- What the four digits of three bytes add up to. -/
theorem value_obuf (a b c : UInt8) :
    (((obuf a b c).1.toNat * 64 + (obuf a b c).2.1.toNat) * 64 + (obuf a b c).2.2.1.toNat) * 64 +
      (obuf a b c).2.2.2.toNat = a.toNat * 2 ^ 16 + b.toNat * 2 ^ 8 + c.toNat := by
  obtain ⟨h₀,h₁,h₂,h₃⟩ := obuf_toNat a b c
  rw [h₀,h₁,h₂,h₃]
  omega

/-- The three bytes that a quantum writes for a value. -/
theorem bytes_of_value (a b c : UInt8) :
    let x := a.toNat * 2 ^ 16 + b.toNat * 2 ^ 8 + c.toNat
    [(x / 2 ^ 16).toUInt8,(x / 2 ^ 8).toUInt8,x.toUInt8] = [a,b,c] := by
  intro x
  have ha := a.toNat_lt
  have hb := b.toNat_lt
  have hc := c.toNat_lt
  have hbyte : ∀ (n : ℕ) (d : UInt8), n % 256 = d.toNat → n.toUInt8 = d := by
    intro n d h
    rw [← UInt8.toNat_inj]
    simpa using h
  rw [hbyte (x / 2 ^ 16) a (by omega),hbyte (x / 2 ^ 8) b (by omega),hbyte x c (by omega)]

/-- A quantum of which the last two characters may be padding. -/
theorem decodeQuantum_of {a b c c₂ c₃ : UInt8} (h₂ : StandsFor c₂ (obuf a b c).2.2.1.toNat)
    (h₃ : StandsFor c₃ (obuf a b c).2.2.2.toNat) (rest : Bytes) :
    decodeQuantum (digit (obuf a b c).1 :: digit (obuf a b c).2.1 :: c₂ :: c₃ :: rest) = [a,b,c] := by
  obtain ⟨hlt₀,hlt₁,-⟩ := obuf_lt a b c
  have hfour : List.range 4 = [0,1,2,3] := rfl
  simp only [decodeQuantum,hfour,List.map_cons,List.map_nil,List.getD_cons_zero,List.getD_cons_succ,
    List.foldl_cons,List.foldl_nil]
  rw [standsFor_digit hlt₀,standsFor_digit hlt₁,h₂,h₃,Nat.zero_mul,Nat.zero_add,value_obuf]
  exact bytes_of_value a b c

/-! ### The round trip -/

/-- The padding of so many bytes. -/
def padding (n : ℕ) : ℕ := (3 - n % 3) % 3

/-- An encoding is digits and then the padding. -/
theorem encodeLoop_shape (data : Bytes) :
    ∃ digits, encodeLoop data = digits ++ List.replicate (padding data.length) (code '=') ∧
      (∀ c ∈ digits, isValidCharacter c = true ∧ c ≠ code '=') ∧
      digits.length + padding data.length = 4 * ((data.length + 2) / 3) := by
  induction data using encodeLoop.induct with
  | case1 => exact ⟨[],rfl,List.forall_mem_nil _,rfl⟩
  | case2 a =>
    obtain ⟨h₀,h₁,-⟩ := obuf_lt a 0 0
    refine ⟨[digit (obuf a 0 0).1,digit (obuf a 0 0).2.1],rfl,?_,by simp [padding]⟩
    simp only [List.forall_mem_cons]
    exact ⟨digit_valid _ h₀,digit_valid _ h₁,List.forall_mem_nil _⟩
  | case3 a b =>
    obtain ⟨h₀,h₁,h₂,-⟩ := obuf_lt a b 0
    refine ⟨[digit (obuf a b 0).1,digit (obuf a b 0).2.1,digit (obuf a b 0).2.2.1],rfl,?_,
      by simp [padding]⟩
    simp only [List.forall_mem_cons]
    exact ⟨digit_valid _ h₀,digit_valid _ h₁,digit_valid _ h₂,List.forall_mem_nil _⟩
  | case4 a b c rest ih =>
    obtain ⟨digits,hloop,hdigits,hlen⟩ := ih
    obtain ⟨h₀,h₁,h₂,h₃⟩ := obuf_lt a b c
    have hpad : padding (a :: b :: c :: rest).length = padding rest.length := by
      simp only [padding,List.length_cons]
      omega
    refine ⟨digit (obuf a b c).1 :: digit (obuf a b c).2.1 :: digit (obuf a b c).2.2.1 ::
      digit (obuf a b c).2.2.2 :: digits,?_,?_,?_⟩
    · rw [encodeLoop,hloop,hpad]
      rfl
    · simp only [List.forall_mem_cons]
      exact ⟨digit_valid _ h₀,digit_valid _ h₁,digit_valid _ h₂,digit_valid _ h₃,hdigits⟩
    · rw [hpad]
      simp only [List.length_cons]
      omega

lemma decodeLoop_succ {n : ℕ} (hn : n ≠ 0) (e : ℕ) (src : Bytes) :
    decodeLoop e (n + 1) src = decodeQuantum src ++ decodeLoop e n (src.drop 4) := by
  cases n with
  | zero => exact absurd rfl hn
  | succ n => rfl

/-- The loops undo each other. -/
theorem decodeLoop_encodeLoop (data : Bytes) :
    decodeLoop (padding data.length) ((data.length + 2) / 3) (encodeLoop data) = data := by
  induction data using encodeLoop.induct with
  | case1 => rfl
  | case2 a =>
    have hquantum := decodeQuantum_of (a := a) (b := 0) (c := 0) standsFor_equals standsFor_equals []
    have hpad : padding [a].length = 2 := by simp [padding]
    have hrounds : ([a].length + 2) / 3 = 1 := by simp
    rw [hpad,hrounds,decodeLoop,encodeLoop,hquantum]
    rfl
  | case3 a b =>
    obtain ⟨-,-,hlt,-⟩ := obuf_lt a b 0
    have hquantum := decodeQuantum_of (c := 0) (standsFor_digit hlt) standsFor_equals []
    have hpad : padding [a,b].length = 1 := by simp [padding]
    have hrounds : ([a,b].length + 2) / 3 = 1 := by simp
    rw [hpad,hrounds,decodeLoop,encodeLoop,hquantum]
    rfl
  | case4 a b c rest ih =>
    obtain ⟨-,-,hlt₂,hlt₃⟩ := obuf_lt a b c
    have hquantum := decodeQuantum_of (standsFor_digit hlt₂) (standsFor_digit hlt₃) (encodeLoop rest)
    have hpad : padding (a :: b :: c :: rest).length = padding rest.length := by
      simp only [padding,List.length_cons]
      omega
    have hrounds : ((a :: b :: c :: rest).length + 2) / 3 = (rest.length + 2) / 3 + 1 := by
      simp only [List.length_cons]
      omega
    rw [hpad,hrounds]
    cases rest with
    | nil =>
      change (decodeQuantum (encodeLoop [a,b,c])).take 3 = [a,b,c]
      rw [encodeLoop,hquantum]
      rfl
    | cons d rest =>
      have hmore : ((d :: rest).length + 2) / 3 ≠ 0 := by
        rw [List.length_cons]
        omega
      rw [decodeLoop_succ hmore,encodeLoop,hquantum]
      change [a,b,c] ++ decodeLoop _ _ (encodeLoop (d :: rest)) = _
      rw [ih]
      rfl

lemma equalsTerm_encodeLoop (data : Bytes) :
    equalsTerm (encodeLoop data) = padding data.length ∧
      ((encodeLoop data).takeWhile (· ≠ code '=')).length + padding data.length
        = 4 * ((data.length + 2) / 3) := by
  obtain ⟨digits,hloop,hdigits,hlen⟩ := encodeLoop_shape data
  have hpad : padding data.length < 3 := Nat.mod_lt _ (by decide)
  have htake : (encodeLoop data).takeWhile (· ≠ code '=') = digits := by
    rw [hloop,List.takeWhile_append_of_pos fun c hc => by simpa using (hdigits c hc).2]
    cases padding data.length with
    | zero => simp
    | succ n => simp [List.replicate_succ]
  refine ⟨?_,by rw [htake,hlen]⟩
  rw [equalsTerm,htake,hloop]
  rw [List.getElem?_append_right le_rfl,List.getElem?_append_right (Nat.le_succ _),Nat.sub_self,
    Nat.succ_sub le_rfl,Nat.sub_self]
  interval_cases padding data.length
  · rfl
  · rfl
  · rfl

/-- What is encoded is decoded to itself, and the text passes for base 64. -/
theorem b64_roundTrip {data : Bytes} (h : data ≠ []) :
    ∃ text, b64Encode data = some text ∧ text ≠ [] ∧ text.all isValidCharacter = true ∧
      b64Decode text = some data := by
  obtain ⟨digits,hloop,hdigits,hlen⟩ := encodeLoop_shape data
  obtain ⟨hequals,hlength⟩ := equalsTerm_encodeLoop data
  have hpos : 0 < data.length := List.length_pos_of_ne_nil h
  have hrounds : (data.length + 2) / 3 ≠ 0 := by omega
  have hvalid : (encodeLoop data).all isValidCharacter = true := by
    rw [List.all_eq_true,hloop,List.forall_mem_append]
    refine ⟨fun c hc => (hdigits c hc).1,fun c hc => ?_⟩
    rw [List.eq_of_mem_replicate hc]
    rfl
  have hne : encodeLoop data ≠ [] := by
    intro hnil
    rw [hnil] at hlength
    simp only [List.takeWhile_nil,List.length_nil] at hlength
    have hpad : padding data.length < 3 := Nat.mod_lt _ (by decide)
    omega
  refine ⟨encodeLoop data,if_neg h,hne,hvalid,?_⟩
  simp only [b64Decode,if_pos hvalid,hequals,hlength]
  rw [Nat.mul_div_cancel_left _ (by decide),if_neg hrounds,decodeLoop_encodeLoop]

end PhpAgent.Base64
