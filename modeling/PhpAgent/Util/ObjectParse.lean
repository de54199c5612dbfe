import Mathlib.Data.UInt
import PhpAgent.Lib.CType
import PhpAgent.Lib.Memory
import PhpAgent.Util.Utf8Escape

/-! The JSON parser of `util_object.c`, with what it uses of the C library. A pointer into a text is what
stands from there up to the NUL, and the parser stops where it reads behind the NUL. `nearest` rounds to a
double; it has no result beyond the largest one. `garbage` is what stands in the variable of a string's
`sscanf` before the first call, and `above` the upper half of the address that a key is copied to. The
buffer of a string's output has no bound here. -/
namespace PhpAgent
namespace NroParse

open Json (code isHex hexValue)

/-- `json_skip`. -/
def jsonSkip (s : Bytes) : Bytes := s.dropWhile fun c => c ≠ 0 ∧ c ≤ 32

/-! ### Numbers -/

/-- A digit of a base up to ten, or of base sixteen. -/
def isDigitOf (base : ℕ) (c : UInt8) : Bool := if base = 16 then isHex c else Json.isDigit c && hexValue c < base

/-- `0x` in front of a digit. -/
def hasHexPrefix (s : Bytes) : Bool :=
  s.head? = some (code '0') ∧ (s[1]? = some (code 'x') ∨ s[1]? = some (code 'X')) ∧ s[2]?.any isHex

/-- The base of a number without its sign, and its digits. -/
def baseOf (s : Bytes) : ℕ × Bytes :=
  if hasHexPrefix s then (16,s.drop 2)
  else if s.head? = some (code '0') then (8,s)
  else (10,s)

/-- `strtol` of base zero, which is `strtoll`, with what is left over. -/
def strtol (num : Bytes) : ℤ × Bytes :=
  let negative := num.head? = some (code '-')
  let (base,s) := baseOf (if negative then num.tail else num)
  let ds := s.takeWhile (isDigitOf base)
  if ds = [] then (0,num)
  else (toLong negative (valueOf base ds),s.drop ds.length)

/-- An exponent: its value and what is left over. -/
def exponentOf (letters : List UInt8) (s : Bytes) : ℤ × Bytes :=
  if s.head?.any (· ∈ letters) then
    let t := s.tail
    let negative := t.head? = some (code '-')
    let u := if negative ∨ t.head? = some (code '+') then t.tail else t
    let ds := u.takeWhile Json.isDigit
    if ds = [] then (0,s)
    else (if negative then -(valueOf 10 ds : ℤ) else valueOf 10 ds,u.drop ds.length)
  else (0,s)

/-- `strtod`: the sign and the exact number behind it, and what is left over. -/
def strtod (num : Bytes) : (Bool × ℚ≥0) × Bytes :=
  let negative := num.head? = some (code '-')
  let s := if negative then num.tail else num
  let base := if hasHexPrefix s then 16 else 10
  let s := if hasHexPrefix s then s.drop 2 else s
  let whole := s.takeWhile (isDigitOf base)
  let s := s.drop whole.length
  let fraction := if s.head? = some (code '.') then s.tail.takeWhile (isDigitOf base) else []
  if whole ++ fraction = [] then ((false,0),num)
  else
    let s := if s.head? = some (code '.') then s.tail.drop fraction.length else s
    let (exponent,left) :=
      if base = 16 then exponentOf [code 'p',code 'P'] s else exponentOf [code 'e',code 'E'] s
    let power : ℕ := if base = 16 then 2 else 10
    ((negative,valueOf base (whole ++ fraction)/(base : ℚ≥0)^fraction.length*(power : ℚ≥0)^exponent),left)

section Nearest
variable (nearest : ℚ≥0 → Option ℚ≥0)

/-- `parse_number` into an object with `above` in the upper half of its union. -/
def parseNumber (above : UInt32) (num : Bytes) : NrObj × Bytes :=
  let (i,ret) := strtol num
  if ret.head? = some (code '.') ∨ ret.head? = some (code 'e') ∨ ret.head? = some (code 'E') then
    let ((negative,q),ret) := strtod num
    match nearest q with
    | none => (.long (strtol num).1,(strtol num).2)
    | some d => (.double (.finite negative d),ret)
  else if i ≤ intMin ∨ intMax ≤ i then (.long (strtol num).1,(strtol num).2)
  else (.int i above,ret)

end Nearest

/-! ### Strings -/

/-- The first loop of `parse_string` reaches a quote. -/
def closes : Bytes → Except Stop Bool
  | [] => .ok false
  | c :: s =>
    if c = code '"' then .ok true
    else if c = code '\\' then
      match s with
      | [] => .error .outside
      | _ :: s => closes s
    else if c < 32 then .ok false
    else closes s

lemma printable_iff (c : UInt8) : 31 < c ↔ ¬ c < 32 := by
  rw [UInt8.lt_iff_toNat_lt,UInt8.lt_iff_toNat_lt]
  exact Nat.lt_iff_add_one_le.trans Nat.not_lt.symm

/-- `sscanf` of `%4x`, where it reads a number. -/
def scanHex (text : Bytes) : Option UInt32 :=
  let item := (text.dropWhile isspace).take 4
  let negative := item.head? = some (code '-')
  let s := if negative ∨ item.head? = some (code '+') then item.tail else item
  let hasPrefix := s.head? = some (code '0') ∧ (s[1]? = some (code 'x') ∨ s[1]? = some (code 'X'))
  let ds := (if hasPrefix then s.drop 2 else s).takeWhile isHex
  if ds = [] then none
  else
    let value := UInt32.ofNat (valueOf 16 ds)
    some (if negative then 0-value else value)

/-- The bytes of a value, and what is left of it. Pairs of surrogates are not put together. -/
def transcode (uc : UInt32) : Bytes × UInt32 :=
  let last := fun (uc : UInt32) => ((uc ||| 0x80) &&& 0xbf).toUInt8
  if uc < 0x80 then ([uc.toUInt8],uc)
  else if uc < 0x800 then ([(uc >>> 6 ||| 0xc0).toUInt8,last uc],uc >>> 6)
  else ([(uc >>> 12 ||| 0xe0).toUInt8,last (uc >>> 6),last uc],uc >>> 12)

/-- What an escape of one character stands for. -/
def escaped (c : UInt8) : UInt8 :=
  if c = code 'b' then 0x08
  else if c = code 'f' then 0x0c
  else if c = code 'n' then 0x0a
  else if c = code 'r' then 0x0d
  else if c = code 't' then 0x09
  else c

/-- One more piece of the output. -/
def emit (out : Bytes) (r : Except Stop (Bytes × Bytes)) : Except Stop (Bytes × Bytes) :=
  r.map fun (more,rest) => (out ++ more,rest)

/-- The second loop of `parse_string`: the output, and what is left over, without the quote. -/
def decode (uc : UInt32) : Bytes → Except Stop (Bytes × Bytes)
  | [] => .ok ([],[])
  | c :: s =>
    if c = code '"' then .ok ([],s)
    else if c ≤ 31 then .ok ([],c :: s)
    else if c ≠ code '\\' then emit [c] (decode uc s)
    else
      match s with
      | [] => .error .outside
      | e :: s =>
        if e = code 'u' then
          -- four bytes are passed over, whatever the number is made of
          match s with
          | a :: b :: c :: d :: s =>
            let (out,uc) := transcode ((scanHex (a :: b :: c :: d :: s)).getD uc)
            emit out (decode uc s)
          | _ => .error .outside
        else emit [escaped e] (decode uc s)

section Strings
variable (garbage : Bytes → UInt32)

/-- `parse_string`. The output is copied as a C string. -/
def parseString : Bytes → Except Stop (Option (Bytes × Bytes))
  | [] => .ok none
  | c :: s =>
    if c = code '"' then do
      if ← closes s then
        let (out,rest) ← decode (garbage s) s
        return some (out.takeWhile (· ≠ 0),rest)
      else return none
    else .ok none

end Strings

/-! ### Values -/

section Values
variable (nearest : ℚ≥0 → Option ℚ≥0) (garbage above : Bytes → UInt32)

mutual

/-- `parse_value` into an object with `upper` in the upper half of its union. -/
def parseValue : ℕ → UInt32 → Bytes → Except Stop (Option (NrObj × Bytes))
  | 0, _, _ => .error .fuel
  | fuel+1, upper, value =>
    if (ascii "null").isPrefixOf value then .ok (some (.none,value.drop 4))
    else if (ascii "false").isPrefixOf value then .ok (some (.boolean false,value.drop 5))
    else if (ascii "true").isPrefixOf value then .ok (some (.boolean true,value.drop 4))
    else
      match value with
      | [] => .ok none
      | c :: s =>
        if c = code '"' then
          (parseString garbage (c :: s)).map (Option.map fun (out,rest) => (.string out,rest))
        else if c = code '-' ∨ Json.isDigit c then .ok (some (parseNumber nearest upper (c :: s)))
        else if c = code '[' then
          -- `parse_array`
          if (jsonSkip s).head? = some (code ']') then .ok (some (.array [],(jsonSkip s).tail))
          else
            (parseElements fuel (jsonSkip s)).map
              (Option.map fun (children,rest) => (.array children,rest))
        else if c = 0x7b then
          -- `parse_object`
          if (jsonSkip s).head? = some 0x7d then .ok (some (.hash [],(jsonSkip s).tail))
          else (parseMembers fuel true [] (jsonSkip s)).map (Option.map fun (h,rest) => (.hash h,rest))
        else .ok none

/-- The elements of an array, up to its end. -/
def parseElements : ℕ → Bytes → Except Stop (Option (List NrObj × Bytes))
  | 0, _ => .error .fuel
  | fuel+1, value => do
    match ← parseValue fuel 0 (jsonSkip value) with
    | none => return none
    | some (child,rest) =>
      if (jsonSkip rest).head? = some (code ',') then
        (parseElements fuel (jsonSkip rest).tail).map
          (Option.map fun (children,rest) => (child :: children,rest))
      else if (jsonSkip rest).head? = some (code ']') then return some ([child],(jsonSkip rest).tail)
      else return none

/-- The members of an object, up to its end. A key is read into the object of its value; behind the first
key the pointer to its copy is cleared, behind the others it is not. -/
def parseMembers : ℕ → Bool → NrHash → Bytes → Except Stop (Option (NrHash × Bytes))
  | 0, _, _, _ => .error .fuel
  | fuel+1, first, h, value => do
    match ← parseString garbage (jsonSkip value) with
    | none => return none
    | some (key,rest) =>
      if (jsonSkip rest).head? ≠ some (code ':') then return none
      else
        let upper := if first then 0 else above (jsonSkip value)
        match ← parseValue fuel upper (jsonSkip (jsonSkip rest).tail) with
        | none => return none
        | some (child,rest) =>
          let h := h.set key child
          if (jsonSkip rest).head? = some (code ',') then parseMembers fuel false h (jsonSkip rest).tail
          else if (jsonSkip rest).head? = some 0x7d then return some (h,(jsonSkip rest).tail)
          else return none

end

/-- `nro_create_from_json`. A bracket takes a byte of the text, and what is in it two calls. -/
def createFromJson (json : Bytes) : Except Stop (Option NrObj) :=
  if json = [] then .ok none
  else
    (parseValue nearest garbage above (2*json.length+1) 0 (jsonSkip json)).map fun r =>
      match r with
      | none => none
      | some (rv,next) => if jsonSkip next = [] then some rv else none

/-! ### What stands above an `int` -/

lemma copy_parseNumber (upper : UInt32) (num : Bytes) :
    ((parseNumber nearest upper num).1.copy,(parseNumber nearest upper num).2) = parseNumber nearest 0 num := by
  unfold parseNumber
  simp only
  split
  · split <;> rfl
  · split <;> rfl

lemma upper_zero (first : Bool) (s : Bytes) :
    (if first = true then (0 : UInt32) else (0 : Bytes → UInt32) s) = 0 := by
  cases first <;> rfl

variable {nearest garbage above}

/-- What stands above an `int` is all that the addresses of the keys decide. -/
theorem copy_parse (fuel : ℕ) :
    (∀ upper s, (parseValue nearest garbage above fuel upper s).map (Option.map (Prod.map NrObj.copy id)) =
        parseValue nearest garbage 0 fuel 0 s) ∧
      (∀ s, (parseElements nearest garbage above fuel s).map (Option.map (Prod.map copyElements id)) =
        parseElements nearest garbage 0 fuel s) ∧
      ∀ first h s, (parseMembers nearest garbage above fuel first h s).map
          (Option.map (Prod.map copyMembers id)) =
        parseMembers nearest garbage 0 fuel first (copyMembers h) s := by
  induction fuel with
  | zero => exact ⟨fun _ _ => rfl,fun _ => rfl,fun _ _ _ => rfl⟩
  | succ fuel ih =>
    obtain ⟨ihvalue,ihelements,ihmembers⟩ := ih
    refine ⟨fun upper s => ?_,fun s => ?_,fun first h s => ?_⟩
    · rw [parseValue.eq_def,parseValue.eq_def]
      simp only
      split_ifs
      · rfl
      · rfl
      · rfl
      cases s with
      | nil => rfl
      | cons c s =>
        simp only
        split_ifs
        · cases parseString garbage (c :: s) with
          | error stop => rfl
          | ok r => cases r <;> rfl
        · exact congrArg (fun r => Except.ok (some r)) (copy_parseNumber nearest upper (c :: s))
        · rfl
        · rw [← ihelements]
          cases parseElements nearest garbage above fuel (jsonSkip s) with
          | error stop => rfl
          | ok r => cases r <;> rfl
        · rfl
        · have hmembers := ihmembers true [] (jsonSkip s)
          rw [copyMembers] at hmembers
          rw [← hmembers]
          cases parseMembers nearest garbage above fuel true [] (jsonSkip s) with
          | error stop => rfl
          | ok r => cases r <;> rfl
        · rfl
    · rw [parseElements,parseElements,← ihvalue 0]
      cases parseValue nearest garbage above fuel 0 (jsonSkip s) with
      | error stop => rfl
      | ok r =>
        rcases r with _ | ⟨child,rest⟩
        · rfl
        · change Except.map _ (ite _ _ _) = ite _ _ _
          simp only [id]
          split_ifs
          · rw [← ihelements]
            cases parseElements nearest garbage above fuel (jsonSkip rest).tail with
            | error stop => rfl
            | ok r => cases r <;> rfl
          · rfl
          · rfl
    · rw [parseMembers,parseMembers]
      cases parseString garbage (jsonSkip s) with
      | error stop => rfl
      | ok r =>
        rcases r with _ | ⟨key,rest⟩
        · rfl
        · change Except.map _ (ite _ _ _) = ite _ _ _
          by_cases hcolon : (jsonSkip rest).head? ≠ some (code ':')
          · rw [if_pos hcolon,if_pos hcolon]
            rfl
          · rw [if_neg hcolon,if_neg hcolon]
            dsimp only
            rw [upper_zero,← ihvalue (if first = true then 0 else above (jsonSkip s))]
            cases parseValue nearest garbage above fuel _ (jsonSkip (jsonSkip rest).tail) with
            | error stop => rfl
            | ok r =>
              rcases r with _ | ⟨child,rest⟩
              · rfl
              · change Except.map _ (ite _ _ _) = ite _ _ _
                rw [← NrHash.copyMembers_set,id]
                split_ifs
                · exact ihmembers false (h.set key child) (jsonSkip rest).tail
                · rfl
                · rfl

/-- The object that is read, up to what stands above an `int`. -/
theorem copy_createFromJson (json : Bytes) :
    (createFromJson nearest garbage above json).map (Option.map NrObj.copy) =
      createFromJson nearest garbage 0 json := by
  unfold createFromJson
  split_ifs
  · rfl
  · rw [← (copy_parse (2*json.length+1)).1 0]
    cases parseValue nearest garbage above (2*json.length+1) 0 (jsonSkip json) with
    | error stop => rfl
    | ok r =>
      rcases r with _ | ⟨rv,next⟩
      · rfl
      · simp only [Except.map,Option.map_some,Prod.map_apply,id]
        split_ifs <;> rfl

end Values
end NroParse
end PhpAgent
