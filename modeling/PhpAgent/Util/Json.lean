import PhpAgent.Segment.Data

/-! The JSON texts of strings, numbers, objects and string pools, after `util_json.c`,
`util_object.c`, `util_number_converter.c` and `util_string_pool.c`. -/
namespace PhpAgent
open Json

/-! ### Strings -/

/-- The digit `%x` prints. -/
def hexDigit (n : ℕ) : UInt8 := code (Nat.digitChar (n%16))

/-- `\u%04x` of a value below 2^16. -/
def unicodeEscape (n : ℕ) : Bytes :=
  [code '\\',code 'u',hexDigit (n/4096),hexDigit (n/256),hexDigit (n/16),hexDigit n]

/-- The length of a UTF-8 sequence and the payload bits of its leading byte. -/
def utf8Lead (b : UInt8) : Option (ℕ × UInt8) :=
  if b &&& 0xe0 = 0xc0 then some (2,0x1f)
  else if b &&& 0xf0 = 0xe0 then some (3,0xf)
  else if b &&& 0xf8 = 0xf0 then some (4,0x7)
  else if b &&& 0xfc = 0xf8 then some (5,0x3)
  else if b &&& 0xfe = 0xfc then some (6,0x1)
  else none

/-- Shift in the continuation bytes; a byte of another kind, or the end, is a fault. -/
def utf8Tail : ℕ → Bytes → UInt32 → Option UInt32
  | 0, _, codePoint => some codePoint
  | _+1, [], _ => none
  | n+1, b :: rest, codePoint =>
    if b &&& 0xc0 = 0x80 then utf8Tail n rest (codePoint <<< 6 ||| (b &&& 0x3f).toUInt32)
    else none

/-- The text of a code point that took `nbytes` bytes; five and six bytes are not supported. -/
def codePointEscape (nbytes : ℕ) (codePoint : UInt32) : Option Bytes :=
  if nbytes ≤ 3 then some (unicodeEscape (codePoint &&& 0xffff).toNat)
  else if nbytes = 4 then
    let low : UInt32 := codePoint-0x10000
    let surrogate0 := (0xd800 : UInt32)+((low >>> 10) &&& 0x3ff)
    let surrogate1 := (0xdc00 : UInt32)+(low &&& 0x3ff)
    some (unicodeEscape (surrogate0 &&& 0xffff).toNat ++ unicodeEscape (surrogate1 &&& 0xffff).toNat)
  else none

/-- A UTF-8 sequence: its text and its length. -/
def utf8Escape (b : UInt8) (rest : Bytes) : Option (Bytes × ℕ) := do
  let (nbytes,mask) ← utf8Lead b
  let codePoint ← utf8Tail (nbytes-1) rest (b &&& mask).toUInt32
  let text ← codePointEscape nbytes codePoint
  return (text,nbytes)

/-- The characters with an escape of their own. -/
def shortEscape (b : UInt8) : Option UInt8 :=
  if b = code '"' then some (code '"')
  else if b = 0x0a then some (code 'n')
  else if b = 0x0d then some (code 'r')
  else if b = 0x0c then some (code 'f')
  else if b = 0x08 then some (code 'b')
  else if b = 0x09 then some (code 't')
  else if b = code '\\' then some (code '\\')
  else if b = code '/' then some (code '/')
  else none

/-- One round of the loop: the text and how many bytes it took. A byte that is not the start of a
sequence is written as the code point of the same number. -/
def escapeByte (b : UInt8) (rest : Bytes) : Bytes × ℕ :=
  match shortEscape b with
  | some c => ([code '\\',c],1)
  | none =>
    if b &&& 0xc0 = 0xc0 then
      (utf8Escape b rest).getD (unicodeEscape b.toNat,1)
    else if b ≤ 0x1f ∨ 0x7f ≤ b then (unicodeEscape b.toNat,1)
    else ([b],1)

/-- The loop of `nr_json_escape`; `skip` bytes have been taken already. -/
def escapeBytes : ℕ → Bytes → Bytes
  | _, [] => []
  | skip+1, _ :: rest => escapeBytes skip rest
  | 0, b :: rest =>
    let (text,n) := escapeByte b rest
    text ++ escapeBytes (n-1) rest

def jsonEscape (json : Bytes) : Bytes := quoted (escapeBytes 0 json)

/-! ### Numbers and objects -/

/-- `%d` and `%lld`. -/
def intToStr (i : ℤ) : Bytes :=
  if i < 0 then code '-' :: decimal i.natAbs else decimal i.natAbs

/-- `nr_double_to_str`, which is `%.5f`. -/
def doubleToStr (d : Double) : Bytes := d.text 5

mutual

/-- `recursive_obj_to_json`. -/
def NrObj.toJson : NrObj → Bytes
  | .none => ascii "null"
  | .boolean b => if b then ascii "true" else ascii "false"
  | .int i _ => intToStr i
  | .long i => intToStr i
  | .ulong n => decimal n
  | .double d => doubleToStr d
  | .string s => jsonEscape s
  | .jstring s => s
  | .hash entries => 0x7b :: ([code ','].intercalate (membersToJson entries) ++ [0x7d])
  | .array elements => code '[' :: ([code ','].intercalate (elementsToJson elements) ++ [code ']'])

/-- The members of a hash, one text each. -/
def membersToJson : List (Bytes × NrObj) → List Bytes
  | [] => []
  | (key,value) :: rest => (jsonEscape key ++ code ':' :: value.toJson) :: membersToJson rest

/-- The elements of an array, one text each. -/
def elementsToJson : List NrObj → List Bytes
  | [] => []
  | value :: rest => value.toJson :: elementsToJson rest

end

/-- `nr_string_pool_to_json`. -/
def StringPool.toJson (pool : StringPool) : Bytes :=
  code '[' :: ([code ','].intercalate (pool.map jsonEscape) ++ [code ']'])

/-! ### All these texts are JSON -/

lemma isHex_hexDigit (n : ℕ) : isHex (hexDigit n) = true := by
  have h : n%16 < 16 := Nat.mod_lt _ (by decide)
  unfold hexDigit
  interval_cases n%16 <;> rfl

lemma plain_unicodeEscape (n : ℕ) : Plain (unicodeEscape n) :=
  plain_unicode (isHex_hexDigit _) (isHex_hexDigit _) (isHex_hexDigit _) (isHex_hexDigit _)

lemma plain_codePointEscape {nbytes : ℕ} {codePoint : UInt32} {text : Bytes}
    (h : codePointEscape nbytes codePoint = some text) : Plain text := by
  unfold codePointEscape at h
  split_ifs at h
  · cases h
    exact plain_unicodeEscape _
  · cases h
    exact (plain_unicodeEscape _).append (plain_unicodeEscape _)

lemma plain_utf8Escape {b : UInt8} {rest text : Bytes} {n : ℕ}
    (h : utf8Escape b rest = some (text,n)) : Plain text := by
  unfold utf8Escape at h
  obtain ⟨⟨nbytes,mask⟩,-,h⟩ := Option.bind_eq_some_iff.mp h
  obtain ⟨codePoint,-,h⟩ := Option.bind_eq_some_iff.mp h
  obtain ⟨text',htext,h⟩ := Option.bind_eq_some_iff.mp h
  cases h
  exact plain_codePointEscape htext

/-- The bytes with an escape of two bytes, and its letter. -/
def shortEscapes : List (UInt8 × UInt8) :=
  [(code '"',code '"'),(0x0a,code 'n'),(0x0d,code 'r'),(0x0c,code 'f'),(0x08,code 'b'),(0x09,code 't'),
    (code '\\',code '\\'),(code '/',code '/')]

lemma mem_shortEscapes {b c : UInt8} (h : shortEscape b = some c) : (b,c) ∈ shortEscapes := by
  unfold shortEscape at h
  split_ifs at h with h₁ h₂ h₃ h₄ h₅ h₆ h₇ h₈ <;> cases h <;> subst b <;> decide

lemma shortEscape_spec {b c : UInt8} (h : shortEscape b = some c) : Plain [code '\\',c] := by
  apply plain_escape
  unfold shortEscape at h
  split_ifs at h <;> cases h <;> decide

lemma plain_escapeByte (b : UInt8) (rest : Bytes) : Plain (escapeByte b rest).1 := by
  unfold escapeByte
  cases hs : shortEscape b with
  | some c => exact shortEscape_spec hs
  | none =>
    simp only
    split_ifs with hlead hlow
    · cases hu : utf8Escape b rest with
      | none => exact plain_unicodeEscape _
      | some r => exact plain_utf8Escape hu
    · exact plain_unicodeEscape _
    · rw [not_or] at hlow
      apply plain_byte
      · intro hlt
        apply hlow.1
        rw [UInt8.le_iff_toNat_le]
        rw [UInt8.lt_iff_toNat_lt] at hlt
        exact Nat.le_of_lt_succ hlt
      · rintro rfl
        cases hs
      · rintro rfl
        cases hs

lemma plain_escapeBytes (json : Bytes) (skip : ℕ) : Plain (escapeBytes skip json) := by
  induction json generalizing skip with
  | nil =>
    cases skip <;> exact .nil
  | cons b rest ih =>
    cases skip with
    | zero => exact (plain_escapeByte b rest).append (ih _)
    | succ skip => exact ih skip

lemma accepts_jsonEscape (json : Bytes) : accepts (jsonEscape json) = true :=
  accepts_quoted (plain_escapeBytes json 0)

lemma accepts_intToStr (i : ℤ) : accepts (intToStr i) = true := by
  unfold intToStr
  split_ifs
  · exact accepts_minus_decimal _
  · exact accepts_decimal _

lemma accepts_doubleToStr {d : Double} (h : d.IsFinite) : accepts (doubleToStr d) = true :=
  Double.accepts_text h (by decide)

mutual

/-- The raw texts inside an object are JSON, and its doubles are finite. -/
def NrObj.Printable : NrObj → Prop
  | .jstring s => accepts s = true
  | .double d => d.IsFinite
  | .hash entries => MembersPrintable entries
  | .array elements => ElementsPrintable elements
  | _ => True

def MembersPrintable : List (Bytes × NrObj) → Prop
  | [] => True
  | (_,value) :: rest => value.Printable ∧ MembersPrintable rest

def ElementsPrintable : List NrObj → Prop
  | [] => True
  | value :: rest => value.Printable ∧ ElementsPrintable rest

end

mutual

lemma NrObj.accepts_toJson : (o : NrObj) → o.Printable → accepts o.toJson = true
  | .none, _ => rfl
  | .boolean true, _ => rfl
  | .boolean false, _ => rfl
  | .int i _, _ => accepts_intToStr i
  | .long i, _ => accepts_intToStr i
  | .ulong n, _ => accepts_decimal n
  | .double _, h => accepts_doubleToStr h
  | .string s, _ => accepts_jsonEscape s
  | .jstring _, h => h
  | .hash entries, h => accepts_bracket (f := .obj) (content_of_forall (content_membersToJson entries h))
  | .array elements, h =>
    accepts_bracket (f := .arr) (content_of_forall (content_elementsToJson elements h))

lemma content_membersToJson : (entries : List (Bytes × NrObj)) → MembersPrintable entries →
    ∀ b ∈ membersToJson entries, Content .obj b
  | [], _, b, hb => by cases hb
  | (key,value) :: rest, h, b, hb => by
    rcases List.mem_cons.mp hb with rfl | hb
    · exact content_member (plain_escapeBytes key 0) (value.accepts_toJson h.1)
    · exact content_membersToJson rest h.2 b hb

lemma content_elementsToJson : (elements : List NrObj) → ElementsPrintable elements →
    ∀ b ∈ elementsToJson elements, Content .arr b
  | [], _, b, hb => by cases hb
  | value :: rest, h, b, hb => by
    rcases List.mem_cons.mp hb with rfl | hb
    · exact content_of_accepts (value.accepts_toJson h.1)
    · exact content_elementsToJson rest h.2 b hb

end

lemma StringPool.accepts_toJson (pool : StringPool) : accepts pool.toJson = true := by
  apply accepts_bracket (f := .arr)
  apply content_of_forall
  intro b hb
  obtain ⟨s,-,rfl⟩ := List.mem_map.mp hb
  exact content_of_accepts (accepts_jsonEscape s)

end PhpAgent
