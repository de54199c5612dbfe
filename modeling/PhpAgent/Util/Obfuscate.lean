import PhpAgent.Util.Base64

/-! Obfuscation of header values, after `util_obfuscate.c`. Lengths, `int`s of the source, are numbers
here. -/
namespace PhpAgent
open Base64

/-- `nr_header_validate_encoded_string`. -/
def headerValidateEncodedString (encodedString : Bytes) : Bool :=
  encodedString ≠ [] ∧ encodedString.all isValidCharacter = true

namespace Obfuscate

/-- The loops, from an index on: each byte with the byte of the key at its place, the key over and
over. Behind the NUL of the key there is nothing to read. -/
def xoredFrom (key : Bytes) (klen : ℕ) : ℕ → Bytes → Option Bytes
  | _,[] => some []
  | i,c :: str => do
    let k ← (key ++ [0])[i % klen]?
    let out ← xoredFrom key klen (i + 1) str
    return (c ^^^ k) :: out

/-- The number of bytes of the key that are used. -/
def klen (key : Bytes) (keylen : ℤ) : ℕ := if keylen = 0 then key.length else keylen.toNat

/-- The arguments that are refused. -/
def refuses (str key : Bytes) (keylen : ℤ) : Prop := str = [] ∨ key = [] ∨ keylen < 0

instance (str key : Bytes) (keylen : ℤ) : Decidable (refuses str key keylen) := by
  unfold refuses
  infer_instance

/-- `nr_obfuscate`. -/
def obfuscate (str key : Bytes) (keylen : ℤ) : Option Bytes :=
  if refuses str key keylen then none else (xoredFrom key (klen key keylen) 0 str).bind b64Encode

/-- `nr_deobfuscate`. The result is read as a string, up to its first NUL. -/
def deobfuscate (str key : Bytes) (keylen : ℤ) : Option Bytes :=
  if refuses str key keylen then none
  else do
    let decoded ← b64Decode str
    if decoded.length = 0 then none
    else
      let out ← xoredFrom key (klen key keylen) 0 decoded
      return cstr (out ++ [0])

variable {str key : Bytes} {keylen : ℤ}

lemma klen_bounds (hkey : key ≠ []) (hlow : 0 ≤ keylen) (hhigh : keylen ≤ key.length) :
    0 < klen key keylen ∧ klen key keylen ≤ key.length := by
  have hpos := List.length_pos_of_ne_nil hkey
  unfold klen
  split_ifs
  · exact ⟨hpos,le_rfl⟩
  · omega

/-- A text goes through the loop, and a second time gives it back. -/
theorem xoredFrom_twice {n : ℕ} (hpos : 0 < n) (hle : n ≤ key.length) (i : ℕ) (str : Bytes) :
    ∃ out, xoredFrom key n i str = some out ∧ out.length = str.length ∧
      xoredFrom key n i out = some str := by
  induction str generalizing i with
  | nil => exact ⟨[],rfl,rfl,rfl⟩
  | cons c str ih =>
    obtain ⟨out,hout,hlen,hback⟩ := ih (i + 1)
    have hread : i % n < (key ++ [0]).length := by
      have hmod := Nat.mod_lt i hpos
      rw [List.length_append]
      omega
    obtain ⟨k,hk⟩ : ∃ k, (key ++ [0])[i % n]? = some k := ⟨_,List.getElem?_eq_getElem hread⟩
    refine ⟨(c ^^^ k) :: out,?_,by rw [List.length_cons,hlen,List.length_cons],?_⟩
    · simp [xoredFrom,hk,hout]
    · simp [xoredFrom,hk,hback,UInt8.xor_assoc]

/-- A string is read back under the same key, of which any part or all may be used, and what is sent
passes the check of an encoded string. This is because base 64 gives back every text of bytes. -/
theorem deobfuscate_obfuscate (str key : Bytes) (keylen : ℤ) (hstr : str ≠ []) (hnul : 0 ∉ str)
    (hkey : key ≠ []) (hlow : 0 ≤ keylen) (hhigh : keylen ≤ key.length) :
    (∃ encoded, obfuscate str key keylen = some encoded ∧
      headerValidateEncodedString encoded = true ∧ deobfuscate encoded key keylen = some str) ∧
    ∀ data, data ≠ [] → (b64Encode data).bind b64Decode = some data := by
  refine ⟨?_,fun data hdata => ?_⟩
  · obtain ⟨hpos,hle⟩ := klen_bounds hkey hlow hhigh
    obtain ⟨out,hout,hlen,hback⟩ := xoredFrom_twice hpos hle 0 str
    have hne : out ≠ [] := by
      intro hnil
      rw [hnil] at hlen
      exact hstr (List.length_eq_zero_iff.mp hlen.symm)
    have haccepts : ∀ {s : Bytes}, s ≠ [] → ¬refuses s key keylen := by
      intro s hs hrefuses
      obtain h | h | h := hrefuses
      · exact hs h
      · exact hkey h
      · omega
    obtain ⟨encoded,hencode,hsome,hvalid,hdecode⟩ := b64_roundTrip hne
    refine ⟨encoded,?_,?_,?_⟩
    · rw [obfuscate,if_neg (haccepts hstr),hout,Option.bind_some,hencode]
    · rw [headerValidateEncodedString,decide_eq_true_iff]
      exact ⟨hsome,hvalid⟩
    · simp [deobfuscate,haccepts hsome,hdecode,hne,hback,cstr_append_zero hnul]
  · obtain ⟨text,hencode,-,-,hdecode⟩ := b64_roundTrip hdata
    rw [hencode,Option.bind_some,hdecode]

theorem deobfuscate_obfuscate_abc :
    (∃ encoded, obfuscate (ascii "abc") (ascii "ka") 1 = some encoded ∧
      headerValidateEncodedString encoded = true ∧
      deobfuscate encoded (ascii "ka") 1 = some (ascii "abc")) ∧
    ∀ data, data ≠ [] → (b64Encode data).bind b64Decode = some data :=
  deobfuscate_obfuscate (ascii "abc") (ascii "ka") 1 (by decide) (by decide +kernel) (by decide) (by decide)
    (by decide)

end Obfuscate
end PhpAgent
