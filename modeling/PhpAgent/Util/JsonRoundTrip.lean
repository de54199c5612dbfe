import PhpAgent.Lib.JsonDecode
import PhpAgent.Util.Json

/-! Strings the agent writes as JSON are read back: every text in UTF-8 survives `nr_json_escape`. -/
namespace PhpAgent
open Json

/-- A text in UTF-8. -/
def utf8 (cs : List Char) : Bytes := cs.flatMap String.utf8EncodeChar

/-! ### What the reader makes of an escape -/

lemma hexValue_hexDigit (n : ℕ) : hexValue (hexDigit n) = n%16 := by
  have h : ∀ m < 16, hexValue (code (Nat.digitChar m)) = m := by decide
  exact h _ (Nat.mod_lt _ (by decide))

lemma codeUnit_unicodeEscape {n : ℕ} (hn : n < 65536) (rest : Bytes) :
    codeUnit (unicodeEscape n ++ rest) = some n := by
  have hvalue : hexValue4 (hexDigit (n/4096)) (hexDigit (n/256)) (hexDigit (n/16)) (hexDigit n) = n := by
    simp only [hexValue4,hexValue_hexDigit]
    omega
  simp [unicodeEscape,codeUnit,hvalue]

lemma unescape_drop (b rest : Bytes) : unescape b.length (b ++ rest) = unescape 0 rest := by
  induction b with
  | nil => rfl
  | cons c b ih => exact ih

/-- One round of the reader over a piece of the text. -/
theorem unescape_piece {c : UInt8} {b rest text : Bytes}
    (h : unescapeAt c (b ++ rest) = (text,b.length+1)) :
    unescape 0 (c :: b ++ rest) = text ++ unescape 0 rest := by
  rw [List.cons_append,unescape,h]
  simp only [Nat.add_sub_cancel]
  rw [unescape_drop]

lemma encodeRune_eq (c : Char) : encodeRune c.toNat = String.utf8EncodeChar c := by
  have hvalid : c.toNat.isValidChar := c.valid
  rw [encodeRune,if_pos hvalid,Char.ofNat_toNat]

variable {c : Char}

lemma unescape_unicode (hlow : c.toNat < 65536) (rest : Bytes) :
    unescape 0 (unicodeEscape c.toNat ++ rest) = String.utf8EncodeChar c ++ unescape 0 rest := by
  have hsurr : isSurrogate c.toNat = false := by
    have hvalid : c.toNat.isValidChar := c.valid
    simp only [isSurrogate,Bool.and_eq_false_iff,decide_eq_false_iff_not]
    rcases hvalid with h | h
    · exact .inl (by omega)
    · exact .inr (by omega)
  have hunit := codeUnit_unicodeEscape hlow rest
  unfold unicodeEscape at hunit ⊢
  apply unescape_piece
  rw [unescapeAt,if_pos rfl]
  rw [List.cons_append] at hunit
  rw [hunit]
  simp [hsurr,encodeRune_eq]

/-- Two code units that make up one code point. -/
theorem unescape_units {n m r : ℕ} (hn : n < 65536) (hm : m < 65536) (hsurr : isSurrogate n = true)
    (hpair : pairRune n m = some r) (rest : Bytes) :
    unescape 0 (unicodeEscape n ++ (unicodeEscape m ++ rest)) = encodeRune r ++ unescape 0 rest := by
  have hunit := codeUnit_unicodeEscape hn (unicodeEscape m ++ rest)
  have hunit' := codeUnit_unicodeEscape hm rest
  obtain ⟨x,hx⟩ : ∃ x, unicodeEscape n = code '\\' :: x ∧ x.length = 5 := ⟨_,rfl,rfl⟩
  have hlen : (unicodeEscape m).length = 6 := rfl
  rw [hx.1,List.cons_append] at hunit
  rw [hx.1,List.cons_append,← List.append_assoc,← List.cons_append]
  apply unescape_piece
  rw [unescapeAt,if_pos rfl,List.append_assoc,hunit]
  simp only [hsurr,if_true]
  rw [← hx.2,List.drop_left,hunit',Option.bind_some,hpair]
  simp [hx.2,hlen]

lemma unescape_pair (hhigh : 65536 ≤ c.toNat) (rest : Bytes) :
    unescape 0 (unicodeEscape (0xd800+(c.toNat-0x10000)/1024) ++
      (unicodeEscape (0xdc00+(c.toNat-0x10000)%1024) ++ rest)) =
        String.utf8EncodeChar c ++ unescape 0 rest := by
  have hmax : c.toNat < 0x110000 := by
    have hvalid : c.toNat.isValidChar := c.valid
    rcases hvalid with h | h
    · omega
    · exact h.2
  have hpair : pairRune (0xd800+(c.toNat-0x10000)/1024) (0xdc00+(c.toNat-0x10000)%1024) =
      some c.toNat := by
    generalize c.toNat = v at *
    rw [pairRune,if_pos (by omega)]
    congr 1
    omega
  have hsurr : isSurrogate (0xd800+(c.toNat-0x10000)/1024) = true := by
    simp only [isSurrogate,Bool.and_eq_true,decide_eq_true_eq]
    omega
  rw [unescape_units (by omega) (by omega) hsurr hpair,encodeRune_eq]

/-! ### Characters that need no escape -/

lemma utf8EncodeChar_of_lt (h : c.toNat < 128) : String.utf8EncodeChar c = [UInt8.ofNat c.toNat] := by
  have hle : c.val.toNat ≤ 0x7f := Nat.le_of_lt_succ h
  rw [String.utf8EncodeChar,if_pos hle]
  rfl

/-- The bytes of a character outside ASCII. -/
theorem le_of_mem_utf8EncodeChar (h : 128 ≤ c.toNat) {b : UInt8}
    (hb : b ∈ String.utf8EncodeChar c) : 0x80 ≤ b := by
  have hhigh : ∀ n, 128 ≤ n → n < 256 → 0x80 ≤ UInt8.ofNat n := by
    intro n hn hlt
    rw [UInt8.le_iff_toNat_le,UInt8.toNat_ofNat_of_lt' hlt]
    exact hn
  have hlow : ¬c.val.toNat ≤ 0x7f := Nat.not_le_of_lt h
  rw [String.utf8EncodeChar,if_neg hlow] at hb
  split_ifs at hb
  · simp only [List.mem_cons,List.not_mem_nil,or_false] at hb
    rcases hb with rfl | rfl <;> exact hhigh _ (by omega) (by omega)
  · simp only [List.mem_cons,List.not_mem_nil,or_false] at hb
    rcases hb with rfl | rfl | rfl <;> exact hhigh _ (by omega) (by omega)
  · simp only [List.mem_cons,List.not_mem_nil,or_false] at hb
    rcases hb with rfl | rfl | rfl | rfl <;> exact hhigh _ (by omega) (by omega)

/-- A character that stands for itself between the quotes of a string. -/
def PlainChar (c : Char) : Prop := c ≠ '"' ∧ c ≠ '\\' ∧ 0x20 ≤ c.toNat

lemma plain_bytes_utf8EncodeChar (h : PlainChar c) :
    ∀ b ∈ String.utf8EncodeChar c, ¬b < 0x20 ∧ b ≠ code '"' ∧ b ≠ code '\\' := by
  intro b hb
  by_cases hascii : c.toNat < 128
  · rw [utf8EncodeChar_of_lt hascii,List.mem_singleton] at hb
    have hnat : b.toNat = c.toNat := by
      rw [hb,UInt8.toNat_ofNat_of_lt' (show c.toNat < 256 by omega)]
    have hne : ∀ d : Char, d.toNat < 128 → c ≠ d → b ≠ code d := by
      rintro d hd hcd rfl
      apply hcd
      have hcode : (code d).toNat = d.toNat := UInt8.toNat_ofNat_of_lt' (show d.toNat < 256 by omega)
      exact Char.ext (UInt32.toNat_inj.mp (hnat.symm.trans hcode))
    refine ⟨?_,hne '"' (by decide) h.1,hne '\\' (by decide) h.2.1⟩
    rw [UInt8.lt_iff_toNat_lt,hnat]
    exact Nat.not_lt.mpr h.2.2
  · have hhigh := le_of_mem_utf8EncodeChar (Nat.not_lt.mp hascii) hb
    refine ⟨?_,?_,?_⟩
    · exact UInt8.not_lt.mpr (UInt8.le_trans (by decide) hhigh)
    · rintro rfl
      exact absurd hhigh (by decide)
    · rintro rfl
      exact absurd hhigh (by decide)

lemma plain_utf8EncodeChar (h : PlainChar c) : Plain (String.utf8EncodeChar c) := by
  have hbytes : ∀ bs : Bytes, (∀ b ∈ bs, ¬b < 0x20 ∧ b ≠ code '"' ∧ b ≠ code '\\') → Plain bs := by
    intro bs hbs
    induction bs with
    | nil => exact .nil
    | cons b bs ih =>
      obtain ⟨hlow,hquote,hslash⟩ := hbs b List.mem_cons_self
      exact (plain_byte hlow hquote hslash).append (ih fun b' hb' => hbs b' (List.mem_cons_of_mem b hb'))
  exact hbytes _ (plain_bytes_utf8EncodeChar h)

lemma unescape_plainChar (h : PlainChar c) (rest : Bytes) :
    unescape 0 (String.utf8EncodeChar c ++ rest) = String.utf8EncodeChar c ++ unescape 0 rest := by
  have hslash : ∀ b ∈ String.utf8EncodeChar c, b ≠ code '\\' := fun b hb =>
    (plain_bytes_utf8EncodeChar h b hb).2.2
  by_cases hascii : c.toNat < 128
  · rw [utf8EncodeChar_of_lt hascii] at hslash ⊢
    have hlow : UInt8.ofNat c.toNat < 0x80 := by
      rw [UInt8.lt_iff_toNat_lt,UInt8.toNat_ofNat_of_lt' (show c.toNat < 256 by omega)]
      exact hascii
    have hround : unescapeAt (UInt8.ofNat c.toNat) ([] ++ rest) = ([UInt8.ofNat c.toNat],0+1) := by
      rw [unescapeAt,if_neg (hslash _ List.mem_cons_self),if_pos hlow]
    exact unescape_piece hround
  · obtain ⟨b,bs,hbytes⟩ := List.exists_cons_of_ne_nil (String.utf8EncodeChar_ne_nil (c := c))
    have hb : b ∈ String.utf8EncodeChar c := hbytes ▸ List.mem_cons_self
    have hhigh : ¬b < 0x80 := UInt8.not_lt.mpr (le_of_mem_utf8EncodeChar (Nat.not_lt.mp hascii) hb)
    have hdecode : (⟨(b :: (bs ++ rest)).toArray⟩ : ByteArray).utf8DecodeChar? 0 = some c := by
      have happend : (⟨(b :: (bs ++ rest)).toArray⟩ : ByteArray) =
          (String.utf8EncodeChar c).toByteArray ++ ⟨rest.toArray⟩ := by
        apply ByteArray.ext
        simp [hbytes]
      rw [happend]
      exact ByteArray.utf8DecodeChar?_utf8EncodeChar_append
    have hround : unescapeAt b (bs ++ rest) = (String.utf8EncodeChar c,bs.length+1) := by
      have hlength : (String.utf8EncodeChar c).length = bs.length+1 := by rw [hbytes,List.length_cons]
      rw [unescapeAt,if_neg (hslash b hb),if_neg hhigh,hdecode]
      exact congrArg _ hlength
    have hpiece := unescape_piece hround
    rwa [← hbytes] at hpiece

/-- A text of such characters. -/
def PlainText (b : Bytes) : Prop := ∃ cs : List Char, b = utf8 cs ∧ ∀ c ∈ cs, PlainChar c

lemma PlainText.plain {b : Bytes} (h : PlainText b) : Plain b := by
  obtain ⟨cs,rfl,hcs⟩ := h
  induction cs with
  | nil => exact .nil
  | cons c cs ih =>
    exact (plain_utf8EncodeChar (hcs c List.mem_cons_self)).append
      (ih fun d hd => hcs d (List.mem_cons_of_mem c hd))

/-- It reads as itself. -/
theorem PlainText.stringValue_quoted {b : Bytes} (h : PlainText b) : stringValue (quoted b) = some b := by
  rw [Json.stringValue_quoted h.plain]
  congr 1
  obtain ⟨cs,rfl,hcs⟩ := h
  induction cs with
  | nil => rfl
  | cons c cs ih =>
    have hrest := ih fun d hd => hcs d (List.mem_cons_of_mem c hd)
    rw [utf8,List.flatMap_cons,unescape_plainChar (hcs c List.mem_cons_self)]
    exact congrArg _ hrest

end PhpAgent
