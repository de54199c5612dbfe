import PhpAgent.Util.JsonRoundTrip

/-! How a text in UTF-8 is escaped by `nr_json_escape`, one character after the other. -/
namespace PhpAgent
open Json

/-! ### Code points -/

/-- Shifting in six bits. -/
theorem shift_or {a y : ℕ} (ha : a < 2^26) (hy : y < 64) :
    UInt32.ofNat a <<< 6 ||| UInt32.ofNat y = UInt32.ofNat (a*64+y) := by
  have hshift : (a <<< 6 ||| y) = a*64+y := by
    rw [← Nat.shiftLeft_add_eq_or_of_lt (show y < 2^6 by omega),Nat.shiftLeft_eq]
  apply UInt32.toNat_inj.mp
  have hsix : (6 : UInt32).toNat%32 = 6 := rfl
  rw [UInt32.toNat_or,UInt32.toNat_shiftLeft,UInt32.toNat_ofNat_of_lt' (show a < 2^32 by omega),
    UInt32.toNat_ofNat_of_lt' (show y < 2^32 by omega),
    UInt32.toNat_ofNat_of_lt' (show a*64+y < 2^32 by omega),← hshift,hsix]
  have hlt : a <<< 6 < 2^32 := by
    rw [Nat.shiftLeft_eq]
    omega
  rw [Nat.mod_eq_of_lt hlt]

/-- A byte that continues a sequence. -/
theorem utf8Tail_succ (n : ℕ) {a y : ℕ} (ha : a < 2^26) (hy : y < 64) (rest : Bytes) :
    utf8Tail (n+1) (UInt8.ofNat (y+0x80) :: rest) (UInt32.ofNat a) =
      utf8Tail n rest (UInt32.ofNat (a*64+y)) := by
  have hbyte : ∀ m < 64, UInt8.ofNat (m+0x80) &&& 0xc0 = 0x80 ∧
      (UInt8.ofNat (m+0x80) &&& 0x3f).toUInt32 = UInt32.ofNat m := by decide
  obtain ⟨hkind,hbits⟩ := hbyte y hy
  rw [utf8Tail,if_pos hkind,hbits,shift_or ha hy]

lemma utf8Lead_two : ∀ m < 32, utf8Lead (UInt8.ofNat (m+0xc0)) = some (2,0x1f) ∧
    (UInt8.ofNat (m+0xc0) &&& 0x1f).toUInt32 = UInt32.ofNat m := by decide

lemma utf8Lead_three : ∀ m < 16, utf8Lead (UInt8.ofNat (m+0xe0)) = some (3,0xf) ∧
    (UInt8.ofNat (m+0xe0) &&& 0xf).toUInt32 = UInt32.ofNat m := by decide

lemma utf8Lead_four : ∀ m < 8, utf8Lead (UInt8.ofNat (m+0xf0)) = some (4,0x7) ∧
    (UInt8.ofNat (m+0xf0) &&& 0x7).toUInt32 = UInt32.ofNat m := by decide

/-- The text of a code point outside ASCII. -/
def wideText (n : ℕ) : Bytes :=
  if n < 65536 then unicodeEscape n
  else unicodeEscape (0xd800+(n-0x10000)/1024) ++ unicodeEscape (0xdc00+(n-0x10000)%1024)

variable {n : ℕ}

lemma and_ffff (hn : n < 65536) : (UInt32.ofNat n &&& 0xffff).toNat = n := by
  rw [UInt32.toNat_and,UInt32.toNat_ofNat_of_lt' (show n < 2^32 by omega)]
  exact (Nat.and_two_pow_sub_one_eq_mod n 16).trans (Nat.mod_eq_of_lt hn)

lemma codePointEscape_three {n k : ℕ} (hn : n < 65536) (hk : k ≤ 3) :
    codePointEscape k (UInt32.ofNat n) = some (wideText n) := by
  rw [codePointEscape,if_pos hk,and_ffff hn,wideText,if_pos hn]

lemma codePointEscape_four (hn : 65536 ≤ n) (hmax : n < 0x110000) :
    codePointEscape 4 (UInt32.ofNat n) = some (wideText n) := by
  have hlow : UInt32.ofNat n-0x10000 = UInt32.ofNat (n-0x10000) := by
    apply UInt32.toNat_inj.mp
    rw [UInt32.toNat_sub_of_le,UInt32.toNat_ofNat_of_lt' (show n < 2^32 by omega),
      UInt32.toNat_ofNat_of_lt' (show n-0x10000 < 2^32 by omega)]
    · rfl
    · rw [UInt32.le_iff_toNat_le,UInt32.toNat_ofNat_of_lt' (show n < 2^32 by omega)]
      exact hn
  have hhigh : ((UInt32.ofNat (n-0x10000) >>> 10) &&& 0x3ff) = UInt32.ofNat ((n-0x10000)/1024) := by
    apply UInt32.toNat_inj.mp
    have hten : (10 : UInt32).toNat%32 = 10 := rfl
    rw [UInt32.toNat_and,UInt32.toNat_shiftRight,hten,
      UInt32.toNat_ofNat_of_lt' (show n-0x10000 < 2^32 by omega),
      UInt32.toNat_ofNat_of_lt' (show (n-0x10000)/1024 < 2^32 by omega),Nat.shiftRight_eq_div_pow]
    exact (Nat.and_two_pow_sub_one_eq_mod _ 10).trans (Nat.mod_eq_of_lt (by omega))
  have hrest : (UInt32.ofNat (n-0x10000) &&& 0x3ff) = UInt32.ofNat ((n-0x10000)%1024) := by
    apply UInt32.toNat_inj.mp
    rw [UInt32.toNat_and,UInt32.toNat_ofNat_of_lt' (show n-0x10000 < 2^32 by omega),
      UInt32.toNat_ofNat_of_lt' (show (n-0x10000)%1024 < 2^32 by omega)]
    exact Nat.and_two_pow_sub_one_eq_mod _ 10
  have hadd : ∀ base m : ℕ, base+m < 65536 →
      ((UInt32.ofNat base+UInt32.ofNat m) &&& 0xffff).toNat = base+m := by
    intro base m hlt
    rw [← UInt32.ofNat_add]
    exact and_ffff hlt
  rw [codePointEscape,if_neg (by decide),if_pos rfl,hlow]
  dsimp only
  rw [hhigh,hrest,wideText,if_neg (by omega)]
  have h0 := hadd 0xd800 ((n-0x10000)/1024) (by omega)
  have h1 := hadd 0xdc00 ((n-0x10000)%1024) (by omega)
  have hd800 : (0xd800 : UInt32) = UInt32.ofNat 0xd800 := rfl
  have hdc00 : (0xdc00 : UInt32) = UInt32.ofNat 0xdc00 := rfl
  rw [hd800,hdc00,h0,h1]

/-! ### Characters -/

/-- The text of a character. -/
def escapeText (c : Char) : Bytes :=
  if c.toNat < 128 then (escapeByte (UInt8.ofNat c.toNat) []).1 else wideText c.toNat

lemma escapeByte_of_lt {b : UInt8} (hb : b < 0x80) (rest : Bytes) :
    escapeByte b rest = ((escapeByte b []).1,1) := by
  have hbits : ∀ n < 128, ¬UInt8.ofNat n &&& 0xc0 = 0xc0 := by decide
  have hnot : ¬b &&& 0xc0 = 0xc0 := by
    have hn := hbits b.toNat (UInt8.lt_iff_toNat_lt.mp hb)
    rwa [UInt8.ofNat_toNat] at hn
  unfold escapeByte
  cases shortEscape b with
  | some d => rfl
  | none =>
    dsimp only
    rw [if_neg hnot,if_neg hnot]
    split_ifs
    · rfl
    · rfl

lemma lead_byte : ∀ n < 64, shortEscape (UInt8.ofNat (n+0xc0)) = none ∧
    UInt8.ofNat (n+0xc0) &&& 0xc0 = 0xc0 := by decide

/-- One round over a sequence of more than one byte. -/
theorem escapeByte_wide {l m k : ℕ} {mask : UInt8} {tail : Bytes} {v : UInt32} {text : Bytes}
    (hl : l < 64) (hlead : utf8Lead (UInt8.ofNat (l+0xc0)) = some (k,mask))
    (hmask : (UInt8.ofNat (l+0xc0) &&& mask).toUInt32 = UInt32.ofNat m)
    (htail : utf8Tail (k-1) tail (UInt32.ofNat m) = some v)
    (htext : codePointEscape k v = some text) : escapeByte (UInt8.ofNat (l+0xc0)) tail = (text,k) := by
  obtain ⟨hshort,hbits⟩ := lead_byte l hl
  have hescape : utf8Escape (UInt8.ofNat (l+0xc0)) tail = some (text,k) := by
    unfold utf8Escape
    rw [hlead]
    change (utf8Tail (k-1) tail (UInt8.ofNat (l+0xc0) &&& mask).toUInt32).bind _ = _
    rw [hmask,htail]
    change (codePointEscape k v).bind _ = _
    rw [htext]
    rfl
  unfold escapeByte
  rw [hshort]
  dsimp only
  rw [if_pos hbits,hescape]
  rfl

lemma escapeByte_two (h : n < 0x800) (rest : Bytes) :
    escapeByte (UInt8.ofNat (n/64%32+0xc0)) (UInt8.ofNat (n%64+0x80) :: rest) = (wideText n,2) := by
  obtain ⟨hlead,hmask⟩ := utf8Lead_two (n/64%32) (by omega)
  have htail : utf8Tail 1 (UInt8.ofNat (n%64+0x80) :: rest) (UInt32.ofNat (n/64%32)) =
      some (UInt32.ofNat n) := by
    have hn : n/64%32*64+n%64 = n := by omega
    rw [utf8Tail_succ 0 (by omega) (by omega),utf8Tail,hn]
  exact escapeByte_wide (by omega) hlead hmask htail (codePointEscape_three (by omega) (by omega))

lemma escapeByte_three (h : n < 65536) (rest : Bytes) : escapeByte (UInt8.ofNat (n/4096%16+0xe0))
      (UInt8.ofNat (n/64%64+0x80) :: UInt8.ofNat (n%64+0x80) :: rest) = (wideText n,3) := by
  obtain ⟨hlead,hmask⟩ := utf8Lead_three (n/4096%16) (by omega)
  have htail : utf8Tail 2 (UInt8.ofNat (n/64%64+0x80) :: UInt8.ofNat (n%64+0x80) :: rest)
      (UInt32.ofNat (n/4096%16)) = some (UInt32.ofNat n) := by
    have hn : (n/4096%16*64+n/64%64)*64+n%64 = n := by omega
    rw [utf8Tail_succ 1 (by omega) (by omega),utf8Tail_succ 0 (by omega) (by omega),utf8Tail,hn]
  have hsplit : n/4096%16+0xe0 = (n/4096%16+0x20)+0xc0 := by omega
  rw [hsplit] at hlead hmask ⊢
  exact escapeByte_wide (by omega) hlead hmask htail (codePointEscape_three h (by omega))

lemma escapeByte_four (h : 65536 ≤ n) (hmax : n < 0x110000) (rest : Bytes) :
    escapeByte (UInt8.ofNat (n/262144%8+0xf0))
      (UInt8.ofNat (n/4096%64+0x80) :: UInt8.ofNat (n/64%64+0x80) :: UInt8.ofNat (n%64+0x80) :: rest) =
        (wideText n,4) := by
  obtain ⟨hlead,hmask⟩ := utf8Lead_four (n/262144%8) (by omega)
  have htail : utf8Tail 3 (UInt8.ofNat (n/4096%64+0x80) :: UInt8.ofNat (n/64%64+0x80) ::
      UInt8.ofNat (n%64+0x80) :: rest) (UInt32.ofNat (n/262144%8)) = some (UInt32.ofNat n) := by
    have hn : ((n/262144%8*64+n/4096%64)*64+n/64%64)*64+n%64 = n := by omega
    rw [utf8Tail_succ 2 (by omega) (by omega),utf8Tail_succ 1 (by omega) (by omega),
      utf8Tail_succ 0 (by omega) (by omega),utf8Tail,hn]
  have hsplit : n/262144%8+0xf0 = (n/262144%8+0x30)+0xc0 := by omega
  rw [hsplit] at hlead hmask ⊢
  exact escapeByte_wide (by omega) hlead hmask htail (codePointEscape_four h hmax)

/-- The escape of a character in front of a text. -/
theorem escapeBytes_char (c : Char) (rest : Bytes) :
    escapeBytes 0 (String.utf8EncodeChar c ++ rest) = escapeText c ++ escapeBytes 0 rest := by
  have hskip : ∀ (bs : Bytes), escapeBytes bs.length (bs ++ rest) = escapeBytes 0 rest := by
    intro bs
    induction bs with
    | nil => rfl
    | cons b bs ih => exact ih
  have hround : ∀ (b : UInt8) (bs text : Bytes), escapeByte b (bs ++ rest) = (text,bs.length+1) →
      escapeBytes 0 (b :: bs ++ rest) = text ++ escapeBytes 0 rest := by
    intro b bs text h
    rw [List.cons_append,escapeBytes,h]
    simp only [Nat.add_sub_cancel]
    rw [hskip]
  have hmax : c.toNat < 0x110000 := by
    have hvalid : c.toNat.isValidChar := c.valid
    rcases hvalid with h | h <;> omega
  unfold escapeText
  split_ifs with hascii
  · rw [utf8EncodeChar_of_lt hascii]
    apply hround
    apply escapeByte_of_lt
    rw [UInt8.lt_iff_toNat_lt,UInt8.toNat_ofNat_of_lt' (show c.toNat < 256 by omega)]
    exact hascii
  · have hbig : ¬c.val.toNat ≤ 0x7f := fun h => hascii (Nat.lt_succ_of_le h)
    have hval : c.val.toNat = c.toNat := rfl
    rw [String.utf8EncodeChar,if_neg hbig,hval]
    split_ifs with htwo hthree
    · exact hround _ [_] _ (escapeByte_two (by omega) rest)
    · exact hround _ [_,_] _ (escapeByte_three (by omega) rest)
    · exact hround _ [_,_,_] _ (escapeByte_four (by omega) hmax rest)

lemma escapeBytes_utf8 (cs : List Char) : escapeBytes 0 (utf8 cs) = cs.flatMap escapeText := by
  induction cs with
  | nil => rfl
  | cons c cs ih =>
    rw [utf8,List.flatMap_cons,escapeBytes_char,List.flatMap_cons]
    exact congrArg _ ih

/-- What stands for an ASCII character: a backslash and a letter, four digits, or itself. -/
theorem escapeText_ascii {c : Char} (h : c.toNat < 128) :
    (∃ d, shortEscape (UInt8.ofNat c.toNat) = some d ∧ escapeText c = [code '\\',d]) ∨
      escapeText c = unicodeEscape c.toNat ∨
      (escapeText c = [UInt8.ofNat c.toNat] ∧ 0x1f < UInt8.ofNat c.toNat ∧
        UInt8.ofNat c.toNat ≠ code '\\' ∧ UInt8.ofNat c.toNat ≠ code '"') := by
  have hnat : (UInt8.ofNat c.toNat).toNat = c.toNat :=
    UInt8.toNat_ofNat_of_lt' (show c.toNat < 256 by omega)
  have hbits : ∀ n < 128, ¬UInt8.ofNat n &&& 0xc0 = 0xc0 := by decide
  unfold escapeText
  rw [if_pos h,escapeByte]
  cases hshort : shortEscape (UInt8.ofNat c.toNat) with
  | some d => exact .inl ⟨d,rfl,rfl⟩
  | none =>
    right
    dsimp only
    rw [if_neg (hbits c.toNat h)]
    split_ifs with hcontrol
    · left
      rw [hnat]
    · right
      rw [not_or,UInt8.not_le] at hcontrol
      have hnone : shortEscape (code '\\') ≠ none ∧ shortEscape (code '"') ≠ none := by decide
      refine ⟨rfl,hcontrol.1,?_,?_⟩
      · intro heq
        exact hnone.1 (heq ▸ hshort)
      · intro heq
        exact hnone.2 (heq ▸ hshort)

lemma escapeText_wide {c : Char} (h : ¬c.toNat < 128) : escapeText c = wideText c.toNat := if_neg h

lemma shortEscape_value : ∀ n < 128, ∀ d ∈ shortEscape (UInt8.ofNat n),
    shortValue d = UInt8.ofNat n ∧ d ≠ code 'u' := by
  intro n _ d hd
  have hall : (shortEscapes.all fun e => shortValue e.2 == e.1 && e.2 != code 'u') = true := rfl
  have hpair := List.all_eq_true.mp hall _ (mem_shortEscapes hd)
  rwa [Bool.and_eq_true,beq_iff_eq,bne_iff_ne] at hpair

/-! ### Reading back -/

lemma unescape_escapeText (c : Char) (rest : Bytes) :
    unescape 0 (escapeText c ++ rest) = String.utf8EncodeChar c ++ unescape 0 rest := by
  by_cases hascii : c.toNat < 128
  · obtain ⟨d,hd,htext⟩ | htext | ⟨htext,hlow,hslash,hquote⟩ := escapeText_ascii hascii
    · obtain ⟨hvalue,hu⟩ := shortEscape_value c.toNat hascii d hd
      have hunit : codeUnit (code '\\' :: ([d] ++ rest)) = none := by
        unfold codeUnit
        split
        · rename_i heq
          cases heq
          exact if_neg fun hand => hu hand.2
        · rfl
      have hround : unescapeAt (code '\\') ([d] ++ rest) = ([UInt8.ofNat c.toNat],[d].length+1) := by
        rw [unescapeAt,if_pos rfl,hunit]
        simp [hvalue]
      rw [htext,utf8EncodeChar_of_lt hascii]
      exact unescape_piece hround
    · rw [htext]
      exact unescape_unicode (by omega) rest
    · have hlt : UInt8.ofNat c.toNat < 0x80 := by
        rw [UInt8.lt_iff_toNat_lt,UInt8.toNat_ofNat_of_lt' (show c.toNat < 256 by omega)]
        exact hascii
      have hround : unescapeAt (UInt8.ofNat c.toNat) ([] ++ rest) =
          ([UInt8.ofNat c.toNat],([] : Bytes).length+1) := by
        rw [unescapeAt,if_neg hslash,if_pos hlt]
        rfl
      rw [htext,utf8EncodeChar_of_lt hascii]
      exact unescape_piece hround
  · rw [escapeText_wide hascii,wideText]
    split_ifs with hplane
    · exact unescape_unicode hplane rest
    · rw [List.append_assoc]
      exact unescape_pair (Nat.not_lt.mp hplane) rest

/-- A text in UTF-8 that was escaped reads as itself. -/
theorem stringValue_jsonEscape (cs : List Char) :
    stringValue (jsonEscape (utf8 cs)) = some (utf8 cs) := by
  rw [jsonEscape,Json.stringValue_quoted (plain_escapeBytes _ 0),escapeBytes_utf8]
  congr 1
  induction cs with
  | nil => rfl
  | cons c cs ih =>
    rw [List.flatMap_cons,unescape_escapeText,ih]
    rfl

end PhpAgent
