import PhpAgent.Lib.Pattern
import PhpAgent.Util.ObjectParse

/-! What the parser of `util_object.c` makes of the numbers and strings that the writer has written. -/
namespace PhpAgent
namespace NroParse

open Json (code isHex hexValue decimal head?_decimal)
open Double (fixed padded digits length_padded isDigit_padded)

/-- What may follow a value. -/
def Follows (rest : Bytes) : Prop := ∀ c ∈ rest.head?, c = code ',' ∨ c = code ']' ∨ c = 0x7d

lemma follows_nil : Follows [] := by simp [Follows]

/-- What ends the digits of a number, and does not make a zero the beginning of another base. -/
def EndsDigits (rest : Bytes) : Prop :=
  ∀ c ∈ rest.head?, Json.isDigit c = false ∧ c ≠ code 'x' ∧ c ≠ code 'X'

lemma endsDigits_cons {c : UInt8} (h : Json.isDigit c = false ∧ c ≠ code 'x' ∧ c ≠ code 'X')
    (s : Bytes) : EndsDigits (c :: s) := fun d hd => by
  cases hd
  exact h

variable {rest : Bytes}

lemma Follows.endsDigits (h : Follows rest) : EndsDigits rest := by
  intro c hc
  rcases h c hc with rfl | rfl | rfl <;> decide

/-! ### Numbers -/

lemma hexValue_lt_ten {d : UInt8} (h : Json.isDigit d = true) : hexValue d < 10 := by
  rw [hexValue,if_pos h]
  simp only [Json.isDigit,Bool.and_eq_true,decide_eq_true_eq,UInt8.le_iff_toNat_le] at h
  have hle : d.toNat ≤ 57 := h.2
  omega

lemma valueOf_ten {ds : Bytes} (hds : ∀ d ∈ ds, Json.isDigit d = true) :
    valueOf 10 ds = Json.digitsValue ds := by
  have hfold : ∀ n, ds.foldl (fun n d => 10*n+hexValue d) n =
      ds.foldl (fun n d => 10*n+(d.toNat-0x30)) n := by
    induction ds with
    | nil => exact fun n => rfl
    | cons d ds ih =>
      intro n
      have hd : hexValue d = d.toNat-0x30 := if_pos (hds d List.mem_cons_self)
      rw [List.foldl_cons,List.foldl_cons,hd]
      exact ih (fun x hx => hds x (List.mem_cons_of_mem d hx)) _
  exact hfold 0

variable {n : ℕ}

lemma EndsDigits.isDigitOf (h : EndsDigits rest) {base : ℕ} (hbase : base ≤ 10) :
    ∀ c ∈ rest.head?, isDigitOf base c = false := by
  intro c hc
  have hne : base ≠ 16 := by omega
  rw [NroParse.isDigitOf,if_neg hne,(h c hc).1]
  rfl

lemma hasHexPrefix_decimal (n : ℕ) (hrest : EndsDigits rest) : hasHexPrefix (decimal n ++ rest) = false := by
  by_cases hn : n = 0
  · have hzero : decimal 0 = [code '0'] := rfl
    rw [hn,hzero]
    cases rest with
    | nil => rfl
    | cons c rest => simp [hasHexPrefix,(hrest c rfl).2]
  · have hhead := head?_decimal hn
    rw [hasHexPrefix,decide_eq_false_iff_not,List.head?_append_of_ne_nil _ (Json.decimal_ne_nil n)]
    exact fun h => hhead h.1

lemma isDigitOf_ten {d : UInt8} (h : Json.isDigit d = true) : isDigitOf 10 d = true := by
  simp [isDigitOf,h,hexValue_lt_ten h]

/-- The digits of a number without its sign, in front of something else. -/
theorem baseOf_decimal (n : ℕ) (hrest : EndsDigits rest) :
    ∃ base ≤ 10, baseOf (decimal n ++ rest) = (base,decimal n ++ rest) ∧
      (∀ d ∈ decimal n, isDigitOf base d = true) ∧ valueOf base (decimal n) = n := by
  have hx := hasHexPrefix_decimal n hrest
  by_cases hn : n = 0
  · subst hn
    refine ⟨8,by omega,?_,by decide +kernel,by decide +kernel⟩
    rw [baseOf,hx]
    rfl
  · have hhead : (decimal n ++ rest).head? ≠ some (code '0') := by
      rw [List.head?_append_of_ne_nil _ (Json.decimal_ne_nil n)]
      exact head?_decimal hn
    refine ⟨10,le_refl _,?_,fun d hd => isDigitOf_ten (Json.isDigit_decimal n d hd),?_⟩
    · rw [baseOf,hx,if_neg (by decide),if_neg hhead]
    · rw [valueOf_ten (Json.isDigit_decimal n),Json.digitsValue_decimal]

/-- `strtol` over digits, in front of something else. -/
theorem strtol_digits {num ds rest : Bytes} {base : ℕ}
    (hsign : (if num.head? = some (code '-') then num.tail else num) = ds ++ rest)
    (hbase : baseOf (ds ++ rest) = (base,ds ++ rest))
    (htake : (ds ++ rest).takeWhile (isDigitOf base) = ds) (hne : ds ≠ []) :
    strtol num = (toLong (num.head? = some (code '-')) (valueOf base ds),rest) := by
  unfold strtol
  dsimp only
  rw [hsign,hbase]
  dsimp only
  rw [htake,if_neg hne,List.drop_left]

lemma head?_decimal_append (n : ℕ) (rest : Bytes) : (decimal n ++ rest).head? ≠ some (code '-') := by
  intro h
  rw [List.head?_append_of_ne_nil _ (Json.decimal_ne_nil n)] at h
  have hdigit := Json.isDigit_decimal n _ (List.mem_of_mem_head? h)
  revert hdigit
  decide

/-- `strtol` without a sign. -/
theorem strtol_decimal (n : ℕ) (hrest : EndsDigits rest) :
    strtol (decimal n ++ rest) = (toLong false n,rest) := by
  obtain ⟨base,hbase,hbaseOf,hdigits,hvalue⟩ := baseOf_decimal n hrest
  have htake := Pattern.takeWhile_of_stop hdigits (hrest.isDigitOf hbase)
  have hsign := head?_decimal_append n rest
  rw [strtol_digits (if_neg hsign) hbaseOf htake (Json.decimal_ne_nil n),decide_eq_false hsign,hvalue]

lemma strtol_minus_decimal (n : ℕ) (hrest : EndsDigits rest) :
    strtol (code '-' :: decimal n ++ rest) = (toLong true n,rest) := by
  obtain ⟨base,hbase,hbaseOf,hdigits,hvalue⟩ := baseOf_decimal n hrest
  have htake := Pattern.takeWhile_of_stop hdigits (hrest.isDigitOf hbase)
  rw [List.cons_append,strtol_digits (if_pos rfl) hbaseOf htake (Json.decimal_ne_nil n),hvalue]
  rfl

lemma strtol_intToStr {i : ℤ} (hmin : longMin ≤ i) (hmax : i ≤ longMax)
    (hrest : EndsDigits rest) : strtol (intToStr i ++ rest) = (i,rest) := by
  unfold intToStr
  split_ifs with hneg
  · have habs : -(i.natAbs : ℤ) = i := by omega
    rw [strtol_minus_decimal _ hrest,toLong_eq (by simpa using habs) hmin hmax]
  · have habs : (i.natAbs : ℤ) = i := by omega
    rw [strtol_decimal _ hrest,toLong_eq (by simpa using habs) hmin hmax]

/-- The number that is read. -/
def number (i : ℤ) : NrObj := if i ≤ intMin ∨ intMax ≤ i then .long i else .int i

lemma parseNumber_intToStr (nearest : ℚ≥0 → Option ℚ≥0) {i : ℤ} (hmin : longMin ≤ i)
    (hmax : i ≤ longMax) (hrest : Follows rest) :
    parseNumber nearest 0 (intToStr i ++ rest) = (number i,rest) := by
  have hno : ¬ (rest.head? = some (code '.') ∨ rest.head? = some (code 'e') ∨
      rest.head? = some (code 'E')) := by
    rintro (h | h | h) <;> rcases hrest _ h with h | h | h <;> revert h <;> decide
  unfold parseNumber number
  rw [strtol_intToStr hmin hmax hrest.endsDigits]
  simp only
  rw [if_neg hno]
  split <;> rfl

/-- The number that `%.5f` prints behind the sign. -/
def printed (magnitude : ℚ≥0) : ℚ≥0 := (fixed 5 magnitude : ℚ≥0)/(10^5 : ℕ)

lemma digitsValue_padded (width n : ℕ) : Json.digitsValue (padded width n) = n%10^width := by
  have hdigit : ∀ m < 10, Json.digitsValue [code m.digitChar] = m := by decide
  induction width generalizing n with
  | zero => simp [padded,Json.digitsValue,Nat.mod_one]
  | succ width ih =>
    rw [padded,Json.digitsValue_append,ih,hdigit _ (Nat.mod_lt _ (by decide)),List.length_singleton,
      pow_one,pow_succ',Nat.mod_mul]
    omega

variable {s : Bytes}

lemma exponentOf_of_notMem {letters : List UInt8} (h : ∀ c ∈ s.head?, c ∉ letters) :
    exponentOf letters s = (0,s) := by
  have hany : s.head?.any (· ∈ letters) = false := by
    cases s with
    | nil => rfl
    | cons c s => simpa using h c rfl
  simp [exponentOf,hany]

/-- `strtod` over digits and a fraction of five. -/
theorem strtod_digits {num : Bytes} (n : ℕ) (hrest : Follows rest)
    (hsign : (if num.head? = some (code '-') then num.tail else num) =
      decimal (n/10^5) ++ code '.' :: (padded 5 (n%10^5) ++ rest)) :
    strtod num = ((decide (num.head? = some (code '-')),(n : ℚ≥0)/(10^5 : ℕ)),rest) := by
  have hpoint : EndsDigits (code '.' :: (padded 5 (n%10^5) ++ rest)) := endsDigits_cons (by decide) _
  have hx := hasHexPrefix_decimal (n/10^5) hpoint
  have hwhole := Pattern.takeWhile_of_stop
    (fun d hd => isDigitOf_ten (Json.isDigit_decimal (n/10^5) d hd)) (hpoint.isDigitOf (le_refl 10))
  have hfraction := Pattern.takeWhile_of_stop
    (fun d hd => isDigitOf_ten (isDigit_padded 5 (n%10^5) d hd))
    (hrest.endsDigits.isDigitOf (le_refl 10))
  have hexponent : exponentOf [code 'e',code 'E'] rest = (0,rest) := by
    apply exponentOf_of_notMem
    intro c hc
    rcases hrest c hc with rfl | rfl | rfl <;> decide
  have hdigits : ∀ d ∈ decimal (n/10^5) ++ padded 5 (n%10^5), Json.isDigit d = true := by
    intro d hd
    rcases List.mem_append.mp hd with hd | hd
    · exact Json.isDigit_decimal _ d hd
    · exact isDigit_padded _ _ d hd
  have hvalue : valueOf 10 (decimal (n/10^5) ++ padded 5 (n%10^5)) = n := by
    rw [valueOf_ten hdigits,Json.digitsValue_append,Json.digitsValue_decimal,digitsValue_padded,
      length_padded]
    omega
  unfold strtod
  dsimp only
  rw [hsign,hx]
  simp only [Bool.false_eq_true,if_false]
  rw [hwhole,List.drop_left]
  simp only [List.head?_cons,if_true,List.tail_cons]
  rw [hfraction,List.drop_left,if_neg (by simp [Json.decimal_ne_nil]),hvalue]
  simp only [show ¬ (10 : ℕ) = 16 by decide,if_false]
  rw [hexponent,length_padded]
  norm_num

lemma parseNumber_doubleToStr (nearest : ℚ≥0 → Option ℚ≥0) {q d : ℚ≥0}
    (hd : nearest (printed q) = some d) (negative : Bool) (hrest : Follows rest) :
    parseNumber nearest 0 (doubleToStr (.finite negative q) ++ rest) =
      (.double (.finite negative d),rest) := by
  unfold printed at hd
  unfold doubleToStr Double.text Double.unsignedText digits
  dsimp only
  generalize fixed 5 q = n at hd ⊢
  have hpoint : EndsDigits (code '.' :: (padded 5 (n%10^5) ++ rest)) := endsDigits_cons (by decide) _
  have hassoc : decimal (n/10^5) ++ code '.' :: padded 5 (n%10^5) ++ rest =
      decimal (n/10^5) ++ code '.' :: (padded 5 (n%10^5) ++ rest) := by simp
  cases negative with
  | true =>
    have hlong := strtol_minus_decimal (n/10^5) hpoint
    have hdouble := @strtod_digits rest
      (code '-' :: (decimal (n/10^5) ++ code '.' :: (padded 5 (n%10^5) ++ rest))) n hrest rfl
    rw [List.cons_append] at hlong
    rw [Double.negative,if_pos rfl,List.cons_append,hassoc,parseNumber,hlong]
    simp only [List.head?_cons,true_or,if_true]
    rw [hdouble]
    simp only [hd,List.head?_cons,decide_true]
  | false =>
    have hminus := head?_decimal_append (n/10^5) (code '.' :: (padded 5 (n%10^5) ++ rest))
    have hlong := strtol_decimal (n/10^5) hpoint
    have hdouble := strtod_digits n hrest (if_neg hminus)
    rw [Double.negative,if_neg (by decide),hassoc,parseNumber,hlong]
    simp only [List.head?_cons,true_or,if_true]
    rw [hdouble]
    simp only [hd,hminus,decide_false]

/-! ### Strings -/

lemma toUInt8_ofNat (n : ℕ) : (UInt32.ofNat n).toUInt8 = UInt8.ofNat (n%256) := by
  apply UInt8.toNat_inj.mp
  rw [UInt32.toNat_toUInt8,UInt32.toNat_ofNat',UInt8.toNat_ofNat']
  omega

lemma shiftRight_ofNat {n k : ℕ} (hn : n < 65536) (hk : k < 32) :
    UInt32.ofNat n >>> UInt32.ofNat k = UInt32.ofNat (n/2^k) := by
  have hle : n/2^k ≤ n := Nat.div_le_self n _
  apply UInt32.toNat_inj.mp
  rw [UInt32.toNat_shiftRight,UInt32.toNat_ofNat_of_lt' (show n < 2^32 by omega),
    UInt32.toNat_ofNat_of_lt' (show k < 2^32 by omega),
    UInt32.toNat_ofNat_of_lt' (show n/2^k < 2^32 by omega),Nat.mod_eq_of_lt hk,
    Nat.shiftRight_eq_div_pow]

/-- The lower six bits behind the mark of a continuation. -/
theorem continuation_eq (n : ℕ) :
    ((UInt32.ofNat n ||| 0x80) &&& 0xbf).toUInt8 = UInt8.ofNat (n%64+0x80) := by
  have hbyte : ∀ b < 256, (UInt8.ofNat b ||| 0x80) &&& 0xbf = UInt8.ofNat (b%64+0x80) := by
    decide +kernel
  have hmod : n%256%64 = n%64 := by omega
  rw [UInt32.toUInt8_and,UInt32.toUInt8_or,toUInt8_ofNat,← hmod]
  exact hbyte (n%256) (Nat.mod_lt _ (by decide))

lemma ofNat_lt_iff {n m : ℕ} (hn : n < 65536) (hm : m < 65536) :
    UInt32.ofNat n < UInt32.ofNat m ↔ n < m := by
  rw [UInt32.lt_iff_toNat_lt,UInt32.toNat_ofNat_of_lt' (show n < 2^32 by omega),
    UInt32.toNat_ofNat_of_lt' (show m < 2^32 by omega)]

/-- The three bytes of a value that needs them. -/
theorem transcode_three (hlow : 2048 ≤ n) (hn : n < 65536) : (transcode (UInt32.ofNat n)).1 =
      [UInt8.ofNat (n/4096+0xe0),UInt8.ofNat (n/64%64+0x80),UInt8.ofNat (n%64+0x80)] := by
  have hlead : ∀ m < 16, (UInt32.ofNat m ||| 0xe0).toUInt8 = UInt8.ofNat (m+0xe0) := by decide
  have hone : ¬ UInt32.ofNat n < 0x80 := fun h => absurd ((@ofNat_lt_iff n 128 hn (by decide)).mp h) (by omega)
  have htwo : ¬ UInt32.ofNat n < 0x800 := fun h =>
    absurd ((@ofNat_lt_iff n 2048 hn (by decide)).mp h) (by omega)
  have hsix : UInt32.ofNat n >>> 6 = UInt32.ofNat (n/64) := shiftRight_ofNat hn (by decide)
  have htwelve : UInt32.ofNat n >>> 12 = UInt32.ofNat (n/4096) := shiftRight_ofNat hn (by decide)
  rw [transcode]
  dsimp only
  rw [if_neg hone,if_neg htwo,hsix,htwelve,continuation_eq,continuation_eq,hlead _ (by omega)]

/-- The bytes of a code point that takes one code unit. -/
theorem transcode_eq (c : Char) (h : c.toNat < 65536) :
    (transcode (UInt32.ofNat c.toNat)).1 = String.utf8EncodeChar c := by
  have hlead : ∀ m < 32, (UInt32.ofNat m ||| 0xc0).toUInt8 = UInt8.ofNat (m+0xc0) := by decide
  have hval : c.val.toNat = c.toNat := rfl
  have hone : UInt32.ofNat c.toNat < 0x80 ↔ c.toNat < 128 := ofNat_lt_iff h (by decide)
  have htwo : UInt32.ofNat c.toNat < 0x800 ↔ c.toNat < 2048 := ofNat_lt_iff h (by decide)
  have hsix : UInt32.ofNat c.toNat >>> 6 = UInt32.ofNat (c.toNat/64) := shiftRight_ofNat h (by decide)
  rw [String.utf8EncodeChar,hval]
  by_cases h1 : c.toNat < 128
  · rw [if_pos (Nat.le_of_lt_succ h1),transcode]
    dsimp only
    rw [if_pos (hone.mpr h1),toUInt8_ofNat,Nat.mod_eq_of_lt (show c.toNat < 256 by omega)]
  rw [if_neg (fun hle => h1 (Nat.lt_succ_of_le hle))]
  by_cases h2 : c.toNat < 2048
  · have hmod : c.toNat/64%32 = c.toNat/64 := by omega
    rw [if_pos (Nat.le_of_lt_succ h2),transcode]
    dsimp only
    rw [if_neg (hone.not.mpr h1),if_pos (htwo.mpr h2),hsix,continuation_eq,hlead _ (by omega),hmod]
  · have hmod : c.toNat/4096%16 = c.toNat/4096 := by omega
    rw [if_neg (fun hle => h2 (Nat.lt_succ_of_le hle)),if_pos (Nat.le_of_lt_succ h),
      transcode_three (Nat.not_lt.mp h2) h,hmod]

/-- What the parser makes of a character: a pair of surrogates is read as two. -/
def readChar (c : Char) : Bytes :=
  if c.toNat < 65536 then String.utf8EncodeChar c
  else
    (transcode (UInt32.ofNat (0xd800+(c.toNat-0x10000)/1024))).1 ++
      (transcode (UInt32.ofNat (0xdc00+(c.toNat-0x10000)%1024))).1

lemma readChar_of_lt {c : Char} (h : c.toNat < 65536) : readChar c = String.utf8EncodeChar c := by
  rw [readChar,if_pos h]

lemma toNat_lt_max (c : Char) : c.toNat < 0x110000 := by
  have hvalid : c.toNat.isValidChar := c.valid
  rcases hvalid with h | h <;> omega

lemma transcode_surrogate (hlow : 2048 ≤ n) (hn : n < 65536) :
    (transcode (UInt32.ofNat n)).1.length = 3 ∧ 0 ∉ (transcode (UInt32.ofNat n)).1 := by
  have hbyte : ∀ m, 128 ≤ m → m < 256 → (0 : UInt8) ≠ UInt8.ofNat m := by
    intro m hm hlt h
    have hnat := congrArg UInt8.toNat h
    rw [UInt8.toNat_ofNat_of_lt' hlt] at hnat
    have hzero : (0 : UInt8).toNat = 0 := rfl
    omega
  rw [transcode_three hlow hn]
  refine ⟨rfl,?_⟩
  simp only [List.mem_cons,List.not_mem_nil,or_false,not_or]
  exact ⟨hbyte _ (by omega) (by omega),hbyte _ (by omega) (by omega),hbyte _ (by omega) (by omega)⟩

lemma zero_notMem_utf8EncodeChar {c : Char} (h : 0 < c.toNat) : 0 ∉ String.utf8EncodeChar c := by
  intro hmem
  by_cases hascii : c.toNat < 128
  · rw [utf8EncodeChar_of_lt hascii,List.mem_singleton] at hmem
    have hnat := congrArg UInt8.toNat hmem
    rw [UInt8.toNat_ofNat_of_lt' (show c.toNat < 256 by omega)] at hnat
    exact h.ne hnat
  · exact absurd (le_of_mem_utf8EncodeChar (Nat.not_lt.mp hascii) hmem) (by decide)

lemma zero_notMem_readChar {c : Char} (h : 0 < c.toNat) : 0 ∉ readChar c := by
  have hmax := toNat_lt_max c
  unfold readChar
  split_ifs with hlow
  · exact zero_notMem_utf8EncodeChar h
  · rw [List.mem_append,not_or]
    exact ⟨(transcode_surrogate (by omega) (by omega)).2,(transcode_surrogate (by omega) (by omega)).2⟩

/-- Surrogates take more bytes than the character. -/
theorem length_readChar_le (c : Char) : (String.utf8EncodeChar c).length ≤ (readChar c).length ∧
    ((String.utf8EncodeChar c).length = (readChar c).length → c.toNat < 65536) := by
  have hmax := toNat_lt_max c
  have hfour : (String.utf8EncodeChar c).length ≤ 4 := by
    rw [String.length_utf8EncodeChar]
    exact Char.utf8Size_le_four c
  unfold readChar
  split_ifs with hlow
  · exact ⟨le_refl _,fun _ => hlow⟩
  · rw [List.length_append,(transcode_surrogate (by omega) (by omega)).1,
      (transcode_surrogate (by omega) (by omega)).1]
    exact ⟨by omega,fun h => by omega⟩

/-- What the digits of an escape are not. -/
theorem hexDigit_spec (n : ℕ) : isHex (hexDigit n) = true ∧ isspace (hexDigit n) = false ∧
    hexDigit n ∉ [code '-',code '+',code 'x',code 'X',code '"',code '\\'] ∧ ¬ hexDigit n < 32 := by
  have h : ∀ m < 16, isHex (code (Nat.digitChar m)) = true ∧ isspace (code (Nat.digitChar m)) = false ∧
      code (Nat.digitChar m) ∉ [code '-',code '+',code 'x',code 'X',code '"',code '\\'] ∧
      ¬ code (Nat.digitChar m) < 32 := by decide
  exact h _ (Nat.mod_lt _ (by decide))

lemma scanHex_digits (hn : n < 65536) (rest : Bytes) :
    scanHex (hexDigit (n/4096) :: hexDigit (n/256) :: hexDigit (n/16) :: hexDigit n :: rest) =
      some (UInt32.ofNat n) := by
  obtain ⟨ha,hspace,hnot,-⟩ := hexDigit_spec (n/4096)
  obtain ⟨hb,-,hnotx,-⟩ := hexDigit_spec (n/256)
  obtain ⟨hc,-⟩ := hexDigit_spec (n/16)
  obtain ⟨hd,-⟩ := hexDigit_spec n
  simp only [List.mem_cons,List.not_mem_nil,or_false,not_or] at hnot hnotx
  have hvalue : valueOf 16 [hexDigit (n/4096),hexDigit (n/256),hexDigit (n/16),hexDigit n] = n := by
    simp only [valueOf,List.foldl_cons,List.foldl_nil,hexValue_hexDigit]
    omega
  simp [scanHex,hspace,hnot,hnotx,ha,hb,hc,hd,hvalue]

lemma closes_plain {c : UInt8} (hquote : c ≠ code '"') (hback : c ≠ code '\\') (hc : ¬ c < 32)
    (rest : Bytes) : closes (c :: rest) = closes rest := by
  rw [closes.eq_def]
  simp only
  rw [if_neg hquote,if_neg hback,if_neg hc]

lemma closes_escape (e : UInt8) (rest : Bytes) : closes (code '\\' :: e :: rest) = closes rest := by
  rw [closes.eq_def]
  simp only
  rw [if_neg (by decide),if_pos trivial]

lemma closes_unicodeEscape (n : ℕ) (rest : Bytes) : closes (unicodeEscape n ++ rest) = closes rest := by
  have hdigit : ∀ (m : ℕ) (rest : Bytes), closes (hexDigit m :: rest) = closes rest := by
    intro m rest
    obtain ⟨-,-,hnot,hlow⟩ := hexDigit_spec m
    simp only [List.mem_cons,List.not_mem_nil,or_false,not_or] at hnot
    exact closes_plain hnot.2.2.2.2.1 hnot.2.2.2.2.2 hlow rest
  simp only [unicodeEscape,List.cons_append,List.nil_append]
  rw [closes_escape,hdigit,hdigit,hdigit,hdigit]

/-- The first loop passes over what stands for a character. -/
theorem closes_escapeText (c : Char) (rest : Bytes) : closes (escapeText c ++ rest) = closes rest := by
  by_cases hascii : c.toNat < 128
  · obtain ⟨d,-,htext⟩ | htext | ⟨htext,hlow,hback,hquote⟩ := escapeText_ascii hascii
    · rw [htext]
      exact closes_escape d rest
    · rw [htext,closes_unicodeEscape]
    · rw [htext]
      exact closes_plain hquote hback ((printable_iff _).mp hlow) rest
  · rw [escapeText_wide hascii,wideText]
    split_ifs
    · exact closes_unicodeEscape _ rest
    · rw [List.append_assoc,closes_unicodeEscape,closes_unicodeEscape]

lemma decode_plain {c : UInt8} (hquote : c ≠ code '"') (hback : c ≠ code '\\') (hc : ¬ c ≤ 31)
    (uc : UInt32) (rest : Bytes) : decode uc (c :: rest) = emit [c] (decode uc rest) := by
  rw [decode.eq_def]
  simp only
  rw [if_neg hquote,if_neg hc,if_pos hback]

lemma decode_escape {e : UInt8} (he : e ≠ code 'u') (uc : UInt32) (rest : Bytes) :
    decode uc (code '\\' :: e :: rest) = emit [escaped e] (decode uc rest) := by
  rw [decode.eq_def]
  simp only
  rw [if_neg (by decide),if_neg (by decide),if_neg (not_not.mpr rfl),if_neg he]

lemma decode_unicodeEscape (hn : n < 65536) (uc : UInt32) (rest : Bytes) :
    decode uc (unicodeEscape n ++ rest) =
      emit (transcode (UInt32.ofNat n)).1 (decode (transcode (UInt32.ofNat n)).2 rest) := by
  simp only [unicodeEscape,List.cons_append,List.nil_append]
  rw [decode.eq_def]
  simp only
  rw [if_neg (by decide),if_neg (by decide),if_neg (not_not.mpr rfl),if_pos trivial,scanHex_digits hn]
  rfl

lemma shortEscape_escaped : ∀ n < 128, ∀ d ∈ shortEscape (UInt8.ofNat n),
    escaped d = UInt8.ofNat n ∧ d ≠ code 'u' := by
  intro n _ d hd
  have hall : (shortEscapes.all fun e => escaped e.2 == e.1 && e.2 != code 'u') = true := rfl
  have hpair := List.all_eq_true.mp hall _ (mem_shortEscapes hd)
  rwa [Bool.and_eq_true,beq_iff_eq,bne_iff_ne] at hpair

lemma emit_emit (a b : Bytes) (r : Except Stop (Bytes × Bytes)) :
    emit a (emit b r) = emit (a ++ b) r := by
  cases r with
  | error stop => rfl
  | ok p => simp [emit,Except.map]

/-- The second loop over what stands for a character. -/
theorem decode_escapeText (c : Char) (uc : UInt32) (rest : Bytes) :
    ∃ uc', decode uc (escapeText c ++ rest) = emit (readChar c) (decode uc' rest) := by
  have hmax := toNat_lt_max c
  by_cases hascii : c.toNat < 128
  · have hread : readChar c = String.utf8EncodeChar c := readChar_of_lt (by omega)
    obtain ⟨d,hd,htext⟩ | htext | ⟨htext,hlow,hback,hquote⟩ := escapeText_ascii hascii
    · obtain ⟨hvalue,hu⟩ := shortEscape_escaped c.toNat hascii d hd
      refine ⟨uc,?_⟩
      rw [htext,hread,utf8EncodeChar_of_lt hascii,← hvalue]
      exact decode_escape hu uc rest
    · exact ⟨_,by rw [htext,hread,decode_unicodeEscape (by omega),transcode_eq c (by omega)]⟩
    · refine ⟨uc,?_⟩
      rw [htext,hread,utf8EncodeChar_of_lt hascii]
      exact decode_plain hquote hback (UInt8.not_le.mpr hlow) uc rest
  · rw [escapeText_wide hascii,wideText,readChar]
    split_ifs with hlow
    · exact ⟨_,by rw [decode_unicodeEscape hlow,transcode_eq c hlow]⟩
    · exact ⟨_,by rw [List.append_assoc,decode_unicodeEscape (by omega),
        decode_unicodeEscape (by omega),emit_emit]⟩

lemma closes_flatMap (cs : List Char) (rest : Bytes) :
    closes (cs.flatMap escapeText ++ code '"' :: rest) = .ok true := by
  induction cs with
  | nil =>
    rw [List.flatMap_nil,List.nil_append,closes.eq_def]
    exact if_pos rfl
  | cons c cs ih => rw [List.flatMap_cons,List.append_assoc,closes_escapeText,ih]

lemma decode_flatMap (cs : List Char) (uc : UInt32) (rest : Bytes) :
    decode uc (cs.flatMap escapeText ++ code '"' :: rest) = .ok (cs.flatMap readChar,rest) := by
  induction cs generalizing uc with
  | nil =>
    rw [List.flatMap_nil,List.nil_append,decode.eq_def]
    exact if_pos rfl
  | cons c cs ih =>
    obtain ⟨uc',h⟩ := decode_escapeText c uc (cs.flatMap escapeText ++ code '"' :: rest)
    rw [List.flatMap_cons,List.append_assoc,h,ih]
    rfl

/-- The string that is read: what the second loop makes of the text. -/
def rereadString (s : Bytes) : Bytes :=
  match decode 0 (escapeBytes 0 s ++ [code '"']) with
  | .ok (out,_) => out
  | .error _ => []

lemma rereadString_utf8 (cs : List Char) : rereadString (utf8 cs) = cs.flatMap readChar := by
  rw [rereadString,escapeBytes_utf8,decode_flatMap]

/-- A text in UTF-8, as a C string. -/
def Text (s : Bytes) : Prop := ∃ cs : List Char, (∀ c ∈ cs, 0 < c.toNat) ∧ s = utf8 cs

/-- Every character takes one code unit. -/
def Basic (s : Bytes) : Prop :=
  ∃ cs : List Char, (∀ c ∈ cs, 0 < c.toNat ∧ c.toNat < 65536) ∧ s = utf8 cs

lemma Basic.text (h : Basic s) : Text s := by
  obtain ⟨cs,hcs,rfl⟩ := h
  exact ⟨cs,fun c hc => (hcs c hc).1,rfl⟩

lemma parseString_jsonEscape (garbage : Bytes → UInt32) (h : Text s) (rest : Bytes) :
    parseString garbage (jsonEscape s ++ rest) = .ok (some (rereadString s,rest)) := by
  obtain ⟨cs,hcs,rfl⟩ := h
  have hnonzero : (cs.flatMap readChar).takeWhile (· ≠ 0) = cs.flatMap readChar := by
    rw [List.takeWhile_eq_self_iff]
    intro b hb
    obtain ⟨c,hc,hb⟩ := List.mem_flatMap.mp hb
    have hzero := zero_notMem_readChar (hcs c hc)
    rw [decide_eq_true_eq]
    rintro rfl
    exact hzero hb
  have htext : jsonEscape (utf8 cs) ++ rest = code '"' :: (cs.flatMap escapeText ++ code '"' :: rest) := by
    rw [jsonEscape,escapeBytes_utf8,Json.quoted]
    simp
  rw [htext,rereadString_utf8,parseString,if_pos rfl,closes_flatMap,ok_bind,if_pos rfl,
    decode_flatMap,ok_bind]
  simp only
  rw [hnonzero]
  rfl

/-- Characters that take more bytes when they are read make the text longer. -/
theorem length_flatMap_readChar_le (cs : List Char) :
    (utf8 cs).length ≤ (cs.flatMap readChar).length ∧
      ((utf8 cs).length = (cs.flatMap readChar).length → ∀ c ∈ cs, c.toNat < 65536) := by
  induction cs with
  | nil => simp [utf8]
  | cons c cs ih =>
    obtain ⟨hle,heq⟩ := length_readChar_le c
    obtain ⟨ihle,iheq⟩ := ih
    have hutf8 : (utf8 (c :: cs)).length = (String.utf8EncodeChar c).length+(utf8 cs).length := by
      rw [utf8,List.flatMap_cons,List.length_append,utf8]
    have hsplit : ∀ a b a' b' : ℕ, a ≤ a' → b ≤ b' → a+b = a'+b' → a = a' ∧ b = b' := by omega
    rw [hutf8,List.flatMap_cons,List.length_append]
    refine ⟨Nat.add_le_add hle ihle,fun h => ?_⟩
    obtain ⟨hc,hcs⟩ := hsplit _ _ _ _ hle ihle h
    exact List.forall_mem_cons.mpr ⟨heq hc,iheq hcs⟩

/-- A string is read as itself when it has no character that takes two code units. -/
theorem rereadString_eq_iff (h : Text s) : rereadString s = s ↔ Basic s := by
  constructor
  · obtain ⟨cs,hcs,rfl⟩ := h
    intro heq
    rw [rereadString_utf8] at heq
    have hlow := (length_flatMap_readChar_le cs).2 (by rw [heq])
    exact ⟨cs,fun c hc => ⟨hcs c hc,hlow c hc⟩,rfl⟩
  · rintro ⟨cs,hcs,rfl⟩
    rw [rereadString_utf8,utf8,List.flatMap_def,List.flatMap_def]
    exact congrArg List.flatten (List.map_congr_left fun c hc => readChar_of_lt (hcs c hc).2)

end NroParse
end PhpAgent
