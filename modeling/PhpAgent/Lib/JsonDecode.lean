import Mathlib.Data.List.TakeWhile
import PhpAgent.Lib.Json

/-! Reading JSON texts: the elements of an array, the bytes of a string and the value of a number.
All of it is about texts the recogniser accepts. -/
namespace PhpAgent.Json

/-! ### Arrays -/

/-- Without the white space around it. -/
def trimmed (b : List UInt8) : List UInt8 :=
  ((b.dropWhile isSpace).reverse.dropWhile isSpace).reverse

/-- The texts of the elements of an array, from inside it; `read` is what has been read of the
current element. -/
def splitElements : State → List UInt8 → List UInt8 → Option (List (List UInt8))
  | _, _, [] => none
  | s, read, c :: rest =>
    if s.stack = [.arr] ∧ s.mode.done = true ∧ c = code ',' then
      (splitElements ⟨.value,[.arr]⟩ [] rest).map (trimmed read :: ·)
    else if s.stack = [.arr] ∧ s.mode.done = true ∧ c = code ']' then some [trimmed read]
    else
      match step c s with
      | none => none
      | some s => splitElements s (read ++ [c]) rest

/-- The texts of the elements of a JSON text that is an array. -/
def elements (b : List UInt8) : Option (List (List UInt8)) :=
  if accepts b then
    match b.dropWhile isSpace with
    | [] => none
    | c :: rest =>
      if c = code '[' then
        if (rest.dropWhile isSpace).head? = some (code ']') then some []
        else splitElements ⟨.value,[.arr]⟩ [] rest
      else none
  else none

lemma step_end_nil {m : Mode} (hm : m.done = true) {c : UInt8} (hc : IsEnd c) :
    step c ⟨m,[]⟩ = none := by
  rw [step_of_done hm hc]
  rcases hc with rfl | rfl | rfl
  · rfl
  · rfl
  · rfl

variable {b : List UInt8}

/-- Reading one element, up to the byte behind it. -/
theorem splitElements_element {s s' : State} (h : run s b = some s')
    (read rest : List UInt8) : splitElements (s.below [.arr]) read (b ++ rest) =
      splitElements (s'.below [.arr]) (read ++ b) rest := by
  induction b generalizing s read with
  | nil =>
    cases h
    simp
  | cons c b ih =>
    obtain ⟨s₁,hs₁,h⟩ := Option.bind_eq_some_iff.mp h
    -- at the level of the array an end byte would not have been read as part of the element
    have hnot : ∀ d, IsEnd d →
        ¬ ((s.below [.arr]).stack = [.arr] ∧ (s.below [.arr]).mode.done = true ∧ c = d) := by
      rintro d hd ⟨hstack,hdone,rfl⟩
      obtain ⟨m,stack⟩ := s
      have hnil : stack = [] := by simpa [State.below] using hstack
      subst hnil
      have hnone : step c ⟨m,[]⟩ = none := step_end_nil hdone hd
      rw [hnone] at hs₁
      cases hs₁
    rw [List.cons_append,splitElements,if_neg (hnot _ (.inl rfl)),if_neg (hnot _ (.inr (.inl rfl))),
      step_below hs₁]
    simp only
    rw [ih h (read ++ [c]),List.append_assoc,List.singleton_append]

/-- The text of a value without white space around it. -/
structure Tight (b : List UInt8) : Prop where
  accepted : accepts b = true
  starts : ∃ c x, b = c :: x ∧ isSpace c = false
  ends : ∃ x c, b = x ++ [c] ∧ isSpace c = false

lemma Tight.dropWhile (h : Tight b) (rest : List UInt8) : (b ++ rest).dropWhile isSpace = b ++ rest := by
  obtain ⟨c,x,rfl,hc⟩ := h.starts
  exact List.dropWhile_cons_of_neg (by simp [hc])

lemma Tight.trimmed (h : Tight b) : trimmed b = b := by
  have hdrop := h.dropWhile []
  rw [List.append_nil] at hdrop
  obtain ⟨x,c,rfl,hc⟩ := h.ends
  unfold Json.trimmed
  rw [hdrop,List.reverse_append,List.reverse_singleton,List.singleton_append,
    List.dropWhile_cons_of_neg (by simp [hc])]
  simp

/-- A value does not start with a closing bracket. -/
theorem Tight.head_ne (h : Tight b) : b.head? ≠ some (code ']') := by
  intro hhead
  obtain ⟨x,hx⟩ := List.head?_eq_some_iff.mp hhead
  have haccept := h.accepted
  rw [hx] at haccept
  cases haccept

lemma splitElements_tight (h : Tight b) (c : UInt8) (rest : List UInt8) :
    splitElements ⟨.value,[.arr]⟩ [] (b ++ c :: rest) =
      if c = code ',' then (splitElements ⟨.value,[.arr]⟩ [] rest).map (b :: ·)
      else if c = code ']' then some [b]
      else splitElements ⟨.value,[.arr]⟩ [] (b ++ c :: rest) := by
  have haccept := h.accepted
  unfold accepts at haccept
  split at haccept
  · rename_i m hrun
    have hread := splitElements_element hrun [] (c :: rest)
    simp only [State.below,List.nil_append] at hread
    rw [hread]
    simp only [splitElements,true_and,haccept,h.trimmed]
    split_ifs
    · rfl
    · rfl
    · rfl
  · cases haccept

variable {bs : List (List UInt8)}

/-- The elements of an array written with commas between them are read back. -/
theorem splitElements_intercalate (hne : bs ≠ []) (h : ∀ b ∈ bs, Tight b) (rest : List UInt8) :
    splitElements ⟨.value,[.arr]⟩ [] ([code ','].intercalate bs ++ code ']' :: rest) = some bs := by
  have hclose : code ']' ≠ code ',' := by decide
  induction bs with
  | nil => exact absurd rfl hne
  | cons b bs ih =>
    have hb := h b List.mem_cons_self
    cases bs with
    | nil =>
      rw [show [code ','].intercalate [b] = b by simp [List.intercalate],splitElements_tight hb,
        if_neg hclose,if_pos rfl]
    | cons c bs =>
      have hrest := ih (by simp) fun x hx => h x (List.mem_cons_of_mem _ hx)
      have hcons : [code ','].intercalate (b :: c :: bs) ++ code ']' :: rest =
          b ++ code ',' :: ([code ','].intercalate (c :: bs) ++ code ']' :: rest) := by
        simp [List.intercalate]
      rw [hcons,splitElements_tight hb,if_pos rfl,hrest]
      rfl

/-- The text of an array with these elements. -/
def arrayText (bs : List (List UInt8)) : List UInt8 :=
  code '[' :: ([code ','].intercalate bs ++ [code ']'])

lemma accepts_arrayText (h : ∀ b ∈ bs, accepts b = true) : accepts (arrayText bs) = true :=
  accepts_bracket (f := .arr) (content_of_forall fun b hb => content_of_accepts (h b hb))

lemma elements_arrayText (h : ∀ b ∈ bs, Tight b) : elements (arrayText bs) = some bs := by
  have haccept : accepts (arrayText bs) = true := accepts_arrayText fun b hb => (h b hb).accepted
  have hdrop : (arrayText bs).dropWhile isSpace = arrayText bs :=
    List.dropWhile_cons_of_neg (by decide)
  unfold elements
  rw [if_pos haccept,hdrop]
  simp only [arrayText,if_true]
  cases bs with
  | nil => rfl
  | cons b bs =>
    have hb := h b List.mem_cons_self
    obtain ⟨rest,hrest⟩ : ∃ rest, [code ','].intercalate (b :: bs) ++ [code ']'] = b ++ rest := by
      cases bs with
      | nil => exact ⟨[code ']'],by simp [List.intercalate]⟩
      | cons c bs =>
        exact ⟨code ',' :: ([code ','].intercalate (c :: bs) ++ [code ']']),by simp [List.intercalate]⟩
    have hfirst : (([code ','].intercalate (b :: bs) ++ [code ']']).dropWhile isSpace).head? ≠
        some (code ']') := by
      rw [hrest,hb.dropWhile]
      obtain ⟨c,x,rfl,-⟩ := hb.starts
      exact hb.head_ne
    rw [if_neg hfirst]
    exact splitElements_intercalate (by simp) h []

lemma tight_arrayText (h : ∀ b ∈ bs, accepts b = true) : Tight (arrayText bs) where
  accepted := accepts_arrayText h
  starts := ⟨_,_,rfl,by decide⟩
  ends := ⟨_,_,(List.cons_append ..).symm,by decide⟩

/-! ### Objects -/

/-- The keys and the values of an object, from inside it; `read` is what has been read of the current
key or value. -/
def splitMembers : State → List UInt8 → List UInt8 → List UInt8 → Option (List (List UInt8 × List UInt8))
  | _, _, _, [] => none
  | s, key, read, c :: rest =>
    if s.stack = [.obj] ∧ s.mode = .colon ∧ c = code ':' then
      splitMembers ⟨.value,[.obj]⟩ (trimmed read) [] rest
    else if s.stack = [.obj] ∧ s.mode.done = true ∧ c = code ',' then
      (splitMembers ⟨.key,[.obj]⟩ [] [] rest).map ((key,trimmed read) :: ·)
    else if s.stack = [.obj] ∧ s.mode.done = true ∧ c = 0x7d then some [(key,trimmed read)]
    else
      match step c s with
      | none => none
      | some s => splitMembers s key (read ++ [c]) rest

/-- The texts of the keys and the values of a JSON text that is an object. -/
def members (b : List UInt8) : Option (List (List UInt8 × List UInt8)) :=
  if accepts b then
    match b.dropWhile isSpace with
    | [] => none
    | c :: rest =>
      if c = 0x7b then
        if (rest.dropWhile isSpace).head? = some 0x7d then some []
        else splitMembers ⟨.member,[.obj]⟩ [] [] rest
      else none
  else none

/-! ### Strings -/

def hexValue (c : UInt8) : ℕ :=
  if isDigit c then c.toNat-0x30
  else if 0x61 ≤ c then c.toNat-0x61+10
  else c.toNat-0x41+10

/-- The value of four hexadecimal digits. -/
def hexValue4 (a b c d : UInt8) : ℕ := hexValue a*4096+hexValue b*256+hexValue c*16+hexValue d

/-- The text of a code point; one that is none is replaced. -/
def encodeRune (n : ℕ) : List UInt8 :=
  if n.isValidChar then String.utf8EncodeChar (Char.ofNat n)
  else String.utf8EncodeChar (Char.ofNat 0xfffd)

/-- The value of an escaped code unit at the start of a text. -/
def codeUnit : List UInt8 → Option ℕ
  | e :: u :: a :: b :: c :: d :: _ =>
    if e = code '\\' ∧ u = code 'u' then some (hexValue4 a b c d) else none
  | _ => none

def isSurrogate (n : ℕ) : Bool := 0xd800 ≤ n && n < 0xe000

/-- The code point of two code units, if they are a pair. -/
def pairRune (n m : ℕ) : Option ℕ :=
  if 0xd800 ≤ n ∧ n < 0xdc00 ∧ 0xdc00 ≤ m ∧ m < 0xe000 then
    some ((n-0xd800)*1024+(m-0xdc00)+0x10000)
  else none

/-- The byte an escape of one character stands for. -/
def shortValue (c : UInt8) : UInt8 :=
  if c = code 'n' then 0x0a
  else if c = code 'r' then 0x0d
  else if c = code 'f' then 0x0c
  else if c = code 'b' then 0x08
  else if c = code 't' then 0x09
  else c

/-- One round of unescaping: the bytes, and how many bytes of the text they took. A byte that is not
part of a UTF-8 sequence is replaced. -/
def unescapeAt (c : UInt8) (rest : List UInt8) : List UInt8 × ℕ :=
  if c = code '\\' then
    match codeUnit (c :: rest) with
    | some n =>
      if isSurrogate n then
        match (codeUnit (rest.drop 5)).bind (pairRune n) with
        | some r => (encodeRune r,12)
        | none => (encodeRune 0xfffd,6)
      else (encodeRune n,6)
    | none => ((rest.head?.map shortValue).toList,2)
  else if c < 0x80 then ([c],1)
  else
    match (⟨(c :: rest).toArray⟩ : ByteArray).utf8DecodeChar? 0 with
    | some r => (String.utf8EncodeChar r,(String.utf8EncodeChar r).length)
    | none => (encodeRune 0xfffd,1)

/-- The loop; `skip` bytes have been taken already. -/
def unescape : ℕ → List UInt8 → List UInt8
  | _, [] => []
  | skip+1, _ :: rest => unescape skip rest
  | 0, c :: rest => (unescapeAt c rest).1 ++ unescape ((unescapeAt c rest).2-1) rest

/-- The bytes of a JSON text that is a string. -/
def stringValue (b : List UInt8) : Option (List UInt8) :=
  if accepts b then
    match trimmed b with
    | [] => none
    | c :: rest => if c = code '"' then some (unescape 0 rest.dropLast) else none
  else none

/-! ### Numbers -/

/-- The number the digits stand for. -/
def digitsValue (ds : List UInt8) : ℕ := ds.foldl (fun n d => 10*n+(d.toNat-0x30)) 0

/-- The value of a JSON text that is a number. -/
def numberValue (b : List UInt8) : Option ℚ :=
  if accepts b then
    let b := trimmed b
    let negative := b.head? = some (code '-')
    let b := if negative then b.tail else b
    let whole := b.takeWhile isDigit
    if whole = [] then none
    else
      let b := b.drop whole.length
      let fraction := if b.head? = some (code '.') then b.tail.takeWhile isDigit else []
      let b := if b.head? = some (code '.') then b.tail.drop fraction.length else b
      let exponent : ℤ :=
        match b with
        | [] => 0
        | _ :: ds =>
          if ds.head? = some (code '-') then -(digitsValue ds.tail : ℤ)
          else if ds.head? = some (code '+') then digitsValue ds.tail
          else digitsValue ds
      let value : ℚ := (digitsValue whole+digitsValue fraction/10^fraction.length)*10^exponent
      some (if negative then -value else value)
  else none

lemma digitsValue_append (as bs : List UInt8) :
    digitsValue (as ++ bs) = digitsValue as*10^bs.length+digitsValue bs := by
  have hfold : ∀ (n : ℕ) (bs : List UInt8), bs.foldl (fun n d => 10*n+(d.toNat-0x30)) n =
      n*10^bs.length+digitsValue bs := by
    intro n bs
    induction bs generalizing n with
    | nil => simp [digitsValue]
    | cons d bs ih =>
      have hd : digitsValue (d :: bs) = (10*0+(d.toNat-0x30))*10^bs.length+digitsValue bs := ih _
      rw [List.foldl_cons,ih,hd,List.length_cons]
      ring
  rw [digitsValue,List.foldl_append,hfold]
  rfl

lemma digitsValue_decimal (n : ℕ) : digitsValue (decimal n) = n := by
  have hdigit : ∀ m < 10, digitsValue [code m.digitChar] = m := by decide
  induction n using Nat.strong_induction_on with
  | _ n ih =>
    unfold decimal
    by_cases hn : n < 10
    · rw [Nat.toDigits_of_lt_base hn]
      exact hdigit n hn
    · rw [Nat.toDigits_of_base_le (by decide) (by omega),List.map_append,digitsValue_append]
      have hrest : digitsValue ((Nat.toDigits 10 (n/10)).map code) = n/10 := ih (n/10) (by omega)
      rw [hrest,List.map_singleton,hdigit _ (Nat.mod_lt _ (by decide))]
      simp only [List.length_singleton,pow_one]
      omega

lemma decimal_ne_nil (n : ℕ) : decimal n ≠ [] := by
  simp [decimal]

/-- A number that is not zero does not begin with a zero. -/
theorem head?_decimal {n : ℕ} (hn : n ≠ 0) : (decimal n).head? ≠ some (code '0') := by
  have hdigit : ∀ m < 10, m ≠ 0 → code m.digitChar ≠ code '0' := by decide
  induction n using Nat.strong_induction_on with
  | _ n ih =>
    unfold decimal
    by_cases hlt : n < 10
    · rw [Nat.toDigits_of_lt_base hlt]
      simpa using hdigit n hlt hn
    · have hne : decimal (n/10) ≠ [] := decimal_ne_nil (n/10)
      rw [Nat.toDigits_of_base_le (by decide) (by omega),List.map_append]
      change (decimal (n/10) ++ _).head? ≠ _
      rw [List.head?_append_of_ne_nil _ hne]
      exact ih (n/10) (by omega) (by omega)

lemma not_isSpace_of_isDigit {c : UInt8} (h : isDigit c = true) : isSpace c = false := by
  simp only [isDigit,Bool.and_eq_true,decide_eq_true_eq] at h
  cases hs : isSpace c with
  | false => rfl
  | true =>
    simp only [isSpace,Bool.or_eq_true,beq_iff_eq] at hs
    rcases hs with ((rfl | rfl) | rfl) | rfl <;> exact absurd h.1 (by decide)

lemma tight_decimal (n : ℕ) : Tight (decimal n) where
  accepted := accepts_decimal n
  starts := by
    obtain ⟨c,x,hx⟩ := List.exists_cons_of_ne_nil (decimal_ne_nil n)
    exact ⟨c,x,hx,not_isSpace_of_isDigit (isDigit_decimal n c (by rw [hx]; exact List.mem_cons_self))⟩
  ends := by
    have hlast := List.dropLast_append_getLast (decimal_ne_nil n)
    exact ⟨_,_,hlast.symm,not_isSpace_of_isDigit (isDigit_decimal n _ (List.getLast_mem _))⟩

lemma numberValue_decimal (n : ℕ) : numberValue (decimal n) = some (n : ℚ) := by
  have htake : (decimal n).takeWhile isDigit = decimal n :=
    List.takeWhile_eq_self_iff.mpr (isDigit_decimal n)
  have hhead : (decimal n).head? ≠ some (code '-') := by
    intro h
    have := isDigit_decimal n _ (List.mem_of_head? h)
    cases this
  unfold numberValue
  rw [if_pos (accepts_decimal n),(tight_decimal n).trimmed]
  have hnil : digitsValue [] = 0 := rfl
  simp [hhead,htake,decimal_ne_nil,digitsValue_decimal,hnil]

/-- A string is read back by unescaping what is between its quotes. -/
theorem tight_quoted (h : Plain b) : Tight (quoted b) where
  accepted := accepts_quoted h
  starts := ⟨_,_,rfl,by decide⟩
  ends := ⟨_,_,(List.cons_append ..).symm,by decide⟩

lemma stringValue_quoted (h : Plain b) : stringValue (quoted b) = some (unescape 0 b) := by
  unfold stringValue
  rw [if_pos (accepts_quoted h),(tight_quoted h).trimmed]
  simp [quoted]

end PhpAgent.Json
