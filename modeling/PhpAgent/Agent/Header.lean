import PhpAgent.Agent.TraceContext

/-! Cross process ids, after `nr_header.c`, and the accounts that are trusted, after `nr_txn.c`. -/
namespace PhpAgent

open Json (code digitsValue)

def NrObj.isInt (x : ℤ) : NrObj → Bool
  | .int i _ => i = x
  | _ => false

/-- `nro_find_array_int`; positions count from one. -/
def findArrayInt : Option NrObj → ℤ → ℤ
  | some (.array elements), x =>
    match elements.findIdx? (NrObj.isInt x) with
    | some i => i+1
    | none => -1
  | _, _ => -1

lemma findArrayInt_pos_iff (array : Option NrObj) (x : ℤ) :
    0 < findArrayInt array x ↔ ∃ elements, array = some (.array elements) ∧ ∃ o ∈ elements, o.isInt x := by
  unfold findArrayInt
  split
  · rename_i elements
    cases hfind : elements.findIdx? (NrObj.isInt x) with
    | none =>
      rw [List.findIdx?_eq_none_iff] at hfind
      simp only [Int.reduceNeg,Option.some.injEq,NrObj.array.injEq,exists_eq_left']
      constructor
      · intro h
        omega
      · rintro ⟨o,hmem,hint⟩
        rw [hfind o hmem] at hint
        cases hint
    | some i =>
      obtain ⟨hi,hat,-⟩ := List.findIdx?_eq_some_iff_getElem.mp hfind
      have hmem : ∃ o ∈ elements, o.isInt x := ⟨_,List.getElem_mem hi,hat⟩
      simp only [Option.some.injEq,NrObj.array.injEq,exists_eq_left',hmem,iff_true]
      omega
  · rename_i hnot
    constructor
    · intro h
      omega
    · rintro ⟨elements,rfl,-⟩
      exact absurd rfl (hnot elements)

/-- `nrtxn_t`, as far as headers are checked against it. -/
structure HeaderTxn where
  appConnectReply : Option NrObj

namespace NrHeader

def crossProcessIdLengthMax : ℤ := 64

/-- A sign, and what is behind it. -/
def splitSign : Bytes → Bool × Bytes
  | [] => (false,[])
  | c :: rest =>
    if c = code '-' then (true,rest) else if c = code '+' then (false,rest) else (false,c :: rest)

/-- The number that is read of digits. -/
def numberRead (negative : Bool) (digits : Bytes) : ℤ := toLong negative (digitsValue digits)

/-- `strtoll` of base ten, with where it ends. -/
def strtoll (s : Bytes) : ℤ × Bytes :=
  let (negative,unsigned) := splitSign (s.dropWhile isspace)
  let digits := unsigned.takeWhile Json.isDigit
  if digits = [] then (0,s) else (numberRead negative digits,unsigned.dropWhile Json.isDigit)

/-- `nr_header_account_id_from_cross_process_id`. -/
def accountIdFromCrossProcessId (crossProcessId : Option Bytes) : ℤ :=
  match crossProcessId with
  | none => -1
  | some s =>
    let (accountId,ending) := strtoll s
    if ending.head? ≠ some (code '#') then -1
    else if intMax ≤ accountId then -1
    else accountId

/-- `nr_txn_is_account_trusted`. -/
def isAccountTrusted (txn : Option HeaderTxn) (accountId : ℤ) : Bool :=
  match txn with
  | none => false
  | some txn =>
    if accountId ≤ 0 then false
    else
      let trustedAccountIds := txn.appConnectReply.bind (·.getHashArray "trusted_account_ids")
      0 < findArrayInt trustedAccountIds accountId

/-- `nr_header_validate_decoded_id`. -/
def validateDecodedId (txn : Option HeaderTxn) (decodedId : Option Bytes) : Bool :=
  match txn, decodedId with
  | some txn, some decodedId =>
    if crossProcessIdLengthMax ≤ strlen decodedId then false
    else
      let accountId := accountIdFromCrossProcessId (some decodedId)
      if accountId = -1 then false else isAccountTrusted (some txn) (toInt accountId)
  | _, _ => false

/-! ### Trusted accounts -/

/-- The connect reply lists the account. -/
def Listed (txn : HeaderTxn) (n : ℤ) : Prop :=
  ∃ elements, txn.appConnectReply.bind (·.getHashArray "trusted_account_ids") = some (.array elements) ∧
    ∃ o ∈ elements, o.isInt n

lemma isAccountTrusted_iff (txn : HeaderTxn) (n : ℤ) :
    isAccountTrusted (some txn) n = true ↔ 0 < n ∧ Listed txn n := by
  unfold isAccountTrusted Listed
  by_cases hn : n ≤ 0
  · simp only [hn,if_true]
    simp [not_lt.mpr hn]
  · simp only [hn,if_false,decide_eq_true_eq]
    rw [findArrayInt_pos_iff,and_iff_right (not_le.mp hn)]

/-! ### What is read as a number -/

/-- White space and a sign, as they may stand in front of a number. -/
def Lead (lead : Bytes) (negative : Bool) : Prop :=
  ∃ spaces sign, lead = spaces ++ sign ∧ (∀ c ∈ spaces, isspace c = true) ∧
    (negative = true ∧ sign = [code '-'] ∨ negative = false ∧ (sign = [code '+'] ∨ sign = []))

/-- The text is digits behind a lead and in front of a number sign. -/
structure Numbered (s lead : Bytes) (negative : Bool) (digits : Bytes) : Prop where
  text : ∃ rest, s = lead ++ (digits ++ code '#' :: rest)
  lead : Lead lead negative
  digits : (∀ d ∈ digits, Json.isDigit d = true) ∧ digits ≠ []

lemma isspace_code_dash : isspace (code '-') = false := by decide
lemma isspace_code_plus : isspace (code '+') = false := by decide
lemma isDigit_code_hash : Json.isDigit (code '#') = false := by decide

lemma sign_ne_of_isDigit {c : UInt8} (h : Json.isDigit c = true) : c ≠ code '-' ∧ c ≠ code '+' := by
  constructor
  · rintro rfl
    exact absurd h (by decide)
  · rintro rfl
    exact absurd h (by decide)

lemma dropWhile_append_cons {p : UInt8 → Bool} {xs : Bytes} (h : ∀ c ∈ xs, p c = true) {c : UInt8}
    (hc : p c = false) (rest : Bytes) : (xs ++ c :: rest).dropWhile p = c :: rest := by
  rw [List.dropWhile_append_of_pos h]
  simp [hc]

lemma takeWhile_append_cons {p : UInt8 → Bool} {xs : Bytes} (h : ∀ c ∈ xs, p c = true) {c : UInt8}
    (hc : p c = false) (rest : Bytes) : (xs ++ c :: rest).takeWhile p = xs := by
  rw [List.takeWhile_append_of_pos h]
  simp [hc]

/-- The digits behind a lead are read as their number. -/
theorem strtoll_of_numbered {s lead digits : Bytes} {negative : Bool}
    (h : Numbered s lead negative digits) :
    ∃ rest, strtoll s = (numberRead negative digits,code '#' :: rest) := by
  obtain ⟨rest,rfl⟩ := h.text
  obtain ⟨hdigits,hne⟩ := h.digits
  obtain ⟨spaces,sign,rfl,hspaces,hsign⟩ := h.lead
  obtain ⟨d,ds,rfl⟩ := List.exists_cons_of_ne_nil hne
  have hd := hdigits d List.mem_cons_self
  have hsplit : splitSign ((spaces ++ sign ++ ((d :: ds) ++ code '#' :: rest)).dropWhile isspace) =
      (negative,(d :: ds) ++ code '#' :: rest) := by
    rw [List.append_assoc]
    rcases hsign with ⟨rfl,rfl⟩ | ⟨rfl,rfl | rfl⟩
    · rw [List.singleton_append,dropWhile_append_cons hspaces isspace_code_dash]
      rfl
    · rw [List.singleton_append,dropWhile_append_cons hspaces isspace_code_plus]
      rfl
    · obtain ⟨hdash,hplus⟩ := sign_ne_of_isDigit hd
      rw [List.nil_append,List.cons_append,dropWhile_append_cons hspaces (isspace_of_isDigit d hd)]
      simp [splitSign,hdash,hplus]
  refine ⟨rest,?_⟩
  rw [strtoll,hsplit]
  simp only
  rw [takeWhile_append_cons hdigits isDigit_code_hash,dropWhile_append_cons hdigits isDigit_code_hash,
    if_neg hne]

lemma splitSign_spec (s : Bytes) : ∃ sign, s = sign ++ (splitSign s).2 ∧
    ((splitSign s).1 = true ∧ sign = [code '-'] ∨
      (splitSign s).1 = false ∧ (sign = [code '+'] ∨ sign = [])) := by
  cases s with
  | nil => exact ⟨[],rfl,.inr ⟨rfl,.inr rfl⟩⟩
  | cons c rest =>
    by_cases hdash : c = code '-'
    · exact ⟨[c],by simp [splitSign,hdash],.inl (by simp [splitSign,hdash])⟩
    · by_cases hplus : c = code '+'
      · have hsplit : splitSign (c :: rest) = (false,rest) := by
          rw [splitSign,if_neg hdash,if_pos hplus]
        rw [hsplit]
        exact ⟨[c],rfl,.inr ⟨rfl,.inl (by rw [hplus])⟩⟩
      · exact ⟨[],by simp [splitSign,hdash,hplus],.inr (by simp [splitSign,hdash,hplus])⟩

/-- A number sign where the number ends stands behind digits, or nothing has been read. -/
theorem numbered_of_strtoll {s : Bytes} (h : (strtoll s).2.head? = some (code '#')) :
    (strtoll s).1 = 0 ∨
      ∃ lead negative digits, Numbered s lead negative digits ∧ (strtoll s).1 = numberRead negative digits := by
  obtain ⟨sign,hsign,hcases⟩ := splitSign_spec (s.dropWhile isspace)
  unfold strtoll at h ⊢
  generalize splitSign (s.dropWhile isspace) = split at h hsign hcases ⊢
  obtain ⟨negative,unsigned⟩ := split
  simp only at h hsign hcases ⊢
  by_cases hnil : unsigned.takeWhile Json.isDigit = []
  · rw [if_pos hnil]
    exact .inl rfl
  · rw [if_neg hnil] at h ⊢
    obtain ⟨rest,hrest⟩ := List.head?_eq_some_iff.mp h
    refine .inr ⟨s.takeWhile isspace ++ sign,negative,unsigned.takeWhile Json.isDigit,⟨⟨rest,?_⟩,?_,?_,hnil⟩,rfl⟩
    · rw [← hrest,List.takeWhile_append_dropWhile,List.append_assoc,← hsign,
        List.takeWhile_append_dropWhile]
    · exact ⟨_,sign,rfl,fun c hc => List.mem_takeWhile_imp hc,hcases⟩
    · exact fun d hd => List.mem_takeWhile_imp hd

/-! ### Ids that are accepted -/

/-- What the account id is, unless it is missing or too large. -/
theorem accountId_cases {s : Bytes} (h : accountIdFromCrossProcessId (some s) ≠ -1) :
    (strtoll s).2.head? = some (code '#') ∧ (strtoll s).1 < intMax ∧
      accountIdFromCrossProcessId (some s) = (strtoll s).1 := by
  unfold accountIdFromCrossProcessId at h ⊢
  simp only at h ⊢
  by_cases hhash : (strtoll s).2.head? = some (code '#')
  · by_cases hmax : intMax ≤ (strtoll s).1
    · simp [hhash,hmax] at h
    · exact ⟨hhash,not_le.mp hmax,by simp [hhash,hmax]⟩
  · simp [hhash] at h

/-- An id is accepted when it is short, and the number it begins with, cut to 32 bits, is a trusted
account. -/
theorem validateDecodedId_iff (txn : HeaderTxn) (s : Bytes) :
    validateDecodedId (some txn) (some s) = true ↔ strlen s < crossProcessIdLengthMax ∧
      ∃ lead negative digits, Numbered s lead negative digits ∧ numberRead negative digits < intMax ∧
        0 < toInt (numberRead negative digits) ∧ Listed txn (toInt (numberRead negative digits)) := by
  unfold validateDecodedId
  simp only
  by_cases hlen : crossProcessIdLengthMax ≤ strlen s
  · simp [hlen,not_lt.mpr hlen]
  · rw [if_neg hlen,and_iff_right (not_le.mp hlen)]
    constructor
    · intro h
      split_ifs at h with hminus
      obtain ⟨hpos,hlisted⟩ := (isAccountTrusted_iff txn _).mp h
      obtain ⟨hhash,hmax,hid⟩ := accountId_cases hminus
      rw [hid] at hpos hlisted
      rcases numbered_of_strtoll hhash with hzero | ⟨lead,negative,digits,hnumbered,hread⟩
      · rw [hzero] at hpos
        exact absurd hpos (by decide)
      · rw [hread] at hmax hpos hlisted
        exact ⟨lead,negative,digits,hnumbered,hmax,hpos,hlisted⟩
    · rintro ⟨lead,negative,digits,hnumbered,hmax,hpos,hlisted⟩
      obtain ⟨rest,hread⟩ := strtoll_of_numbered hnumbered
      have hid : accountIdFromCrossProcessId (some s) = numberRead negative digits := by
        rw [accountIdFromCrossProcessId]
        simp only [hread,List.head?_cons]
        rw [if_neg (not_not.mpr rfl),if_neg (not_le.mpr hmax)]
      have hminus : numberRead negative digits ≠ -1 := by
        intro hone
        rw [hone] at hpos
        exact absurd hpos (by decide)
      rw [hid,if_neg hminus]
      exact (isAccountTrusted_iff txn _).mpr ⟨hpos,hlisted⟩

/-- A short text that begins with the decimal number of a trusted account and a number sign. -/
def NamesTrusted (txn : HeaderTxn) (s : Bytes) : Prop :=
  (s.length : ℤ) < crossProcessIdLengthMax ∧
    ∃ digits rest, s = digits ++ code '#' :: rest ∧ (∀ d ∈ digits, Json.isDigit d = true) ∧ digits ≠ [] ∧
      1 ≤ digitsValue digits ∧ (digitsValue digits : ℤ) ≤ intMax-1 ∧ Listed txn (digitsValue digits)

/-- White space or a sign in front of the number, and a length beyond an `int`, do not let a trusted
account be read. -/
def PlainId (txn : HeaderTxn) (s : Bytes) : Prop :=
  ∀ lead negative digits, Numbered s lead negative digits → strlen s < crossProcessIdLengthMax →
    numberRead negative digits < intMax → 0 < toInt (numberRead negative digits) →
      Listed txn (toInt (numberRead negative digits)) →
        lead = [] ∧ (s.length : ℤ) < crossProcessIdLengthMax

lemma lead_nil {negative : Bool} (h : Lead [] negative) : negative = false := by
  obtain ⟨spaces,sign,hnil,-,hsign⟩ := h
  rcases hsign with ⟨-,rfl⟩ | ⟨hnegative,-⟩
  · simp at hnil
  · exact hnegative

lemma numberRead_small {digits : Bytes} (h : (digitsValue digits : ℤ) ≤ intMax-1) :
    numberRead false digits = digitsValue digits := by
  unfold numberRead toLong longMin longMax
  unfold intMax at h
  simp only [Bool.false_eq_true,if_false]
  omega

lemma numberRead_lt {digits : Bytes} (h : numberRead false digits < intMax) :
    (digitsValue digits : ℤ) ≤ intMax-1 := by
  unfold numberRead toLong longMin longMax intMax at h
  unfold intMax
  simp only [Bool.false_eq_true,if_false] at h
  omega

lemma NamesTrusted.validates {txn : HeaderTxn} {s : Bytes} (h : NamesTrusted txn s) :
    validateDecodedId (some txn) (some s) = true := by
  obtain ⟨hlen,digits,rest,hs,hdigits,hne,hone,hmax,hlisted⟩ := h
  have hread := numberRead_small hmax
  have hint : toInt (digitsValue digits) = digitsValue digits := by
    unfold intMax at hmax
    exact toInt_of_lt (by omega)
  have hstrlen : strlen s = s.length := by
    unfold crossProcessIdLengthMax at hlen
    exact toInt_of_lt (by omega)
  rw [validateDecodedId_iff,hstrlen]
  refine ⟨hlen,[],false,digits,⟨⟨rest,hs⟩,⟨[],[],rfl,by simp,.inr ⟨rfl,.inr rfl⟩⟩,hdigits,hne⟩,?_⟩
  rw [hread,hint]
  exact ⟨by omega,by omega,hlisted⟩

/-- Exactly the ids that name a trusted account are accepted when no other text is read as one. -/
theorem accepted_iff (txn : HeaderTxn) (s : Bytes) :
    (validateDecodedId (some txn) (some s) = true ↔ NamesTrusted txn s) ↔ PlainId txn s := by
  constructor
  · intro hiff lead negative digits hnumbered hlen hmax hpos hlisted
    have hvalid := (validateDecodedId_iff txn s).mpr
      ⟨hlen,lead,negative,digits,hnumbered,hmax,hpos,hlisted⟩
    obtain ⟨hshort,digits',rest',hs',hdigits',hne',-⟩ := hiff.mp hvalid
    refine ⟨?_,hshort⟩
    obtain ⟨d,ds,rfl⟩ := List.exists_cons_of_ne_nil hne'
    have hd := hdigits' d List.mem_cons_self
    obtain ⟨rest,hs⟩ := hnumbered.text
    obtain ⟨spaces,sign,rfl,hspaces,hsign⟩ := hnumbered.lead
    rw [hs'] at hs
    cases spaces with
    | cons c spaces =>
      have hc : d = c := (List.cons.inj hs).1
      have hspace := hspaces c List.mem_cons_self
      rw [← hc,isspace_of_isDigit d hd] at hspace
      cases hspace
    | nil =>
      obtain ⟨hdash,hplus⟩ := sign_ne_of_isDigit hd
      rcases hsign with ⟨-,rfl⟩ | ⟨-,rfl | rfl⟩
      · exact absurd (List.cons.inj hs).1 hdash
      · exact absurd (List.cons.inj hs).1 hplus
      · rfl
  · intro hplain
    refine ⟨?_,fun h => h.validates⟩
    intro h
    obtain ⟨hlen,lead,negative,digits,hnumbered,hmax,hpos,hlisted⟩ := (validateDecodedId_iff txn s).mp h
    obtain ⟨rfl,hshort⟩ := hplain lead negative digits hnumbered hlen hmax hpos hlisted
    obtain rfl := lead_nil hnumbered.lead
    have hvalue := numberRead_lt hmax
    have hint : toInt (digitsValue digits) = digitsValue digits := by
      unfold intMax at hvalue
      exact toInt_of_lt (by omega)
    obtain ⟨rest,hs⟩ := hnumbered.text
    rw [numberRead_small hvalue,hint] at hpos hlisted
    exact ⟨hshort,digits,rest,hs,hnumbered.digits.1,hnumbered.digits.2,by omega,hvalue,hlisted⟩

/-- Account 1 is trusted. -/
def trustsOne : HeaderTxn :=
  ⟨some (.hash [(ascii "trusted_account_ids",.array [.int 1])])⟩

/-- A negative number is accepted as account 1. -/
theorem negative_accepted : ¬ ∀ (txn : HeaderTxn) (s : Bytes),
    validateDecodedId (some txn) (some s) = true ↔ NamesTrusted txn s := by
  intro h
  have hvalid : validateDecodedId (some trustsOne) (some (ascii "-4294967295#2")) = true := by
    decide
  obtain ⟨-,digits,rest,hs,hdigits,hne,-⟩ := (h _ _).mp hvalid
  obtain ⟨d,ds,rfl⟩ := List.exists_cons_of_ne_nil hne
  have hd : code '-' = d := (List.cons.inj hs).1
  exact absurd (hdigits d List.mem_cons_self) (by rw [← hd]; decide)

end NrHeader
end PhpAgent
