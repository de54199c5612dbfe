import PhpAgent.Daemon.ConfigGrammar

/-! Values written in double quotes, and what `Decode` stores of them. -/
namespace PhpAgent

open Json (code)
open Runes

namespace Config

/-! ### Writing -/

/-- The text stands for the value between double quotes. Only the quote and the backslash have to be
escaped. -/
inductive Escapes : Bytes → Bytes → Prop
  | nil : Escapes [] []
  | plain {c : UInt8} {value text : Bytes} : c ≠ code '"' → c ≠ code '\\' → Escapes value text →
      Escapes (c :: value) (c :: text)
  | escaped {e c : UInt8} {value text : Bytes} : (e,c) ∈ unescapes → Escapes value text →
      Escapes (c :: value) (code '\\' :: e :: text)

/-- An assignment to a known keyword, with its value in double quotes and white space around it. -/
structure Assignment (u : Unicode) (known : List Bytes) where
  first : Char
  letters : List Char
  value : Bytes
  text : Bytes
  before : List Char
  after : List Char
  behind : List Char
  isLetter_first : u.isLetter first = true
  isAlnum_letters : ∀ c ∈ letters, u.isAlnum c = true ∨ c = '.'
  escapes : Escapes value text
  isSpace_before : ∀ c ∈ before, isSpace c = true
  isSpace_after : ∀ c ∈ after, isSpace c = true ∧ c ≠ '\n'
  isSpace_behind : ∀ c ∈ behind, isSpace c = true
  mem_known : encode (first :: letters) ∈ known

variable {u : Unicode} {known : List Bytes} {value text : Bytes} {d d' : Decoder (Bytes → Bytes)}
  {s s' : StateFn}

def Assignment.keyword (a : Assignment u known) : Bytes := encode (a.first :: a.letters)

def Assignment.written (a : Assignment u known) : Bytes :=
  a.keyword ++ (encode a.before ++ code '=' :: (encode a.after ++
    code '"' :: (a.text ++ code '"' :: encode a.behind)))

def written (as : List (Assignment u known)) : Bytes := as.flatMap Assignment.written

/-- The last assignment to a keyword wins. -/
def assigned (as : List (Assignment u known)) (dest : Bytes → Bytes) : Bytes → Bytes :=
  as.foldl (fun dest a => Function.update dest a.keyword a.value) dest

/-- A struct with a string for each known keyword. -/
def stringFields (known : List Bytes) : Fields (Bytes → Bytes) Empty := fun keyword =>
  if keyword ∈ known then some fun token dest => .ok (Function.update dest keyword token) else none

/-! ### Escapes -/

/-- A list is looked through element by element. -/
theorem forall_mem_of_all {α : Type} {l : List α} {P : α → Prop} [DecidablePred P]
    (h : (l.all fun a => decide (P a)) = true) : ∀ a ∈ l, P a :=
  fun a ha => of_decide_eq_true (List.all_eq_true.mp h a ha)

lemma lookup_of_mem {e c : UInt8} (h : (e,c) ∈ unescapes) : unescapes.lookup e = some c := by
  have hall : ∀ p ∈ unescapes, unescapes.lookup p.1 = some p.2 :=
    forall_mem_of_all (by decide)
  exact hall (e,c) h

lemma unescape_cons {c : UInt8} (hc : c ≠ code '\\') (text : Bytes) :
    unescape (c :: text) = c :: unescape text := by
  cases text with
  | nil => rfl
  | cons e rest => rw [unescape,if_neg hc]

lemma unescape_escape {e c : UInt8} (h : (e,c) ∈ unescapes) (text : Bytes) :
    unescape (code '\\' :: e :: text) = c :: unescape text := by
  rw [unescape,if_pos rfl,lookup_of_mem h]

lemma unescape_escapes (h : Escapes value text) : unescape text = value := by
  induction h with
  | nil => rfl
  | plain hquote hslash h ih => rw [unescape_cons hslash,ih]
  | escaped he h ih => rw [unescape_escape he,ih]

lemma quote_mem_iff (h : Escapes value text) : code '"' ∈ text ↔ code '"' ∈ value := by
  induction h with
  | nil => exact Iff.rfl
  | plain hquote hslash h ih => rw [List.mem_cons,List.mem_cons,ih]
  | escaped he h ih =>
    have hall : ∀ p ∈ unescapes, code '"' = p.1 ↔ code '"' = p.2 :=
      forall_mem_of_all (by decide)
    have hslash : code '"' ≠ code '\\' := by decide
    rw [List.mem_cons,List.mem_cons,List.mem_cons,ih,hall _ he]
    exact ⟨fun h => h.resolve_left hslash,.inr⟩

/-- Escaping and unescaping make and lose no delimiter. -/
theorem count_equals (h : Escapes value text) : text.count (code '=') = value.count (code '=') := by
  induction h with
  | nil => rfl
  | plain hquote hslash h ih => rw [List.count_cons,List.count_cons,ih]
  | escaped he h ih =>
    have hall : ∀ p ∈ unescapes, p.1 ≠ code '=' ∧ p.2 ≠ code '=' :=
      forall_mem_of_all (by decide)
    obtain ⟨hne,hne'⟩ := hall _ he
    rw [List.count_cons_of_ne (by decide),List.count_cons_of_ne hne,List.count_cons_of_ne hne',ih]

/-- Unescaping makes no byte, unless it stands behind a backslash for another one. -/
theorem count_unescape_le {x : UInt8} (hx : ∀ p ∈ unescapes, p.2 = x → p.1 = x) (text : Bytes) :
    (unescape text).count x ≤ text.count x := by
  fun_induction unescape text with
  | case1 => exact le_rfl
  | case2 c => exact le_rfl
  | case3 e rest r hr ih =>
    have hmem : (e,r) ∈ unescapes := by
      obtain ⟨pre,post,hsplit,_⟩ := List.lookup_eq_some_iff.mp hr
      rw [hsplit]
      exact List.mem_append_right pre List.mem_cons_self
    by_cases hr' : r = x
    · have he : e = x := hx _ hmem hr'
      rw [hr',he,List.count_cons_self,List.count_cons,List.count_cons_self]
      omega
    · rw [List.count_cons_of_ne hr',List.count_cons,List.count_cons]
      omega
  | case4 e rest hr ih =>
    rw [List.count_cons,List.count_cons (a := x) (b := code '\\')]
    omega
  | case5 c e rest hc ih =>
    rw [List.count_cons,List.count_cons (a := x) (b := c)]
    omega

lemma quote_not_mem_unescape {text : Bytes} (h : code '"' ∉ text) : code '"' ∉ unescape text := by
  have hall : ∀ p ∈ unescapes, p.2 ≠ code '"' ∨ p.1 = code '"' :=
    forall_mem_of_all (by decide)
  have hx : ∀ p ∈ unescapes, p.2 = code '"' → p.1 = code '"' := fun p hp heq =>
    (hall p hp).resolve_left (not_not.mpr heq)
  have hcount := count_unescape_le hx text
  rw [List.count_eq_zero.mpr h] at hcount
  exact List.count_eq_zero.mp (Nat.le_zero.mp hcount)

/-! ### Reading an assignment -/

/-- The run up to the text between the quotes. -/
theorem run_assignment {τ ε : Type} {fields : Fields τ ε} (a : Assignment u known) (dest : τ)
    (rest : Bytes) :
    (scanner u fields).run (.lexInitial,⟨[],[],dest⟩) (a.written ++ rest) =
      (scanner u fields).run (.lexDoubleQuoteString,⟨a.keyword,[],dest⟩)
        (a.text ++ code '"' :: (encode a.behind ++ rest)) := by
  have hfirst : readRune (a.written ++ rest) = some (a.first,encode a.letters ++
      (encode a.before ++ (code '=' :: (encode a.after ++
        code '"' :: (a.text ++ code '"' :: (encode a.behind ++ rest)))))) := by
    have hsplit : a.written ++ rest = String.utf8EncodeChar a.first ++ (encode a.letters ++
        (encode a.before ++ (code '=' :: (encode a.after ++
          code '"' :: (a.text ++ code '"' :: (encode a.behind ++ rest)))))) := by
      simp [Assignment.written,Assignment.keyword,encode]
    rw [hsplit]
    exact readRune_encode _ _
  rw [run_letter hfirst a.isLetter_first,run_letters (reads_encode a.letters _) a.isAlnum_letters,
    run_keyword (reads_encode a.before _) a.isSpace_before,
    run_value (reads_encode a.after _) a.isSpace_after,run_doubleQuote]
  simp [Assignment.keyword,encode]

lemma processKeyword_known {keyword : Bytes} (h : keyword ∈ known) (token : Bytes)
    (dest : Bytes → Bytes) :
    processKeyword (stringFields known) ⟨keyword,token,dest⟩ =
      .ok ⟨[],[],Function.update dest keyword token⟩ := by
  simp only [processKeyword,stringFields,if_pos h]

/-- What stands between the first two quotes is stored. -/
theorem run_stored (a : Assignment u known) (dest : Bytes → Bytes) {value rest rest' : Bytes}
    (h : a.text ++ code '"' :: (encode a.behind ++ rest) = value ++ code '"' :: rest')
    (hvalue : code '"' ∉ value) :
    (scanner u (stringFields known)).run (.lexInitial,⟨[],[],dest⟩) (a.written ++ rest) =
      (scanner u (stringFields known)).run
        (.lexInitial,⟨[],[],Function.update dest a.keyword (unescape value)⟩) rest' := by
  rw [run_assignment,h]
  refine run_of_step ?_
  simp only [step,lexDoubleQuoteString,readBytes_append hvalue,processed,List.nil_append]
  rw [processKeyword_known (show a.keyword ∈ known from a.mem_known)]

/-- A value without a quote is stored as it is. -/
theorem run_plain (a : Assignment u known) (h : code '"' ∉ a.value) (dest : Bytes → Bytes)
    (rest : Bytes) :
    (scanner u (stringFields known)).run (.lexInitial,⟨[],[],dest⟩) (a.written ++ rest) =
      (scanner u (stringFields known)).run
        (.lexInitial,⟨[],[],Function.update dest a.keyword a.value⟩) rest := by
  have htext : code '"' ∉ a.text := fun hmem => h ((quote_mem_iff a.escapes).mp hmem)
  rw [run_stored a dest rfl htext,unescape_escapes a.escapes,
    run_blanks (reads_encode a.behind rest) a.isSpace_behind]

lemma decode_plain (as : List (Assignment u known)) (h : ∀ a ∈ as, code '"' ∉ a.value)
    (dest : Bytes → Bytes) :
    decode u (stringFields known) (written as) dest = .ok (assigned as dest) := by
  have hrun : (scanner u (stringFields known)).run (.lexInitial,⟨[],[],dest⟩) (written as) =
      .ok (.lexInitial,⟨[],[],assigned as dest⟩) := by
    induction as generalizing dest with
    | nil => exact run_of_done rfl
    | cons a as ih =>
      have hsplit : written (a :: as) = a.written ++ written as := List.flatMap_cons
      rw [hsplit,run_plain a (h a List.mem_cons_self)]
      exact ih (fun b hb => h b (List.mem_cons_of_mem a hb)) _
  rw [decode,hrun]
  rfl

/-! ### A quote in a value -/

/-- Whether a delimiter stands in front of the state. -/
def StateFn.debt : StateFn → ℕ
  | .lexInitial | .lexComment | .lexKeyword | .lexDelimiter => 0
  | .lexValue | .lexSingleQuoteString | .lexDoubleQuoteString | .lexRawString => 1

/-- The value is not stored, and what is left of the input has no more delimiters than the value. A value
that is stored later stands behind one of them, and has fewer. -/
structure Missed (keyword value : Bytes) (s : StateFn) (d : Decoder (Bytes → Bytes)) (input : Bytes) :
    Prop where
  dest : d.dest keyword ≠ value
  count : d.token.count (code '=')+input.count (code '=')+s.debt ≤ value.count (code '=')

lemma count_of_readRune {input rest : Bytes} {ch : Char} (h : readRune input = some (ch,rest)) :
    (String.utf8EncodeChar ch).count (code '=')+rest.count (code '=') ≤ input.count (code '=') := by
  obtain ⟨pre,rfl,_,hpre⟩ := exists_of_readRune h
  rw [List.count_append]
  by_cases hch : ch = runeError
  · have hzero : (String.utf8EncodeChar runeError).count (code '=') = 0 := by decide
    rw [hch,hzero]
    omega
  · rw [hpre hch]

lemma count_of_readBytes {delim : UInt8} {input value rest : Bytes}
    (h : readBytes delim input = some (value,rest)) :
    value.count (code '=')+rest.count (code '=') ≤ input.count (code '=') := by
  rw [(readBytes_eq_some h).1,List.count_append,List.count_cons]
  omega

/-- A value with fewer delimiters is another value. -/
theorem missed_of_process {keyword value : Bytes}
    (h : processKeyword (stringFields known) d = .ok d') (hdest : d.dest keyword ≠ value)
    (htoken : d.token.count (code '=') < value.count (code '=')) :
    d'.dest keyword ≠ value ∧ d'.token = [] := by
  unfold processKeyword stringFields at h
  by_cases hknown : d.keyword ∈ known
  · simp only [if_pos hknown] at h
    cases h
    refine ⟨?_,rfl⟩
    simp only
    by_cases hkey : keyword = d.keyword
    · rw [hkey,Function.update_self]
      rintro rfl
      exact lt_irrefl _ htoken
    · rwa [Function.update_of_ne hkey]
  · simp only [if_neg hknown] at h
    cases h
    exact ⟨hdest,rfl⟩

/-- Behind a value that is stored. -/
theorem missed_stored {keyword value rest : Bytes}
    (h : processKeyword (stringFields known) d = .ok d') (hdest : d.dest keyword ≠ value)
    (hcount : d.token.count (code '=')+rest.count (code '=')+1 ≤ value.count (code '=')) :
    Missed keyword value .lexInitial d' rest := by
  obtain ⟨hdest',htoken⟩ := missed_of_process h hdest (by omega)
  refine ⟨hdest',?_⟩
  rw [htoken,List.count_nil,StateFn.debt]
  omega

/-- What is kept of a raw line has no more delimiters. -/
theorem count_raw_le (line : Bytes) :
    (trimRight (stripTrailingComment line)).count (code '=') ≤ line.count (code '=') := by
  have hinitial : trimRight (stripTrailingComment line) <+: line :=
    (trimRightFunc_initial isSpace _).trans (List.takeWhile_prefix _)
  exact hinitial.sublist.count_le _

lemma Steps.missed_of_end {keyword value : Bytes}
    {input : Bytes} {n : Next (Bytes → Bytes) Empty} (h : Steps u (stringFields known) s d input n)
    (hmissed : Missed keyword value s d input) (hn : n = done s' d') : d'.dest keyword ≠ value := by
  obtain ⟨hdest,hcount⟩ := hmissed
  cases h with
  | failed => cases hn
  | initialEnd | keywordEnd | commentEnd =>
    cases hn
    exact hdest
  | valueEnd hprocess =>
    cases hn
    rw [StateFn.debt] at hcount
    exact (missed_of_process hprocess hdest (by omega)).1
  | rawEnd hread hprocess =>
    cases hn
    have hraw := count_raw_le input
    rw [StateFn.debt] at hcount
    refine (missed_of_process hprocess hdest ?_).1
    simp only [List.count_append]
    omega
  | initialBlank | initialComment | initialLetter | keywordChar | keywordBlank | keywordEquals
  | delimiterBlank | delimiterEquals | valueNewline | valueBlank | valueQuote | valueDoubleQuote
  | valueRaw | singleQuote | doubleQuote | rawLine | commentLine | commentLast => cases hn

/-- One step does not store the value. -/
theorem Steps.missed_of_next {keyword value : Bytes}
    {input rest : Bytes} {n : Next (Bytes → Bytes) Empty} (h : Steps u (stringFields known) s d input n)
    (hmissed : Missed keyword value s d input) (hn : n = next s' d' rest) :
    Missed keyword value s' d' rest := by
  obtain ⟨hdest,hcount⟩ := hmissed
  have hequals : ∀ {rest : Bytes}, readRune input = some ('=',rest) →
      rest.count (code '=')+1 ≤ input.count (code '=') := by
    intro rest hread
    have hread' := count_of_readRune hread
    have hone : (String.utf8EncodeChar '=').count (code '=') = 1 := by decide
    omega
  cases h with
  | failed | initialEnd | keywordEnd | valueEnd | rawEnd | commentEnd => cases hn
  | initialBlank hread | initialComment hread | delimiterBlank hread | valueBlank hread
  | valueQuote hread | valueDoubleQuote hread =>
    cases hn
    have hread' := count_of_readRune hread
    refine ⟨hdest,?_⟩
    simp only [StateFn.debt] at hcount ⊢
    omega
  | initialLetter hread | keywordChar hread | valueRaw hread =>
    cases hn
    have hread' := count_of_readRune hread
    refine ⟨hdest,?_⟩
    simp only [StateFn.debt,List.count_append] at hcount ⊢
    omega
  | keywordBlank hread =>
    cases hn
    have hread' := count_of_readRune hread
    refine ⟨hdest,?_⟩
    simp only [StateFn.debt,List.count_nil] at hcount ⊢
    omega
  | keywordEquals hread =>
    cases hn
    have hread' := hequals hread
    refine ⟨hdest,?_⟩
    simp only [StateFn.debt,List.count_nil] at hcount ⊢
    omega
  | delimiterEquals hread =>
    cases hn
    have hread' := hequals hread
    refine ⟨hdest,?_⟩
    simp only [StateFn.debt] at hcount ⊢
    omega
  | valueNewline hread hprocess =>
    cases hn
    have hread' := count_of_readRune hread
    rw [StateFn.debt] at hcount
    exact missed_stored hprocess hdest (by omega)
  | singleQuote hread hprocess =>
    cases hn
    have hread' := count_of_readBytes hread
    rw [StateFn.debt] at hcount
    refine missed_stored hprocess hdest ?_
    simp only [List.count_append]
    omega
  | @doubleQuote _ _ _ v _ hread hprocess =>
    cases hn
    have hread' := count_of_readBytes hread
    have hall : ∀ p ∈ unescapes, p.2 ≠ code '=' ∨ p.1 = code '=' :=
      forall_mem_of_all (by decide)
    have hx : ∀ p ∈ unescapes, p.2 = code '=' → p.1 = code '=' := fun p hp heq =>
      (hall p hp).resolve_left (not_not.mpr heq)
    have hunescape := count_unescape_le hx (d.token ++ v)
    rw [List.count_append] at hunescape
    rw [StateFn.debt] at hcount
    refine missed_stored hprocess hdest ?_
    simp only
    omega
  | @rawLine _ _ _ line _ hread hprocess =>
    cases hn
    have hread' := count_of_readBytes hread
    have hraw := count_raw_le (line ++ [code '\n'])
    have hnewline : [code '\n'].count (code '=') = 0 := by decide
    rw [List.count_append,hnewline] at hraw
    rw [StateFn.debt] at hcount
    refine missed_stored hprocess hdest ?_
    simp only [List.count_append]
    omega
  | commentLast =>
    cases hn
    refine ⟨hdest,?_⟩
    simp only [StateFn.debt,List.count_nil] at hcount ⊢
    omega
  | commentLine hread =>
    cases hn
    have hread' := count_of_readBytes hread
    refine ⟨hdest,?_⟩
    simp only [StateFn.debt] at hcount ⊢
    omega

/-- A whole run does not store the value. -/
theorem run_missed {keyword value : Bytes} {input : Bytes} (h : Missed keyword value s d input)
    (hrun : (scanner u (stringFields known)).run (s,d) input = .ok (s',d')) :
    d'.dest keyword ≠ value := by
  refine (scanner u (stringFields known)).run_invariant
    (I := fun s input => Missed keyword value s.1 s.2 input)
    (Q := fun r => ∀ s' d', r = .ok (s',d') → d'.dest keyword ≠ value) ?_ ?_ h s' d' hrun
  · rintro ⟨s,d⟩ input r hmissed hstep s' d' rfl
    exact (step_steps u (stringFields known) s d input).missed_of_end hmissed hstep
  · rintro ⟨s,d⟩ input ⟨s',d'⟩ rest hmissed hstep
    exact (step_steps u (stringFields known) s d input).missed_of_next hmissed hstep

lemma count_blanks {ws : List Char} (h : ∀ c ∈ ws, isSpace c = true) :
    (encode ws).count (code '=') = 0 := by
  refine List.count_eq_zero.mpr ?_
  intro hmem
  obtain ⟨c,hc,hmem⟩ := List.mem_flatMap.mp hmem
  have hspace := h c hc
  rw [eq_of_mem_encode hmem (by decide)] at hspace
  exact absurd hspace (by decide)

/-- A value with a quote is not stored, whatever is read in its place. -/
theorem decode_quote (a : Assignment u known) (h : code '"' ∈ a.value) (dest : Bytes → Bytes) :
    decode u (stringFields known) (written [a]) dest ≠ .ok (assigned [a] dest) := by
  intro hdecode
  obtain ⟨value,more,hsplit,hvalue⟩ := List.eq_append_cons_of_mem ((quote_mem_iff a.escapes).mpr h)
  have hwritten : written [a] = a.written ++ [] := by simp [written]
  have htext : a.text ++ code '"' :: (encode a.behind ++ []) =
      value ++ code '"' :: (more ++ code '"' :: (encode a.behind ++ [])) := by
    rw [hsplit]
    simp
  have hrun := run_stored a dest htext hvalue
  have hmissed : Missed a.keyword a.value .lexInitial
      ⟨[],[],Function.update dest a.keyword (unescape value)⟩
      (more ++ code '"' :: (encode a.behind ++ [])) := by
    refine ⟨?_,?_⟩
    · intro heq
      simp only [Function.update_self] at heq
      rw [← heq] at h
      exact quote_not_mem_unescape hvalue h
    · have hcount := count_equals a.escapes
      have hblank := count_blanks a.isSpace_behind
      have hquote : [code '"'].count (code '=') = 0 := by decide
      have hrest : more ++ code '"' :: (encode a.behind ++ []) = more ++ ([code '"'] ++ encode a.behind) := by
        simp
      rw [hsplit,List.count_append,List.count_cons] at hcount
      rw [hrest,List.count_append,List.count_append,hblank,hquote,List.count_nil,StateFn.debt]
      omega
  rw [decode,hwritten,hrun] at hdecode
  cases hout : (scanner u (stringFields known)).run
      (.lexInitial,⟨[],[],Function.update dest a.keyword (unescape value)⟩)
      (more ++ code '"' :: (encode a.behind ++ [])) with
  | error err =>
    rw [hout] at hdecode
    cases hdecode
  | ok out =>
    obtain ⟨s',d'⟩ := out
    rw [hout] at hdecode
    have hdest : d'.dest = assigned [a] dest := Except.ok.inj hdecode
    refine run_missed hmissed hout ?_
    rw [hdest]
    simp [assigned]

/-- The parts of a list of assignments are all stored exactly when no value has a quote; and all that is
taken of a text is in the grammar exactly when the text does not end within a keyword. -/
theorem decode_iff (u : Unicode) (known : List Bytes) (as : List (Assignment u known)) (text : Bytes) :
    ((∀ as', as'.Sublist as → ∀ dest,
        decode u (stringFields known) (written as') dest = .ok (assigned as' dest)) ↔
      ∀ a ∈ as, code '"' ∉ a.value) ∧
    ((∀ (τ ε : Type) (fields : Fields τ ε) (dest dest' : τ),
        decode u fields text dest = .ok dest' → Ini u text) ↔ ¬ EndsInKeyword u text) := by
  refine ⟨⟨?_,?_⟩,forall_ini_iff text⟩
  · intro h a ha hquote
    have hpart : [a].Sublist as := List.singleton_sublist.mpr ha
    exact decode_quote a hquote (fun _ => []) (h [a] hpart (fun _ => []))
  · intro h as' hpart dest
    exact decode_plain as' (fun a ha => h a (hpart.subset ha)) dest

lemma bounds_of_isSpace {c : Char} (h : isSpace c = true) : c.toNat ≤ 32 ∨ 128 ≤ c.toNat := by
  simp only [isSpace,List.mem_cons,List.not_mem_nil,or_false,decide_eq_true_eq] at h
  omega

lemma bounds_of_isAlpha {c : Char} (h : c.isAlpha = true) : 64 < c.toNat ∧ c.toNat < 123 := by
  have hcase : (c.isUpper || c.isLower) = true := h
  obtain hupper | hlower := Bool.or_eq_true_iff.mp hcase
  · have hrange : c.val ≥ 'A'.val ∧ c.val ≤ 'Z'.val := of_decide_eq_true hupper
    have hge : 65 ≤ c.toNat := UInt32.le_iff_toNat_le.mp hrange.1
    have hle : c.toNat ≤ 90 := UInt32.le_iff_toNat_le.mp hrange.2
    omega
  · obtain ⟨hge,hle⟩ := Bool.and_eq_true_iff.mp hlower
    have hge' : 97 ≤ c.toNat := UInt32.le_iff_toNat_le.mp (of_decide_eq_true hge)
    have hle' : c.toNat ≤ 122 := UInt32.le_iff_toNat_le.mp (of_decide_eq_true hle)
    omega

lemma isAlpha_of_isSpace (c : Char) (h : isSpace c = true) : c.isAlpha = false := by
  by_contra hne
  have halpha := Bool.eq_true_of_not_eq_false hne
  have hspace := bounds_of_isSpace h
  have hbounds := bounds_of_isAlpha halpha
  omega

lemma isDigit_of_isSpace (c : Char) (h : isSpace c = true) : c.isDigit = false := by
  by_contra hne
  have hdigit := Bool.eq_true_of_not_eq_false hne
  have hspace := bounds_of_isSpace h
  obtain ⟨hge,hle⟩ := Bool.and_eq_true_iff.mp hdigit
  have hge' : 48 ≤ c.toNat := UInt32.le_iff_toNat_le.mp (of_decide_eq_true hge)
  have hle' : c.toNat ≤ 57 := UInt32.le_iff_toNat_le.mp (of_decide_eq_true hle)
  omega

/-- Tables of ASCII only. -/
def asciiTables : Unicode where
  isLetter c := c.isAlpha
  isNumber c := c.isDigit
  letter_ascii _ _ := rfl
  number_ascii _ _ := rfl
  letter_space := isAlpha_of_isSpace
  number_space := isDigit_of_isSpace

/-- `k = "\""`. -/
def sampleAssignment : Assignment asciiTables [ascii "k"] where
  first := 'k'
  letters := []
  value := [code '"']
  text := [code '\\',code '"']
  before := [' ']
  after := [' ']
  behind := ['\n']
  isLetter_first := by decide
  isAlnum_letters := by simp
  escapes := .escaped (by decide) .nil
  isSpace_before := by
    rw [List.forall_mem_singleton]
    decide
  isSpace_after := by
    rw [List.forall_mem_singleton]
    decide
  isSpace_behind := by
    rw [List.forall_mem_singleton]
    decide
  mem_known := by decide

/-- A quote as a value is not stored, and a text that is a keyword only is taken. -/
theorem not_decode :
    (¬ ∀ (as : List (Assignment asciiTables [ascii "k"])) dest,
      decode asciiTables (stringFields [ascii "k"]) (written as) dest = .ok (assigned as dest)) ∧
    ¬ ∀ (text : Bytes) (dest' : Unit),
      decode asciiTables noFields text () = .ok dest' → Ini asciiTables text := by
  refine ⟨?_,?_⟩
  · intro h
    exact decode_quote sampleAssignment (by decide) (fun _ => []) (h [sampleAssignment] (fun _ => []))
  · intro h
    have hends : EndsInKeyword asciiTables (ascii "k") := by
      refine ⟨ascii "k",.nil _,'k',[],?_,by decide,[],.nil [],by simp⟩
      exact readRune_ascii (by decide) []
    obtain ⟨d,hrun⟩ := run_of_endsInKeyword ⟨[],[],()⟩ hends
    have hini : Ini asciiTables (ascii "k") := by
      refine h (ascii "k") d.dest ?_
      rw [decode,hrun]
      rfl
    obtain ⟨s,d',hrun',hne⟩ := run_of_ini ⟨[],[],()⟩ hini
    rw [hrun] at hrun'
    cases hrun'
    exact hne rfl

end Config
end PhpAgent
