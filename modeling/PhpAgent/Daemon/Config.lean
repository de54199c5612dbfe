import PhpAgent.Lib.Runes
import PhpAgent.Lib.Scanner
import PhpAgent.Util.Object

/-! The parser of configuration files, after `config.go`. -/
namespace PhpAgent

open Json (code)
open Runes

namespace Config

/-- `unicode.IsSpace`. -/
def isSpace (c : Char) : Bool :=
  c.toNat ∈ [0x09,0x0a,0x0b,0x0c,0x0d,0x20,0x85,0xa0,0x1680,0x2028,0x2029,0x202f,0x205f,0x3000] ∨
    (0x2000 ≤ c.toNat ∧ c.toNat ≤ 0x200a)

/-- The tables of `unicode` that the parser asks; below 128 they are those of ASCII, and white space is
neither a letter nor a number. -/
structure Unicode where
  isLetter : Char → Bool
  isNumber : Char → Bool
  letter_ascii : ∀ c : Char, c.toNat < 128 → isLetter c = c.isAlpha
  number_ascii : ∀ c : Char, c.toNat < 128 → isNumber c = c.isDigit
  letter_space : ∀ c : Char, isSpace c = true → isLetter c = false
  number_space : ∀ c : Char, isSpace c = true → isNumber c = false

def Unicode.isAlnum (u : Unicode) (r : Char) : Bool := r = '_' || u.isLetter r || u.isNumber r

/-- What `Decode` reports, and what it has read of it. -/
inductive Error (ε : Type)
  | expectedKeyword (ch : Char)
  | invalidCharacter (ch : Char) (token : Bytes)
  | missingDelimiter (keyword : Bytes)
  | expectedDelimiter (keyword : Bytes) (ch : Char)
  | missingQuote (keyword : Bytes)
  | unmarshal (err : ε)
deriving DecidableEq

inductive StateFn
  | lexInitial
  | lexComment
  | lexKeyword
  | lexDelimiter
  | lexValue
  | lexSingleQuoteString
  | lexDoubleQuoteString
  | lexRawString
deriving DecidableEq

/-- A decoder, with the value it decodes into. -/
structure Decoder (τ : Type) where
  keyword : Bytes
  token : Bytes
  dest : τ

/-- The keywords of the fields, and `unmarshalValue` for each. -/
abbrev Fields (τ ε : Type) := Bytes → Option (Bytes → τ → Except ε τ)

/-- The end, with the state in which it comes, or the next state and what is left of the input. -/
abbrev Next (τ ε : Type) := Except (Error ε) (StateFn × Decoder τ) ⊕ ((StateFn × Decoder τ) × Bytes)

/-! ### The parts of the input -/

/-- `ReadBytes`, without the delimiter. -/
def readBytes (delim : UInt8) (input : Bytes) : Option (Bytes × Bytes) :=
  match input.dropWhile (· ≠ delim) with
  | [] => none
  | _ :: rest => some (input.takeWhile (· ≠ delim),rest)

def unescapes : List (UInt8 × UInt8) :=
  [(code 'b',0x08),(code 't',0x09),(code 'n',0x0a),(code 'v',0x0b),(code 'f',0x0c),(code 'r',0x0d),
    (code '"',code '"'),(code '\\',code '\\')]

/-- `unescapeReplacer`. -/
def unescape : Bytes → Bytes
  | [] => []
  | [c] => [c]
  | c :: e :: rest =>
    if c = code '\\' then
      match unescapes.lookup e with
      | some r => r :: unescape rest
      | none => c :: unescape (e :: rest)
    else c :: unescape (e :: rest)

def stripTrailingComment (line : Bytes) : Bytes := line.takeWhile fun c => c ∉ ascii "#;"

def trimRight (s : Bytes) : Bytes := trimRightFunc isSpace s

/-! ### The states -/

section States
variable {τ ε : Type} (u : Unicode) (fields : Fields τ ε) {delim : UInt8}

/-- Neither a next state nor an error, or `io.EOF`, which is none for `Decode`. -/
def done (s : StateFn) (d : Decoder τ) : Next τ ε := .inl (.ok (s,d))

def fail (err : Error ε) : Next τ ε := .inl (.error err)

def next (s : StateFn) (d : Decoder τ) (input : Bytes) : Next τ ε := .inr ((s,d),input)

def processKeyword (d : Decoder τ) : Except (Error ε) (Decoder τ) :=
  match fields d.keyword with
  | none => .ok ⟨[],[],d.dest⟩
  | some unmarshalValue =>
    match unmarshalValue d.token d.dest with
    | .ok dest => .ok ⟨[],[],dest⟩
    | .error err => .error (.unmarshal err)

/-- The keyword is processed, and `f` goes on. -/
def processed (d : Decoder τ) (f : Decoder τ → Next τ ε) : Next τ ε :=
  match processKeyword fields d with
  | .ok d => f d
  | .error err => fail err

def lexInitial (d : Decoder τ) (input : Bytes) : Next τ ε :=
  match readRune input with
  | none => done .lexInitial d
  | some (ch,rest) =>
    if isSpace ch then next .lexInitial d rest
    else if ch = '#' ∨ ch = ';' then next .lexComment d rest
    else if u.isLetter ch then
      next .lexKeyword { d with token := d.token ++ String.utf8EncodeChar ch } rest
    else fail (.expectedKeyword ch)

def lexKeyword (d : Decoder τ) (input : Bytes) : Next τ ε :=
  match readRune input with
  | none => done .lexKeyword d
  | some (ch,rest) =>
    if u.isAlnum ch ∨ ch = '.' then
      next .lexKeyword { d with token := d.token ++ String.utf8EncodeChar ch } rest
    else if isSpace ch then next .lexDelimiter { d with keyword := d.token, token := [] } rest
    else if ch = '=' then next .lexValue { d with keyword := d.token, token := [] } rest
    else fail (.invalidCharacter ch d.token)

def lexDelimiter (d : Decoder τ) (input : Bytes) : Next τ ε :=
  match readRune input with
  | none => fail (.missingDelimiter d.keyword)
  | some (ch,rest) =>
    if isSpace ch then next .lexDelimiter d rest
    else if ch = '=' then next .lexValue d rest
    else fail (.expectedDelimiter d.keyword ch)

def lexValue (d : Decoder τ) (input : Bytes) : Next τ ε :=
  match readRune input with
  | none => processed fields d fun d => done .lexValue d
  | some (ch,rest) =>
    if isSpace ch then
      if ch = '\n' then processed fields d fun d => next .lexInitial d rest
      else next .lexValue d rest
    else if ch = '\'' then next .lexSingleQuoteString d rest
    else if ch = '"' then next .lexDoubleQuoteString d rest
    else next .lexRawString { d with token := d.token ++ String.utf8EncodeChar ch } rest

def lexSingleQuoteString (d : Decoder τ) (input : Bytes) : Next τ ε :=
  match readBytes (code '\'') input with
  | none => fail (.missingQuote d.keyword)
  | some (value,rest) =>
    processed fields { d with token := d.token ++ value } fun d => next .lexInitial d rest

def lexDoubleQuoteString (d : Decoder τ) (input : Bytes) : Next τ ε :=
  match readBytes (code '"') input with
  | none => fail (.missingQuote d.keyword)
  | some (value,rest) =>
    processed fields { d with token := unescape (d.token ++ value) } fun d => next .lexInitial d rest

def lexRawString (d : Decoder τ) (input : Bytes) : Next τ ε :=
  match readBytes (code '\n') input with
  | none =>
    let value := trimRight (stripTrailingComment input)
    processed fields { d with token := d.token ++ value } fun d => done .lexRawString d
  | some (line,rest) =>
    let value := trimRight (stripTrailingComment (line ++ [code '\n']))
    processed fields { d with token := d.token ++ value } fun d => next .lexInitial d rest

/-- `ReadLine` until the end of the line. -/
def lexComment (d : Decoder τ) (input : Bytes) : Next τ ε :=
  if input = [] then done .lexComment d
  else
    match readBytes (code '\n') input with
    | none => next .lexInitial d []
    | some (_,rest) => next .lexInitial d rest

def step : StateFn × Decoder τ → Bytes → Next τ ε
  | (.lexInitial,d), input => lexInitial u d input
  | (.lexComment,d), input => lexComment d input
  | (.lexKeyword,d), input => lexKeyword u d input
  | (.lexDelimiter,d), input => lexDelimiter d input
  | (.lexValue,d), input => lexValue fields d input
  | (.lexSingleQuoteString,d), input => lexSingleQuoteString fields d input
  | (.lexDoubleQuoteString,d), input => lexDoubleQuoteString fields d input
  | (.lexRawString,d), input => lexRawString fields d input

/-! ### What a state can do -/

/-- Every step that is no error. -/
inductive Steps : StateFn → Decoder τ → Bytes → Next τ ε → Prop
  | failed (s : StateFn) (d : Decoder τ) (input : Bytes) (err : Error ε) : Steps s d input (fail err)
  | initialEnd {d : Decoder τ} : Steps .lexInitial d [] (done .lexInitial d)
  | initialBlank {d : Decoder τ} {input rest : Bytes} {ch : Char} : readRune input = some (ch,rest) →
      isSpace ch = true → Steps .lexInitial d input (next .lexInitial d rest)
  | initialComment {d : Decoder τ} {input rest : Bytes} {ch : Char} : readRune input = some (ch,rest) →
      ch = '#' ∨ ch = ';' → Steps .lexInitial d input (next .lexComment d rest)
  | initialLetter {d : Decoder τ} {input rest : Bytes} {ch : Char} : readRune input = some (ch,rest) →
      u.isLetter ch = true → Steps .lexInitial d input
        (next .lexKeyword { d with token := d.token ++ String.utf8EncodeChar ch } rest)
  | keywordEnd {d : Decoder τ} : Steps .lexKeyword d [] (done .lexKeyword d)
  | keywordChar {d : Decoder τ} {input rest : Bytes} {ch : Char} : readRune input = some (ch,rest) →
      u.isAlnum ch = true ∨ ch = '.' → Steps .lexKeyword d input
        (next .lexKeyword { d with token := d.token ++ String.utf8EncodeChar ch } rest)
  | keywordBlank {d : Decoder τ} {input rest : Bytes} {ch : Char} : readRune input = some (ch,rest) →
      isSpace ch = true → Steps .lexKeyword d input
        (next .lexDelimiter { d with keyword := d.token, token := [] } rest)
  | keywordEquals {d : Decoder τ} {input rest : Bytes} : readRune input = some ('=',rest) →
      Steps .lexKeyword d input (next .lexValue { d with keyword := d.token, token := [] } rest)
  | delimiterBlank {d : Decoder τ} {input rest : Bytes} {ch : Char} : readRune input = some (ch,rest) →
      isSpace ch = true → Steps .lexDelimiter d input (next .lexDelimiter d rest)
  | delimiterEquals {d : Decoder τ} {input rest : Bytes} : readRune input = some ('=',rest) →
      Steps .lexDelimiter d input (next .lexValue d rest)
  | valueEnd {d d' : Decoder τ} : processKeyword fields d = .ok d' →
      Steps .lexValue d [] (done .lexValue d')
  | valueNewline {d d' : Decoder τ} {input rest : Bytes} : readRune input = some ('\n',rest) →
      processKeyword fields d = .ok d' → Steps .lexValue d input (next .lexInitial d' rest)
  | valueBlank {d : Decoder τ} {input rest : Bytes} {ch : Char} : readRune input = some (ch,rest) →
      isSpace ch = true → ch ≠ '\n' → Steps .lexValue d input (next .lexValue d rest)
  | valueQuote {d : Decoder τ} {input rest : Bytes} : readRune input = some ('\'',rest) →
      Steps .lexValue d input (next .lexSingleQuoteString d rest)
  | valueDoubleQuote {d : Decoder τ} {input rest : Bytes} : readRune input = some ('"',rest) →
      Steps .lexValue d input (next .lexDoubleQuoteString d rest)
  | valueRaw {d : Decoder τ} {input rest : Bytes} {ch : Char} : readRune input = some (ch,rest) →
      isSpace ch = false → ch ≠ '\'' → ch ≠ '"' → Steps .lexValue d input
        (next .lexRawString { d with token := d.token ++ String.utf8EncodeChar ch } rest)
  | singleQuote {d d' : Decoder τ} {input value rest : Bytes} :
      readBytes (code '\'') input = some (value,rest) →
      processKeyword fields { d with token := d.token ++ value } = .ok d' →
      Steps .lexSingleQuoteString d input (next .lexInitial d' rest)
  | doubleQuote {d d' : Decoder τ} {input value rest : Bytes} :
      readBytes (code '"') input = some (value,rest) →
      processKeyword fields { d with token := unescape (d.token ++ value) } = .ok d' →
      Steps .lexDoubleQuoteString d input (next .lexInitial d' rest)
  | rawEnd {d d' : Decoder τ} {input : Bytes} : readBytes (code '\n') input = none →
      processKeyword fields { d with token := d.token ++ trimRight (stripTrailingComment input) } =
        .ok d' → Steps .lexRawString d input (done .lexRawString d')
  | rawLine {d d' : Decoder τ} {input line rest : Bytes} :
      readBytes (code '\n') input = some (line,rest) →
      processKeyword fields { d with
        token := d.token ++ trimRight (stripTrailingComment (line ++ [code '\n'])) } = .ok d' →
      Steps .lexRawString d input (next .lexInitial d' rest)
  | commentEnd {d : Decoder τ} : Steps .lexComment d [] (done .lexComment d)
  | commentLast {d : Decoder τ} {input : Bytes} : input ≠ [] → readBytes (code '\n') input = none →
      Steps .lexComment d input (next .lexInitial d [])
  | commentLine {d : Decoder τ} {input line rest : Bytes} :
      readBytes (code '\n') input = some (line,rest) →
      Steps .lexComment d input (next .lexInitial d rest)

lemma processed_steps {s : StateFn} {d d₁ : Decoder τ} {input : Bytes} {f : Decoder τ → Next τ ε}
    (h : ∀ d', processKeyword fields d₁ = .ok d' → Steps u fields s d input (f d')) :
    Steps u fields s d input (processed fields d₁ f) := by
  unfold processed
  cases hprocess : processKeyword fields d₁ with
  | ok d' => exact h d' hprocess
  | error err => exact .failed s d input err

lemma step_steps (s : StateFn) (d : Decoder τ) (input : Bytes) :
    Steps u fields s d input (step u fields (s,d) input) := by
  cases s with
  | lexInitial =>
    simp only [step,lexInitial]
    cases hread : readRune input with
    | none =>
      rw [readRune_eq_none.mp hread]
      exact .initialEnd
    | some read =>
      obtain ⟨ch,rest⟩ := read
      simp only
      split_ifs with hspace hcomment hletter
      · exact .initialBlank hread hspace
      · exact .initialComment hread hcomment
      · exact .initialLetter hread hletter
      · exact .failed _ _ _ _
  | lexKeyword =>
    simp only [step,lexKeyword]
    cases hread : readRune input with
    | none =>
      rw [readRune_eq_none.mp hread]
      exact .keywordEnd
    | some read =>
      obtain ⟨ch,rest⟩ := read
      simp only
      split_ifs with hchar hspace hequals
      · exact .keywordChar hread hchar
      · exact .keywordBlank hread hspace
      · exact .keywordEquals (hequals ▸ hread)
      · exact .failed _ _ _ _
  | lexDelimiter =>
    simp only [step,lexDelimiter]
    cases hread : readRune input with
    | none => exact .failed _ _ _ _
    | some read =>
      obtain ⟨ch,rest⟩ := read
      simp only
      split_ifs with hspace hequals
      · exact .delimiterBlank hread hspace
      · exact .delimiterEquals (hequals ▸ hread)
      · exact .failed _ _ _ _
  | lexValue =>
    simp only [step,lexValue]
    cases hread : readRune input with
    | none =>
      rw [readRune_eq_none.mp hread]
      exact processed_steps u fields fun d' hprocess => .valueEnd hprocess
    | some read =>
      obtain ⟨ch,rest⟩ := read
      simp only
      split_ifs with hspace hnewline hquote hdouble
      · exact processed_steps u fields fun d' hprocess => .valueNewline (hnewline ▸ hread) hprocess
      · exact .valueBlank hread hspace hnewline
      · exact .valueQuote (hquote ▸ hread)
      · exact .valueDoubleQuote (hdouble ▸ hread)
      · exact .valueRaw hread (by simpa using hspace) hquote hdouble
  | lexSingleQuoteString =>
    simp only [step,lexSingleQuoteString]
    cases hread : readBytes (code '\'') input with
    | none => exact .failed _ _ _ _
    | some read => exact processed_steps u fields fun d' hprocess => .singleQuote hread hprocess
  | lexDoubleQuoteString =>
    simp only [step,lexDoubleQuoteString]
    cases hread : readBytes (code '"') input with
    | none => exact .failed _ _ _ _
    | some read => exact processed_steps u fields fun d' hprocess => .doubleQuote hread hprocess
  | lexRawString =>
    simp only [step,lexRawString]
    cases hread : readBytes (code '\n') input with
    | none => exact processed_steps u fields fun d' hprocess => .rawEnd hread hprocess
    | some read => exact processed_steps u fields fun d' hprocess => .rawLine hread hprocess
  | lexComment =>
    simp only [step,lexComment]
    split_ifs with hnil
    · rw [hnil]
      exact .commentEnd
    · cases hread : readBytes (code '\n') input with
      | none => exact .commentLast hnil hread
      | some read => exact .commentLine hread

omit u fields in
lemma readBytes_eq_some {input value rest : Bytes} (h : readBytes delim input = some (value,rest)) :
    input = value ++ delim :: rest ∧ delim ∉ value := by
  unfold readBytes at h
  have hsplit := List.takeWhile_append_dropWhile (p := (· ≠ delim)) (l := input)
  have hhead := List.head?_dropWhile_not (· ≠ delim) input
  cases hdrop : input.dropWhile (· ≠ delim) with
  | nil =>
    rw [hdrop] at h
    cases h
  | cons c rest' =>
    rw [hdrop] at h hsplit hhead
    cases h
    have hc : c = delim := by simpa using hhead
    subst hc
    refine ⟨hsplit.symm,?_⟩
    intro hmem
    exact absurd (List.mem_takeWhile_imp hmem) (by simp)

omit u fields in
lemma readBytes_append {value : Bytes} (h : delim ∉ value) (rest : Bytes) :
    readBytes delim (value ++ delim :: rest) = some (value,rest) := by
  have hall : ∀ c ∈ value, decide (c ≠ delim) = true := by
    intro c hc
    refine decide_eq_true ?_
    rintro rfl
    exact h hc
  rw [readBytes,List.dropWhile_append_of_pos hall,List.takeWhile_append_of_pos hall]
  simp

omit u fields in
lemma readBytes_eq_none {input : Bytes} : readBytes delim input = none ↔ delim ∉ input := by
  constructor
  · intro h hmem
    obtain ⟨value,rest,rfl,hvalue⟩ := List.eq_append_cons_of_mem hmem
    rw [readBytes_append hvalue] at h
    cases h
  · intro h
    unfold readBytes
    have hnil : input.dropWhile (· ≠ delim) = [] := by
      refine List.dropWhile_eq_nil_iff.mpr ?_
      intro c hc
      refine decide_eq_true ?_
      rintro rfl
      exact h hc
    rw [hnil]

variable {u fields} {d : Decoder τ}

/-- Every step that goes on reads something. -/
theorem Steps.consumes {s : StateFn} {input : Bytes} {n : Next τ ε}
    (h : Steps u fields s d input n) {x : StateFn × Decoder τ} {rest : Bytes} (hn : n = .inr (x,rest)) :
    rest.length < input.length := by
  have hbytes : ∀ {delim : UInt8} {value rest : Bytes}, readBytes delim input = some (value,rest) →
      rest.length < input.length := by
    intro delim value rest hread
    rw [(readBytes_eq_some hread).1,List.length_append,List.length_cons]
    omega
  cases h with
  | failed | initialEnd | keywordEnd | valueEnd | rawEnd | commentEnd => cases hn
  | initialBlank hread | initialComment hread | initialLetter hread | keywordChar hread
  | keywordBlank hread | keywordEquals hread | delimiterBlank hread | delimiterEquals hread
  | valueNewline hread | valueBlank hread | valueQuote hread | valueDoubleQuote hread
  | valueRaw hread =>
    cases hn
    exact length_of_readRune hread
  | singleQuote hread | doubleQuote hread | rawLine hread | commentLine hread =>
    cases hn
    exact hbytes hread
  | commentLast hne =>
    cases hn
    exact List.length_pos_of_ne_nil hne

variable (u fields)

def scanner : Scanner (StateFn × Decoder τ) UInt8 (Except (Error ε) (StateFn × Decoder τ)) where
  step := step u fields
  consumes s input _ _ h := (step_steps u fields s.1 s.2 input).consumes h

/-- `Decode`, of a text. -/
def decode (text : Bytes) (dest : τ) : Except (Error ε) τ :=
  ((scanner u fields).run (.lexInitial,⟨[],[],dest⟩) text).map fun (_,d) => d.dest

/-! ### Runs forwards -/

variable {u fields} {input rest : Bytes} {c : Char} {ws : List Char}

lemma run_of_step {s s' : StateFn} {d d' : Decoder τ} (h : step u fields (s,d) input = next s' d' rest) :
    (scanner u fields).run (s,d) input = (scanner u fields).run (s',d') rest :=
  (scanner u fields).run_of_inr h

lemma run_of_done {s s' : StateFn} {d d' : Decoder τ} {input : Bytes}
    (h : step u fields (s,d) input = done s' d') :
    (scanner u fields).run (s,d) input = .ok (s',d') :=
  (scanner u fields).run_of_inl h

omit fields in
lemma not_letter_of_ascii (hc : c.toNat < 128) (halpha : c.isAlpha = false) :
    u.isLetter c = false := (u.letter_ascii c hc).trans halpha

omit fields in
/-- A blank or the delimiter ends a keyword. -/
theorem not_alnum (hc : isSpace c = true ∨ c = '=') : ¬ (u.isAlnum c = true ∨ c = '.') := by
  rcases hc with hspace | rfl
  · have hletter := u.letter_space c hspace
    have hnumber := u.number_space c hspace
    rintro (halnum | rfl)
    · have hunderscore : c = '_' := by simpa [Unicode.isAlnum,hletter,hnumber] using halnum
      rw [hunderscore] at hspace
      exact absurd hspace (by decide)
    · exact absurd hspace (by decide)
  · have hletter := u.letter_ascii '=' (by decide)
    have hnumber := u.number_ascii '=' (by decide)
    rintro (halnum | hdot)
    · rw [Unicode.isAlnum,hletter,hnumber] at halnum
      exact absurd halnum (by decide)
    · exact absurd hdot (by decide)

lemma run_blank (h : readRune input = some (c,rest)) (hc : isSpace c = true) :
    (scanner u fields).run (.lexInitial,d) input = (scanner u fields).run (.lexInitial,d) rest := by
  refine run_of_step ?_
  simp only [step,lexInitial,h]
  rw [if_pos hc]

lemma run_blanks (h : Reads input ws rest) (hws : ∀ c ∈ ws, isSpace c = true) :
    (scanner u fields).run (.lexInitial,d) input = (scanner u fields).run (.lexInitial,d) rest := by
  induction h with
  | nil text => rfl
  | cons hread hreads ih =>
    rw [run_blank hread (hws _ List.mem_cons_self)]
    exact ih fun c hc => hws c (List.mem_cons_of_mem _ hc)

lemma run_letter (h : readRune input = some (c,rest)) (hc : u.isLetter c = true) :
    (scanner u fields).run (.lexInitial,d) input =
      (scanner u fields).run
        (.lexKeyword,{ d with token := d.token ++ String.utf8EncodeChar c }) rest := by
  have hspace : ¬ isSpace c = true := by
    intro hspace
    exact absurd ((u.letter_space c hspace).symm.trans hc) Bool.false_ne_true
  have hcomment : ¬ (c = '#' ∨ c = ';') := by
    rintro (rfl | rfl)
    · exact absurd ((not_letter_of_ascii (by decide) (by decide)).symm.trans hc) Bool.false_ne_true
    · exact absurd ((not_letter_of_ascii (by decide) (by decide)).symm.trans hc) Bool.false_ne_true
  refine run_of_step ?_
  simp only [step,lexInitial,h]
  rw [if_neg hspace,if_neg hcomment,if_pos hc]

lemma run_letters {cs : List Char} (h : Reads input cs rest) (hcs : ∀ c ∈ cs, u.isAlnum c = true ∨ c = '.') :
    (scanner u fields).run (.lexKeyword,d) input =
      (scanner u fields).run (.lexKeyword,{ d with token := d.token ++ encode cs }) rest := by
  induction h generalizing d with
  | nil text => simp [encode]
  | @cons text text' rest c cs hread hreads ih =>
    have hstep : step u fields (.lexKeyword,d) text =
        next .lexKeyword { d with token := d.token ++ String.utf8EncodeChar c } text' := by
      simp only [step,lexKeyword,hread]
      rw [if_pos (hcs c List.mem_cons_self)]
    rw [run_of_step hstep,ih fun c hc => hcs c (List.mem_cons_of_mem _ hc)]
    simp [encode]

lemma run_delimiter {input value : Bytes}
    (h : Reads input ws (code '=' :: value)) (hws : ∀ c ∈ ws, isSpace c = true) :
    (scanner u fields).run (.lexDelimiter,d) input = (scanner u fields).run (.lexValue,d) value := by
  generalize htext : code '=' :: value = text at h
  induction h with
  | nil text =>
    have hread : readRune text = some ('=',value) := by
      rw [← htext]
      exact readRune_ascii (by decide) value
    refine run_of_step ?_
    simp only [step,lexDelimiter,hread]
    rw [if_neg (by decide),if_pos trivial]
  | @cons text text' rest c cs hread hreads ih =>
    have hstep : step u fields (.lexDelimiter,d) text = next .lexDelimiter d text' := by
      simp only [step,lexDelimiter,hread]
      rw [if_pos (hws c List.mem_cons_self)]
    rw [run_of_step hstep]
    exact ih (fun c hc => hws c (List.mem_cons_of_mem _ hc)) htext

/-- Behind a keyword the delimiter is read. -/
theorem run_keyword {input value : Bytes}
    (h : Reads input ws (code '=' :: value)) (hws : ∀ c ∈ ws, isSpace c = true) :
    (scanner u fields).run (.lexKeyword,d) input =
      (scanner u fields).run (.lexValue,{ d with keyword := d.token, token := [] }) value := by
  generalize htext : code '=' :: value = text at h
  cases h with
  | nil =>
    have hread : readRune input = some ('=',value) := by
      rw [← htext]
      exact readRune_ascii (by decide) value
    refine run_of_step ?_
    simp only [step,lexKeyword,hread]
    rw [if_neg (not_alnum (.inr rfl)),if_neg (by decide),if_pos trivial]
  | @cons _ text' _ c cs hread hreads =>
    have hspace := hws c List.mem_cons_self
    have hstep : step u fields (.lexKeyword,d) input =
        next .lexDelimiter { d with keyword := d.token, token := [] } text' := by
      simp only [step,lexKeyword,hread]
      rw [if_neg (not_alnum (.inl hspace)),if_pos hspace]
    rw [run_of_step hstep]
    rw [← htext] at hreads
    exact run_delimiter hreads fun c hc => hws c (List.mem_cons_of_mem _ hc)

lemma run_value {input value : Bytes} (h : Reads input ws value)
    (hws : ∀ c ∈ ws, isSpace c = true ∧ c ≠ '\n') :
    (scanner u fields).run (.lexValue,d) input = (scanner u fields).run (.lexValue,d) value := by
  induction h with
  | nil text => rfl
  | @cons text text' rest c cs hread hreads ih =>
    obtain ⟨hspace,hne⟩ := hws c List.mem_cons_self
    have hstep : step u fields (.lexValue,d) text = next .lexValue d text' := by
      simp only [step,lexValue,hread]
      rw [if_pos hspace,if_neg hne]
    rw [run_of_step hstep]
    exact ih fun c hc => hws c (List.mem_cons_of_mem _ hc)

lemma run_doubleQuote (rest : Bytes) : (scanner u fields).run (.lexValue,d) (code '"' :: rest) =
      (scanner u fields).run (.lexDoubleQuoteString,d) rest := by
  have hread : readRune (code '"' :: rest) = some ('"',rest) := readRune_ascii (by decide) rest
  refine run_of_step ?_
  simp only [step,lexValue,hread]
  rw [if_neg (by decide),if_neg (by decide),if_pos trivial]

end States
end Config
end PhpAgent
