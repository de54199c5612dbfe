import PhpAgent.Lib.CType
import PhpAgent.Util.Object

/-! Obfuscation of SQL, after `util_sql.c`. Lengths, `int`s of the source, are numbers here. -/
namespace PhpAgent
open Json (code)

/-- The text from the first `c` on. -/
def strchr (s : Bytes) (c : UInt8) : Option Bytes :=
  match s with
  | [] => none
  | b :: rest => if b = c then some (b :: rest) else strchr rest c

/-- The text from the first occurrence of `needle` on. -/
def strstr (s needle : Bytes) : Option Bytes :=
  if needle.isPrefixOf s then some s
  else
    match s with
    | [] => none
    | _ :: rest => strstr rest needle

namespace Sql

/-- Where the cursor is: in normal text, in a string, or in a number. -/
inductive State
  | normal
  | inDouble
  | inSingle
  | inDigits
deriving DecidableEq

/-- One round inside a string. A backslash takes the next byte with it; at the end of the text the
cursor would leave it. -/
def stringRound (next : State → Bytes → Option Bytes) (state : State) (quote c : UInt8)
    (rest : Bytes) : Option Bytes :=
  if c = code '\\' then
    match rest with
    | [] => none
    | _ :: rest => next state rest
  else if c = quote then
    if rest.head? = some quote then next state rest.tail else next .normal rest
  else next state rest

/-- One round in normal text. -/
def normalRound (next : State → Bytes → Option Bytes) (c : UInt8) (rest : Bytes) : Option Bytes :=
  if c = code '"' then (next .inDouble rest).map (code '?' :: ·)
  else if c = code '\'' then (next .inSingle rest).map (code '?' :: ·)
  else if c = code '-' ∧ rest.head? = some (code '-') then
    match strchr (c :: rest) (code '\n') with
    | none => some []
    | some p => next .normal p.tail
  else if c = code '/' ∧ rest.head? = some (code '*') then
    match strstr (c :: rest) (ascii "*/") with
    | none => some []
    | some p => next .normal (p.drop 2)
  else if Json.isDigit c then (next .inDigits rest).map (code '?' :: ·)
  else (next .normal rest).map (c :: ·)

/-- The loop. A number is left without moving the cursor, so a byte can take two rounds. -/
def obfuscateFrom : ℕ → State → Bytes → Option Bytes
  | _, _, [] => some []
  | 0, _, _ :: _ => none
  | fuel+1, .normal, c :: rest => normalRound (obfuscateFrom fuel) c rest
  | fuel+1, .inDouble, c :: rest => stringRound (obfuscateFrom fuel) .inDouble (code '"') c rest
  | fuel+1, .inSingle, c :: rest => stringRound (obfuscateFrom fuel) .inSingle (code '\'') c rest
  | fuel+1, .inDigits, c :: rest =>
    if Json.isDigit c then obfuscateFrom fuel .inDigits rest else obfuscateFrom fuel .normal (c :: rest)

/-- `nr_sql_obfuscate`. -/
def obfuscate (raw : Bytes) : Option Bytes := obfuscateFrom (2*raw.length) .normal raw

/-! ### Texts as tokens -/

inductive Quote
  | double
  | single
deriving DecidableEq

def Quote.byte : Quote → UInt8
  | .double => code '"'
  | .single => code '\''

/-- What a text is made of. A comment to the end of the line may end with the text. -/
inductive Token
  | plain (c : UInt8)
  | literal (quote : Quote) (content : Bytes)
  | digits (ds : Bytes)
  | lineComment (content : Bytes) (closed : Bool)
  | hashComment (content : Bytes) (closed : Bool)
  | blockComment (content : Bytes)
deriving DecidableEq

/-- A token without the contents of literals, numbers and comments. -/
inductive Shape
  | plain (c : UInt8)
  | literal (quote : Quote)
  | digits
  | lineComment (closed : Bool)
  | hashComment (closed : Bool)
  | blockComment
deriving DecidableEq

namespace Token

def shape : Token → Shape
  | plain c => .plain c
  | literal quote _ => .literal quote
  | digits _ => .digits
  | lineComment _ closed => .lineComment closed
  | hashComment _ closed => .hashComment closed
  | blockComment _ => .blockComment

def text : Token → Bytes
  | plain c => [c]
  | literal quote content => quote.byte :: (content ++ [quote.byte])
  | digits ds => ds
  | lineComment content closed => ascii "--" ++ content ++ if closed then [code '\n'] else []
  | hashComment content closed => code '#' :: (content ++ if closed then [code '\n'] else [])
  | blockComment content => ascii "/*" ++ content ++ ascii "*/"

end Token

/-- The content of a literal: a quote in it is escaped or doubled. -/
inductive LiteralContent (quote : Quote) : Bytes → Prop
  | nil : LiteralContent quote []
  | escape {c : UInt8} {rest : Bytes} (h : LiteralContent quote rest) :
      LiteralContent quote (code '\\' :: c :: rest)
  | doubled {rest : Bytes} (h : LiteralContent quote rest) :
      LiteralContent quote (quote.byte :: quote.byte :: rest)
  | other {c : UInt8} {rest : Bytes} (hquote : c ≠ quote.byte) (hback : c ≠ code '\\')
      (h : LiteralContent quote rest) : LiteralContent quote (c :: rest)

/-- The token is what a text begins with that goes on with `rest`; `hash` says whether there are
comments that start with `#`. -/
def Token.Begins (hash : Bool) : Token → Bytes → Prop
  | .plain c, rest => Json.isDigit c = false ∧ c ≠ code '"' ∧ c ≠ code '\'' ∧
      (hash = true → c ≠ code '#') ∧ (c = code '-' → rest.head? ≠ some (code '-')) ∧
      (c = code '/' → rest.head? ≠ some (code '*'))
  | .literal quote content, rest => LiteralContent quote content ∧ rest.head? ≠ some quote.byte
  | .digits ds, rest => ds ≠ [] ∧ (∀ d ∈ ds, Json.isDigit d = true) ∧
      ∀ d, rest.head? = some d → Json.isDigit d = false
  | .lineComment content closed, rest => code '\n' ∉ content ∧ (closed = false → rest = [])
  | .hashComment content closed, rest =>
    hash = true ∧ code '\n' ∉ content ∧ (closed = false → rest = [])
  | .blockComment content, _ => strstr (content ++ ascii "*/") (ascii "*/") = some (ascii "*/")

/-- The tokens are those of their text. -/
def Tokenised (hash : Bool) : List Token → Prop
  | [] => True
  | t :: ts => t.Begins hash (ts.flatMap Token.text) ∧ Tokenised hash ts

/-- What is left of a token. -/
def Token.shown : Token → Bytes
  | .plain c => [c]
  | .literal _ _ => [code '?']
  | .digits _ => [code '?']
  | _ => []

/-! ### Searching -/

lemma strchr_append {s : Bytes} {c : UInt8} (h : c ∉ s) (rest : Bytes) :
    strchr (s ++ rest) c = strchr rest c := by
  induction s with
  | nil => rfl
  | cons b s ih =>
    rw [List.mem_cons,not_or] at h
    rw [List.cons_append,strchr,if_neg (Ne.symm h.1),ih h.2]

lemma strstr_length {s needle p : Bytes} (h : strstr s needle = some p) :
    needle.length ≤ s.length := by
  induction s with
  | nil =>
    unfold strstr at h
    split_ifs at h with hneedle
    exact (List.isPrefixOf_iff_prefix.mp hneedle).length_le
  | cons b s ih =>
    unfold strstr at h
    split_ifs at h with hneedle
    · exact (List.isPrefixOf_iff_prefix.mp hneedle).length_le
    · exact Nat.le_succ_of_le (ih h)

/-- What is found in a text is found in a longer one. -/
theorem strstr_append {s needle p : Bytes} (h : strstr s needle = some p) (rest : Bytes) :
    strstr (s ++ rest) needle = some (p ++ rest) := by
  have hlen := strstr_length h
  induction s with
  | nil =>
    unfold strstr at h
    split_ifs at h with hneedle
    cases h
    have hnil : needle = [] := List.prefix_nil.mp (List.isPrefixOf_iff_prefix.mp hneedle)
    subst hnil
    unfold strstr
    simp
  | cons b s ih =>
    unfold strstr at h ⊢
    split_ifs at h with hneedle
    · cases h
      have hlonger : needle <+: (b :: s) ++ rest :=
        (List.isPrefixOf_iff_prefix.mp hneedle).trans (List.prefix_append _ _)
      rw [if_pos (List.isPrefixOf_iff_prefix.mpr hlonger)]
    · have hnot : ¬ needle.isPrefixOf ((b :: s) ++ rest) = true := by
        intro hlonger
        apply hneedle
        apply List.isPrefixOf_iff_prefix.mpr
        exact List.prefix_of_prefix_length_le (List.isPrefixOf_iff_prefix.mp hlonger)
          (List.prefix_append _ _) hlen
      rw [if_neg hnot]
      exact ih h (strstr_length h)

/-- The end of a comment is found behind its opening, unless the comment starts with a slash. -/
theorem strstr_comment {content : Bytes} (hslash : content.head? ≠ some (code '/'))
    (h : strstr (content ++ ascii "*/") (ascii "*/") = some (ascii "*/")) (rest : Bytes) :
    strstr (ascii "/*" ++ content ++ ascii "*/" ++ rest) (ascii "*/") = some (ascii "*/" ++ rest) := by
  have hfound := strstr_append h rest
  have hopen : ascii "/*" ++ content ++ ascii "*/" ++ rest =
      code '/' :: code '*' :: (content ++ ascii "*/" ++ rest) := by
    simp [ascii,code]
  have hhead : (content ++ ascii "*/" ++ rest).head? ≠ some (code '/') := by
    cases content with
    | nil =>
      simp [ascii,code]
    | cons c content => exact hslash
  generalize content ++ ascii "*/" ++ rest = behind at *
  have hneedle : ascii "*/" = [code '*',code '/'] := rfl
  have hfirst : ¬ (ascii "*/").isPrefixOf (code '/' :: code '*' :: behind) = true := by
    rw [hneedle]
    simp [List.isPrefixOf]
    decide
  have hsecond : ¬ (ascii "*/").isPrefixOf (code '*' :: behind) = true := by
    rw [hneedle]
    intro hpre
    apply hhead
    obtain ⟨t,ht⟩ := List.isPrefixOf_iff_prefix.mp hpre
    simp only [List.cons_append,List.nil_append,List.cons.injEq,true_and] at ht
    rw [← ht]
    rfl
  rw [hopen,strstr,if_neg hfirst,strstr,if_neg hsecond]
  exact hfound

/-! ### One token -/

lemma quote_ne_backslash (quote : Quote) : quote.byte ≠ code '\\' := by
  cases quote <;> decide

section Rounds
variable (next : State → Bytes → Option Bytes) (state : State) (quote : Quote)

lemma stringRound_escape (c : UInt8) (rest : Bytes) :
    stringRound next state quote.byte (code '\\') (c :: rest) = next state rest := by
  simp [stringRound]

lemma stringRound_doubled (rest : Bytes) :
    stringRound next state quote.byte quote.byte (quote.byte :: rest) = next state rest := by
  simp [stringRound,quote_ne_backslash]

lemma stringRound_closed {rest : Bytes} (hrest : rest.head? ≠ some quote.byte) :
    stringRound next state quote.byte quote.byte rest = next .normal rest := by
  simp [stringRound,quote_ne_backslash,hrest]

lemma stringRound_other {c : UInt8} (hc : c ≠ quote.byte) (hback : c ≠ code '\\') (rest : Bytes) :
    stringRound next state quote.byte c rest = next state rest := by
  simp [stringRound,hc,hback]

end Rounds

/-- The state a quote leads to. -/
def Quote.state : Quote → State
  | .double => .inDouble
  | .single => .inSingle

lemma obfuscateFrom_string (fuel : ℕ) (quote : Quote) (c : UInt8) (rest : Bytes) :
    obfuscateFrom (fuel+1) quote.state (c :: rest) =
      stringRound (obfuscateFrom fuel) quote.state quote.byte c rest := by
  cases quote <;> rfl

lemma obfuscate_string {quote : Quote} {content rest : Bytes}
    (h : LiteralContent quote content) (hrest : rest.head? ≠ some quote.byte) :
    ∃ k ≤ content.length+1, ∀ fuel,
      obfuscateFrom (fuel+k) quote.state (content ++ quote.byte :: rest) =
        obfuscateFrom fuel .normal rest := by
  induction h with
  | nil =>
    refine ⟨1,by simp,?_⟩
    intro fuel
    rw [List.nil_append,obfuscateFrom_string,stringRound_closed _ _ _ hrest]
  | escape _ ih =>
    obtain ⟨k,hk,ih⟩ := ih
    refine ⟨k+1,by simp only [List.length_cons]; omega,?_⟩
    intro fuel
    rw [List.cons_append,List.cons_append,← Nat.add_assoc,obfuscateFrom_string,stringRound_escape]
    exact ih fuel
  | doubled _ ih =>
    obtain ⟨k,hk,ih⟩ := ih
    refine ⟨k+1,by simp only [List.length_cons]; omega,?_⟩
    intro fuel
    rw [List.cons_append,List.cons_append,← Nat.add_assoc,obfuscateFrom_string,stringRound_doubled]
    exact ih fuel
  | other hc hback _ ih =>
    obtain ⟨k,hk,ih⟩ := ih
    refine ⟨k+1,by simp only [List.length_cons]; omega,?_⟩
    intro fuel
    rw [List.cons_append,← Nat.add_assoc,obfuscateFrom_string,stringRound_other _ _ _ hc hback]
    exact ih fuel

lemma obfuscate_digits {ds rest : Bytes} (h : ∀ d ∈ ds, Json.isDigit d = true)
    (hrest : ∀ d, rest.head? = some d → Json.isDigit d = false) :
    ∃ k ≤ ds.length+1, ∀ fuel, obfuscateFrom (fuel+k) .inDigits (ds ++ rest) =
      obfuscateFrom fuel .normal rest := by
  induction ds with
  | nil =>
    cases rest with
    | nil =>
      refine ⟨0,by simp,?_⟩
      intro fuel
      simp [obfuscateFrom]
    | cons c rest =>
      refine ⟨1,by simp,?_⟩
      intro fuel
      have hc : Json.isDigit c = false := hrest c rfl
      simp [obfuscateFrom,hc]
  | cons d ds ih =>
    obtain ⟨k,hk,ih⟩ := ih fun d hd => h d (List.mem_cons_of_mem _ hd)
    refine ⟨k+1,by simp only [List.length_cons]; omega,?_⟩
    intro fuel
    rw [List.cons_append,← Nat.add_assoc,obfuscateFrom,if_pos (h d List.mem_cons_self)]
    exact ih fuel

lemma obfuscate_dashes (fuel : ℕ) (x : Bytes) :
    obfuscateFrom (fuel+1) .normal (code '-' :: code '-' :: x) =
      match strchr x (code '\n') with
      | none => some []
      | some p => obfuscateFrom fuel .normal p.tail := by
  rfl

lemma obfuscate_opening (fuel : ℕ) (x : Bytes) :
    obfuscateFrom (fuel+1) .normal (code '/' :: code '*' :: x) =
      match strstr (code '/' :: code '*' :: x) (ascii "*/") with
      | none => some []
      | some p => obfuscateFrom fuel .normal (p.drop 2) := by
  rfl

/-- The code takes a comment that starts with a slash to be closed by that slash. -/
def Token.StartsWithSlash : Token → Prop
  | .blockComment content => content.head? = some (code '/')
  | _ => False

lemma obfuscate_token {t : Token} {rest : Bytes} (h : t.Begins false rest)
    (hslash : ¬ t.StartsWithSlash) :
    ∃ k ≤ 2*t.text.length, ∀ fuel, obfuscateFrom (fuel+k) .normal (t.text ++ rest) =
      (obfuscateFrom fuel .normal rest).map (t.shown ++ ·) := by
  cases t with
  | plain c =>
    obtain ⟨hdigit,hdouble,hsingle,-,hdash,hcomment⟩ := h
    refine ⟨1,by simp [Token.text],?_⟩
    intro fuel
    have hdash' : ¬ (c = code '-' ∧ rest.head? = some (code '-')) := fun h => hdash h.1 h.2
    have hcomment' : ¬ (c = code '/' ∧ rest.head? = some (code '*')) := fun h => hcomment h.1 h.2
    simp only [Token.text,List.singleton_append,obfuscateFrom,normalRound]
    rw [if_neg hdouble,if_neg hsingle,if_neg hdash',if_neg hcomment',if_neg (by simp [hdigit])]
    rfl
  | literal quote content =>
    obtain ⟨hcontent,hrest⟩ := h
    obtain ⟨k,hk,hstring⟩ := obfuscate_string hcontent hrest
    refine ⟨k+1,by simp only [Token.text,List.length_cons,List.length_append,List.length_nil]; omega,?_⟩
    intro fuel
    have htext : (Token.literal quote content).text ++ rest =
        quote.byte :: (content ++ quote.byte :: rest) := by simp [Token.text]
    have hopen : ∀ fuel rest, obfuscateFrom (fuel+1) .normal (quote.byte :: rest) =
        (obfuscateFrom fuel quote.state rest).map (code '?' :: ·) := by
      intro fuel rest
      cases quote <;> rfl
    rw [htext,← Nat.add_assoc,hopen,hstring]
    rfl
  | digits ds =>
    obtain ⟨hne,hdigits,hrest⟩ := h
    obtain ⟨d,ds,rfl⟩ := List.exists_cons_of_ne_nil hne
    obtain ⟨k,hk,hrun⟩ := obfuscate_digits (fun d hd => hdigits d (List.mem_cons_of_mem _ hd)) hrest
    refine ⟨k+1,by simp only [Token.text,List.length_cons]; omega,?_⟩
    intro fuel
    have hd : Json.isDigit d = true := hdigits d List.mem_cons_self
    have hbyte : ∀ c, Json.isDigit c = false → d ≠ c := by
      rintro c hc rfl
      rw [hd] at hc
      cases hc
    rw [Token.text,List.cons_append,← Nat.add_assoc,obfuscateFrom,normalRound,
      if_neg (hbyte _ rfl),if_neg (hbyte _ rfl),if_neg (fun h => hbyte _ rfl h.1),
      if_neg (fun h => hbyte _ rfl h.1),if_pos hd,hrun]
    rfl
  | lineComment content closed =>
    obtain ⟨hline,hlast⟩ := h
    have hlen : (ascii "--").length = 2 := rfl
    refine ⟨1,by simp only [Token.text,List.length_append,hlen]; omega,?_⟩
    intro fuel
    have htext : (Token.lineComment content closed).text ++ rest =
        code '-' :: code '-' :: (content ++ ((if closed then [code '\n'] else []) ++ rest)) := by
      simp [Token.text,ascii,code]
    rw [htext,obfuscate_dashes,strchr_append hline]
    cases closed with
    | true => simp [strchr,Token.shown]
    | false => simp [hlast rfl,strchr,obfuscateFrom,Token.shown]
  | hashComment content closed => exact absurd h.1 (by decide)
  | blockComment content =>
    have hlen : (ascii "/*").length = 2 := rfl
    refine ⟨1,by simp only [Token.text,List.length_append,hlen]; omega,?_⟩
    intro fuel
    have hfound := strstr_comment hslash h rest
    have htext : (Token.blockComment content).text ++ rest =
        code '/' :: code '*' :: (content ++ ascii "*/" ++ rest) := by simp [Token.text,ascii,code]
    have hopen : ascii "/*" ++ content ++ ascii "*/" ++ rest =
        code '/' :: code '*' :: (content ++ ascii "*/" ++ rest) := by simp [ascii,code]
    rw [hopen] at hfound
    have hdrop : (ascii "*/" ++ rest).drop 2 = rest := rfl
    rw [htext,obfuscate_opening,hfound]
    simp [hdrop,Token.shown]

/-! ### Whole texts -/

variable {ts : List Token}

lemma obfuscateFrom_tokens (h : Tokenised false ts) (hslash : ∀ t ∈ ts, ¬ t.StartsWithSlash) :
    ∃ k ≤ 2*(ts.flatMap Token.text).length, ∀ fuel,
      obfuscateFrom (fuel+k) .normal (ts.flatMap Token.text) = some (ts.flatMap Token.shown) := by
  induction ts with
  | nil =>
    refine ⟨0,Nat.zero_le _,?_⟩
    intro fuel
    simp [obfuscateFrom]
  | cons t ts ih =>
    obtain ⟨k,hk,htoken⟩ := obfuscate_token h.1 (hslash t List.mem_cons_self)
    obtain ⟨l,hl,hrest⟩ := ih h.2 fun t ht => hslash t (List.mem_cons_of_mem _ ht)
    refine ⟨l+k,by simp only [List.flatMap_cons,List.length_append]; omega,?_⟩
    intro fuel
    rw [List.flatMap_cons,← Nat.add_assoc,htoken,hrest,List.flatMap_cons]
    rfl

lemma obfuscate_tokens (h : Tokenised false ts) (hslash : ∀ t ∈ ts, ¬ t.StartsWithSlash) :
    obfuscate (ts.flatMap Token.text) = some (ts.flatMap Token.shown) := by
  obtain ⟨k,hk,hrun⟩ := obfuscateFrom_tokens h hslash
  have hfuel := hrun (2*(ts.flatMap Token.text).length-k)
  rwa [Nat.sub_add_cancel hk] at hfuel

/-- What is left of a token depends on its shape only. -/
def Shape.shown : Shape → Bytes
  | .plain c => [c]
  | .literal _ => [code '?']
  | .digits => [code '?']
  | _ => []

lemma Token.shown_eq (t : Token) : t.shown = t.shape.shown := by
  cases t <;> rfl

/-- Neither a digit nor a quote. -/
def Hidden (c : UInt8) : Prop := Json.isDigit c = false ∧ c ≠ code '"' ∧ c ≠ code '\''

lemma Token.hidden_shown {t : Token} {rest : Bytes} (h : t.Begins false rest) :
    ∀ c ∈ t.shown, Hidden c := by
  have hmark : Hidden (code '?') := by
    unfold Hidden
    decide
  intro c hc
  cases t with
  | plain d =>
    cases List.mem_singleton.mp hc
    exact ⟨h.1,h.2.1,h.2.2.1⟩
  | literal quote content =>
    cases List.mem_singleton.mp hc
    exact hmark
  | digits ds =>
    cases List.mem_singleton.mp hc
    exact hmark
  | lineComment content closed => cases hc
  | hashComment content closed => cases hc
  | blockComment content => cases hc

lemma hidden_tokens (h : Tokenised false ts) : ∀ c ∈ ts.flatMap Token.shown, Hidden c := by
  induction ts with
  | nil =>
    intro c hc
    cases hc
  | cons t ts ih =>
    intro c hc
    rw [List.flatMap_cons,List.mem_append] at hc
    rcases hc with hc | hc
    · exact Token.hidden_shown h.1 c hc
    · exact ih h.2 c hc

/-- Two texts that differ in literals, numbers and comments only are obfuscated alike, and no digit
or quote is left. -/
theorem obfuscate_two_runs {ts ts' : List Token} (h : Tokenised false ts) (h' : Tokenised false ts')
    (hslash : ∀ t ∈ ts, ¬ t.StartsWithSlash) (hslash' : ∀ t ∈ ts', ¬ t.StartsWithSlash)
    (hshape : ts.map Token.shape = ts'.map Token.shape) :
    ∃ out, obfuscate (ts.flatMap Token.text) = some out ∧
      obfuscate (ts'.flatMap Token.text) = some out ∧ ∀ c ∈ out, Hidden c := by
  have hshown : ∀ us : List Token, us.flatMap Token.shown = (us.map Token.shape).flatMap Shape.shown := by
    intro us
    rw [List.flatMap_map]
    exact List.flatMap_congr fun t _ => t.shown_eq
  refine ⟨ts.flatMap Token.shown,obfuscate_tokens h hslash,?_,hidden_tokens h⟩
  rw [obfuscate_tokens h' hslash',hshown,hshown,hshape]

/-- `a='x\''--c` and a new line, against other contents. -/
theorem obfuscate_two_runs_sample :
    ∃ out, obfuscate ([.plain (code '='),.literal .single [code '\\',code '\''],
        .lineComment [code 'c'] true].flatMap Token.text) = some out ∧
      obfuscate ([.plain (code '='),.literal .single [code '7'],
        .lineComment [] true].flatMap Token.text) = some out ∧ ∀ c ∈ out, Hidden c := by
  refine obfuscate_two_runs ?_ ?_ ?_ ?_ rfl
  · refine ⟨by simp [Token.Begins]; decide,⟨.escape .nil,by decide⟩,⟨by decide,by simp⟩,trivial⟩
  · refine ⟨by simp [Token.Begins]; decide,⟨.other (by decide) (by decide) .nil,by decide⟩,
      ⟨by decide,by simp⟩,trivial⟩
  · simp [Token.StartsWithSlash]
  · simp [Token.StartsWithSlash]

/-- The contents of comments that start with `#` are left, as are those of a comment that starts with
a slash. -/
theorem obfuscate_leaks : ¬ ∀ ts ts' : List Token, Tokenised true ts → Tokenised true ts' →
    ts.map Token.shape = ts'.map Token.shape →
      ∃ out, obfuscate (ts.flatMap Token.text) = some out ∧
        obfuscate (ts'.flatMap Token.text) = some out ∧ ∀ c ∈ out, Hidden c := by
  intro h
  have hcomment : ∀ c, c ≠ code '\n' → Tokenised true [.hashComment [c] false] :=
    fun c hc => ⟨⟨rfl,by simpa using hc.symm,fun _ => rfl⟩,trivial⟩
  obtain ⟨out,ha,hb,-⟩ := h [.hashComment [code 'a'] false] [.hashComment [code 'b'] false]
    (hcomment _ (by decide)) (hcomment _ (by decide)) rfl
  have hne : obfuscate (ascii "#a") ≠ obfuscate (ascii "#b") := by decide
  exact hne (ha.trans hb.symm)

example : obfuscate (ascii "/*/a*/") = some (ascii "a*/") := by decide +kernel

end Sql
end PhpAgent
