import PhpAgent.Agent.TraceContext
import PhpAgent.Lib.Collapse
import PhpAgent.Lib.Regex

/-! Transaction segment terms, after `nr_segment_terms.c`, with what they use of `util_regex.c`. A NULL
object or string is `none`. The engine is PCRE, anchored at the start and without regard to case. -/
namespace PhpAgent

open Json (code)

/-- `nr_strsplit` at one character, with empty pieces. -/
def strsplitEmpty (orig : Bytes) (delim : UInt8) : List Bytes :=
  if orig = [] then [[]] else (orig.splitOn delim).map strip

/-- The bytes that `nr_regex_add_quoted_to_buffer` quotes with a backslash. -/
def regexSpecial : Bytes := ascii ".\\+*?[^]$()\x7b\x7d=!><|:-"

def regexQuoteByte (c : UInt8) : Bytes :=
  if c = 0 then ascii "\\000" else if c ∈ regexSpecial then [code '\\',c] else [c]

/-- `nr_regex_add_quoted_to_buffer`. -/
def regexQuote (str : Bytes) : Bytes := str.flatMap regexQuoteByte

/-- `nr_segment_terms_rule_t`. -/
structure NrSegmentTermsRule where
  rulePrefix : Bytes
  re : Bytes → Bool
  getLast_slash : rulePrefix.getLast? = some slash
  count_slash : rulePrefix.count slash = 2

namespace NrSegmentTermsRule

/-- A term in the expression. What comes first has no bar in front. -/
def termText (first : Bool) (term : NrObj) : Bytes :=
  match term.getString with
  | none => []
  | some [] => []
  | some term => (if first then [] else [code '|']) ++ [code '('] ++ regexQuote term ++ [code ')']

/-- `nr_segment_terms_rule_build_regex`. -/
def buildRegex : Option NrObj → Option Bytes
  | some (.array []) => some (ascii "$.")
  | some (.array (term :: terms)) => some (termText true term ++ terms.flatMap (termText false))
  | _ => none

/-- The two segments of a rule, with a slash behind them. -/
def wholePrefix (start : Bytes) : Bytes :=
  if start.getLast? = some slash then start else start ++ [slash]

lemma getLast_wholePrefix (start : Bytes) : (wholePrefix start).getLast? = some slash := by
  unfold wholePrefix
  split_ifs with h
  · exact h
  · exact List.getLast?_concat

/-- `nr_segment_terms_rule_create`. -/
def create (engine : Regex.Engine) (start : Option Bytes) (terms : Option NrObj) :
    Option NrSegmentTermsRule :=
  match start with
  | none => none
  | some start =>
    if start = [] then none
    else if h : (wholePrefix start).count slash = 2 then
      match (buildRegex terms).bind engine with
      | none => none
      | some re => some ⟨wholePrefix start,re,getLast_wholePrefix start,h⟩
    else none

/-- `nr_regex_match` of a segment that is not empty. -/
def matched (rule : NrSegmentTermsRule) (s : Bytes) : Bool :=
  s ≠ [] ∧ rule.re s

/-- The loop of `nr_segment_terms_rule_apply`: what it adds to the buffer. -/
def applySegments (rule : NrSegmentTermsRule) :
    (requiresDelimiter previousReplaced : Bool) → List Bytes → Bytes
  | _, _, [] => []
  | requiresDelimiter, previousReplaced, s :: segments =>
    let delimiter := if requiresDelimiter then [slash] else []
    if rule.matched s then delimiter ++ s ++ rule.applySegments true false segments
    else (if previousReplaced then [] else delimiter ++ [code '*']) ++
      rule.applySegments true true segments

/-- Case-insensitive comparison of the start of a name. -/
def hasPrefix (rule : NrSegmentTermsRule) (name : Bytes) : Prop :=
  rule.rulePrefix.length ≤ name.length ∧
    (name.take rule.rulePrefix.length).map tolower = rule.rulePrefix.map tolower

instance (rule : NrSegmentTermsRule) (name : Bytes) : Decidable (rule.hasPrefix name) :=
  inferInstanceAs (Decidable (_ ∧ _))

/-- `nr_segment_terms_rule_apply`. -/
def apply (rule : NrSegmentTermsRule) (name : Bytes) : Option Bytes :=
  if name = [] then none
  else if ¬rule.hasPrefix name then none
  else
    let rest := name.drop rule.rulePrefix.length
    if rest = [] then some name
    else some (name.take rule.rulePrefix.length ++
      rule.applySegments false false (strsplitEmpty rest slash))

end NrSegmentTermsRule

/-- `nr_segment_terms_t`. -/
structure NrSegmentTerms where
  capacity : ℕ
  rules : List NrSegmentTermsRule
  size_le : rules.length ≤ capacity

namespace NrSegmentTerms

/-- `nr_segment_terms_create`. -/
def create (size : ℤ) : Option NrSegmentTerms :=
  if size ≤ 0 then none else some ⟨size.toNat,[],Nat.zero_le _⟩

/-- `nr_segment_terms_add`, without a result when it fails. -/
def add (engine : Regex.Engine) (st : NrSegmentTerms) (start : Option Bytes) (terms : Option NrObj) :
    Option NrSegmentTerms :=
  if h : st.capacity ≤ st.rules.length then none
  else
    match NrSegmentTermsRule.create engine start terms with
    | none => none
    | some rule => some ⟨st.capacity,st.rules ++ [rule],by simp; omega⟩

/-- `nr_segment_terms_add_from_obj`. -/
def addFromObj (engine : Regex.Engine) (st : NrSegmentTerms) : Option NrObj → Option NrSegmentTerms
  | some (.hash rule) =>
    st.add engine ((NrObj.hash rule).getHashString "prefix") ((NrObj.hash rule).getHashArray "terms")
  | _ => none

/-- `nr_segment_terms_apply`. -/
def apply (st : NrSegmentTerms) : Option Bytes → Option Bytes
  | none => none
  | some name =>
    if name = [] then none
    else some ((st.rules.reverse.findSome? fun rule => rule.apply name).getD name)

end NrSegmentTerms

/-! ### What a rule is for -/

namespace SegmentTerms

/-- The terms that count: the strings of the list that are not empty. -/
def whitelist (terms : List NrObj) : List Bytes := (terms.filterMap NrObj.getString).filter (· ≠ [])

/-- Case-insensitive equality with a term. -/
def IsTerm (terms : List NrObj) (s : Bytes) : Prop :=
  ∃ term ∈ whitelist terms, term.map tolower = s.map tolower

instance (terms : List NrObj) : DecidablePred (IsTerm terms) := fun _ =>
  inferInstanceAs (Decidable (∃ _ ∈ _, _))

/-- The segments of what follows the two segments of a rule. -/
def segments (rest : Bytes) : List Bytes := if rest = [] then [] else rest.splitOn slash

/-- A segment that is a term is kept. -/
def keep (terms : List NrObj) (s : Bytes) : Option Bytes := if IsTerm terms s then some s else none

/-- A name whose first `n` bytes are the start of a rule: the segments after it that are terms, and a
star for every run of others. -/
def whitelisted (terms : List NrObj) (n : ℕ) (name : Bytes) : Bytes :=
  name.take n ++ [slash].intercalate
    (Collapse.texts [code '*'] (Collapse.collapse false ((segments (name.drop n)).map (keep terms))))

/-! ### The expression of the terms -/

lemma read_regexQuoteByte (groups : List Regex.Frame) (f : Regex.Frame) (c : UInt8) (rest : Bytes) :
    Regex.read groups f (regexQuoteByte c ++ rest) = Regex.read groups (f.add (.byte c)) rest := by
  unfold regexQuoteByte
  split_ifs with hzero hspecial
  · have htext : ascii "\\000" = [0x5c,0x30,0x30,0x30] := by decide
    rw [hzero,htext]
    exact Regex.read_zero groups f rest
  · have hquoted : ∀ d ∈ regexSpecial, d ≠ 0x30 ∧ isalnum d = false := by decide +kernel
    obtain ⟨hne,halnum⟩ := hquoted c hspecial
    exact Regex.read_quoted hne halnum groups f rest
  · have hsub : ∀ d ∈ ([0x28,0x29,0x7c,0x24,0x2e,0x5c,0x5b,0x2a,0x2b,0x3f,0x7b,0x5e] : Bytes),
        d ∈ regexSpecial := by decide +kernel
    have hplain : Regex.IsPlain c := by
      constructor
      · intro hmem
        exact hspecial (hsub c (List.mem_append_left [0x5b,0x2a,0x2b,0x3f,0x7b,0x5e] hmem))
      · unfold Regex.isOther
        rw [decide_eq_false_iff_not]
        intro hmem
        exact hspecial (hsub c (List.mem_append_right [0x28,0x29,0x7c,0x24,0x2e,0x5c] hmem))
    exact Regex.read_plain hplain groups f rest

lemma read_regexQuote (groups : List Regex.Frame) (f : Regex.Frame) (w rest : Bytes) :
    Regex.read groups f (regexQuote w ++ rest) =
      Regex.read groups { f with current := Regex.word f.current w } rest := by
  induction w generalizing f with
  | nil => rfl
  | cons c w ih =>
    have hsplit : regexQuote (c :: w) ++ rest = regexQuoteByte c ++ (regexQuote w ++ rest) := by
      simp [regexQuote]
    rw [hsplit,read_regexQuoteByte,ih]
    rfl

/-- A group is not taken for one of the special groups, since a question mark is quoted. -/
theorem head?_regexQuote {w : Bytes} (hw : w ≠ []) (rest : Bytes) :
    ¬((regexQuote w ++ rest).head? = some 0x3f ∨ (regexQuote w ++ rest).head? = some 0x2a) := by
  cases w with
  | nil => exact absurd rfl hw
  | cons c w =>
    have hhead : (regexQuote (c :: w) ++ rest).head? = (regexQuoteByte c).head? := by
      have hne : regexQuoteByte c ≠ [] := by
        unfold regexQuoteByte
        split_ifs <;> simp [ascii]
      obtain ⟨d,ds,hd⟩ := List.exists_cons_of_ne_nil hne
      simp [regexQuote,hd]
    rw [hhead]
    unfold regexQuoteByte
    split_ifs with hzero hspecial
    · decide
    · simp [code]
    · have h3f : c ≠ 0x3f := by
        rintro rfl
        exact hspecial (by decide +kernel)
      have h2a : c ≠ 0x2a := by
        rintro rfl
        exact hspecial (by decide +kernel)
      simp [h3f,h2a]

lemma read_group (f : Regex.Frame) {w : Bytes} (hw : w ≠ []) (rest : Bytes) :
    Regex.read [] f ([code '('] ++ regexQuote w ++ [code ')'] ++ rest) =
      Regex.read [] (f.add (Regex.word .empty w)) rest := by
  have hhead := head?_regexQuote hw ([code ')'] ++ rest)
  have hcode : code '(' = 0x28 := by decide
  have hclose : code ')' = 0x29 := by decide
  have hsplit : [code '('] ++ regexQuote w ++ [code ')'] ++ rest =
      0x28 :: (regexQuote w ++ ([code ')'] ++ rest)) := by simp [hcode]
  rw [hsplit,Regex.read_open hhead,read_regexQuote,hclose]
  exact Regex.read_close [] f _ rest

open NrSegmentTermsRule (termText buildRegex)

lemma whitelist_cons (term : NrObj) (terms : List NrObj) :
    whitelist (term :: terms) =
      (match term.getString with
        | none => []
        | some [] => []
        | some t => [t]) ++ whitelist terms := by
  unfold whitelist
  cases hterm : term.getString with
  | none => simp [hterm]
  | some t => cases t <;> simp [hterm]

/-- A further alternative. -/
theorem isMatch_next (f : Regex.Frame) (w s : Bytes) :
    (f.next.add (Regex.word .empty w)).close.isMatch tolower s ↔
      f.close.isMatch tolower s ∨ w.map tolower <+: s.map tolower := by
  rw [Regex.isMatch_close,Regex.isMatch_close]
  simp only [Regex.Frame.add,Regex.Frame.next,Regex.isMatch_seq_empty,Regex.isMatch_word]
  constructor
  · rintro (⟨r,hr,hmatch⟩ | hword)
    · obtain hold | hcurrent := List.mem_append.mp hr
      · exact .inl (.inl ⟨r,hold,hmatch⟩)
      · exact .inl (.inr (List.mem_singleton.mp hcurrent ▸ hmatch))
    · exact .inr hword
  · rintro ((⟨r,hr,hmatch⟩ | hcurrent) | hword)
    · exact .inl ⟨r,List.mem_append_left _ hr,hmatch⟩
    · exact .inl ⟨f.current,List.mem_append_right _ List.mem_cons_self,hcurrent⟩
    · exact .inr hword

/-- The terms after the first one become alternatives. -/
theorem read_terms (terms : List NrObj) (f : Regex.Frame) :
    ∃ re, Regex.read [] f (terms.flatMap (termText false)) = some re ∧
      ∀ s, re.isMatch tolower s ↔ f.close.isMatch tolower s ∨
        ∃ term ∈ whitelist terms, term.map tolower <+: s.map tolower := by
  induction terms generalizing f with
  | nil => exact ⟨f.close,rfl,fun s => by simp [whitelist]⟩
  | cons term terms ih =>
    rw [whitelist_cons,List.flatMap_cons,termText]
    cases hterm : term.getString with
    | none => exact ih f
    | some t =>
      cases t with
      | nil => exact ih f
      | cons c t =>
        obtain ⟨re,hre,hmatch⟩ := ih (f.next.add (Regex.word .empty (c :: t)))
        refine ⟨re,?_,?_⟩
        · have hbar : code '|' = 0x7c := by decide
          have hgroup := read_group f.next (List.cons_ne_nil c t) (terms.flatMap (termText false))
          rw [hre] at hgroup
          dsimp only
          rw [if_neg Bool.false_ne_true,List.append_assoc,List.append_assoc,List.append_assoc,
            List.singleton_append,hbar,Regex.read_bar,← List.append_assoc,← List.append_assoc]
          exact hgroup
        · intro s
          rw [hmatch,isMatch_next,or_assoc]
          simp

/-- The first entry of the list is left out of the expression, which then begins with a bar or is
empty. -/
def FirstSkipped (terms : List NrObj) : Prop :=
  ∃ term ∈ terms.head?, term.getString = none ∨ term.getString = some []

instance (terms : List NrObj) : Decidable (FirstSkipped terms) :=
  match terms with
  | [] => .isFalse fun h => by simp [FirstSkipped] at h
  | term :: _ => decidable_of_iff (term.getString = none ∨ term.getString = some [])
      (by simp [FirstSkipped])

/-- The expression of a list of terms finds what begins with a term, and everything when the first entry
is left out. -/
theorem compile_buildRegex (terms : List NrObj) :
    ∃ re, (buildRegex (some (.array terms))).bind Regex.compile = some re ∧
      ∀ s, re.isMatch tolower s ↔ FirstSkipped terms ∨
        ∃ term ∈ whitelist terms, term.map tolower <+: s.map tolower := by
  cases terms with
  | nil =>
    refine ⟨_,rfl,fun s => ?_⟩
    have hnone : ¬Regex.isMatch tolower (.seq (.seq .empty .dollar) .dot) s :=
      Regex.not_isMatch_dollar_dot s
    constructor
    · intro h
      exact absurd h hnone
    · rintro (⟨term,hterm,-⟩ | ⟨term,hterm,-⟩)
      · cases hterm
      · cases hterm
  | cons term terms =>
    have hskip : FirstSkipped (term :: terms) ↔
        term.getString = none ∨ term.getString = some [] := by simp [FirstSkipped]
    rw [hskip,whitelist_cons,buildRegex,Option.bind_some,Regex.compile,termText]
    cases hterm : term.getString with
    | none =>
      obtain ⟨re,hre,hmatch⟩ := read_terms terms .new
      refine ⟨re,hre,fun s => ?_⟩
      simp [hmatch s,Regex.isMatch_close,Regex.Frame.new]
    | some t =>
      cases t with
      | nil =>
        obtain ⟨re,hre,hmatch⟩ := read_terms terms .new
        refine ⟨re,hre,fun s => ?_⟩
        simp [hmatch s,Regex.isMatch_close,Regex.Frame.new]
      | cons c t =>
        obtain ⟨re,hre,hmatch⟩ := read_terms terms (Regex.Frame.new.add (Regex.word .empty (c :: t)))
        refine ⟨re,?_,fun s => ?_⟩
        · have hgroup := read_group .new (List.cons_ne_nil c t) (terms.flatMap (termText false))
          rw [hre] at hgroup
          dsimp only
          rw [if_pos rfl,List.nil_append]
          exact hgroup
        · rw [hmatch,Regex.isMatch_close]
          simp [Regex.Frame.add,Regex.Frame.new,Regex.isMatch_seq_empty,Regex.isMatch_word]

end SegmentTerms

end PhpAgent
