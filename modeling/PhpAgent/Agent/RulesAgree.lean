import PhpAgent.Agent.RulesUnchanged
import PhpAgent.Util.ObjectScalars

/-! The rules of a connect reply on both sides: `nr_rules_apply` of the agent and `MetricRules.Apply` of
the daemon over the same rules and the same name. -/
namespace PhpAgent

/-! ### The rules of a reply -/

/-- A rule as a reply has it. A flag that is left out is false on both sides. -/
structure GivenRule where
  ignore : Bool
  eachSegment : Bool
  replaceAll : Bool
  terminate : Bool
  order : Option Int64
  matchExpr : Bytes
  replacement : Bytes

namespace GivenRule

/-- The hash that `nro_create_from_json` makes of it. -/
def toObj (r : GivenRule) : NrObj :=
  .hash ([(ascii "ignore",.boolean r.ignore),(ascii "each_segment",.boolean r.eachSegment),
    (ascii "replace_all",.boolean r.replaceAll),(ascii "terminate_chain",.boolean r.terminate),
    (ascii "match_expression",.string r.matchExpr),(ascii "replacement",.string r.replacement)] ++
      (r.order.map fun i => (ascii "eval_order",NroParse.number i.toInt)).toList)

/-- The order that `nr_rules_process_rule` reads as an `int`, and the one that `json.Unmarshal` does. -/
def agentOrder (r : GivenRule) : ℤ :=
  (r.order.map fun i => i.toInt.bmod (2^32)).getD Rule.defaultOrder

def daemonOrder (r : GivenRule) : ℤ := (r.order.map Int64.toInt).getD 0

/-- The rule of the agent, and the one of the daemon, with the expression compiled. -/
def asRule (r : GivenRule) (re : Regexp) : Rule where
  eachSegment := r.eachSegment
  ignore := r.ignore
  replaceAll := r.replaceAll
  terminate := r.terminate
  hasAlts := 0x7c ∈ r.matchExpr
  hasCaptures := Rule.firstReference r.replacement
  order := r.agentOrder
  matchExpr := r.matchExpr
  replacement := r.replacement
  regex := re

def asMetricRule (r : GivenRule) (re : Regexp) : MetricRule where
  ignore := r.ignore
  eachSegment := r.eachSegment
  replaceAll := r.replaceAll
  terminate := r.terminate
  order := r.daemonOrder
  originalReplacement := r.replacement
  rawExpr := r.matchExpr
  transformedReplacement := transformReplacement none r.replacement
  re := re

lemma getIval_number (i : ℤ) : (NroParse.number i).getIval = some (i.bmod (2^32)) := by
  unfold NroParse.number
  split_ifs with h
  · rfl
  · unfold intMin intMax at h
    exact congrArg some (Int.bmod_eq_of_le (by omega) (by omega)).symm

section Compiled
variable (compile : Bytes → Option Regexp)

/-- `nr_rules_process_rule`. -/
def toRule (r : GivenRule) : Option Rule := Rule.process compile r.toObj

/-- The loop of `NewMetricRulesFromJSON` over one rule. -/
def toMetricRule (r : GivenRule) : Option MetricRule :=
  (compile r.matchExpr).bind fun re =>
    if replacementAmbiguous r.replacement then none else some (r.asMetricRule re)

lemma toRule_eq (r : GivenRule) {re : Regexp} (hre : compile r.matchExpr = some re)
    (hexpr : r.matchExpr ≠ []) : r.toRule compile = some (r.asRule re) := by
  have hbool : ∀ {key : String} {b : Bool}, r.toObj.getHashValue key = some (.boolean b) →
      replyGetBool r.toObj key false = b := by
    intro key b hget
    rw [replyGetBool,hget]
    cases b <;> rfl
  have horder : replyGetInt r.toObj "eval_order" Rule.defaultOrder = r.agentOrder := by
    unfold agentOrder replyGetInt toObj
    cases r.order with
    | none => rfl
    | some i => exact congrArg (fun o => o.getD Rule.defaultOrder) (getIval_number i.toInt)
  have hmatch : r.toObj.getHashString "match_expression" = some r.matchExpr := rfl
  have hrepl : r.toObj.getHashString "replacement" = some r.replacement := rfl
  have hignore := @hbool "ignore" r.ignore rfl
  have heach := @hbool "each_segment" r.eachSegment rfl
  have hall := @hbool "replace_all" r.replaceAll rfl
  have hterminate := @hbool "terminate_chain" r.terminate rfl
  simp [toRule,Rule.process,hmatch,hrepl,hignore,heach,hall,hterminate,horder,hexpr,hre,asRule]

end Compiled
end GivenRule

/-! ### Replacements -/

/-- What a replacement is made of, for both sides. -/
inductive ReplacementPiece
  | literal (ch : UInt8)
  | reference (num : ℕ)

namespace ReplacementPiece

/-- The piece as a rule has it, and as package `regexp` is given it. -/
def text : ReplacementPiece → Bytes
  | literal ch => [ch]
  | reference num => backslash :: Json.decimal num

def transformed : ReplacementPiece → Bytes
  | literal ch => [ch]
  | reference num => transformReference (Json.decimal num)

/-- What stands for the piece in a match. -/
def expanded (m : Match) (subject : Bytes) : ReplacementPiece → Bytes
  | literal ch => [ch]
  | reference num => m.text subject num

end ReplacementPiece

open ReplacementPiece

/-- No digit follows. -/
def EndsNumber (rest : Bytes) : Prop := ¬ rest.head?.any Json.isDigit

instance (rest : Bytes) : Decidable (EndsNumber rest) :=
  inferInstanceAs (Decidable (¬ rest.head?.any Json.isDigit))

/-- A replacement means the same on both sides: its references are to groups up to the last one that took
part and end before a literal digit, a dollar is no reference of package `regexp`, and a backslash is
literal only if there is no reference and no digit behind it. -/
def Plain (re : Regexp) (m : Match) (references : Bool) : List ReplacementPiece → Prop
  | [] => True
  | .literal ch :: ps =>
    ch ≠ 0 ∧ (ch = backslash → references = false ∧ EndsNumber (ps.flatMap text)) ∧
      (ch = dollar → (ps.flatMap transformed).head? ≠ some dollar ∧
        re.extract (ps.flatMap transformed) = none) ∧ Plain re m references ps
  | .reference num :: ps =>
    references = true ∧ num ≤ m.captureCount ∧ EndsNumber (ps.flatMap text) ∧ Plain re m references ps

instance Plain.decidable (re : Regexp) (m : Match) (references : Bool) :
    (ps : List ReplacementPiece) → Decidable (Plain re m references ps)
  | [] => inferInstanceAs (Decidable True)
  | .literal ch :: ps =>
    have := Plain.decidable re m references ps
    inferInstanceAs (Decidable (ch ≠ 0 ∧ (_ → _ ∧ _) ∧ (_ → _ ∧ _) ∧ Plain re m references ps))
  | .reference num :: ps =>
    have := Plain.decidable re m references ps
    inferInstanceAs (Decidable (_ = true ∧ num ≤ _ ∧ _ ∧ Plain re m references ps))

section Plain
variable {re : Regexp} {m : Match} {references : Bool} {ps : List ReplacementPiece}

lemma transformReplacement_some (digits : Bytes) {rest : Bytes} (h : EndsNumber rest) :
    transformReplacement (some digits) rest =
      transformReference digits ++ transformReplacement none rest := by
  cases rest with
  | nil => simp [transformReplacement]
  | cons c rest =>
    have hc : ¬ Json.isDigit c := by simpa [EndsNumber] using h
    simp only [transformReplacement,if_neg hc]
    split_ifs <;> simp

lemma transformReplacement_digits (digits : Bytes) {more : Bytes} (hmore : ∀ d ∈ more, Json.isDigit d = true)
    (rest : Bytes) : transformReplacement (some digits) (more ++ rest) =
      transformReplacement (some (digits ++ more)) rest := by
  induction more generalizing digits with
  | nil => simp
  | cons d more ih =>
    rw [List.cons_append,transformReplacement,if_pos (hmore d List.mem_cons_self),
      ih _ fun d hd => hmore d (List.mem_cons_of_mem _ hd),List.append_assoc]
    rfl

lemma Plain.transformReplacement_eq (h : Plain re m references ps) :
    transformReplacement none (ps.flatMap text) = ps.flatMap transformed := by
  induction ps with
  | nil => rfl
  | cons p ps ih =>
    cases p with
    | literal ch =>
      obtain ⟨-,hslash,-,hrest⟩ := h
      rw [List.flatMap_cons,List.flatMap_cons,text,transformed,List.singleton_append,List.singleton_append,
        transformReplacement,ih hrest]
      split_ifs with hch
      · rw [transformReplacement_some [] (hslash hch).2,ih hrest,hch]
        rfl
      · rfl
    | reference num =>
      obtain ⟨-,-,hend,hrest⟩ := h
      rw [List.flatMap_cons,List.flatMap_cons,text,transformed,List.cons_append,transformReplacement,
        if_pos rfl,transformReplacement_digits [] (Json.isDigit_decimal num),List.nil_append,
        transformReplacement_some _ hend,ih hrest]

end Plain

/-- More digits make a number no smaller. -/
lemma le_foldl_digits (ds : Bytes) (i : ℕ) : i ≤ ds.foldl (fun n d => 10*n+(d.toNat-0x30)) i := by
  induction ds generalizing i with
  | nil => exact le_refl i
  | cons d ds ih =>
    have hstep : i ≤ 10*i+(d.toNat-0x30) := by omega
    exact hstep.trans (ih _)

namespace Regexp
variable (re : Regexp)

lemma runeWidth_digit {d : UInt8} (hd : Json.isDigit d = true) (rest : Bytes) :
    runeWidth (d :: rest) = 1 := by
  have hall : ∀ n : Fin 256, Json.isDigit (UInt8.ofFin n) = true → UInt8.ofFin n < 0xc2 := by
    decide +kernel
  have hlt := hall d.toFin hd
  have hle : ∀ {c : UInt8}, 0xc2 ≤ c → ¬ c ≤ d := fun hc h =>
    absurd (UInt8.lt_of_lt_of_le hlt (UInt8.le_trans hc h)) (UInt8.lt_irrefl d)
  have hne : ∀ {c : UInt8}, 0xc2 ≤ c → ¬ d = c := fun hc h => hle hc (h ▸ UInt8.le_refl d)
  simp [runeWidth,hle,hne]

lemma isNameRune_digit {d : UInt8} (hd : Json.isDigit d = true) (rest : Bytes) :
    re.isNameRune (d :: rest) = true := by
  have hd' : (0x30 ≤ d && d ≤ 0x39) = true := hd
  simp [isNameRune,hd']

lemma nameLength_digits {ds : Bytes} (hds : ∀ d ∈ ds, Json.isDigit d = true) (rest : Bytes) (fuel : ℕ) :
    re.nameLength (fuel+ds.length) (ds ++ closeBrace :: rest) = ds.length := by
  have hbrace : re.isNameRune (closeBrace :: rest) = false := by
    simp [isNameRune,closeBrace]
  induction ds with
  | nil =>
    cases fuel with
    | zero => rfl
    | succ fuel => simp [nameLength,hbrace]
  | cons d ds ih =>
    have hd := hds d List.mem_cons_self
    have hrest := ih fun d' hd' => hds d' (List.mem_cons_of_mem _ hd')
    rw [List.length_cons,← Nat.add_assoc,List.cons_append,nameLength,if_pos (re.isNameRune_digit hd _),
      runeWidth_digit hd,List.drop_one,List.tail_cons,hrest]
    omega

lemma parseNumber_decimal {n : ℕ} (hn : n < 100000000) : parseNumber (Json.decimal n) = some n := by
  have hfold : ∀ (ds : Bytes) (i : ℕ), (∀ d ∈ ds, Json.isDigit d = true) →
      ds.foldl (fun n d => 10*n+(d.toNat-0x30)) i < 100000000 →
      ds.foldl (fun num c => num.bind fun n =>
        if Json.isDigit c ∧ n < 100000000 then some (n*10 + (c.toNat-0x30)) else none) (some i) =
          some (ds.foldl (fun n d => 10*n+(d.toNat-0x30)) i) := by
    intro ds
    induction ds with
    | nil => exact fun i _ _ => rfl
    | cons d ds ih =>
      intro i hds hlt
      have hi := lt_of_le_of_lt (le_foldl_digits (d :: ds) i) hlt
      rw [List.foldl_cons,List.foldl_cons,Option.bind_some,if_pos ⟨hds d List.mem_cons_self,hi⟩,
        Nat.mul_comm]
      exact ih _ (fun d' hd' => hds d' (List.mem_cons_of_mem _ hd')) hlt
  have hvalue : (Json.decimal n).foldl (fun n d => 10*n+(d.toNat-0x30)) 0 = n := Json.digitsValue_decimal n
  have hzero : ¬ ((Json.decimal n).head? = some 0x30 ∧ 1 < (Json.decimal n).length) := by
    rintro ⟨hhead,hlen⟩
    by_cases h0 : n = 0
    · rw [h0] at hlen
      exact absurd hlen (by decide)
    · exact Json.head?_decimal h0 hhead
  have hnum := hfold (Json.decimal n) 0 (Json.isDigit_decimal n) (hvalue.symm ▸ hn)
  rw [hvalue] at hnum
  rw [parseNumber,hnum]
  exact if_neg hzero

lemma extract_braced {n : ℕ} (hn : n < 100000000) (rest : Bytes) :
    re.extract (openBrace :: (Json.decimal n ++ closeBrace :: rest)) =
      some (Json.decimal n,some n,rest) := by
  have hlen : (Json.decimal n ++ closeBrace :: rest).length = rest.length+1+(Json.decimal n).length := by
    simp only [List.length_append,List.length_cons]
    omega
  have hname := re.nameLength_digits (Json.isDigit_decimal n) rest (rest.length+1)
  have hne : (Json.decimal n).length ≠ 0 := fun h => Json.decimal_ne_nil n (List.length_eq_zero_iff.mp h)
  simp [extract,hlen,hname,hne,parseNumber_decimal hn]

end Regexp

section Expansions
variable {re : Regexp} {m : Match} {references : Bool} {ps : List ReplacementPiece} {subject : Bytes}

/-- `Expand` over a replacement, in a match whose groups read `m'`. -/
theorem Plain.expand_eq (h : Plain re m references ps) (hfew : m.captureCount < 100000000) (m' : Match)
    {fuel : ℕ} (hfuel : (ps.flatMap transformed).length < fuel) :
    re.expand subject m' fuel (ps.flatMap transformed) = ps.flatMap (expanded m' subject) := by
  induction ps generalizing fuel with
  | nil =>
    cases fuel with
    | zero => simp at hfuel
    | succ fuel => rfl
  | cons p ps ih =>
    obtain ⟨fuel,rfl⟩ := Nat.exists_eq_add_one.mpr (Nat.zero_lt_of_lt hfuel)
    rw [List.flatMap_cons] at hfuel ⊢
    rw [List.flatMap_cons]
    cases p with
    | literal ch =>
      obtain ⟨-,-,hdollar,hrest⟩ := h
      have hlt : (ps.flatMap transformed).length < fuel := by
        simpa [transformed] using hfuel
      rw [transformed,expanded,List.singleton_append,List.singleton_append,Regexp.expand]
      by_cases hch : ch = dollar
      · obtain ⟨hhead,hextract⟩ := hdollar hch
        rw [if_neg (not_not.mpr hch),if_neg hhead,hextract,hch]
        simp only [ih hrest hlt]
      · rw [if_pos hch,ih hrest hlt]
    | reference num =>
      obtain ⟨-,hnum,-,hrest⟩ := h
      have hextract := re.extract_braced (lt_of_le_of_lt hnum hfew) (ps.flatMap transformed)
      have htext : transformed (.reference num) ++ ps.flatMap transformed =
          dollar :: openBrace :: (Json.decimal num ++ closeBrace :: ps.flatMap transformed) := by
        simp [transformed,transformReference,Json.decimal_ne_nil]
      have hlt : (ps.flatMap transformed).length < fuel := by
        have hlen := congrArg List.length htext
        simp only [List.length_append,List.length_cons] at hlen hfuel
        omega
      have hbrace : openBrace ≠ dollar := by decide
      rw [htext,Regexp.expand,if_neg (by simp),if_neg (by simpa using hbrace),hextract]
      simp only [ih hrest hlt]
      rfl

lemma readDigit_eq {n : ℕ} {d : UInt8} (hd : Json.isDigit d = true)
    (h : 10*n+(d.toNat-0x30) < 2^31) : readDigit n d = (10*n+(d.toNat-0x30) : ℕ) := by
  rw [readDigit,if_pos hd]
  apply (Int.bmod_eq_of_le (by omega) (by omega)).trans
  omega

lemma replaceString_reference {rest : Bytes} (hend : EndsNumber rest) {destLen : ℕ} {ds : Bytes} {n : ℕ}
    (hne : ds ≠ []) (hds : ∀ d ∈ ds, Json.isDigit d = true)
    (hcount : ds.foldl (fun n d => 10*n+(d.toNat-0x30)) n ≤ m.captureCount)
    (hfew : m.captureCount < 2^31) {text : Bytes}
    (htext : m.text subject (ds.foldl (fun n d => 10*n+(d.toNat-0x30)) n) = text)
    (hroom : text.length < destLen) :
    replaceString m subject (some (n : ℤ)) (ds ++ rest) destLen =
      (replaceString m subject none rest (destLen-text.length)).map (text ++ ·) := by
  induction ds generalizing n with
  | nil => exact absurd rfl hne
  | cons d ds ih =>
    have hd := hds d List.mem_cons_self
    rw [List.foldl_cons] at hcount htext
    have hlt : 10*n+(d.toNat-0x30) < 2^31 :=
      lt_of_le_of_lt ((le_foldl_digits ds _).trans hcount) hfew
    rw [List.cons_append,replaceString]
    dsimp only
    rw [readDigit_eq hd hlt]
    cases ds with
    | nil =>
      rw [List.foldl_nil] at hcount htext
      have hdigit : ¬ (([] : Bytes) ++ rest).head?.any Json.isDigit = true := hend
      have hpos : ¬ ((10*n+(d.toNat-0x30) : ℕ) : ℤ) < 0 := by omega
      have hknown : ¬ (m.captureCount : ℤ) < (10*n+(d.toNat-0x30) : ℕ) := by omega
      rw [if_neg hdigit,if_neg hpos,if_neg hknown,Int.toNat_natCast,htext,if_neg (by omega)]
      rfl
    | cons e ds =>
      have hdigit : (((e :: ds) ++ rest).head?.any Json.isDigit) = true := hds e (by simp)
      rw [if_pos hdigit]
      exact ih (by simp) (fun d' hd' => hds d' (List.mem_cons_of_mem _ hd')) hcount htext

/-- `nr_rule_replace_string` over a replacement. -/
theorem Plain.replaceString_eq (h : Plain re m true ps) (hfew : m.captureCount < 2^31) {destLen : ℕ}
    (hroom : (ps.flatMap (expanded m subject)).length < destLen) :
    replaceString m subject none (ps.flatMap text) destLen = some (ps.flatMap (expanded m subject)) := by
  induction ps generalizing destLen with
  | nil => rfl
  | cons p ps ih =>
    rw [List.flatMap_cons] at hroom ⊢
    rw [List.flatMap_cons]
    rw [List.length_append] at hroom
    cases p with
    | literal ch =>
      obtain ⟨-,hslash,-,hrest⟩ := h
      have hch : ch ≠ backslash := fun hch => absurd (hslash hch).1 (by decide)
      simp only [expanded,List.length_singleton] at hroom
      rw [text,expanded,List.singleton_append,replaceString,if_neg hch,if_pos (by omega),
        ih hrest (by omega)]
      rfl
    | reference num =>
      obtain ⟨-,hnum,hend,hrest⟩ := h
      simp only [expanded] at hroom
      have hvalue : (Json.decimal num).foldl (fun n d => 10*n+(d.toNat-0x30)) 0 = num :=
        Json.digitsValue_decimal num
      have hread := @replaceString_reference m subject _ hend destLen _ 0 (Json.decimal_ne_nil num)
        (Json.isDigit_decimal num) (by rw [hvalue]; exact hnum) hfew _ (by rw [hvalue]) (by omega)
      rw [text,List.cons_append,replaceString,if_pos rfl]
      exact hread.trans (by rw [ih hrest (by omega)]; rfl)

lemma Plain.text_eq (h : Plain re m false ps) :
    ps.flatMap text = ps.flatMap (expanded m subject) := by
  induction ps with
  | nil => rfl
  | cons p ps ih =>
    cases p with
    | literal ch => rw [List.flatMap_cons,List.flatMap_cons,ih h.2.2.2]; rfl
    | reference num => exact absurd h.1 (by decide)

/-- What the agent puts in the place of a match. -/
theorem Plain.replaced_eq {rule : Rule} (hrepl : rule.replacement = ps.flatMap text)
    (h : Plain re m rule.hasCaptures ps) (hfew : m.captureCount < 2^31)
    (hroom : (ps.flatMap (expanded m subject)).length < nruleBufSize) :
    rule.replaced m subject = some (ps.flatMap (expanded m subject)) := by
  rw [Rule.replaced,hrepl]
  cases hcaptures : rule.hasCaptures with
  | false =>
    rw [hcaptures] at h
    rw [if_neg (by decide),h.text_eq]
  | true =>
    rw [hcaptures] at h
    rw [if_pos rfl,h.replaceString_eq hfew hroom]

end Expansions

/-! ### Matches -/

/-- What both libraries promise of a match: it lies behind the position, in the text, with a number of
groups that they can count. -/
structure Regexp.Documented (re : Regexp) : Prop where
  lies : ∀ {s : Bytes} {pos : ℕ} {m : Match}, re.find s pos = some m →
    pos ≤ m.start ∧ m.start ≤ m.stop ∧ m.stop ≤ s.length
  few : ∀ {s : Bytes} {pos : ℕ} {m : Match}, re.find s pos = some m → m.captureCount < 65536

namespace Regexp
variable {re : Regexp}

lemma runeWidth_le (s : Bytes) : runeWidth s ≤ s.length := by
  cases s with
  | nil => rfl
  | cons b rest =>
    have htails : ∀ {n : ℕ}, ((decide (n ≤ rest.length) && (rest.take n).all isTail) = true) →
        n+1 ≤ rest.length+1 := by
      intro n h
      have := (Bool.and_eq_true_iff.mp h).1
      simpa using this
    rw [runeWidth,List.length_cons]
    dsimp only
    split_ifs with h₁ h₂ h₃ h₄ h₅ h₆ h₇
    · exact htails h₁.2.2
    · exact htails h₂.2.2
    · exact htails h₃.2.2
    · exact htails h₄.2.2.2
    · exact htails h₅.2.2
    · exact htails h₆.2.2
    · exact htails h₇.2.2
    · omega

/-- Behind a text nothing is replaced any more. -/
lemma replaceAll_end (hre : re.Documented) (s template : Bytes) (hs : s ≠ []) (fuel : ℕ) :
    re.replaceAll s template fuel s.length s.length = [] := by
  cases fuel with
  | zero => exact List.drop_length
  | succ fuel =>
    rw [replaceAll,if_neg (lt_irrefl _)]
    cases hfind : re.find s s.length with
    | none => exact List.drop_length
    | some m =>
      obtain ⟨hstart,hstop,hlen⟩ := hre.lies hfind
      have hpos : 0 < s.length := List.length_pos_of_ne_nil hs
      have hm : m.stop = s.length := by omega
      have hm' : m.start = s.length := by omega
      have hrest : ∀ fuel, re.replaceAll s template fuel s.length (s.length+1) = [] := by
        intro fuel
        cases fuel with
        | zero => exact List.drop_length
        | succ fuel => rw [replaceAll,if_pos (Nat.lt_succ_self _),List.drop_length]
      simp [hm,hm',hrest,runeWidth,slice,hs]

/-- An expression that finds the whole of a text replaces it once. -/
theorem replaceAllString_whole (hre : re.Documented) {s : Bytes} {m : Match} (hfind : re.find s 0 = some m)
    (hstart : m.start = 0) (hstop : m.stop = s.length) (template : Bytes) :
    re.replaceAllString s template = re.expand s m (template.length+1) template := by
  have hwidth := runeWidth_le s
  rw [replaceAllString,replaceAll,if_neg (Nat.not_lt_zero _),hfind]
  dsimp only
  rw [if_pos (.inr hstart),hstart,hstop,List.drop_zero,if_neg (by omega)]
  by_cases hs : s = []
  · subst hs
    simp [replaceAll,slice]
  · have hpos : 0 < s.length := List.length_pos_of_ne_nil hs
    rw [if_neg (by omega),replaceAll_end hre s template hs]
    simp [slice]

end Regexp

/-! ### One rule -/

namespace GivenRule
variable (r : GivenRule) (re : Regexp)

/-- Both sides put the same text in the place of a match, which fits the buffer: what is referred to reads
the same in the match `m` of the agent and in the match `m'` of the daemon. -/
def Replaces (m : Match) (s : Bytes) (m' : Match) (s' : Bytes) : Prop :=
  ∃ ps, r.replacement = ps.flatMap text ∧ Plain re m (Rule.firstReference r.replacement) ps ∧
    (ps.flatMap (expanded m s)).length < nruleBufSize ∧
    ∀ num, .reference num ∈ ps → m'.text s' num = m.text s num

/-- In the text of a match alone, the expression finds the whole of it. -/
def FindsAgain (m : Match) (s : Bytes) : Prop :=
  ∃ m', re.find (slice s m.start m.stop) 0 = some m' ∧ m'.start = 0 ∧
    m'.stop = (slice s m.start m.stop).length ∧ r.Replaces re m s m' (slice s m.start m.stop)

/-- A match in a segment is the whole of it. -/
def SegmentAlike (segment : Bytes) : Prop :=
  ∀ m, re.find segment 0 = some m →
    m.start = 0 ∧ m.stop = segment.length ∧ r.Replaces re m segment m segment

/-- The matches from a position on are the same behind it alone, and none is shorter than a character. -/
inductive Rounds (s : Bytes) : ℕ → Prop
  | done {pos : ℕ} (hpos : pos ≤ s.length) (hfind : re.find s pos = none)
      (hrest : re.find (s.drop pos) 0 = none) : Rounds s pos
  | next {pos : ℕ} {m m' : Match} (hfind : re.find s pos = some m)
      (hrest : re.find (s.drop pos) 0 = some m') (hstart : m.start = pos+m'.start)
      (hstop : m.stop = pos+m'.stop) (hne : m.start < m.stop)
      (hwidth : pos+Regexp.runeWidth (s.drop pos) ≤ m.stop)
      (hrepl : r.Replaces re m' (s.drop pos) m s) (hlater : Rounds s m.stop) : Rounds s pos

/-- The matches from `pos` on are the segments that match by themselves, as a whole. The first segment
begins behind the slash at `off`. -/
inductive SegmentRounds (s : Bytes) : ℕ → ℕ → List Bytes → Prop
  | done {pos off : ℕ} (hfind : pos < s.length → re.find s pos = none) : SegmentRounds s pos off []
  | skip {pos off : ℕ} {segment : Bytes} {segs : List Bytes} (hsegment : re.find segment 0 = none)
      (hlater : SegmentRounds s pos (off+1+segment.length) segs) : SegmentRounds s pos off (segment :: segs)
  | next {pos off : ℕ} {segment : Bytes} {segs : List Bytes} {m m' : Match}
      (hsegment : re.find segment 0 = some m) (hstart : m.start = 0) (hstop : m.stop = segment.length)
      (hfind : re.find s pos = some m') (hstart' : m'.start = off+1)
      (hstop' : m'.stop = off+1+segment.length) (hrepl : r.Replaces re m segment m' s)
      (hlater : SegmentRounds s (off+1+segment.length) (off+1+segment.length) segs) :
      SegmentRounds s pos off (segment :: segs)

/-- A rule does the same to a text on both sides. -/
def Alike (s : Bytes) : Prop :=
  if r.ignore then ∀ m, re.find s 0 = some m → m.start < m.stop
  else if r.eachSegment then
    ∃ t, s = slash :: t ∧
      if r.replaceAll then r.SegmentRounds re s 0 0 (t.splitOn slash)
      else re.find [] 0 = none ∧ ∀ segment ∈ t.splitOn slash, r.SegmentAlike re segment
  else if r.replaceAll then r.Rounds re s 0
  else ∀ m, re.find s 0 = some m → r.FindsAgain re m s

variable {r re}

/-- The two outcomes of a rule, over the text `s`. -/
inductive SameOutcome (s : Bytes) : RulesResult × Bytes → MetricRuleResult × Bytes → Prop
  | ignore {str out : Bytes} : SameOutcome s (.ignore,str) (.ignore,out)
  | changed {str out : Bytes} (h : cstr str = out) (hzero : (0 : UInt8) ∉ out) :
    SameOutcome s (.changed,str) (.matched,out)
  | unchanged {str : Bytes} (h : cstr str = s) : SameOutcome s (.unchanged,str) (.unmatched,s)

lemma SameOutcome.text_eq {s out : Bytes} {c : RulesResult × Bytes} (h : SameOutcome s c (.unmatched,out)) :
    out = s := by
  cases h
  rfl

lemma zero_notMem_slice {s : Bytes} (hs : (0 : UInt8) ∉ s) (i j : ℕ) : (0 : UInt8) ∉ slice s i j :=
  fun h => hs (List.mem_of_mem_take (List.mem_of_mem_drop h))

lemma zero_notMem_expanded {ps : List ReplacementPiece} {m : Match} {references : Bool} {s : Bytes}
    (h : Plain re m references ps) (hs : (0 : UInt8) ∉ s) :
    (0 : UInt8) ∉ ps.flatMap (expanded m s) := by
  have htext : ∀ num, (0 : UInt8) ∉ m.text s num := by
    intro num
    unfold Match.text
    cases m.group num with
    | none => exact List.not_mem_nil
    | some ij => exact zero_notMem_slice hs _ _
  induction ps with
  | nil => exact List.not_mem_nil
  | cons p ps ih =>
    rw [List.flatMap_cons,List.mem_append,not_or]
    cases p with
    | literal ch => exact ⟨fun hmem => h.1 (List.mem_singleton.mp hmem).symm,ih h.2.2.2⟩
    | reference num => exact ⟨htext num,ih h.2.2.2⟩

/-- The text that both sides put in the place of a match. -/
theorem Replaces.spec {m m' : Match} {s s' : Bytes} (h : r.Replaces re m s m' s')
    (hfew : m.captureCount < 65536) (hs : (0 : UInt8) ∉ s) :
    ∃ out, (r.asRule re).replaced m s = some out ∧ out.length < nruleBufSize ∧ (0 : UInt8) ∉ out ∧
      re.expand s' m' ((r.asMetricRule re).transformedReplacement.length+1)
        (r.asMetricRule re).transformedReplacement = out := by
  obtain ⟨ps,htext,hplain,hroom,hreads⟩ := h
  refine ⟨_,hplain.replaced_eq htext (by omega) hroom,hroom,zero_notMem_expanded hplain hs,?_⟩
  have htransformed : (r.asMetricRule re).transformedReplacement = ps.flatMap transformed := by
    rw [asMetricRule,htext]
    exact hplain.transformReplacement_eq
  rw [htransformed,hplain.expand_eq (by omega) m' (Nat.lt_succ_self _)]
  apply List.flatMap_congr
  intro p hp
  cases p with
  | literal ch => rfl
  | reference num => exact hreads num hp

/-- A rule without a loop. -/
theorem sameOutcome_once (hre : re.Documented) (hignore : r.ignore = false) {s str : Bytes}
    (hs : (0 : UInt8) ∉ s) (hstr : cstr str = s)
    (h : ∀ m, re.find s 0 = some m → r.FindsAgain re m s) :
    SameOutcome s ((r.asRule re).applyOnce str)
      (replaceFirst re s (r.asMetricRule re).transformedReplacement) := by
  unfold Rule.applyOnce replaceFirst
  have hregex : (r.asRule re).regex = re := rfl
  simp only [hstr,hregex]
  cases hfind : re.find s 0 with
  | none => exact .unchanged hstr
  | some m =>
    obtain ⟨m',hfind',hstart,hstop,hrepl⟩ := h m hfind
    obtain ⟨out,hout,hroom,hzero,hexpand⟩ := hrepl.spec (hre.few hfind) hs
    have htake : out.take (nruleBufSize-1) = out := List.take_of_length_le (by omega)
    have hgo := (Regexp.replaceAllString_whole hre hfind' hstart hstop _).trans hexpand
    have hclean : (0 : UInt8) ∉ s.take m.start ++ out ++ s.drop m.stop := by
      simp only [List.mem_append,not_or]
      exact ⟨⟨fun hmem => hs (List.mem_of_mem_take hmem),hzero⟩,fun hmem => hs (List.mem_of_mem_drop hmem)⟩
    have hnot : (r.asRule re).ignore = false := hignore
    simp only [hnot,hout,htake,hgo]
    exact .changed (cstr_strcpy hclean _) hclean

/-- A segment becomes the same on both sides. -/
lemma replaceFirst_segment (hre : re.Documented) {segment : Bytes} (hs : (0 : UInt8) ∉ segment)
    (h : SegmentAlike r re segment) :
    (re.find segment 0 = none ∧ replaceFirst re segment (r.asMetricRule re).transformedReplacement =
        (.unmatched,segment)) ∨
      ∃ m out, re.find segment 0 = some m ∧ (r.asRule re).replaced m segment = some out ∧
        (0 : UInt8) ∉ out ∧
        replaceFirst re segment (r.asMetricRule re).transformedReplacement = (.matched,out) := by
  unfold replaceFirst
  cases hfind : re.find segment 0 with
  | none => exact .inl ⟨rfl,rfl⟩
  | some m =>
    obtain ⟨hstart,hstop,hrepl⟩ := h m hfind
    obtain ⟨out,hout,-,hzero,hexpand⟩ := hrepl.spec (hre.few hfind) hs
    have hwhole : slice segment m.start m.stop = segment := by simp [slice,hstart,hstop]
    have hgo := (Regexp.replaceAllString_whole hre hfind hstart hstop _).trans hexpand
    refine .inr ⟨m,out,rfl,hout,hzero,?_⟩
    dsimp only
    rw [hwhole,hgo,hstart,hstop]
    simp

lemma applySegments_same (hre : re.Documented) {segs : List Bytes}
    (h : ∀ segment ∈ segs, (0 : UInt8) ∉ segment ∧ SegmentAlike r re segment) (str : Bytes)
    (segstart : ℕ) (work : Bytes) (changed : Bool) :
    ∃ str' outs, segs.map (replaceFirst re · (r.asMetricRule re).transformedReplacement) = outs ∧
      (r.asRule re).applySegments str segstart work changed segs =
        (if changed || outs.any (fun a => a.1 = .matched) then .changed else .unchanged,
          strcpy str' (work ++ (outs.map Prod.snd).flatMap (slash :: ·))) ∧
      (∀ a ∈ outs, (0 : UInt8) ∉ a.2) ∧
      (outs.any (fun a => a.1 = .matched) = false → outs.map Prod.snd = segs) := by
  induction segs generalizing str segstart work changed with
  | nil => exact ⟨str,[],rfl,by simp [Rule.applySegments],by simp,by simp⟩
  | cons segment segs ih =>
    obtain ⟨hzero,hsegment⟩ := h segment List.mem_cons_self
    have hrest := ih fun x hx => h x (List.mem_cons_of_mem _ hx)
    have hregex : (r.asRule re).regex = re := rfl
    rcases replaceFirst_segment hre hzero hsegment with ⟨hfind,hgo⟩ | ⟨m,out,hfind,hout,hclean,hgo⟩
    · obtain ⟨str',outs,hmap,hC,hclean,hsame⟩ := hrest
        (if segs = [] then str else str.set (segstart+segment.length) 0) (segstart+segment.length+1)
        (work ++ slash :: segment) changed
      have hany : ((MetricRuleResult.unmatched,segment) :: outs).any (fun a => a.1 = .matched) =
        outs.any fun a => a.1 = .matched := rfl
      refine ⟨str',_,by rw [List.map_cons,hgo,hmap],?_,?_,?_⟩
      · simp only [Rule.applySegments,hregex,hfind,hC]
        rw [hany]
        simp
      · intro a ha
        rcases List.mem_cons.mp ha with rfl | ha
        · exact hzero
        · exact hclean a ha
      · intro hnone
        rw [List.map_cons,hsame (hany ▸ hnone)]
    · obtain ⟨str',outs,hmap,hC,hclean',-⟩ := hrest
        (if segs = [] then str else str.set (segstart+segment.length) 0) (segstart+segment.length+1)
        (work ++ slash :: out) true
      have hany : ((MetricRuleResult.matched,out) :: outs).any (fun a => a.1 = .matched) = true := rfl
      refine ⟨str',_,by rw [List.map_cons,hgo,hmap],?_,?_,?_⟩
      · simp only [Rule.applySegments,hregex,hfind,hout,hC]
        rw [hany]
        simp
      · intro a ha
        rcases List.mem_cons.mp ha with rfl | ha
        · exact hclean
        · exact hclean' a ha
      · intro hnone
        rw [hany] at hnone
        cases hnone

lemma flatMap_splitOn (t : Bytes) : (t.splitOn slash).flatMap (slash :: ·) = slash :: t := by
  rw [Rule.flatMap_slash (List.splitOn_ne_nil _ _),List.intercalate_splitOn]

/-- A daemon that puts the segments together as it replaces them has the outcome of the agent. -/
theorem sameOutcome_segments (hre : re.Documented) {t str : Bytes} (ht : (0 : UInt8) ∉ t)
    (hstr : cstr str = slash :: t) (h : ∀ segment ∈ t.splitOn slash, SegmentAlike r re segment)
    {outs : List (MetricRuleResult × Bytes)} (houts : (t.splitOn slash).map
      (replaceFirst re · (r.asMetricRule re).transformedReplacement) = outs) {verdict : MetricRuleResult}
    (hverdict : verdict = if outs.any (fun a => a.1 = .matched) then .matched else .unmatched) :
    SameOutcome (slash :: t) ((r.asRule re).applySegments str 1 [] false ((cstr (str.drop 1)).splitOn slash))
      (verdict,(outs.map Prod.snd).flatMap (slash :: ·)) := by
  have hslash : (0 : UInt8) ≠ slash := by decide
  have hsegs : ∀ segment ∈ t.splitOn slash, (0 : UInt8) ∉ segment ∧ SegmentAlike r re segment := by
    intro segment hsegment
    refine ⟨fun hzero => ?_,h segment hsegment⟩
    have hmem : (0 : UInt8) ∈ (t.splitOn slash).flatMap (slash :: ·) :=
      List.mem_flatMap.mpr ⟨segment,hsegment,List.mem_cons_of_mem _ hzero⟩
    rw [flatMap_splitOn,List.mem_cons] at hmem
    exact hmem.elim hslash ht
  have hrest : cstr (str.drop 1) = t := by
    cases str with
    | nil => cases hstr
    | cons c mem =>
      by_cases hc : c = 0
      · rw [hc] at hstr
        cases hstr
      · rw [cstr_cons hc] at hstr
        exact (List.cons.inj hstr).2
  obtain ⟨str',outs',hmap,hC,hclean,hsame⟩ := applySegments_same hre hsegs str 1 [] false
  obtain rfl : outs' = outs := hmap.symm.trans houts
  have hzero : (0 : UInt8) ∉ (outs'.map Prod.snd).flatMap (slash :: ·) := by
    simp only [List.mem_flatMap,List.mem_map,not_exists,not_and]
    rintro x ⟨a,ha,rfl⟩ hmem
    exact (List.mem_cons.mp hmem).elim hslash (hclean a ha)
  rw [hrest,hC,hverdict,Bool.false_or,List.nil_append]
  cases hmatched : outs'.any fun a => a.1 = .matched with
  | false =>
    rw [hsame hmatched,flatMap_splitOn] at hzero ⊢
    exact .unchanged (cstr_strcpy hzero _)
  | true => exact .changed (cstr_strcpy hzero _) hzero

/-- The daemon has one segment more, the empty one before the first slash. -/
lemma intercalate_segments {t : Bytes} (hempty : re.find [] 0 = none) {template : Bytes}
    {outs : List (MetricRuleResult × Bytes)}
    (houts : (t.splitOn slash).map (replaceFirst re · template) = outs) :
    ((slash :: t).splitOn slash).map (replaceFirst re · template) = (.unmatched,[]) :: outs ∧
      [slash].intercalate ([] :: outs.map Prod.snd) = (outs.map Prod.snd).flatMap (slash :: ·) := by
  have hsplit : (slash :: t).splitOn slash = [] :: t.splitOn slash :=
    List.splitOn_append_cons_self [] t
  constructor
  · rw [hsplit,List.map_cons,houts,replaceFirst,hempty]
  · have hne : outs.map Prod.snd ≠ [] := by
      rw [← houts]
      simp
    obtain ⟨x,xs,hx⟩ := List.exists_cons_of_ne_nil hne
    rw [hx,Rule.flatMap_slash (by simp)]
    simp [List.intercalate]

lemma SegmentAlike.of_whole {segment s' : Bytes} {m m' : Match} (hsegment : re.find segment 0 = some m)
    (hstart : m.start = 0) (hstop : m.stop = segment.length) (h : r.Replaces re m segment m' s') :
    r.SegmentAlike re segment := by
  obtain ⟨ps,htext,hplain,hroom,-⟩ := h
  intro m₂ hm₂
  obtain rfl := Option.some.inj (hsegment.symm.trans hm₂)
  exact ⟨hstart,hstop,ps,htext,hplain,hroom,fun _ _ => rfl⟩

lemma SegmentRounds.segmentAlike {s : Bytes} {pos off : ℕ} {segs : List Bytes}
    (h : r.SegmentRounds re s pos off segs) : ∀ segment ∈ segs, r.SegmentAlike re segment := by
  induction h with
  | done => simp
  | skip hsegment _ ih =>
    refine List.forall_mem_cons.mpr ⟨fun m hm => ?_,ih⟩
    rw [hsegment] at hm
    cases hm
  | next hsegment hstart hstop _ _ _ hrepl _ ih =>
    exact List.forall_mem_cons.mpr ⟨.of_whole hsegment hstart hstop hrepl,ih⟩

lemma slice_append_slice (s : Bytes) {i j k : ℕ} (hij : i ≤ j) (hjk : j ≤ k) :
    slice s i j ++ slice s j k = slice s i k := by
  simp only [slice,List.drop_take]
  obtain ⟨d,rfl⟩ := Nat.exists_eq_add_of_le hij
  obtain ⟨e,rfl⟩ := Nat.exists_eq_add_of_le hjk
  rw [show i+d+e-i = d+e by omega,show i+d-i = d by omega,show i+d+e-(i+d) = e by omega,List.take_add,
    List.drop_drop]

/-- The first of the segments behind a position, and the rest. -/
lemma segment_layout {s segment : Bytes} {off : ℕ} {segs : List Bytes}
    (h : s.drop off = (segment :: segs).flatMap (slash :: ·)) :
    slice s off (off+1+segment.length) = slash :: segment ∧
      s.drop (off+1+segment.length) = segs.flatMap (slash :: ·) ∧ off+1+segment.length ≤ s.length := by
  have hcons : s.drop off = (slash :: segment) ++ segs.flatMap (slash :: ·) := h
  have hlen : (slash :: segment).length = segment.length+1 := rfl
  have hstop : off+1+segment.length-off = (slash :: segment).length := by omega
  refine ⟨?_,?_,?_⟩
  · rw [slice,List.drop_take,hstop,hcons,List.take_left]
  · rw [show off+1+segment.length = off+(slash :: segment).length by omega,← List.drop_drop,hcons,
      List.drop_left]
  · have hall := congrArg List.length hcons
    simp only [List.length_drop,List.length_append,hlen] at hall
    omega

lemma runeWidth_segments {s : Bytes} {off : ℕ} {segs : List Bytes}
    (h : s.drop off = segs.flatMap (slash :: ·)) : Regexp.runeWidth (s.drop off) ≤ 1 := by
  rw [h]
  cases segs with
  | nil => exact Nat.zero_le _
  | cons segment segs => exact le_refl 1

/-- The text behind the segments, by what the agent makes of each. -/
theorem SegmentRounds.same (hre : re.Documented) {s : Bytes} (hs : (0 : UInt8) ∉ s) {pos off : ℕ}
    {segs : List Bytes} (h : r.SegmentRounds re s pos off segs) (hne : s ≠ [])
    (hlayout : s.drop off = segs.flatMap (slash :: ·)) (hpos : pos ≤ off) (hend : off ≤ s.length)
    (hwidth : Regexp.runeWidth (s.drop pos) ≤ 1) {fuel : ℕ} (hfuel : s.length-pos < fuel)
    {outs : List (MetricRuleResult × Bytes)}
    (houts : segs.map (replaceFirst re · (r.asMetricRule re).transformedReplacement) = outs) :
    re.replaceAll s (r.asMetricRule re).transformedReplacement fuel pos pos =
        slice s pos off ++ (outs.map Prod.snd).flatMap (slash :: ·) ∧
      (pos < s.length → (re.find s pos).isSome = outs.any fun a => a.1 = .matched) := by
  induction h generalizing fuel outs with
  | @done pos off hfind =>
    obtain ⟨fuel,rfl⟩ := Nat.exists_eq_add_one.mpr (Nat.zero_lt_of_lt hfuel)
    subst houts
    have hall : off = s.length := Nat.le_antisymm hend (List.drop_eq_nil_iff.mp hlayout)
    have hslice : slice s pos off = s.drop pos := by rw [hall,slice,List.take_length]
    rw [hslice]
    refine ⟨?_,fun hlt => by rw [hfind hlt]; rfl⟩
    by_cases hlt : pos < s.length
    · rw [Regexp.replaceAll,if_neg (by omega),hfind hlt]
      simp
    · obtain rfl : pos = s.length := by omega
      rw [Regexp.replaceAll_end hre s _ hne,List.drop_length]
      rfl
  | @skip pos off segment segs hsegment hlater ih =>
    obtain ⟨hslice,hlater',hend'⟩ := segment_layout hlayout
    subst houts
    obtain ⟨hgo,hverdict⟩ := ih hlater' (by omega) hend' hwidth hfuel rfl
    have hfirst : replaceFirst re segment (r.asMetricRule re).transformedReplacement =
        (.unmatched,segment) := by rw [replaceFirst,hsegment]
    rw [List.map_cons,hfirst]
    refine ⟨?_,hverdict⟩
    rw [hgo,← slice_append_slice s hpos (show off ≤ off+1+segment.length by omega),hslice,
      List.append_assoc]
    rfl
  | @next pos off segment segs m m' hsegment hstart hstop hfind hstart' hstop' hrepl hlater ih =>
    obtain ⟨fuel,rfl⟩ := Nat.exists_eq_add_one.mpr (Nat.zero_lt_of_lt hfuel)
    obtain ⟨hslice,hlater',hend'⟩ := segment_layout hlayout
    have hclean : (0 : UInt8) ∉ segment := fun hmem =>
      zero_notMem_slice hs off (off+1+segment.length) (hslice ▸ List.mem_cons_of_mem _ hmem)
    subst houts
    obtain ⟨hgo,-⟩ := ih hlater' le_rfl hend' (runeWidth_segments hlater')
      (show s.length-(off+1+segment.length) < fuel by omega) rfl
    -- what the agent puts in the place of the segment is what the daemon does
    obtain ⟨text,htext,-,-,hexpand⟩ := hrepl.spec (hre.few hsegment) hclean
    have hfirst : replaceFirst re segment (r.asMetricRule re).transformedReplacement =
        (.matched,text) := by
      rcases replaceFirst_segment hre hclean (.of_whole hsegment hstart hstop hrepl) with
        ⟨hnone,-⟩ | ⟨m₂,text₂,hm₂,htext₂,-,hfirst⟩
      · rw [hsegment] at hnone
        cases hnone
      · obtain rfl := Option.some.inj (hsegment.symm.trans hm₂)
        rw [hfirst,Option.some.inj (htext.symm.trans htext₂)]
    rw [List.map_cons,hfirst]
    refine ⟨?_,fun _ => by rw [hfind]; rfl⟩
    rw [Regexp.replaceAll,if_neg (by omega),hfind]
    dsimp only
    rw [hstop',if_pos (.inl (by omega)),if_neg (by omega),if_neg (by omega),hexpand,hgo,hstart']
    have hslash : slice s off (off+1) = [slash] := by
      rw [slice,List.drop_take,Nat.add_sub_cancel_left,hlayout]
      rfl
    rw [← slice_append_slice s hpos (Nat.le_succ off),hslash]
    simp [slice]

/-- The loop over matches of each side. -/
theorem Rounds.same (hre : re.Documented) {s : Bytes} (hs : (0 : UInt8) ∉ s) {pos : ℕ}
    (h : r.Rounds re s pos) (str work repl : Bytes) (changed : Bool) {fuel : ℕ} (hfuel : s.length-pos < fuel) :
    ∃ out fuel', re.replaceAll s (r.asMetricRule re).transformedReplacement fuel pos pos = out ∧
      (0 : UInt8) ∉ out ∧ ∀ need, (need = true ∨ Rule.firstReference r.replacement = false ∧ repl = r.replacement) →
      (r.asRule re).applyAll str fuel' (s.drop pos) work repl need changed =
        some (if changed || (re.find s pos).isSome then .changed else .unchanged,strcpy str (work ++ out)) := by
  induction h generalizing work repl changed fuel with
  | @done pos hpos hfind hrest =>
    obtain ⟨fuel,rfl⟩ := Nat.exists_eq_add_one.mpr (Nat.zero_lt_of_lt hfuel)
    refine ⟨s.drop pos,1,?_,fun hmem => hs (List.mem_of_mem_drop hmem),?_⟩
    · rw [Regexp.replaceAll,if_neg (by omega),hfind]
    · intro need _
      have hregex : (r.asRule re).regex = re := rfl
      simp only [Rule.applyAll,hregex,hrest,hfind]
      simp
  | @next pos m m' hfind hrest hstart hstop hne hwidth hrepl hlater ih =>
    obtain ⟨fuel,rfl⟩ := Nat.exists_eq_add_one.mpr (Nat.zero_lt_of_lt hfuel)
    obtain ⟨hpos,-,hlen⟩ := hre.lies hfind
    obtain ⟨text,htext,-,hzero,hexpand⟩ := hrepl.spec (hre.few hrest)
      fun hmem => hs (List.mem_of_mem_drop hmem)
    obtain ⟨out,fuel',hgo,hclean,hC⟩ := ih (work ++ (s.drop pos).take m'.start ++ text) text true
      (show s.length-m.stop < fuel by omega)
    have hslice : slice s pos m.start = (s.drop pos).take m'.start := by
      rw [slice,List.drop_take,hstart,Nat.add_sub_cancel_left]
    refine ⟨slice s pos m.start ++ text ++ out,fuel'+1,?_,?_,?_⟩
    · rw [Regexp.replaceAll,if_neg (by omega),hfind]
      dsimp only
      rw [if_pos (.inl (by omega)),if_neg (by omega),if_neg (by omega),hexpand,hgo]
    · simp only [List.mem_append,not_or]
      exact ⟨⟨zero_notMem_slice hs _ _,hzero⟩,hclean⟩
    · intro need hneed
      have hregex : (r.asRule re).regex = re := rfl
      have hcaptures : (r.asRule re).hasCaptures = Rule.firstReference r.replacement := rfl
      -- without a reference every replacement is the same
      have hsame : Rule.firstReference r.replacement = false → text = r.replacement := by
        intro hnone
        rw [Rule.replaced,hcaptures,hnone] at htext
        exact (Option.some.inj htext).symm
      have hbuilt : (if need then (r.asRule re).replaced m' (s.drop pos) else some repl) = some text := by
        rcases hneed with rfl | ⟨hnone,rfl⟩
        · rw [if_pos rfl,htext]
        · split_ifs
          · exact htext
          · rw [hsame hnone]
      have hnext : (need && ((r.asRule re).hasAlts || (r.asRule re).hasCaptures)) = true ∨
          Rule.firstReference r.replacement = false ∧ text = r.replacement := by
        cases hfirst : Rule.firstReference r.replacement with
        | false => exact .inr ⟨rfl,hsame hfirst⟩
        | true =>
          have htrue : need = true := hneed.resolve_right fun h => by rw [hfirst] at h; cases h.1
          exact .inl (by rw [htrue,hcaptures,hfirst]; simp)
      rw [Rule.applyAll,hregex,hrest]
      simp only [hbuilt,hfind,Option.isSome_some,Bool.or_true,if_true]
      rw [List.drop_drop,← hstop,hC _ hnext,hslice]
      simp

/-- A rule that only looks for a match. -/
lemma sameOutcome_ignore (hre : re.Documented) (hignore : r.ignore = true) {s str : Bytes}
    (hstr : cstr str = s) (h : ∀ m, re.find s 0 = some m → m.start < m.stop) :
    SameOutcome s ((r.asRule re).applyOnce str) ((r.asMetricRule re).apply s) := by
  have hregex : (r.asRule re).regex = re := rfl
  have hrule : (r.asRule re).ignore = true := hignore
  have hmetric : (r.asMetricRule re).ignore = true := hignore
  have hre' : (r.asMetricRule re).re = re := rfl
  unfold Rule.applyOnce MetricRule.apply Regexp.findString
  simp only [hstr,hregex,hrule,hmetric,hre',if_true]
  cases hfind : re.find s 0 with
  | none => exact .unchanged hstr
  | some m =>
    obtain ⟨-,-,hlen⟩ := hre.lies hfind
    have hlt := h m hfind
    have hne : slice s m.start m.stop ≠ [] := by
      apply List.ne_nil_of_length_pos
      simp only [slice,List.length_drop,List.length_take]
      omega
    rw [if_pos hne]
    exact .ignore

/-- A rule that is alike has the same outcome on both sides. -/
theorem Alike.step (hre : re.Documented) {s str : Bytes} (h : r.Alike re s) (hs : (0 : UInt8) ∉ s)
    (hstr : cstr str = s) :
    ∃ fuel c, (r.asRule re).apply fuel str = some c ∧ SameOutcome s c ((r.asMetricRule re).apply s) := by
  have hrule : (r.asRule re).ignore = r.ignore ∧ (r.asRule re).eachSegment = r.eachSegment ∧
    (r.asRule re).replaceAll = r.replaceAll := ⟨rfl,rfl,rfl⟩
  have hmetric : (r.asMetricRule re).ignore = r.ignore ∧ (r.asMetricRule re).eachSegment = r.eachSegment ∧
    (r.asMetricRule re).replaceAll = r.replaceAll ∧ (r.asMetricRule re).re = re := ⟨rfl,rfl,rfl,rfl⟩
  unfold Alike at h
  unfold Rule.apply
  rw [hrule.1,hrule.2.1,hrule.2.2]
  cases hignore : r.ignore with
  | true =>
    rw [hignore,if_pos rfl] at h
    exact ⟨0,_,if_pos (.inl rfl),sameOutcome_ignore hre hignore hstr h⟩
  | false =>
    rw [hignore,if_neg (by decide)] at h
    unfold MetricRule.apply
    rw [hmetric.1,hmetric.2.1,hmetric.2.2.1,hmetric.2.2.2,hignore,if_neg (by decide)]
    cases heach : r.eachSegment with
    | true =>
      rw [heach,if_pos rfl] at h
      obtain ⟨t,rfl,hsegs⟩ := h
      have ht : (0 : UInt8) ∉ t := fun ht => hs (List.mem_cons_of_mem _ ht)
      refine ⟨0,_,(if_neg (by simp)).trans (if_pos rfl),?_⟩
      cases hall : r.replaceAll with
      | false =>
        rw [hall,if_neg (by decide)] at hsegs
        obtain ⟨hmap,htext⟩ := intercalate_segments hsegs.1 rfl
        rw [if_neg (by decide),if_pos rfl]
        dsimp only
        rw [hmap,List.map_cons,htext]
        exact sameOutcome_segments hre ht hstr hsegs.2 rfl rfl
      | true =>
        rw [hall,if_pos rfl] at hsegs
        obtain ⟨hgo,hverdict⟩ := hsegs.same hre hs (List.cons_ne_nil _ _) (flatMap_splitOn t).symm le_rfl
          (Nat.zero_le _) le_rfl (show (slash :: t).length-0 < (slash :: t).length+1 by omega) rfl
        have hsame := sameOutcome_segments hre ht hstr hsegs.segmentAlike rfl rfl
        rw [if_pos rfl,Regexp.matchString,hverdict (Nat.zero_lt_succ _)]
        cases hmatched : ((t.splitOn slash).map
            (replaceFirst re · (r.asMetricRule re).transformedReplacement)).any fun a => a.1 = .matched with
        | false =>
          rw [hmatched,if_neg (by decide)] at hsame
          rw [if_neg (by decide)]
          rwa [hsame.text_eq] at hsame
        | true =>
          rw [hmatched,if_pos rfl] at hsame
          rw [if_pos rfl,Regexp.replaceAllString,hgo]
          exact hsame
    | false =>
      rw [heach,if_neg (by decide)] at h
      cases hall : r.replaceAll with
      | false =>
        rw [hall,if_neg (by decide)] at h
        refine ⟨0,_,if_pos (.inr ⟨rfl,rfl⟩),?_⟩
        rw [if_neg (by decide),if_neg (by decide)]
        exact sameOutcome_once hre hignore hs hstr h
      | true =>
        rw [hall,if_pos rfl] at h
        obtain ⟨out,fuel,hgo,hclean,happly⟩ := h.same hre hs str [] [] false
          (show s.length-0 < s.length+1 by omega)
        have hC := happly true (.inl rfl)
        rw [List.drop_zero,← hstr] at hC
        refine ⟨fuel,_,(if_neg (by simp)).trans ((if_neg (by decide)).trans hC),?_⟩
        rw [if_pos rfl,Regexp.matchString,Bool.false_or,List.nil_append,hstr]
        cases hfind : re.find s 0 with
        | none =>
          rw [Regexp.replaceAll,if_neg (Nat.not_lt_zero _),hfind] at hgo
          rw [if_neg (by simp),if_neg (by simp),← hgo,List.drop_zero]
          exact .unchanged (cstr_strcpy hs _)
        | some m =>
          rw [if_pos (by rfl),if_pos (by rfl),Regexp.replaceAllString,hgo]
          exact .changed (cstr_strcpy hclean _) hclean

/-! ### The rules -/

section Rules
variable {compile : Bytes → Option Regexp}

/-- Each rule that is reached is alike, and leaves a text that fits the buffer. -/
def Concord (compile : Bytes → Option Regexp) : List GivenRule → Bytes → Prop
  | [], _ => True
  | r :: rules, s => ∀ re ∈ compile r.matchExpr, r.Alike re s ∧
    ∀ result out, (r.asMetricRule re).apply s = (result,out) → out.length < nruleBufSize ∧
      (result ≠ .ignore → (result = .matched → r.terminate = false) → Concord compile rules out)

/-- The same verdict, and the same name. -/
def Agree (name : Bytes) : RulesResult × Option Bytes → MetricRuleResult × Bytes → Prop
  | (.ignore,_), g => g.1 = .ignore
  | (.changed,new), g => g.1 = .matched ∧ new = some g.2
  | (.unchanged,_), g => g = (.unmatched,name)

/-- Both sides accept the rule. -/
def Accepted (compile : Bytes → Option Regexp) (r : GivenRule) : Prop :=
  (r.toRule compile).isSome ∧ (r.toMetricRule compile).isSome

lemma Accepted.spec (h : r.Accepted compile) : ∃ re, compile r.matchExpr = some re ∧
    r.toRule compile = some (r.asRule re) ∧ r.toMetricRule compile = some (r.asMetricRule re) := by
  obtain ⟨hrule,hmetric⟩ := h
  have hexpr : r.matchExpr ≠ [] := by
    intro hnil
    have hmatch : r.toObj.getHashString "match_expression" = some [] := by rw [← hnil]; rfl
    simp [toRule,Rule.process,hmatch] at hrule
  unfold toMetricRule at hmetric ⊢
  cases hre : compile r.matchExpr with
  | none => rw [hre] at hmetric; cases hmetric
  | some re =>
    refine ⟨re,rfl,toRule_eq compile r hre hexpr,?_⟩
    rw [hre,Option.bind_some] at hmetric
    rw [Option.bind_some]
    split_ifs at hmetric ⊢
    · cases hmetric
    · rfl

/-- The run over the rules, from a text that both sides have. -/
theorem Concord.run (hdoc : ∀ e re, compile e = some re → re.Documented) {rules : List GivenRule}
    (haccepted : ∀ r ∈ rules, r.Accepted compile) {name s str : Bytes} (h : Concord compile rules s)
    (hs : (0 : UInt8) ∉ s) (hstr : cstr str = s) {changed : Bool} (hname : changed = false → s = name) :
    ∃ fuel c, Rule.applyFrom fuel (rules.filterMap (toRule compile)) str changed = some c ∧
      Agree name c (MetricRules.applyFrom changed (rules.filterMap (toMetricRule compile)) s) := by
  induction rules generalizing s str changed with
  | nil =>
    refine ⟨0,_,rfl,?_⟩
    cases changed with
    | false => simp [Agree,MetricRules.applyFrom,hname rfl]
    | true => simp [Agree,MetricRules.applyFrom,hstr]
  | cons r rules ih =>
    obtain ⟨re,hre,hrule,hmetric⟩ := (haccepted r List.mem_cons_self).spec
    obtain ⟨halike,hrest⟩ := h re hre
    obtain ⟨fuel,⟨result,str'⟩,happly,hsame⟩ := halike.step (hdoc _ _ hre) hs hstr
    have ih := @ih fun x hx => haccepted x (List.mem_cons_of_mem _ hx)
    rw [List.filterMap_cons_some hrule,List.filterMap_cons_some hmetric]
    rcases hg : (r.asMetricRule re).apply s with ⟨res,out⟩
    have hnext := (hrest _ _ hg).2
    rw [hg] at hsame
    cases hsame with
    | ignore =>
      refine ⟨fuel,(.ignore,none),by simp only [Rule.applyFrom,happly],?_⟩
      simp [Agree,MetricRules.applyFrom,hg]
    | changed hout hzero =>
      have hterminate : (r.asRule re).terminate = r.terminate := rfl
      have hterminate' : (r.asMetricRule re).terminate = r.terminate := rfl
      cases hstop : r.terminate with
      | true =>
        refine ⟨fuel,(.changed,some (cstr str')),by simp [Rule.applyFrom,happly,hterminate,hstop],?_⟩
        simp [Agree,MetricRules.applyFrom,hg,hterminate',hstop,hout]
      | false =>
        obtain ⟨fuel',c,hc,hagree⟩ := ih (hnext (by simp) fun _ => hstop) hzero hout
          (fun hfalse : true = false => absurd hfalse (by decide))
        refine ⟨max fuel fuel',c,?_,?_⟩
        · rw [Rule.applyFrom,Rule.apply_mono (Nat.le_max_left _ _) happly]
          simp only [hterminate,hstop]
          exact Rule.applyFrom_mono (Nat.le_max_right _ _) hc
        · simpa only [MetricRules.applyFrom,hg,hterminate',hstop,Bool.false_eq_true,if_false] using hagree
    | unchanged hout =>
      obtain ⟨fuel',c,hc,hagree⟩ := ih (hnext (by simp) (by simp)) hs hout hname
      refine ⟨max fuel fuel',c,?_,?_⟩
      · rw [Rule.applyFrom,Rule.apply_mono (Nat.le_max_left _ _) happly]
        exact Rule.applyFrom_mono (Nat.le_max_right _ _) hc
      · simpa only [MetricRules.applyFrom,hg] using hagree

/-! ### The order of the rules -/

/-- Both sides apply one rule before another one. -/
def Before (a b : GivenRule) : Prop := a.agentOrder < b.agentOrder ∧ a.daemonOrder < b.daemonOrder

/-- No two rules are of one order, and an order is left out only where that puts the rule in the same
place on both sides. -/
def Ordered (rules : List GivenRule) : Prop := rules.Pairwise fun a b => Before a b ∨ Before b a

end Rules

/-! ### Rules over `x+` -/

end GivenRule
end PhpAgent
