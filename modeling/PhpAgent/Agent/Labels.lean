import PhpAgent.Agent.SegmentTerms
import PhpAgent.Lib.Trim

/-! The labels of an application, after `util_labels.c`. Lengths, `int`s of the source, are numbers here. -/
namespace PhpAgent
namespace Labels

open Json (code)
open Trim

/-- `NR_LABEL_PAIR_LIMIT`. -/
def pairLimit : ℕ := 64

/-- `NR_LABEL_KEY_LENGTH_MAX`. -/
def keyLengthMax : ℕ := 255

/-- `NR_LABEL_VALUE_LENGTH_MAX`. -/
def valueLengthMax : ℕ := 255

/-- `nr_labels_get_whitespace_prefix_len`. -/
def whitespacePrefixLen (input : Bytes) : ℕ := (input.takeWhile isspace).length

/-- `nr_labels_get_whitespace_suffix_len`. -/
def whitespaceSuffixLen (input : Bytes) (lenToTest : ℕ) : ℕ :=
  if input = [] ∨ lenToTest = 0 then 0
  else ((input.take lenToTest).reverse.takeWhile isspace).length

/-- The start of `raw` without blanks, printed to a buffer for `max` bytes; nothing when there are only
blanks or none left to count. -/
def printTrimmed (max : ℕ) (raw : Bytes) (rawLen : ℕ) : Option Bytes :=
  let prefixLen := whitespacePrefixLen raw
  let trimmedLen : ℤ := rawLen-prefixLen-whitespaceSuffixLen raw rawLen
  if trimmedLen ≤ 0 then none
  else some (((raw.drop prefixLen).take trimmedLen.toNat).take max)

/-- One pair of `nr_labels_parse_internal`. -/
def parsePair (pair : Bytes) : Option (Bytes × Bytes) :=
  if code ':' ∉ pair then none
  else do
    let colon := pair.idxOf (code ':')
    let key ← printTrimmed keyLengthMax pair colon
    if code ':' ∈ key then none
    else
      let raw := pair.drop (colon+1)
      let value ← printTrimmed valueLengthMax raw raw.length
      if code ':' ∈ value then none else some (key,value)

/-- The loop of `nr_labels_parse_internal`, which gives up at a pair that does not parse. -/
def addPairs (labels : NrHash) (pairs : List Bytes) : Option NrHash :=
  pairs.foldlM (fun labels pair => do
    let (key,value) ← parsePair pair
    return labels.set key (.string value)) labels

/-- `nr_labels_parse_internal`. -/
def parseInternal (str : Bytes) : Option NrHash :=
  if str = [] then none else addPairs [] ((strsplitEmpty str (code ';')).take pairLimit)

/-- What is stripped from the ends of the text. -/
def isSurrounding (c : UInt8) : Bool := c == code ';' || isspace c

/-- `nr_labels_strip_surrounding_semicolons_whitespace`. -/
def stripSurrounding (str : Bytes) : Bytes := (str.dropWhile isSurrounding).rdropWhile isSurrounding

/-- `nr_labels_parse`; NULL is `none`. -/
def parse (str : Option Bytes) : Option NrHash := str.bind fun str => parseInternal (stripSurrounding str)

/-! ### What labels are -/

/-- The text before the first colon of a pair, and the text behind it, without blanks. -/
def keyText (pair : Bytes) : Bytes := strip (pair.takeWhile (· ≠ code ':'))
def valueText (pair : Bytes) : Bytes := strip ((pair.dropWhile (· ≠ code ':')).drop 1)

/-- A key and a value around one colon. -/
structure IsLabel (pair : Bytes) : Prop where
  colon : pair.count (code ':') = 1
  key : keyText pair ≠ []
  value : valueText pair ≠ []

/-- The pairs that count. -/
def firstPairs (str : Bytes) : List Bytes := ((stripSurrounding str).splitOn (code ';')).take pairLimit

/-- The value of the last pair with a key, both cut to their lengths. -/
def lastValue (pairs : List Bytes) (key : Bytes) : Option Bytes :=
  (pairs.filter fun pair => (keyText pair).take keyLengthMax = key).getLast?.map fun pair =>
    (valueText pair).take valueLengthMax

/-- The text is parsed exactly when it has labels, to the last values of their keys and nothing
else. -/
structure ParsesLabels (str : Bytes) : Prop where
  succeeds : (parse (some str)).isSome ↔
    stripSurrounding str ≠ [] ∧ ∀ pair ∈ firstPairs str, IsLabel pair
  maps : ∀ labels, parse (some str) = some labels →
    ∀ key, labels.get? key = (lastValue (firstPairs str) key).map .string

/-! ### One pair -/

lemma strip_eq_trim (b : Bytes) : strip b = trim isspace b := rfl

/-- A text that is followed by something else than a blank is printed without its blanks. -/
theorem printTrimmed_append (max : ℕ) (text rest : Bytes)
    (hrest : rest.takeWhile isspace = []) :
    printTrimmed max (text ++ rest) text.length =
      if strip text = [] then none else some ((strip text).take max) := by
  have hinitial : whitespacePrefixLen (text ++ rest) = (text.takeWhile isspace).length := by
    rw [whitespacePrefixLen,List.takeWhile_append,hrest]
    split_ifs with hall
    · rw [List.append_nil,hall]
    · rfl
  have hsuffix : whitespaceSuffixLen (text ++ rest) text.length =
      (text.reverse.takeWhile isspace).length := by
    unfold whitespaceSuffixLen
    split_ifs with hempty
    · have hnil : text = [] := by
        rcases hempty with h | h
        · exact (List.append_eq_nil_iff.mp h).1
        · exact List.length_eq_zero_iff.mp h
      rw [hnil]
      rfl
    · rw [List.take_left]
  unfold printTrimmed
  dsimp only
  rw [hinitial,hsuffix]
  split_ifs with hlength hstrip hstrip
  · rfl
  · -- What is left has a length.
    have hcount := (drop_take_eq_trim (p := isspace) (l := text) hstrip).1
    have hpos := List.length_pos_of_ne_nil hstrip
    rw [strip_eq_trim] at hpos
    omega
  · have hcount := length_takeWhile_of_trim_eq_nil (p := isspace) (l := text) hstrip
    omega
  · obtain ⟨hcount,htake⟩ := drop_take_eq_trim (p := isspace) (l := text) hstrip
    have hn : ((text.length : ℤ)-(text.takeWhile isspace).length-
        (text.reverse.takeWhile isspace).length).toNat = (trim isspace text).length := by
      omega
    rw [hn,List.drop_append_of_le_length (by omega),
      List.take_append_of_le_length (by rw [List.length_drop]; omega),htake,strip_eq_trim]

lemma isspace_colon : isspace (code ':') = false := by decide

lemma keyText_append {k : Bytes} (hk : code ':' ∉ k) (v : Bytes) :
    keyText (k ++ code ':' :: v) = strip k := by
  have hpos : ∀ c ∈ k, decide (c ≠ code ':') = true := fun c hc =>
    decide_eq_true fun heq => hk (heq ▸ hc)
  rw [keyText,List.takeWhile_append_of_pos hpos]
  simp

lemma valueText_append {k : Bytes} (hk : code ':' ∉ k) (v : Bytes) :
    valueText (k ++ code ':' :: v) = strip v := by
  have hpos : ∀ c ∈ k, decide (c ≠ code ':') = true := fun c hc =>
    decide_eq_true fun heq => hk (heq ▸ hc)
  rw [valueText,List.dropWhile_append_of_pos hpos]
  simp

/-- What the parser takes for a label: of a long value it only looks at the start for another
colon. -/
structure Accepted (pair : Bytes) : Prop where
  colon : code ':' ∈ pair
  key : keyText pair ≠ []
  value : valueText pair ≠ []
  single : code ':' ∉ (valueText pair).take valueLengthMax

lemma mem_of_mem_take_strip {c : UInt8} {n : ℕ} {b : Bytes} (h : c ∈ (strip b).take n) : c ∈ b := by
  obtain ⟨x,y,-,-,hb⟩ := exists_trim isspace b
  rw [hb]
  exact List.mem_append_left _ (List.mem_append_right _ (List.mem_of_mem_take h))

/-- A pair is taken apart at its first colon. -/
theorem parsePair_append {k : Bytes} (hk : code ':' ∉ k) (v : Bytes) :
    parsePair (k ++ code ':' :: v) =
      if strip k = [] ∨ strip v = [] ∨ code ':' ∈ (strip v).take valueLengthMax then none
      else some ((strip k).take keyLengthMax,(strip v).take valueLengthMax) := by
  have hidx : (k ++ code ':' :: v).idxOf (code ':') = k.length := by
    rw [List.idxOf_append_of_notMem hk,List.idxOf_cons_self,add_zero]
  have hdrop : (k ++ code ':' :: v).drop (k.length+1) = v := by
    rw [← List.singleton_append,← List.append_assoc,List.drop_left' (by simp)]
  have hfirst := printTrimmed_append keyLengthMax k (code ':' :: v) (by simp [isspace_colon])
  have hsecond := printTrimmed_append valueLengthMax v [] rfl
  rw [List.append_nil] at hsecond
  unfold parsePair
  rw [if_neg (by simp)]
  simp only [hidx,hdrop,hfirst,hsecond]
  by_cases hkey : strip k = []
  · simp [hkey]
  have hclean : code ':' ∉ (strip k).take keyLengthMax := fun hmem => hk (mem_of_mem_take_strip hmem)
  simp only [if_neg hkey,Option.bind_eq_bind,Option.bind_some,if_neg hclean]
  by_cases hvalue : strip v = []
  · simp [hvalue]
  simp only [hkey,hvalue,if_false,Option.bind_some,false_or]

variable {pair : Bytes}

/-- An accepted pair gives its key and its value, each cut to its length. -/
theorem parsePair_of_accepted (h : Accepted pair) :
    parsePair pair = some ((keyText pair).take keyLengthMax,(valueText pair).take valueLengthMax) := by
  obtain ⟨hcolon,hkey,hvalue,hsingle⟩ := h
  obtain ⟨k,v,rfl,hk⟩ := List.eq_append_cons_of_mem hcolon
  rw [keyText_append hk] at hkey ⊢
  rw [valueText_append hk] at hvalue hsingle ⊢
  rw [parsePair_append hk,if_neg]
  rintro (h | h | h)
  · exact hkey h
  · exact hvalue h
  · exact hsingle h

/-- Any other pair is refused. -/
theorem parsePair_of_not_accepted (h : ¬Accepted pair) : parsePair pair = none := by
  by_cases hcolon : code ':' ∈ pair
  · obtain ⟨k,v,rfl,hk⟩ := List.eq_append_cons_of_mem hcolon
    rw [parsePair_append hk,if_pos]
    by_contra hnot
    rw [not_or,not_or] at hnot
    apply h
    refine ⟨hcolon,?_,?_,?_⟩
    · rw [keyText_append hk]
      exact hnot.1
    · rw [valueText_append hk]
      exact hnot.2.1
    · rw [valueText_append hk]
      exact hnot.2.2
  · rw [parsePair,if_pos hcolon]

/-- Blanks around a pair do not matter. -/
theorem texts_strip (pair : Bytes) :
    keyText (strip pair) = keyText pair ∧ valueText (strip pair) = valueText pair ∨
      code ':' ∉ pair := by
  by_cases hcolon : code ':' ∈ pair
  · obtain ⟨x,y,hx,hy,hpair⟩ := exists_trim isspace pair
    have hin : code ':' ∈ strip pair := (mem_trim_iff isspace_colon).mpr hcolon
    obtain ⟨k,v,hsplit,hk⟩ := List.eq_append_cons_of_mem hin
    have hx' : code ':' ∉ x := fun hmem => by
      have := hx _ hmem
      rw [isspace_colon] at this
      cases this
    have hwhole : pair = (x ++ k) ++ code ':' :: (v ++ y) := by
      rw [← strip_eq_trim,hsplit] at hpair
      rw [hpair]
      simp
    have hxk : code ':' ∉ x ++ k := by simp [hx',hk]
    refine .inl ⟨?_,?_⟩
    · rw [hsplit,keyText_append hk,hwhole,keyText_append hxk,strip_eq_trim,strip_eq_trim,
        trim_append_left hx]
    · rw [hsplit,valueText_append hk,hwhole,valueText_append hxk,strip_eq_trim,strip_eq_trim,
        trim_append_right hy]
  · exact .inr hcolon

lemma accepted_strip (pair : Bytes) : Accepted (strip pair) ↔ Accepted pair := by
  have hmem : code ':' ∈ strip pair ↔ code ':' ∈ pair := mem_trim_iff isspace_colon
  rcases texts_strip pair with ⟨hkey,hvalue⟩ | hcolon
  · constructor
    · rintro ⟨h₁,h₂,h₃,h₄⟩
      exact ⟨hmem.mp h₁,hkey ▸ h₂,hvalue ▸ h₃,hvalue ▸ h₄⟩
    · rintro ⟨h₁,h₂,h₃,h₄⟩
      exact ⟨hmem.mpr h₁,hkey.symm ▸ h₂,hvalue.symm ▸ h₃,hvalue.symm ▸ h₄⟩
  · constructor
    · exact fun h => absurd (hmem.mp h.colon) hcolon
    · exact fun h => absurd h.colon hcolon

/-- The label of a pair, cut to its lengths. -/
def label (pair : Bytes) : Bytes × NrObj :=
  ((keyText pair).take keyLengthMax,.string ((valueText pair).take valueLengthMax))

lemma parsePair_strip (h : Accepted pair) : parsePair (strip pair) =
      some ((keyText pair).take keyLengthMax,(valueText pair).take valueLengthMax) := by
  rw [parsePair_of_accepted ((accepted_strip pair).mpr h)]
  obtain ⟨hkey,hvalue⟩ := (texts_strip pair).resolve_right (not_not.mpr h.colon)
  rw [hkey,hvalue]

/-! ### All pairs -/

variable {pairs : List Bytes}

/-- Accepted pairs are added one after the other. -/
theorem addPairs_of_accepted (h : ∀ pair ∈ pairs, Accepted pair) (labels : NrHash) :
    addPairs labels (pairs.map strip) =
      some (pairs.foldl (fun labels pair => labels.set (label pair).1 (label pair).2) labels) := by
  induction pairs generalizing labels with
  | nil => rfl
  | cons pair pairs ih =>
    have hrest := ih (fun p hp => h p (List.mem_cons_of_mem _ hp))
      (labels.set (label pair).1 (label pair).2)
    rw [List.foldl_cons,← hrest]
    unfold addPairs
    rw [List.map_cons,List.foldlM_cons,parsePair_strip (h pair List.mem_cons_self)]
    rfl

/-- One pair that is not accepted spoils all. -/
theorem addPairs_of_not_accepted (hmem : pair ∈ pairs)
    (h : ¬Accepted pair) (labels : NrHash) : addPairs labels (pairs.map strip) = none := by
  induction pairs generalizing labels with
  | nil => cases hmem
  | cons p pairs ih =>
    unfold addPairs at ih ⊢
    rw [List.map_cons,List.foldlM_cons]
    by_cases hp : Accepted p
    · have hrest : pair ∈ pairs := by
        rcases List.mem_cons.mp hmem with rfl | hrest
        · exact absurd hp h
        · exact hrest
      rw [parsePair_strip hp]
      exact ih hrest _
    · rw [parsePair_of_not_accepted (fun hs => hp ((accepted_strip p).mp hs))]
      rfl

lemma lastValue_concat (pairs : List Bytes) (pair key : Bytes) :
    lastValue (pairs ++ [pair]) key =
      if (keyText pair).take keyLengthMax = key then some ((valueText pair).take valueLengthMax)
      else lastValue pairs key := by
  unfold lastValue
  rw [List.filter_append]
  split_ifs with hkey
  · simp [hkey]
  · simp [hkey]

/-- Each key ends up with the value of its last pair. -/
theorem get?_foldl_set (h : ∀ pair ∈ pairs, Accepted pair) (key : Bytes) :
    NrHash.get? (pairs.foldl (fun labels pair => labels.set (label pair).1 (label pair).2) []) key =
      (lastValue pairs key).map .string := by
  induction pairs using List.reverseRecOn with
  | nil => rfl
  | append_singleton pairs pair ih =>
    have hrest := ih fun p hp => h p (List.mem_append_left _ hp)
    have hne : (label pair).1 ≠ [] := by
      have hkey := (h pair (by simp)).key
      simp [label,hkey,keyLengthMax]
    rw [List.foldl_append,List.foldl_cons,List.foldl_nil,lastValue_concat]
    split_ifs with hkey
    · subst hkey
      exact NrHash.get?_set_self hne _ _
    · have hother : key ≠ (label pair).1 := fun heq => hkey heq.symm
      rw [NrHash.get?_set_ne hother,hrest]

/-! ### The whole text -/

/-- A label is a pair that is accepted and has no other colon in its value. -/
theorem isLabel_iff (pair : Bytes) : IsLabel pair ↔ Accepted pair ∧ code ':' ∉ valueText pair := by
  by_cases hcolon : code ':' ∈ pair
  · obtain ⟨k,v,rfl,hk⟩ := List.eq_append_cons_of_mem hcolon
    have hcount : (k ++ code ':' :: v).count (code ':') = 1 ↔
        code ':' ∉ valueText (k ++ code ':' :: v) := by
      rw [List.count_append,List.count_cons_self,List.count_eq_zero.mpr hk,valueText_append hk,
        strip_eq_trim,mem_trim_iff isspace_colon,← List.count_eq_zero]
      omega
    constructor
    · rintro ⟨hone,hkey,hvalue⟩
      have hclean := hcount.mp hone
      exact ⟨⟨hcolon,hkey,hvalue,fun hmem => hclean (List.mem_of_mem_take hmem)⟩,hclean⟩
    · rintro ⟨⟨-,hkey,hvalue,-⟩,hclean⟩
      exact ⟨hcount.mpr hclean,hkey,hvalue⟩
  · constructor
    · intro h
      have hcount := h.colon
      rw [List.count_eq_zero.mpr hcolon] at hcount
      cases hcount
    · exact fun h => absurd h.1.colon hcolon

lemma not_accepted_nil : ¬Accepted [] := fun h => by simpa using h.colon

/-- The text that is parsed is empty only when its one pair is. -/
theorem stripSurrounding_ne_nil {str : Bytes} (h : ∀ pair ∈ firstPairs str, Accepted pair) :
    stripSurrounding str ≠ [] := by
  intro hempty
  apply not_accepted_nil
  apply h
  simp [firstPairs,hempty,pairLimit]

lemma parse_eq (str : Bytes) (hne : stripSurrounding str ≠ []) :
    parse (some str) = addPairs [] ((firstPairs str).map strip) := by
  rw [parse,Option.bind_some,parseInternal,if_neg hne,strsplitEmpty,if_neg hne,← List.map_take,
    firstPairs]

/-- The text is parsed exactly when each of the first pairs is accepted. -/
theorem parse_isSome_iff (str : Bytes) :
    (parse (some str)).isSome ↔ ∀ pair ∈ firstPairs str, Accepted pair := by
  constructor
  · intro h pair hmem
    by_contra hnot
    by_cases hne : stripSurrounding str = []
    · rw [parse,Option.bind_some,parseInternal,if_pos hne] at h
      cases h
    · rw [parse_eq str hne,addPairs_of_not_accepted hmem hnot] at h
      cases h
  · intro h
    rw [parse_eq str (stripSurrounding_ne_nil h),addPairs_of_accepted h]
    rfl

/-- What is parsed maps each key to its last value. -/
theorem get?_of_parse {str : Bytes} {labels : NrHash} (h : parse (some str) = some labels)
    (key : Bytes) : labels.get? key = (lastValue (firstPairs str) key).map .string := by
  have hall : ∀ pair ∈ firstPairs str, Accepted pair := by
    rw [← parse_isSome_iff,h]
    rfl
  rw [parse_eq str (stripSurrounding_ne_nil hall),addPairs_of_accepted hall] at h
  rw [← Option.some.inj h]
  exact get?_foldl_set hall key

/-- Labels are parsed as they should be exactly when a text whose first 64 pairs are all accepted has
no colon in a value, which can only be one behind the first 255 bytes. -/
theorem parsesLabels_iff (str : Bytes) :
    ParsesLabels str ↔
      ((∀ pair ∈ firstPairs str, Accepted pair) →
        ∀ pair ∈ firstPairs str, code ':' ∉ valueText pair) := by
  constructor
  · intro h hall pair hmem
    have hlabels := (h.succeeds.mp ((parse_isSome_iff str).mpr hall)).2
    exact ((isLabel_iff pair).mp (hlabels pair hmem)).2
  · intro h
    refine ⟨?_,fun labels hparse => get?_of_parse hparse⟩
    rw [parse_isSome_iff]
    constructor
    · intro hall
      exact ⟨stripSurrounding_ne_nil hall,fun pair hmem =>
        (isLabel_iff pair).mpr ⟨hall pair hmem,h hall pair hmem⟩⟩
    · exact fun hlabels pair hmem => ((isLabel_iff pair).mp (hlabels.2 pair hmem)).1

/-- A colon behind the first 255 bytes of a value is not noticed. -/
theorem not_parsesLabels : ¬∀ str : Bytes, ParsesLabels str := by
  intro h
  have hparse := (h (ascii "a:" ++ List.replicate 255 (code 'x') ++ ascii ":y")).succeeds.mp
    (by decide +kernel)
  have hpairs : firstPairs (ascii "a:" ++ List.replicate 255 (code 'x') ++ ascii ":y") =
      [ascii "a:" ++ List.replicate 255 (code 'x') ++ ascii ":y"] := by
    decide +kernel
  rw [hpairs] at hparse
  have hcount := (hparse.2 _ List.mem_cons_self).colon
  exact absurd hcount (by decide +kernel)

/-! ### For the collector -/

/-- The entries that `nro_iteratehash` goes over. -/
def hashEntries : NrObj → NrHash
  | .hash entries => entries
  | _ => []

/-- `nr_labels_connector_format`, with `nr_labels_connector_format_iterator` for each entry. -/
def connectorFormat (object : Option NrObj) : NrObj :=
  .array ((object.elim [] hashEntries).map fun e =>
    .hash (NrHash.setString (NrHash.setString [] "label_type" (some e.1)) "label_value" e.2.getString))

end Labels
end PhpAgent
