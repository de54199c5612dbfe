import PhpAgent.Agent.AppInfo
import PhpAgent.Util.SqlTable

/-! The browser monitoring of pages, after `nr_rum.c`. A place in the output is its distance from the
start. -/
namespace PhpAgent

open Json (code)

namespace Rum

/-! ### The places -/

def xUaCompatibleRegex : Bytes :=
  ascii "<\\s*meta[^>]+http-equiv\\s*=\\s*['\"]x-ua-compatible['\"][^>]*>"

def charsetRegex : Bytes := ascii "<\\s*meta[^>]+charset\\s*=[^>]*>"
def headOpenRegex : Bytes := ascii "<head(\\s+[^>]*>|>)"
def bodyOpenRegex : Bytes := ascii "<body[\\s>]"

/-- `nr_rum_regex_search`: the start and the end of the match of a pattern, without regard to case. The
regex library is a parameter. -/
abbrev Search : Type := Bytes → Bytes → Option (ℕ × ℕ)

/-- A match lies in its subject. -/
def Search.Inside (search : Search) : Prop :=
  ∀ regex input first last, search regex input = some (first,last) → first ≤ last ∧ last ≤ input.length

/-- `nr_rum_scan_html_for_head`. -/
def scanHtmlForHead (search : Search) (input : Bytes) : Option ℕ :=
  if input.length < 6 then none
  else
    let xUaTagEnd := (search xUaCompatibleRegex input).map Prod.snd
    let charsetTagEnd := (search charsetRegex input).map Prod.snd
    match xUaTagEnd, charsetTagEnd with
    | some x, some c => some (if x > c then x else c)
    | some x, none => some x
    | none, some c => some c
    | none, none =>
      match (search headOpenRegex input).map Prod.snd with
      | some matchEnd => some matchEnd
      | none => (search bodyOpenRegex input).map Prod.fst

/-- `strncasecmp` finds the needle at a place. -/
def matchesAt (str needle : Bytes) (i : ℕ) : Bool :=
  (needle.map tolower).isPrefixOf ((str.drop i).map tolower)

/-- The loop of `nr_strncaseidx_last_match`, from a place down to the start. -/
def lastMatchFrom (str needle : Bytes) : ℕ → Option ℕ
  | 0 => if matchesAt str needle 0 then some 0 else none
  | i+1 => if matchesAt str needle (i+1) then some (i+1) else lastMatchFrom str needle i

/-- `nr_strncaseidx_last_match`, on all of a string. -/
def strncaseidxLastMatch (str needle : Bytes) : Option ℕ :=
  let str := str.takeWhile (· ≠ 0)
  if needle.length = 0 ∨ needle.length > str.length then none
  else lastMatchFrom str needle (str.length-needle.length)

/-- `nr_rum_scan_html_for_foot`. -/
def scanHtmlForFoot (input : Bytes) : Option ℕ := strncaseidxLastMatch input (ascii "</body>")

/-! ### The output handler -/

/-- `nr_rum_control_block_t`, with what its functions produce for the transaction. -/
structure ControlBlock where
  produceHeader : Option Bytes
  produceFooter : Option Bytes

/-- The part of a transaction that is read. -/
structure Txn where
  autorumEnabled : ℤ
  ignore : ℤ
  rumHeader : ℤ
  rumFooter : ℤ

/-- `nr_memcpy` to the end of what was written. Without a result it reads or writes outside. -/
def memcpy (room : ℕ) (out src : Bytes) (n : ℕ) : Option Bytes :=
  if n ≤ src.length ∧ out.length+n ≤ room then some (out ++ src.take n) else none

/-- `malloc_worker`: the bytes of the buffer. A negative size gets none. -/
def mallocWorker (size : ℤ) : Option ℕ := if size < 0 then none else some size.toNat

/-- The series of copies into the buffer. -/
def copies (room : ℕ) (output rumHeader rumFooter : Bytes) (head tail : Option ℕ)
    (bytesUpToHead headerLen bytesAfterHead bytesUpToTail footerLen bytesAfterTail bytesBetween : ℕ) :
    Option Bytes :=
  match head, tail with
  | some head, some tail => do
    let out ← memcpy room [] output bytesUpToHead
    let out ← memcpy room out rumHeader headerLen
    let out ← memcpy room out (output.drop head) bytesBetween
    let out ← memcpy room out rumFooter footerLen
    memcpy room out (output.drop tail) bytesAfterTail
  | some head, none => do
    let out ← memcpy room [] output bytesUpToHead
    let out ← memcpy room out rumHeader headerLen
    memcpy room out (output.drop head) bytesAfterHead
  | none, tail => do
    let out ← memcpy room [] output bytesUpToTail
    let out ← memcpy room out rumFooter footerLen
    memcpy room out (output.drop (tail.getD 0)) bytesAfterTail

/-- The handled output: the buffer, the copies with the numbers of bytes, and the final NUL. -/
def assemble (output rumHeader rumFooter : Bytes) (head tail : Option ℕ) (headerLen footerLen : ℤ)
    (finalLen : ℕ) : Option Bytes := do
  let room ← mallocWorker (toInt (finalLen+1))
  let out ← copies room output rumHeader rumFooter head tail (toUint (head.getD 0)) (toUint64 headerLen)
    (toUint (output.length-toUint (head.getD 0))) (toUint (tail.getD 0)) (toUint64 footerLen)
    (toUint (output.length-toUint (tail.getD 0))) (toUint (toUint (tail.getD 0)-toUint (head.getD 0)))
  if out.length < room then some out else none

/-- The header and its place, which counts only together with the header. -/
def findHeader (search : Search) (controlBlock : ControlBlock) (doneHead : ℤ) (output : Bytes) :
    Option (ℕ × Bytes) :=
  if doneHead = 0 then
    (scanHtmlForHead search output).bind fun head => controlBlock.produceHeader.map fun h => (head,h)
  else none

/-- The footer and its place; a place before that of the header does not count. -/
def findFooter (controlBlock : ControlBlock) (doneHead doneFoot : ℤ) (header : Option (ℕ × Bytes))
    (output : Bytes) : Option (ℕ × Bytes) :=
  if (doneHead ≠ 0 ∨ header.isSome) ∧ doneFoot = 0 then
    (scanHtmlForFoot output).bind fun tail =>
      if header.any fun x => tail < x.1 then none
      else controlBlock.produceFooter.map fun f => (tail,f)
  else none

/-- From the check of the mime type on: the handled output and its length, if there is one. -/
def instrument (search : Search) (controlBlock : ControlBlock) (txn : Txn) (output : Bytes) :
    Option (Option (Bytes × ℕ)) :=
  let doneHead := txn.rumHeader
  let doneFoot := txn.rumFooter
  if doneHead ≠ 0 ∧ doneFoot ≠ 0 then some none
  else if output.length < 6 then some none
  else
    let header := findHeader search controlBlock doneHead output
    let footer := findFooter controlBlock doneHead doneFoot header output
    let headerLen := (header.map fun x => strlen x.2).getD 0
    let footerLen := (footer.map fun x => strlen x.2).getD 0
    let finalLen := toUint64 (toUint64 (output.length+headerLen)+footerLen)
    if finalLen ≠ output.length then do
      let out ← assemble output ((header.map Prod.snd).getD []) ((footer.map Prod.snd).getD [])
        (header.map Prod.fst) (footer.map Prod.fst) headerLen footerLen finalLen
      return some (out,finalLen)
    else some none

/-- `nr_rum_output_handler_worker`, called with places for its results. The outer option is none when
memory outside is touched or there is no buffer, the inner one when there is no handled output. -/
def outputHandlerWorker (search : Search) (controlBlock : Option ControlBlock) (txn : Option Txn)
    (output : Bytes) (hasResponseContentLength : ℤ) (mimetype : Option Bytes) :
    Option (Option (Bytes × ℕ)) :=
  match controlBlock, txn with
  | some controlBlock, some txn =>
    if txn.autorumEnabled = 0 then some none
    else if txn.ignore ≠ 0 then some none
    else if hasResponseContentLength ≠ 0 then some none
    else if output.length = 0 then some none
    else
      match mimetype with
      | none => some none
      | some mimetype =>
        let isHtml := (ascii "text/html").isPrefixOf (mimetype.map tolower)
        if isHtml then instrument search controlBlock txn output else some none
  | _, _ => some none

/-! ### What is inserted -/

/-- The output with texts at places of it, the header in front. -/
def insertTexts (output : Bytes) : Option (ℕ × Bytes) → Option (ℕ × Bytes) → Bytes
  | some (i,h), some (j,f) => output.take i ++ h ++ (output.drop i).take (j-i) ++ f ++ output.drop j
  | some (i,h), none => output.take i ++ h ++ output.drop i
  | none, some (j,f) => output.take j ++ f ++ output.drop j
  | none, none => output

def cut (b : Bytes) (pos len : ℕ) : Bytes := b.take pos ++ b.drop (pos+len)

/-- The inserted texts taken out again, the footer first. -/
def removeTexts (handled : Bytes) (header footer : Option (ℕ × Bytes)) : Bytes :=
  let shift := (header.map fun x => x.2.length).getD 0
  let handled := match footer with
    | some (j,f) => cut handled (j+shift) f.length
    | none => handled
  match header with
  | some (i,h) => cut handled i h.length
  | none => handled

/-- Texts that are produced, at places in the output: the header not behind the footer, and no footer
without a header now or earlier. -/
structure Placed (output : Bytes) (controlBlock : ControlBlock) (txn : Txn)
    (header footer : Option (ℕ × Bytes)) : Prop where
  headerAt : ∀ x ∈ header, controlBlock.produceHeader = some x.2 ∧ x.1 ≤ output.length
  footerAt : ∀ y ∈ footer, controlBlock.produceFooter = some y.2 ∧ y.1 ≤ output.length
  order : ∀ x ∈ header, ∀ y ∈ footer, x.1 ≤ y.1
  needed : footer.isSome → header.isSome ∨ txn.rumHeader ≠ 0

/-- A handled output that differs from the output by inserted texts only. -/
structure OnlyInserts (output : Bytes) (controlBlock : ControlBlock) (txn : Txn) (handled : Bytes)
    (len : ℕ) : Prop where
  length : handled.length = len
  inserted : ∃ header footer, Placed output controlBlock txn header footer ∧
    (header.isSome ∨ footer.isSome) ∧ handled = insertTexts output header footer ∧
    removeTexts handled header footer = output

lemma cut_insert (a h b : Bytes) : cut (a ++ h ++ b) a.length h.length = a ++ b := by
  rw [cut,List.append_assoc,List.take_left,← List.append_assoc,← List.length_append,List.drop_left]

variable {controlBlock : ControlBlock} {header footer : Option (ℕ × Bytes)} {output : Bytes} {txn : Txn}

lemma removeTexts_insertTexts (h : Placed output controlBlock txn header footer) :
    removeTexts (insertTexts output header footer) header footer = output := by
  cases hheader : header with
  | none =>
    cases hfooter : footer with
    | none => rfl
    | some y =>
      obtain ⟨j,f⟩ := y
      have hj : j ≤ output.length := (h.footerAt _ hfooter).2
      have hcut := cut_insert (output.take j) f (output.drop j)
      rw [List.length_take_of_le hj,List.take_append_drop] at hcut
      exact hcut
  | some x =>
    obtain ⟨i,header⟩ := x
    have hi : i ≤ output.length := (h.headerAt _ hheader).2
    have hcut := cut_insert (output.take i) header (output.drop i)
    rw [List.length_take_of_le hi,List.take_append_drop] at hcut
    cases hfooter : footer with
    | none => exact hcut
    | some y =>
      obtain ⟨j,f⟩ := y
      have hj : j ≤ output.length := (h.footerAt _ hfooter).2
      have hij : i ≤ j := h.order _ hheader _ hfooter
      have hmiddle : (output.drop i).take (j-i) ++ output.drop j = output.drop i := by
        conv_rhs => rw [← List.take_append_drop (j-i) (output.drop i),List.drop_drop]
        rw [Nat.add_sub_cancel' hij]
      have hlen : (output.take i ++ header ++ (output.drop i).take (j-i)).length = j+header.length := by
        simp only [List.length_append,List.length_take,List.length_drop]
        omega
      have hfoot := cut_insert (output.take i ++ header ++ (output.drop i).take (j-i)) f (output.drop j)
      have hjoin : output.take i ++ header ++ (output.drop i).take (j-i) ++ output.drop j =
          output.take i ++ header ++ output.drop i := by rw [List.append_assoc,hmiddle]
      rw [hlen,hjoin] at hfoot
      change cut (cut _ (j+header.length) f.length) i header.length = output
      rw [insertTexts,hfoot,hcut]

lemma length_insertTexts (h : Placed output controlBlock txn header footer) :
    (insertTexts output header footer).length = output.length+
      (header.map fun x => x.2.length).getD 0+(footer.map fun y => y.2.length).getD 0 := by
  cases hheader : header with
  | none =>
    cases hfooter : footer with
    | none => rfl
    | some y =>
      have hj := (h.footerAt _ hfooter).2
      simp only [insertTexts,List.length_append,List.length_take,List.length_drop,Option.map_some,
        Option.map_none,Option.getD_some,Option.getD_none]
      omega
  | some x =>
    have hi := (h.headerAt _ hheader).2
    cases hfooter : footer with
    | none =>
      simp only [insertTexts,List.length_append,List.length_take,List.length_drop,Option.map_some,
        Option.map_none,Option.getD_some,Option.getD_none]
      omega
    | some y =>
      have hj := (h.footerAt _ hfooter).2
      have hij := h.order _ hheader _ hfooter
      simp only [insertTexts,List.length_append,List.length_take,List.length_drop,Option.map_some,
        Option.getD_some]
      omega

/-! ### Places -/

variable {search : Search}

lemma scanHtmlForHead_le (hsearch : search.Inside) {input : Bytes} {head : ℕ}
    (h : scanHtmlForHead search input = some head) : head ≤ input.length := by
  have hlast : ∀ {regex place}, (search regex input).map Prod.snd = some place → place ≤ input.length := by
    intro regex place hmatch
    obtain ⟨⟨first,last⟩,hfound,rfl⟩ := Option.map_eq_some_iff.mp hmatch
    exact (hsearch regex input first last hfound).2
  have hfirst : ∀ {regex place}, (search regex input).map Prod.fst = some place → place ≤ input.length := by
    intro regex place hmatch
    obtain ⟨⟨first,last⟩,hfound,rfl⟩ := Option.map_eq_some_iff.mp hmatch
    obtain ⟨hle,hend⟩ := hsearch regex input first last hfound
    exact hle.trans hend
  unfold scanHtmlForHead at h
  split_ifs at h
  simp only at h
  split at h
  · rename_i x c hx hc
    rw [← Option.some.inj h]
    split_ifs
    · exact hlast hx
    · exact hlast hc
  · rename_i x hx _
    rw [← Option.some.inj h]
    exact hlast hx
  · rename_i c _ hc
    rw [← Option.some.inj h]
    exact hlast hc
  · split at h
    · rename_i matchEnd hmatch
      rw [← Option.some.inj h]
      exact hlast hmatch
    · exact hfirst h

lemma lastMatchFrom_le {str needle : Bytes} {i place : ℕ} (h : lastMatchFrom str needle i = some place) :
    place ≤ i := by
  induction i with
  | zero =>
    rw [lastMatchFrom] at h
    split_ifs at h
    exact (Option.some.inj h).ge
  | succ i ih =>
    rw [lastMatchFrom] at h
    split_ifs at h
    · exact (Option.some.inj h).ge
    · exact (ih h).trans i.le_succ

lemma scanHtmlForFoot_le {input : Bytes} {tail : ℕ} (h : scanHtmlForFoot input = some tail) :
    tail ≤ input.length := by
  unfold scanHtmlForFoot strncaseidxLastMatch at h
  simp only at h
  split_ifs at h
  have hle := lastMatchFrom_le h
  have htext := (List.takeWhile_prefix (· ≠ (0 : UInt8)) (l := input)).length_le
  omega

/-! ### The copies -/

lemma memcpy_eq {room n : ℕ} {out src : Bytes} (hn : n ≤ src.length) (hroom : out.length+n ≤ room) :
    memcpy room out src n = some (out ++ src.take n) := if_pos ⟨hn,hroom⟩

lemma toUint_sub {n i : ℕ} (hi : i ≤ n) (hn : n < 2^31) : toUint ((n : ℤ)-i) = n-i := by
  unfold toUint
  omega

lemma mallocWorker_eq {n : ℕ} (h : n+1 < 2^31) : mallocWorker (toInt ((n : ℤ)+1)) = some (n+1) := by
  have hint : toInt ((n : ℤ)+1) = ((n+1 : ℕ) : ℤ) := by
    have := toInt_of_lt h
    push_cast at this ⊢
    exact this
  rw [hint,mallocWorker,if_neg (by omega),Int.toNat_natCast]

lemma take_rest (output : Bytes) (i : ℕ) :
    (output.drop i).take (output.length-i) = output.drop i := by
  rw [← List.length_drop,List.take_length]

/-- With room for everything, the copies make the output with the texts inserted. -/
theorem copies_eq (h : Placed output controlBlock txn header footer)
    (hsome : header.isSome ∨ footer.isSome) {room : ℕ}
    (hroom : (insertTexts output header footer).length < room) {i j : ℕ}
    (hi : i = (header.map Prod.fst).getD 0) (hj : j = (footer.map Prod.fst).getD 0) {k : ℕ}
    (hk : footer.isSome → k = j-i) :
    copies room output ((header.map Prod.snd).getD []) ((footer.map Prod.snd).getD [])
      (header.map Prod.fst) (footer.map Prod.fst) i ((header.map fun x => x.2.length).getD 0)
      (output.length-i) j ((footer.map fun y => y.2.length).getD 0) (output.length-j) k =
        some (insertTexts output header footer) := by
  rw [length_insertTexts h] at hroom
  cases header with
  | some x =>
    obtain ⟨i',head⟩ := x
    obtain rfl : i = i' := hi
    have hile : i ≤ output.length := (h.headerAt _ rfl).2
    simp only [Option.map_some,Option.getD_some] at hroom ⊢
    cases footer with
    | some y =>
      obtain ⟨j',foot⟩ := y
      obtain rfl : j = j' := hj
      have hjle : j ≤ output.length := (h.footerAt _ rfl).2
      have hij : i ≤ j := h.order _ rfl _ rfl
      obtain rfl := hk rfl
      simp only [Option.map_some,Option.getD_some] at hroom ⊢
      rw [copies,memcpy_eq hile (by simp only [List.length_nil]; omega),List.nil_append,Option.bind_eq_bind,
        Option.bind_some,memcpy_eq le_rfl (by simp only [List.length_take]; omega),
        Option.bind_some,memcpy_eq (by simp only [List.length_drop]; omega)
          (by simp only [List.length_append,List.length_take]; omega),
        Option.bind_some,memcpy_eq le_rfl
          (by simp only [List.length_append,List.length_take,List.length_drop]; omega),
        Option.bind_some,memcpy_eq (by simp only [List.length_drop]; omega)
          (by simp only [List.length_append,List.length_take,List.length_drop]; omega)]
      rw [insertTexts,List.take_length,List.take_length,take_rest]
    | none =>
      simp only [Option.map_none,Option.getD_none] at hroom ⊢
      rw [copies,memcpy_eq hile (by simp only [List.length_nil]; omega),List.nil_append,Option.bind_eq_bind,
        Option.bind_some,memcpy_eq le_rfl (by simp only [List.length_take]; omega),
        Option.bind_some,memcpy_eq (by simp only [List.length_drop]; omega)
          (by simp only [List.length_append,List.length_take]; omega)]
      rw [insertTexts,List.take_length,take_rest]
  | none =>
    cases footer with
    | none => simp at hsome
    | some y =>
      obtain ⟨j',foot⟩ := y
      obtain rfl : j = j' := hj
      have hjle : j ≤ output.length := (h.footerAt _ rfl).2
      simp only [Option.map_some,Option.map_none,Option.getD_some,Option.getD_none] at hroom ⊢
      rw [copies,memcpy_eq hjle (by simp only [List.length_nil]; omega),List.nil_append,Option.bind_eq_bind,
        Option.bind_some,memcpy_eq le_rfl (by simp only [List.length_take]; omega),
        Option.bind_some,memcpy_eq (by simp only [Option.getD_some,List.length_drop]; omega)
          (by simp only [List.length_append,List.length_take]; omega)]
      rw [insertTexts,List.take_length,Option.getD_some,take_rest]

variable {text : Option (ℕ × Bytes)}

lemma map_strlen (h : (text.map fun x => x.2.length).getD 0 < 2^31) :
    (text.map fun x => strlen x.2).getD 0 = (((text.map fun x => x.2.length).getD 0 : ℕ) : ℤ) := by
  cases text with
  | none => simp
  | some x =>
    rw [Option.map_some,Option.getD_some] at h
    rw [Option.map_some,Option.map_some,Option.getD_some,Option.getD_some]
    exact toInt_of_lt h

lemma toUint64_map_strlen (h : (text.map fun x => x.2.length).getD 0 < 2^31) :
    toUint64 ((text.map fun x => strlen x.2).getD 0) = (text.map fun x => x.2.length).getD 0 := by
  rw [map_strlen h,toUint64_of_lt h]

lemma place_le (h : ∀ x ∈ text, x.1 ≤ output.length) : (text.map Prod.fst).getD 0 ≤ output.length := by
  cases text with
  | none => exact Nat.zero_le _
  | some x => exact h x rfl

lemma toUint_between (h : Placed output controlBlock txn header footer)
    (hfooter : footer.isSome) (hlen : output.length < 2^31) :
    toUint (((footer.map Prod.fst).getD 0 : ℕ)-((header.map Prod.fst).getD 0 : ℕ)) =
      (footer.map Prod.fst).getD 0-(header.map Prod.fst).getD 0 := by
  obtain ⟨y,hy⟩ := Option.isSome_iff_exists.mp hfooter
  have hyle := (h.footerAt y hy).2
  subst hy
  refine toUint_sub ?_ (lt_of_le_of_lt hyle hlen)
  cases header with
  | none => exact Nat.zero_le _
  | some x => exact h.order x rfl y rfl

lemma assemble_eq (h : Placed output controlBlock txn header footer)
    (hsome : header.isSome ∨ footer.isSome) {finalLen : ℕ} (hfinal : finalLen+1 < 2^31)
    (hlen : (insertTexts output header footer).length = finalLen) :
    assemble output ((header.map Prod.snd).getD []) ((footer.map Prod.snd).getD [])
      (header.map Prod.fst) (footer.map Prod.fst) ((header.map fun x => strlen x.2).getD 0)
      ((footer.map fun y => strlen y.2).getD 0) finalLen = some (insertTexts output header footer) := by
  have hcopies := copies_eq h hsome (hlen.trans_lt finalLen.lt_succ_self) rfl rfl (k :=
    toUint (((footer.map Prod.fst).getD 0 : ℕ)-((header.map Prod.fst).getD 0 : ℕ)))
  rw [length_insertTexts h] at hlen
  have hi := place_le fun x hx => (h.headerAt x hx).2
  have hj := place_le fun y hy => (h.footerAt y hy).2
  have hfits : output.length < 2^31 := by omega
  have hall := hcopies fun hfooter => toUint_between h hfooter hfits
  rw [assemble,mallocWorker_eq hfinal,Option.bind_eq_bind,Option.bind_some,toUint_of_lt (by omega),
    toUint_of_lt (by omega),toUint64_map_strlen (by omega),toUint64_map_strlen (by omega),
    toUint_sub hi hfits,toUint_sub hj hfits,hall,Option.bind_eq_bind,Option.bind_some,if_pos]
  rw [length_insertTexts h]
  omega

/-! ### The worker -/

/-- The texts and the output are short enough for the ints that measure them. -/
def Short (controlBlock : ControlBlock) (output : Bytes) : Prop :=
  output.length+(controlBlock.produceHeader.getD []).length+(controlBlock.produceFooter.getD []).length+1 < 2^31

lemma length_text_le {produced : Option Bytes} (h : ∀ x ∈ text, produced = some x.2) :
    (text.map fun x => x.2.length).getD 0 ≤ (produced.getD []).length := by
  cases text with
  | none => exact Nat.zero_le _
  | some x =>
    rw [h x rfl]
    exact le_rfl

lemma finalLen_eq (h : Placed output controlBlock txn header footer) (hshort : Short controlBlock output) :
    toUint64 (toUint64 (output.length+(header.map fun x => strlen x.2).getD 0)+
      (footer.map fun y => strlen y.2).getD 0) = (insertTexts output header footer).length ∧
      (insertTexts output header footer).length+1 < 2^31 := by
  have hheader := length_text_le fun x hx => (h.headerAt x hx).1
  have hfooter := length_text_le fun y hy => (h.footerAt y hy).1
  unfold Short at hshort
  rw [length_insertTexts h,map_strlen (by omega),map_strlen (by omega)]
  generalize (header.map fun x => x.2.length).getD 0 = m at *
  generalize (footer.map fun y => y.2.length).getD 0 = n at *
  have hfirst : toUint64 ((output.length : ℤ)+m) = output.length+m := by
    rw [← Nat.cast_add]
    exact toUint64_of_lt (by omega)
  have hboth : toUint64 (((output.length+m : ℕ) : ℤ)+n) = output.length+m+n := by
    rw [← Nat.cast_add]
    exact toUint64_of_lt (by omega)
  rw [hfirst,hboth]
  exact ⟨rfl,by omega⟩

/-- The worker with its places: nothing is handled, or the texts are inserted. -/
theorem handled_of_placed (h : Placed output controlBlock txn header footer)
    (hshort : Short controlBlock output) {finalLen : ℕ}
    (hfinal : finalLen = (insertTexts output header footer).length) (hne : finalLen ≠ output.length) :
    assemble output ((header.map Prod.snd).getD []) ((footer.map Prod.snd).getD [])
        (header.map Prod.fst) (footer.map Prod.fst) ((header.map fun x => strlen x.2).getD 0)
        ((footer.map fun y => strlen y.2).getD 0) finalLen = some (insertTexts output header footer) ∧
      OnlyInserts output controlBlock txn (insertTexts output header footer) finalLen := by
  have hsome : header.isSome ∨ footer.isSome := by
    by_contra hnone
    simp only [not_or,Option.not_isSome_iff_eq_none] at hnone
    rw [hnone.1,hnone.2] at hfinal
    exact hne hfinal
  have hfits := (finalLen_eq h hshort).2
  rw [← hfinal] at hfits
  exact ⟨assemble_eq h hsome hfits hfinal.symm,
    ⟨hfinal.symm,header,footer,h,hsome,rfl,removeTexts_insertTexts h⟩⟩

lemma placed_found (hsearch : search.Inside) (controlBlock : ControlBlock) (txn : Txn)
    (output : Bytes) : Placed output controlBlock txn
      (findHeader search controlBlock txn.rumHeader output)
      (findFooter controlBlock txn.rumHeader txn.rumFooter
        (findHeader search controlBlock txn.rumHeader output) output) := by
  refine ⟨?_,?_,?_,?_⟩
  · intro x hx
    unfold findHeader at hx
    split_ifs at hx
    · obtain ⟨head,hhead,hproduce⟩ := Option.bind_eq_some_iff.mp hx
      obtain ⟨h,hh,rfl⟩ := Option.map_eq_some_iff.mp hproduce
      exact ⟨hh,scanHtmlForHead_le hsearch hhead⟩
    · cases hx
  · intro y hy
    unfold findFooter at hy
    split_ifs at hy
    · obtain ⟨tail,htail,hproduce⟩ := Option.bind_eq_some_iff.mp hy
      split_ifs at hproduce
      obtain ⟨f,hf,rfl⟩ := Option.map_eq_some_iff.mp hproduce
      exact ⟨hf,scanHtmlForFoot_le htail⟩
    · cases hy
  · intro x hx y hy
    rw [Option.mem_def] at hx
    unfold findFooter at hy
    split_ifs at hy
    · obtain ⟨tail,_,hproduce⟩ := Option.bind_eq_some_iff.mp hy
      split_ifs at hproduce with hbefore
      obtain ⟨f,_,rfl⟩ := Option.map_eq_some_iff.mp hproduce
      rw [hx] at hbefore
      simpa using hbefore
    · cases hy
  · intro hfooter
    unfold findFooter at hfooter
    split_ifs at hfooter with hneeded
    · exact hneeded.1.symm
    · cases hfooter

lemma instrument_onlyInserts (hsearch : search.Inside) (controlBlock : ControlBlock)
    (txn : Txn) (output : Bytes) (hshort : Short controlBlock output) :
    ∃ result, instrument search controlBlock txn output = some result ∧
      ∀ handled len, result = some (handled,len) → OnlyInserts output controlBlock txn handled len := by
  have hplaced := placed_found hsearch controlBlock txn output
  have hfinal := (finalLen_eq hplaced hshort).1
  unfold instrument
  simp only
  split_ifs with hdone hlen hne
  · exact ⟨none,rfl,nofun⟩
  · exact ⟨none,rfl,nofun⟩
  · obtain ⟨hassemble,honly⟩ := handled_of_placed hplaced hshort hfinal hne
    rw [hassemble]
    refine ⟨_,rfl,?_⟩
    rintro handled len heq
    obtain ⟨rfl,rfl⟩ := Prod.mk.inj (Option.some.inj heq)
    exact honly
  · exact ⟨none,rfl,nofun⟩

/-- A page is handled within its memory, and differs from the output by inserted texts only. -/
theorem outputHandlerWorker_onlyInserts (search : Search) (hsearch : search.Inside)
    (controlBlock : ControlBlock) (txn : Txn) (output : Bytes) (hshort : Short controlBlock output)
    (hasResponseContentLength : ℤ) (mimetype : Option Bytes) :
    ∃ result, outputHandlerWorker search (some controlBlock) (some txn) output hasResponseContentLength
        mimetype = some result ∧
      ∀ handled len, result = some (handled,len) → OnlyInserts output controlBlock txn handled len := by
  unfold outputHandlerWorker
  simp only
  split_ifs
  · exact ⟨none,rfl,nofun⟩
  · exact ⟨none,rfl,nofun⟩
  · exact ⟨none,rfl,nofun⟩
  · exact ⟨none,rfl,nofun⟩
  · cases mimetype with
    | none => exact ⟨none,rfl,nofun⟩
    | some mimetype =>
      simp only
      split_ifs
      · exact instrument_onlyInserts hsearch controlBlock txn output hshort
      · exact ⟨none,rfl,nofun⟩

/-! ### Texts that are too long -/

/-- A search that finds the tag `<head>` at the start. -/
def headSearch : Search := fun regex input =>
  if regex = headOpenRegex ∧ (ascii "<head>").isPrefixOf input then some (0,6) else none

lemma headSearch_inside : headSearch.Inside := by
  intro regex input first last h
  unfold headSearch at h
  split_ifs at h with hfound
  obtain ⟨rfl,rfl⟩ := Prod.mk.inj (Option.some.inj h)
  exact ⟨Nat.zero_le _,(List.isPrefixOf_iff_prefix.mp hfound.2).length_le⟩

def freshTxn : Txn := ⟨1,0,0,0⟩

/-- A page with a place for the header and one for the footer. -/
def page : Bytes := ascii "<head></head>a</body>"

theorem onlyInserts_both :
    OnlyInserts page ⟨some (ascii "x"),some (ascii "y")⟩ freshTxn (ascii "<head>x</head>ay</body>") 23 := by
  obtain ⟨result,hresult,honly⟩ := outputHandlerWorker_onlyInserts headSearch headSearch_inside
    ⟨some (ascii "x"),some (ascii "y")⟩ freshTxn page (by unfold Short; decide) 0 (some (ascii "text/html"))
  have hworker : outputHandlerWorker headSearch (some ⟨some (ascii "x"),some (ascii "y")⟩) (some freshTxn)
      page 0 (some (ascii "text/html")) = some (some (ascii "<head>x</head>ay</body>",23)) := by
    decide +kernel
  exact honly _ _ (Option.some.inj (hresult.symm.trans hworker))

/-- A header whose length is 1 as an int. -/
theorem outputHandlerWorker_wrapped {c : UInt8} {rest : Bytes} (hlen : strlen (c :: rest) = 1) :
    outputHandlerWorker headSearch (some ⟨some (c :: rest),none⟩) (some freshTxn) (ascii "<head>") 0
      (some (ascii "text/html")) = some (some (ascii "<head>" ++ [c],7)) := by
  have hhead : findHeader headSearch ⟨some (c :: rest),none⟩ 0 (ascii "<head>") = some (6,c :: rest) := by
    have hscan : scanHtmlForHead headSearch (ascii "<head>") = some 6 := by decide +kernel
    rw [findHeader,if_pos rfl,hscan]
    rfl
  have hfoot : findFooter ⟨some (c :: rest),none⟩ 0 0 (some (6,c :: rest)) (ascii "<head>") = none := by
    have hscan : scanHtmlForFoot (ascii "<head>") = none := by decide +kernel
    rw [findFooter,hscan,Option.bind_none,ite_self]
  have hcopies : copies 8 (ascii "<head>") (c :: rest) [] (some 6) none 6 1 0 0 0 6 (2^32-6) =
      some (ascii "<head>" ++ [c]) := by
    have hfirst : memcpy 8 [] (ascii "<head>") 6 = some (ascii "<head>") := by decide
    have hlast : ∀ out : Bytes, out.length = 7 → memcpy 8 out ((ascii "<head>").drop 6) 0 = some out := by
      intro out hout
      rw [memcpy,if_pos ⟨Nat.zero_le _,by omega⟩,List.take_zero,List.append_nil]
    have hheader : memcpy 8 (ascii "<head>") (c :: rest) 1 = some (ascii "<head>" ++ [c]) :=
      if_pos ⟨by simp,by decide⟩
    rw [copies,hfirst,Option.bind_eq_bind,Option.bind_some,hheader,Option.bind_some]
    exact hlast _ rfl
  have hassemble : assemble (ascii "<head>") (c :: rest) [] (some 6) none 1 0 7 =
      some (ascii "<head>" ++ [c]) := by
    have hroom : mallocWorker (toInt ((7 : ℕ)+1)) = some 8 := by decide
    rw [assemble,hroom,Option.bind_eq_bind,Option.bind_some]
    exact (congrArg (fun x => x.bind fun out : Bytes => if out.length < 8 then some out else none) hcopies)
  have hinstrument : instrument headSearch ⟨some (c :: rest),none⟩ freshTxn (ascii "<head>") =
      some (some (ascii "<head>" ++ [c],7)) := by
    have hfinal : toUint64 (toUint64 ((ascii "<head>").length+1)+0) = 7 := by decide
    have hdone : ¬ (freshTxn.rumHeader ≠ 0 ∧ freshTxn.rumFooter ≠ 0) := by decide
    have hhead' : findHeader headSearch ⟨some (c :: rest),none⟩ freshTxn.rumHeader (ascii "<head>") = _ := hhead
    have hfoot' : findFooter ⟨some (c :: rest),none⟩ freshTxn.rumHeader freshTxn.rumFooter _ _ = _ := hfoot
    unfold instrument
    simp only
    rw [if_neg hdone,if_neg (by decide),hhead',hfoot']
    simp only [Option.map_some,Option.map_none,Option.getD_some,Option.getD_none,hlen,hfinal,hassemble]
    rw [if_pos (by decide),Option.bind_eq_bind,Option.bind_some]
    rfl
  unfold outputHandlerWorker
  simp only
  rw [if_neg (by decide),if_neg (by decide),if_neg (by decide),if_neg (by decide),if_pos (by decide)]
  exact hinstrument

theorem not_outputHandlerWorker_onlyInserts :
    ¬ ∀ (search : Search), search.Inside → ∀ (controlBlock : ControlBlock) (txn : Txn) (output : Bytes),
      output.length < 2^31 → ∀ (hasResponseContentLength : ℤ) (mimetype : Option Bytes) (handled : Bytes)
      (len : ℕ), outputHandlerWorker search (some controlBlock) (some txn) output hasResponseContentLength
        mimetype = some (some (handled,len)) → OnlyInserts output controlBlock txn handled len := by
  intro h
  have hlen : strlen (0x78 :: List.replicate (2^32) 0x78) = 1 := by
    rw [strlen,List.length_cons,List.length_replicate]
    decide
  have honly := h headSearch headSearch_inside _ freshTxn (ascii "<head>") (by decide) 0
    (some (ascii "text/html")) _ _ (outputHandlerWorker_wrapped hlen)
  obtain ⟨header,footer,hplaced,hsome,hhandled,_⟩ := honly.inserted
  have htotal := length_insertTexts hplaced
  rw [← hhandled] at htotal
  cases footer with
  | some y => exact absurd (hplaced.footerAt y rfl).1 nofun
  | none =>
    cases header with
    | none => simp at hsome
    | some x =>
      have htext := Option.some.inj (hplaced.headerAt x rfl).1
      rw [Option.map_some,Option.getD_some,← htext,List.length_cons,List.length_replicate] at htotal
      simp at htotal

end Rum
end PhpAgent
