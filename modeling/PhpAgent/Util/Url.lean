import Mathlib.Data.List.DropRight
import PhpAgent.Lib.CType
import PhpAgent.Lib.Memory
import PhpAgent.Util.Object

/-! URLs without credentials, after `util_url.c`. A URL is made of characters that have a byte; they may
carry more, such as where they come from. -/
namespace PhpAgent

open Json (code)

namespace Url

/-- A type of characters: their bytes, and the characters that the code itself writes. -/
structure Chars (α : Type) where
  byte : α → UInt8
  literal : UInt8 → α
  byte_literal : ∀ c, byte (literal c) = c

/-- The bytes themselves. -/
def bytes : Chars UInt8 := ⟨id,id,fun _ => rfl⟩

def queryChars : Bytes := ascii "#?;"
def proxyCredsMask : Bytes := ascii "****"

/-! ### Cleaning -/

section Clean
variable {α : Type} (k : Chars α)

def Chars.text (b : Bytes) : List α := b.map k.literal

/-- Back up over the user name and the password; a colon on the way is reported. -/
def rewind (clean : List α) : ℕ → Bool → ℕ × Bool
  | 0, hasPassword => (0,hasPassword)
  | ci+1, hasPassword =>
    if clean[ci]?.any fun c => k.byte c = code ':' then rewind clean ci true
    else if clean[ci]?.any fun c => k.byte c = code '/' then (ci+1,hasPassword)
    else rewind clean ci hasPassword

def writeMask (clean : List α) (ci : ℕ) (hasPassword : Bool) : Except Stop (List α × ℕ) := do
  let clean ← put clean ci (k.text proxyCredsMask)
  let ci := ci+proxyCredsMask.length
  if hasPassword then
    let clean ← put clean ci (k.text [code ':'])
    let ci := ci+1
    let clean ← put clean ci (k.text proxyCredsMask)
    let ci := ci+proxyCredsMask.length
    let clean ← put clean ci (k.text [code '@'])
    return (clean,ci+1)
  else
    let clean ← put clean ci (k.text [code '@'])
    return (clean,ci+1)

/-- One round of the loop, at `url[ui]`. -/
def cleanChar (maskCreds : Bool) (clean : List α) (ci : ℕ) (c : α) : Except Stop (List α × ℕ) :=
  if k.byte c = code '@' then
    let (ci,hasPassword) := rewind k clean ci false
    if maskCreds then writeMask k clean ci hasPassword else return (clean,ci)
  else do
    let clean ← put clean ci [c]
    return (clean,ci+1)

def cleanLoop (maskCreds : Bool) : List α → List α → ℕ → Except Stop (List α × ℕ)
  | [], clean, ci => .ok (clean,ci)
  | c :: url, clean, ci => do
    let (clean,ci) ← cleanChar k maskCreds clean ci c
    cleanLoop maskCreds url clean ci

/-- The characters before the parameters or an early null terminator, as `nr_strncspn` counts them. -/
def untilQuery (url : List α) : List α := url.takeWhile fun c => k.byte c ∉ queryChars ++ [0]

/-- `nr_url_clean_internal`; `none` is NULL. What the buffer holds at first is never read. -/
def cleanInternal (url : List α) (urllen : ℤ) (maskCreds : Bool) : Except Stop (Option (List α)) :=
  if urllen ≤ 0 ∨ url = [] then .ok none
  else
    let text := untilQuery k (url.take urllen.toNat)
    if text = [] then .ok none
    else do
      let clean := List.replicate (text.length+2*proxyCredsMask.length+1) (k.literal 0)
      let (clean,ci) ← cleanLoop k maskCreds text clean 0
      let clean ← put clean ci [k.literal 0]
      return some (clean.takeWhile fun c => k.byte c ≠ 0)

end Clean

/-- `nr_url_clean`. -/
def clean (url : Bytes) (urllen : ℤ) : Except Stop (Option Bytes) := cleanInternal bytes url urllen false

/-- `nr_url_proxy_clean`; `nr_strlen` is an `int`. -/
def proxyClean (url : Bytes) : Except Stop (Option Bytes) :=
  cleanInternal bytes url ((url.length : ℤ).bmod (2^32)) true

/-! ### What is written -/

section Spec
variable {α : Type} (k : Chars α) {ci : ℕ} {clean out : List α}

def notSlash (c : α) : Bool := k.byte c ≠ code '/'

def maskText (hasPassword : Bool) : Bytes :=
  proxyCredsMask ++ (if hasPassword then code ':' :: proxyCredsMask else []) ++ [code '@']

def hasColon (text : List α) : Bool := text.any fun c => k.byte c = code ':'

/-- What stands in the buffer after one more character. -/
def cleaned (maskCreds : Bool) (out : List α) (c : α) : List α :=
  if k.byte c = code '@' then
    out.rdropWhile (notSlash k) ++
      if maskCreds then k.text (maskText (hasColon k (out.rtakeWhile (notSlash k)))) else []
  else out ++ [c]

def cleanedAll (maskCreds : Bool) (url : List α) : List α := url.foldl (cleaned k maskCreds) []

lemma cleanedAll_concat (maskCreds : Bool) (text : List α) (c : α) :
    cleanedAll k maskCreds (text ++ [c]) = cleaned k maskCreds (cleanedAll k maskCreds text) c := by
  rw [cleanedAll,List.foldl_append]
  rfl

lemma rewind_eq {clean : List α} (hci : ci ≤ clean.length) (hasPassword : Bool) :
    rewind k clean ci hasPassword = (((clean.take ci).rdropWhile (notSlash k)).length,
      hasPassword || hasColon k ((clean.take ci).rtakeWhile (notSlash k))) := by
  induction ci generalizing hasPassword with
  | zero => simp [rewind,hasColon]
  | succ ci ih =>
    have hlt : ci < clean.length := hci
    have htake : clean.take (ci+1) = clean.take ci ++ [clean[ci]] := by
      rw [List.take_append_getElem hlt]
    have hget : clean[ci]? = some clean[ci] := List.getElem?_eq_getElem hlt
    rw [rewind,hget,htake]
    by_cases hcolon : k.byte clean[ci] = code ':'
    · have hslash : notSlash k clean[ci] = true := by
        rw [notSlash,hcolon]
        decide
      rw [List.rdropWhile_concat_pos _ _ _ hslash,List.rtakeWhile_concat_pos _ _ _ hslash]
      simp [hcolon,ih (by omega),hasColon]
    · by_cases hslash : k.byte clean[ci] = code '/'
      · have hnot : ¬ notSlash k clean[ci] = true := by simp [notSlash,hslash]
        rw [List.rdropWhile_concat_neg _ _ _ hnot,List.rtakeWhile_concat_neg _ _ _ hnot]
        have hne : code '/' ≠ code ':' := by decide
        simp [hslash,hne,hasColon,hlt]
      · have hno : notSlash k clean[ci] = true := by simp [notSlash,hslash]
        rw [List.rdropWhile_concat_pos _ _ _ hno,List.rtakeWhile_concat_pos _ _ _ hno]
        simp [hcolon,hslash,ih (by omega),hasColon]

lemma length_text (b : Bytes) : (k.text b).length = b.length := List.length_map _

lemma text_append (b b' : Bytes) : k.text (b ++ b') = k.text b ++ k.text b' := List.map_append

/-- A text is written, and the rest of the work goes on behind it. -/
theorem put_text_append {β : Type} (clean : List α) (ci : ℕ) (b b' : Bytes)
    (f : List α → Except Stop β) :
    (put clean ci (k.text (b ++ b')) >>= f) =
      put clean ci (k.text b) >>= fun clean => put clean (ci+b.length) (k.text b') >>= f := by
  rw [text_append,← put_append,length_text]
  cases put clean ci (k.text b) with
  | error stop => rfl
  | ok mem => rfl

/-- The mask is written as one text. -/
theorem writeMask_eq (clean : List α) (ci : ℕ) (hasPassword : Bool) :
    writeMask k clean ci hasPassword =
      put clean ci (k.text (maskText hasPassword)) >>=
        fun clean => .ok (clean,ci+(maskText hasPassword).length) := by
  cases hasPassword with
  | true =>
    have hmask : maskText true = proxyCredsMask ++ ([code ':'] ++ (proxyCredsMask ++ [code '@'])) := rfl
    have hlen : (maskText true).length = proxyCredsMask.length+1+proxyCredsMask.length+1 := rfl
    rw [hlen,hmask,put_text_append]
    simp only [put_text_append]
    rfl
  | false =>
    have hmask : maskText false = proxyCredsMask ++ [code '@'] := rfl
    have hlen : (maskText false).length = proxyCredsMask.length+1 := rfl
    rw [hlen,hmask,put_text_append]
    rfl

/-- The buffer holds what was written, up to the index. -/
structure Holds (clean : List α) (ci : ℕ) (out : List α) : Prop where
  length : ci = out.length
  take : clean.take ci = out

lemma Holds.le (h : Holds clean ci out) : ci ≤ clean.length := by
  have hlen := congrArg List.length h.take
  rw [List.length_take,← h.length] at hlen
  omega

lemma holds_splice (h : Holds clean ci out) (s : List α) :
    Holds (splice clean ci s) (ci+s.length) (out ++ s) := by
  refine ⟨by rw [h.length,List.length_append],?_⟩
  rw [take_splice h.le,h.take]

/-- One round stays in the buffer exactly when what stands there afterwards fits. -/
theorem cleanChar_spec (maskCreds : Bool) (h : Holds clean ci out) (c : α) :
    ((cleaned k maskCreds out c).length ≤ clean.length ∧ ∃ clean' ci',
        cleanChar k maskCreds clean ci c = .ok (clean',ci') ∧ clean'.length = clean.length ∧
          Holds clean' ci' (cleaned k maskCreds out c)) ∨
      (clean.length < (cleaned k maskCreds out c).length ∧
        cleanChar k maskCreds clean ci c = .error .outside) := by
  have hle := h.le
  unfold cleanChar cleaned
  by_cases hat : k.byte c = code '@'
  · rw [if_pos hat,if_pos hat,rewind_eq k hle,h.take,Bool.false_or]
    simp only
    have hkept : Holds clean (out.rdropWhile (notSlash k)).length (out.rdropWhile (notSlash k)) := by
      refine ⟨rfl,?_⟩
      have hinitial : out.rdropWhile (notSlash k) <+: clean := by
        refine (List.rdropWhile_prefix _ _).trans ?_
        rw [← h.take]
        exact List.take_prefix _ _
      exact (List.prefix_iff_eq_take.mp hinitial).symm
    cases maskCreds with
    | false =>
      refine .inl ⟨by simpa using hkept.le,clean,_,rfl,rfl,?_⟩
      simpa using hkept
    | true =>
      generalize hasColon k (out.rtakeWhile (notSlash k)) = hasPassword
      rw [if_pos rfl,if_pos rfl,writeMask_eq,List.length_append,length_text]
      by_cases hroom : (out.rdropWhile (notSlash k)).length+(maskText hasPassword).length ≤ clean.length
      · have hput : (out.rdropWhile (notSlash k)).length+(k.text (maskText hasPassword)).length ≤
            clean.length := by rwa [length_text]
        rw [put_of_le hput,ok_bind]
        refine .inl ⟨hroom,_,_,rfl,length_splice hput,?_⟩
        have hholds := holds_splice hkept (k.text (maskText hasPassword))
        rwa [length_text] at hholds
      · rw [put_of_lt (by rw [length_text]; omega)]
        exact .inr ⟨not_le.mp hroom,rfl⟩
  · rw [if_neg hat,if_neg hat,List.length_append,List.length_singleton,← h.length]
    by_cases hroom : ci+1 ≤ clean.length
    · have hput : ci+[c].length ≤ clean.length := hroom
      rw [put_of_le hput,ok_bind]
      exact .inl ⟨hroom,_,_,rfl,length_splice hput,holds_splice h [c]⟩
    · rw [put_of_lt (not_le.mp hroom)]
      exact .inr ⟨not_le.mp hroom,rfl⟩

/-- The loop stays in the buffer exactly when what stands there after each round fits. -/
theorem cleanLoop_spec (maskCreds : Bool) (url : List α) (h : Holds clean ci out) :
    ((∀ pre, pre <+: url → (pre.foldl (cleaned k maskCreds) out).length ≤ clean.length) ∧ ∃ clean' ci',
        cleanLoop k maskCreds url clean ci = .ok (clean',ci') ∧ clean'.length = clean.length ∧
          Holds clean' ci' (url.foldl (cleaned k maskCreds) out)) ∨
      ((∃ pre, pre <+: url ∧ clean.length < (pre.foldl (cleaned k maskCreds) out).length) ∧
        cleanLoop k maskCreds url clean ci = .error .outside) := by
  induction url generalizing clean out ci with
  | nil =>
    refine .inl ⟨?_,clean,ci,rfl,rfl,h⟩
    intro pre hpre
    rw [List.prefix_nil.mp hpre,List.foldl_nil,← h.length]
    exact h.le
  | cons c url ih =>
    rw [cleanLoop]
    rcases cleanChar_spec k maskCreds h c with ⟨hroom,clean',ci',hchar,hlen,hholds⟩ | ⟨hout,hchar⟩
    · rw [hchar,ok_bind]
      simp only
      rcases ih hholds with ⟨hfits,hloop⟩ | ⟨⟨pre,hpre,hout⟩,hloop⟩
      · rw [hlen] at hfits hloop
        refine .inl ⟨?_,hloop⟩
        intro pre hpre
        cases pre with
        | nil =>
          rw [List.foldl_nil,← h.length]
          exact h.le
        | cons d pre =>
          obtain ⟨rfl,hrest⟩ := List.cons_prefix_cons.mp hpre
          exact hfits pre hrest
      · refine .inr ⟨⟨c :: pre,List.cons_prefix_cons.mpr ⟨rfl,hpre⟩,?_⟩,hloop⟩
        rwa [hlen] at hout
    · refine .inr ⟨⟨[c],List.cons_prefix_cons.mpr ⟨rfl,List.nil_prefix⟩,hout⟩,?_⟩
      rw [hchar]
      rfl

/-- What is written fits into the buffer at every time, and leaves room for the terminator. -/
def Fits (maskCreds : Bool) (text : List α) : Prop :=
  (∀ pre, pre <+: text →
      (cleanedAll k maskCreds pre).length ≤ text.length+2*proxyCredsMask.length+1) ∧
    (cleanedAll k maskCreds text).length ≤ text.length+2*proxyCredsMask.length

lemma forall_cleaned {P : UInt8 → Prop} (hmask : ∀ hasPassword, ∀ b ∈ maskText hasPassword, P b)
    {maskCreds : Bool} {out : List α} {c : α} (hout : ∀ d ∈ out, P (k.byte d)) (hc : P (k.byte c)) :
    ∀ d ∈ cleaned k maskCreds out c, P (k.byte d) := by
  intro d hd
  unfold cleaned at hd
  split_ifs at hd with hat hcreds
  · rcases List.mem_append.mp hd with hd | hd
    · exact hout d ((List.rdropWhile_prefix _ _).subset hd)
    · obtain ⟨b,hb,rfl⟩ := List.mem_map.mp hd
      rw [k.byte_literal]
      exact hmask _ b hb
  · rw [List.append_nil] at hd
    exact hout d ((List.rdropWhile_prefix _ _).subset hd)
  · rcases List.mem_append.mp hd with hd | hd
    · exact hout d hd
    · rw [List.mem_singleton.mp hd]
      exact hc

lemma forall_cleanedAll {P : UInt8 → Prop} (hmask : ∀ hasPassword, ∀ b ∈ maskText hasPassword, P b)
    {maskCreds : Bool} {text : List α} (htext : ∀ c ∈ text, P (k.byte c)) :
    ∀ d ∈ cleanedAll k maskCreds text, P (k.byte d) := by
  induction text using List.reverseRecOn with
  | nil =>
    intro d hd
    exact absurd hd List.not_mem_nil
  | append_singleton text c ih =>
    rw [cleanedAll_concat]
    refine forall_cleaned k hmask (ih ?_) (htext c (by simp))
    intro d hd
    exact htext d (List.mem_append_left _ hd)

lemma maskText_ne_zero (hasPassword : Bool) : ∀ b ∈ maskText hasPassword, b ≠ 0 := by
  cases hasPassword with
  | true => simp [maskText,proxyCredsMask,ascii,code]
  | false => simp [maskText,proxyCredsMask,ascii,code]

lemma untilQuery_ne_zero (url : List α) : ∀ c ∈ untilQuery k url, k.byte c ≠ 0 := by
  intro c hc hzero
  have hmem := List.mem_takeWhile_imp hc
  simp [hzero] at hmem

lemma takeWhile_put {clean clean' out : List α} (h : Holds clean ci out)
    (hout : ∀ c ∈ out, k.byte c ≠ 0) (hput : put clean ci [k.literal 0] = .ok clean') :
    (clean'.takeWhile fun c => k.byte c ≠ 0) = out := by
  have hroom : ci+1 ≤ clean.length := by
    by_contra hlt
    rw [put_of_lt (not_le.mp hlt)] at hput
    exact absurd hput (by simp)
  rw [put_of_le hroom,Except.ok.injEq] at hput
  rw [← hput,splice,h.take,List.takeWhile_append_of_pos (by simpa using hout)]
  simp [k.byte_literal]

/-- Everything but the room in the buffer is a matter of `cleanedAll`. -/
theorem cleanInternal_eq {url : List α} {urllen : ℤ} (maskCreds : Bool)
    (htext : untilQuery k (url.take urllen.toNat) ≠ []) :
    (Fits k maskCreds (untilQuery k (url.take urllen.toNat)) ∧
        cleanInternal k url urllen maskCreds =
          .ok (some (cleanedAll k maskCreds (untilQuery k (url.take urllen.toNat))))) ∨
      (¬ Fits k maskCreds (untilQuery k (url.take urllen.toNat)) ∧
        cleanInternal k url urllen maskCreds = .error .outside) := by
  have hstart : ¬ (urllen ≤ 0 ∨ url = []) := by
    rintro (hlen | hurl)
    · rw [Int.toNat_of_nonpos hlen] at htext
      exact htext rfl
    · rw [hurl,List.take_nil] at htext
      exact htext rfl
  have hzero := untilQuery_ne_zero k (url.take urllen.toNat)
  rw [cleanInternal,if_neg hstart,if_neg htext]
  generalize untilQuery k (url.take urllen.toNat) = text at hzero ⊢
  set size := text.length+2*proxyCredsMask.length+1 with hsize
  have hholds : Holds (List.replicate size (k.literal 0)) 0 [] := ⟨rfl,rfl⟩
  have hlength : (List.replicate size (k.literal 0)).length = size := List.length_replicate
  rcases cleanLoop_spec k maskCreds text hholds with
    ⟨hfits,clean,ci,hloop,hlen,hholds'⟩ | ⟨⟨pre,hpre,hout⟩,hloop⟩
  · rw [hlength] at hfits hlen
    have hci : ci = (cleanedAll k maskCreds text).length := hholds'.length
    simp only [hloop,ok_bind]
    by_cases hroom : (cleanedAll k maskCreds text).length ≤ text.length+2*proxyCredsMask.length
    · have hput : put clean ci [k.literal 0] = .ok (splice clean ci [k.literal 0]) := by
        refine put_of_le ?_
        rw [hlen,hci,List.length_singleton]
        omega
      refine .inl ⟨⟨hfits,hroom⟩,?_⟩
      rw [hput,ok_bind,takeWhile_put k hholds' (forall_cleanedAll k maskText_ne_zero hzero) hput]
      rfl
    · refine .inr ⟨fun h => hroom h.2,?_⟩
      have hlt : clean.length < ci+[k.literal 0].length := by
        rw [hlen,hci,List.length_singleton]
        omega
      rw [put_of_lt hlt]
      rfl
  · rw [hlength] at hout
    refine .inr ⟨?_,?_⟩
    · intro h
      exact absurd (h.1 pre hpre) (not_le.mpr hout)
    · simp only [hloop]
      rfl

lemma cleanInternal_none {url : List α} {urllen : ℤ} (maskCreds : Bool)
    (htext : untilQuery k (url.take urllen.toNat) = []) :
    cleanInternal k url urllen maskCreds = .ok none := by
  unfold cleanInternal
  rw [htext]
  split_ifs with h
  · rfl
  · rfl

/-! ### Segments between slashes -/

def notAt (c : α) : Bool := k.byte c ≠ code '@'

/-- The user name, the password and the `@` behind them. -/
def creds (seg : List α) : List α := seg.rdropWhile (notAt k)

def mask (maskCreds : Bool) (creds : List α) : List α :=
  if maskCreds ∧ creds ≠ [] then k.text (maskText (hasColon k creds)) else []

def segmentCleaned (maskCreds : Bool) (seg : List α) : List α :=
  mask k maskCreds (creds k seg) ++ seg.rtakeWhile (notAt k)

lemma hasColon_append (a b : List α) : hasColon k (a ++ b) = (hasColon k a || hasColon k b) :=
  List.any_append

lemma hasColon_text (hasPassword : Bool) : hasColon k (k.text (maskText hasPassword)) = hasPassword := by
  have hbytes : hasColon k (k.text (maskText hasPassword)) = hasColon bytes (maskText hasPassword) := by
    rw [hasColon,Chars.text,List.any_map]
    congr 1
    funext c
    rw [Function.comp_apply,k.byte_literal]
    rfl
  rw [hbytes]
  cases hasPassword with
  | true => decide
  | false => decide

lemma creds_append_rtakeWhile (seg : List α) : creds k seg ++ seg.rtakeWhile (notAt k) = seg :=
  List.rdropWhile_append_rtakeWhile

/-- The mask tells whether there was a colon. -/
theorem hasColon_segmentCleaned (seg : List α) :
    hasColon k (segmentCleaned k true seg) = hasColon k seg := by
  have hmask : hasColon k (mask k true (creds k seg)) = hasColon k (creds k seg) := by
    unfold mask
    split_ifs with h
    · exact hasColon_text k _
    · have hnil : creds k seg = [] := by simpa using h
      rw [hnil]
  rw [segmentCleaned,hasColon_append,hmask,← hasColon_append,creds_append_rtakeWhile]

lemma rdropWhile_append_of_all {p : α → Bool} (out : List α) {s : List α} (hs : ∀ c ∈ s, p c) :
    (out ++ s).rdropWhile p = out.rdropWhile p := by
  rw [List.rdropWhile,List.reverse_append,List.dropWhile_append_of_pos]
  · rfl
  · intro c hc
    exact hs c (List.mem_reverse.mp hc)

lemma rtakeWhile_append_of_all {p : α → Bool} (out : List α) {s : List α} (hs : ∀ c ∈ s, p c) :
    (out ++ s).rtakeWhile p = out.rtakeWhile p ++ s := by
  rw [List.rtakeWhile,List.reverse_append,List.takeWhile_append_of_pos,List.reverse_append,
    List.reverse_reverse]
  · rfl
  · intro c hc
    exact hs c (List.mem_reverse.mp hc)

lemma rtakeWhile_rdropWhile (p : α → Bool) (out : List α) : (out.rdropWhile p).rtakeWhile p = [] :=
  List.rtakeWhile_eq_nil_iff.mpr fun hne => List.rdropWhile_last_not p out hne

lemma notSlash_mask (maskCreds : Bool) (creds : List α) : ∀ c ∈ mask k maskCreds creds, notSlash k c := by
  intro c hc
  unfold mask at hc
  split_ifs at hc with h
  · obtain ⟨b,hb,rfl⟩ := List.mem_map.mp hc
    rw [notSlash,k.byte_literal]
    have hall : ∀ hasPassword, ∀ b ∈ maskText hasPassword, decide (b ≠ code '/') := by decide +kernel
    exact hall _ b hb
  · exact absurd hc List.not_mem_nil

/-- What stands behind the last slash, and what stands in front of it. -/
theorem cleanedAll_last (maskCreds : Bool) (text : List α) :
    (cleanedAll k maskCreds text).rdropWhile (notSlash k) =
        cleanedAll k maskCreds (text.rdropWhile (notSlash k)) ∧
      (cleanedAll k maskCreds text).rtakeWhile (notSlash k) =
        segmentCleaned k maskCreds (text.rtakeWhile (notSlash k)) := by
  induction text using List.reverseRecOn with
  | nil => exact ⟨rfl,by simp [cleanedAll,segmentCleaned,creds,mask]⟩
  | append_singleton text c ih =>
    obtain ⟨hdrop,htake⟩ := ih
    rw [cleanedAll_concat]
    by_cases hat : k.byte c = code '@'
    · -- The credentials of the last segment give way to the mask.
      have hslash : notSlash k c = true := by
        rw [notSlash,hat]
        decide
      have hnot : ¬ notAt k c = true := by simp [notAt,hat]
      have hwritten : cleaned k maskCreds (cleanedAll k maskCreds text) c =
          (cleanedAll k maskCreds text).rdropWhile (notSlash k) ++
            mask k maskCreds (text.rtakeWhile (notSlash k) ++ [c]) := by
        rw [cleaned,if_pos hat,htake,mask]
        cases maskCreds with
        | false => simp
        | true =>
          have hcolon : hasColon k (text.rtakeWhile (notSlash k) ++ [c]) =
              hasColon k (text.rtakeWhile (notSlash k)) := by
            have hc : hasColon k [c] = false := by
              have hne : code '@' ≠ code ':' := by decide
              simp [hasColon,hat,hne]
            rw [hasColon_append,hc,Bool.or_false]
          simp [hasColon_segmentCleaned,hcolon]
      have hall := notSlash_mask k maskCreds (text.rtakeWhile (notSlash k) ++ [c])
      rw [hwritten,rdropWhile_append_of_all _ hall,rtakeWhile_append_of_all _ hall,
        rtakeWhile_rdropWhile,List.rdropWhile_idempotent,
        List.rdropWhile_concat_pos _ _ _ hslash,List.rtakeWhile_concat_pos _ _ _ hslash]
      refine ⟨hdrop,?_⟩
      rw [segmentCleaned,creds,List.rdropWhile_concat_neg _ _ _ hnot,
        List.rtakeWhile_concat_neg _ _ _ hnot,List.append_nil,List.nil_append]
    · rw [cleaned,if_neg hat]
      by_cases hslash : notSlash k c = true
      · have hno : notAt k c = true := by simp [notAt,hat]
        rw [List.rdropWhile_concat_pos _ _ _ hslash,List.rtakeWhile_concat_pos _ _ _ hslash,
          List.rdropWhile_concat_pos _ _ _ hslash,List.rtakeWhile_concat_pos _ _ _ hslash]
        refine ⟨hdrop,?_⟩
        rw [htake,segmentCleaned,segmentCleaned,creds,creds,List.rdropWhile_concat_pos _ _ _ hno,
          List.rtakeWhile_concat_pos _ _ _ hno,List.append_assoc]
      · rw [List.rdropWhile_concat_neg _ _ _ hslash,List.rtakeWhile_concat_neg _ _ _ hslash,
          List.rdropWhile_concat_neg _ _ _ hslash,List.rtakeWhile_concat_neg _ _ _ hslash,
          cleanedAll_concat,cleaned,if_neg hat]
        exact ⟨rfl,by simp [segmentCleaned,creds,mask]⟩

/-- A text without a slash. -/
theorem cleanedAll_segment (maskCreds : Bool) {seg : List α} (hseg : ∀ c ∈ seg, notSlash k c) :
    cleanedAll k maskCreds seg = segmentCleaned k maskCreds seg := by
  obtain ⟨hdrop,htake⟩ := cleanedAll_last k maskCreds seg
  rw [List.rdropWhile_eq_nil_iff.mpr hseg] at hdrop
  rw [List.rtakeWhile_eq_self_iff.mpr hseg] at htake
  rw [← htake,← List.rdropWhile_append_rtakeWhile (p := notSlash k) (l := cleanedAll k maskCreds seg),hdrop]
  simp [cleanedAll,List.rtakeWhile_idempotent]

/-- One more segment. -/
theorem cleanedAll_append_slash (maskCreds : Bool) (text : List α) {s : α} {seg : List α}
    (hs : k.byte s = code '/') (hseg : ∀ c ∈ seg, notSlash k c) :
    cleanedAll k maskCreds (text ++ s :: seg) =
      cleanedAll k maskCreds text ++ s :: segmentCleaned k maskCreds seg := by
  have hnot : ¬ notSlash k s = true := by simp [notSlash,hs]
  have hat : ¬ k.byte s = code '@' := by
    rw [hs]
    decide
  have hsplit : text ++ s :: seg = (text ++ [s]) ++ seg := by simp
  obtain ⟨hdrop,htake⟩ := cleanedAll_last k maskCreds (text ++ s :: seg)
  rw [hsplit,rdropWhile_append_of_all _ hseg,List.rdropWhile_concat_neg _ _ _ hnot,← hsplit,
    cleanedAll_concat,cleaned,if_neg hat] at hdrop
  rw [hsplit,rtakeWhile_append_of_all _ hseg,List.rtakeWhile_concat_neg _ _ _ hnot,List.nil_append,
    ← hsplit] at htake
  calc cleanedAll k maskCreds (text ++ s :: seg)
      = (cleanedAll k maskCreds (text ++ s :: seg)).rdropWhile (notSlash k) ++
          (cleanedAll k maskCreds (text ++ s :: seg)).rtakeWhile (notSlash k) :=
        List.rdropWhile_append_rtakeWhile.symm
    _ = cleanedAll k maskCreds text ++ s :: segmentCleaned k maskCreds seg := by
        rw [hdrop,htake,List.append_assoc,List.singleton_append]

/-- Every text is a segment, or a text and one more segment. -/
theorem segments_induction {P : List α → Prop} (hone : ∀ seg, (∀ c ∈ seg, notSlash k c) → P seg)
    (hmore : ∀ text s seg, k.byte s = code '/' → (∀ c ∈ seg, notSlash k c) → P text →
      P (text ++ s :: seg)) (text : List α) : P text := by
  induction hn : text.length using Nat.strong_induction_on generalizing text with
  | h n ih =>
    have hseg : ∀ c ∈ text.rtakeWhile (notSlash k), notSlash k c := fun c hc =>
      List.mem_rtakeWhile_imp hc
    have hsplit : text.rdropWhile (notSlash k) ++ text.rtakeWhile (notSlash k) = text :=
      List.rdropWhile_append_rtakeWhile
    rcases List.eq_nil_or_concat' (text.rdropWhile (notSlash k)) with hnil | ⟨pre,s,hpre⟩
    · rw [hnil,List.nil_append] at hsplit
      rw [← hsplit]
      exact hone _ hseg
    · have hs : ¬ notSlash k s = true := by
        have hlast := List.rdropWhile_last_not (notSlash k) text (by rw [hpre]; simp)
        simpa [hpre] using hlast
      rw [hpre,List.append_assoc,List.singleton_append] at hsplit
      rw [← hsplit]
      refine hmore pre s _ (by simpa [notSlash] using hs) hseg (ih pre.length ?_ pre rfl)
      rw [← hn,← hsplit,List.length_append,List.length_cons]
      omega

end Spec
end Url
end PhpAgent
