import PhpAgent.Lib.CString
import PhpAgent.Util.Object

/-! The URL of an SQS queue, after `lib_aws_sdk_php.c`. Pointers count from the start of the URL, which is
cut in place. -/
namespace PhpAgent

open Json (code)
open CString (stringAt beginsWith strempty append_cons_inj)

/-- The three members of the message parameters and the cloud attributes; `none` is NULL. -/
structure QueueFields where
  destinationName : Option ℤ
  cloudAccountId : Option ℤ
  cloudRegion : Option ℤ
deriving DecidableEq

namespace SqsQueueUrl

def queueurlPrefix : Bytes := ascii "https://sqs."
def queueurlAwsPostfix : Bytes := ascii "amazonaws.com/"

/-- The members once everything was found. -/
def found (region account queue : ℕ) : QueueFields := ⟨some queue,some account,some region⟩

/-- The end of the parser, at the name of the queue. -/
def parseQueue (mem : Bytes) (fields : QueueFields) (region account pos : ℕ) : Bytes × QueueFields :=
  if strempty mem pos then (mem,fields)
  else
    let queue := pos
    match CString.strchr mem pos (code '/') with
    | none => (mem,found region account queue)
    | some pos =>
      let mem := mem.set pos 0
      -- the byte is incremented, not the pointer
      let mem := mem.modify pos (· + 1)
      if strempty mem pos then (mem,found region account queue) else (mem,fields)

/-- The parser from behind the region. -/
def parseAccount (mem : Bytes) (fields : QueueFields) (region pos : ℕ) : Bytes × QueueFields :=
  if strempty mem pos then (mem,fields)
  else if beginsWith mem pos queueurlAwsPostfix = false then (mem,fields)
  else
    let pos := pos+queueurlAwsPostfix.length
    if strempty mem pos then (mem,fields)
    else
      let account := pos
      match CString.strchr mem pos (code '/') with
      | none => (mem,fields)
      | some pos => parseQueue (mem.set pos 0) fields region account (pos+1)

/-- `nr_lib_aws_sdk_php_sqs_parse_queueurl`: the memory of the URL and the members afterwards. -/
def parseQueueurl (mem : Bytes) (fields : QueueFields) : Bytes × QueueFields :=
  if beginsWith mem 0 queueurlPrefix = false then (mem,fields)
  else
    let pos := queueurlPrefix.length
    if strempty mem pos then (mem,fields)
    else
      let region := pos
      match CString.strchr mem pos (code '.') with
      | none => (mem,fields)
      | some pos => parseAccount (mem.set pos 0) fields region (pos+1)

/-! ### What each part accepts -/

section Parts
variable {a t r : Bytes} (fields : QueueFields) (region account : ℕ)

lemma strempty_append (ht : (0 : UInt8) ∉ t) : strempty (a ++ (t ++ 0 :: r)) a.length = decide (t = []) := by
  rw [strempty,CString.stringAt_append ht]

lemma beginsWith_append (ht : (0 : UInt8) ∉ t) (text : Bytes) :
    beginsWith (a ++ (t ++ 0 :: r)) a.length text = text.isPrefixOf t := by
  rw [beginsWith,CString.stringAt_append ht]

/-- A name of a queue is taken when nothing else is left. -/
theorem parseQueue_spec (ht : (0 : UInt8) ∉ t) :
    (t ≠ [] ∧ code '/' ∉ t ∧ parseQueue (a ++ (t ++ 0 :: r)) fields region account a.length =
        (a ++ (t ++ 0 :: r),found region account a.length)) ∨
      ((t = [] ∨ code '/' ∈ t) ∧
        (parseQueue (a ++ (t ++ 0 :: r)) fields region account a.length).2 = fields) := by
  unfold parseQueue
  rw [strempty_append ht]
  by_cases hnil : t = []
  · simp [hnil]
  · simp only [hnil,decide_false,Bool.false_eq_true,if_false]
    by_cases hslash : code '/' ∈ t
    · obtain ⟨queue,rest,rfl,hqueue⟩ := List.eq_append_cons_of_mem hslash
      rw [CString.strchr_append ht hqueue]
      refine .inr ⟨.inr hslash,?_⟩
      simp only
      rw [List.append_assoc queue,List.cons_append,CString.set_append_append,
        CString.modify_append_append]
      have hrest : (0 : UInt8) ∉ rest := fun h => ht (by simp [h])
      -- the increment makes a byte of one of the zero, so that the string is not empty there
      have hfull : strempty (a ++ (queue ++ (0+1) :: (rest ++ 0 :: r))) (a.length+queue.length) = false := by
        have hstring := strempty_append (a := a ++ queue) (t := (0+1) :: rest) (r := r)
          (by simpa using hrest)
        rw [List.length_append,List.append_assoc] at hstring
        simpa using hstring
      rw [hfull]
      rfl
    · rw [CString.strchr_none ht hslash]
      exact .inl ⟨hnil,hslash,rfl⟩

/-- What stands behind the region. -/
structure AfterRegion (t account queue : Bytes) : Prop where
  text : t = queueurlAwsPostfix ++ (account ++ code '/' :: queue)
  account : code '/' ∉ account
  queue : code '/' ∉ queue ∧ queue ≠ []

lemma parseAccount_spec (ht : (0 : UInt8) ∉ t) :
    (∃ account queue, AfterRegion t account queue ∧
      parseAccount (a ++ (t ++ 0 :: r)) fields region a.length =
        (a ++ (queueurlAwsPostfix ++ (account ++ 0 :: (queue ++ 0 :: r))),
          found region (a.length+queueurlAwsPostfix.length)
            (a.length+queueurlAwsPostfix.length+account.length+1))) ∨
      ((¬ ∃ account queue, AfterRegion t account queue) ∧
        (parseAccount (a ++ (t ++ 0 :: r)) fields region a.length).2 = fields) := by
  unfold parseAccount
  rw [strempty_append ht,beginsWith_append ht]
  by_cases hpre : queueurlAwsPostfix.isPrefixOf t = true
  · obtain ⟨u,rfl⟩ := List.isPrefixOf_iff_prefix.mp hpre
    have hu : (0 : UInt8) ∉ u := fun h => ht (List.mem_append_right _ h)
    have hne : queueurlAwsPostfix ++ u ≠ [] := by simp [queueurlAwsPostfix,ascii]
    have hmem : a ++ (queueurlAwsPostfix ++ u ++ 0 :: r) = (a ++ queueurlAwsPostfix) ++ (u ++ 0 :: r) := by
      simp only [List.append_assoc]
    simp only [hne,decide_false,Bool.false_eq_true,if_false,hpre]
    rw [← List.length_append,hmem,strempty_append hu]
    by_cases hslash : code '/' ∈ u
    · obtain ⟨account,rest,rfl,haccount⟩ := List.eq_append_cons_of_mem hslash
      have hrest : (0 : UInt8) ∉ rest := fun h => hu (by simp [h])
      have hne' : account ++ code '/' :: rest ≠ [] := by simp
      have hcut : (a ++ queueurlAwsPostfix ++ (account ++ code '/' :: rest ++ 0 :: r)).set
          ((a ++ queueurlAwsPostfix).length+account.length) 0 =
            (a ++ queueurlAwsPostfix ++ (account ++ [0])) ++ (rest ++ 0 :: r) := by
        rw [List.append_assoc account,List.cons_append,CString.set_append_append]
        simp
      have hlen : (a ++ queueurlAwsPostfix).length+account.length+1 =
          (a ++ queueurlAwsPostfix ++ (account ++ [0])).length := by
        simp only [List.length_append,List.length_singleton]
        omega
      simp only [hne',decide_false,Bool.false_eq_true,if_false]
      rw [CString.strchr_append hu haccount]
      simp only
      rw [hcut,hlen]
      rcases parseQueue_spec (a := a ++ queueurlAwsPostfix ++ (account ++ [0])) (r := r) fields region
        (a ++ queueurlAwsPostfix).length hrest with ⟨hfull,hno,hparse⟩ | ⟨hbad,hparse⟩
      · refine .inl ⟨account,rest,⟨rfl,haccount,hno,hfull⟩,?_⟩
        rw [hparse,← hlen]
        simp only [Bool.true_eq_false,if_false,List.append_assoc,List.cons_append,List.nil_append]
      · refine .inr ⟨?_,hparse⟩
        rintro ⟨account',queue,h⟩
        obtain ⟨rfl,rfl⟩ := append_cons_inj haccount h.account (List.append_cancel_left h.text)
        rcases hbad with hnil | hin
        · exact h.queue.2 hnil
        · exact h.queue.1 hin
    · refine .inr ⟨?_,?_⟩
      · rintro ⟨account,queue,h⟩
        have hu' := List.append_cancel_left h.text
        exact hslash (by simp [hu'])
      · rw [CString.strchr_none hu hslash]
        split_ifs <;> rfl
  · have hnot : ¬ ∃ account queue, AfterRegion t account queue := by
      rintro ⟨account,queue,h⟩
      rw [h.text] at hpre
      exact hpre (by simp)
    rw [Bool.not_eq_true] at hpre
    refine .inr ⟨hnot,?_⟩
    by_cases hnil : t = []
    · simp [hnil]
    · simp [hnil,hpre]

/-- The texts around the region, the account and the queue. -/
structure Parts (s region account queue : Bytes) : Prop where
  text : ∃ t, s = queueurlPrefix ++ (region ++ code '.' :: t) ∧ AfterRegion t account queue
  region : code '.' ∉ region

lemma parseQueueurl_spec (ht : (0 : UInt8) ∉ t) :
    (∃ region account queue, Parts t region account queue ∧
      parseQueueurl (t ++ 0 :: r) fields =
        (queueurlPrefix ++ (region ++ 0 :: (queueurlAwsPostfix ++ (account ++ 0 :: (queue ++ 0 :: r)))),
          found queueurlPrefix.length
            (queueurlPrefix.length+region.length+1+queueurlAwsPostfix.length)
            (queueurlPrefix.length+region.length+1+queueurlAwsPostfix.length+account.length+1))) ∨
      ((¬ ∃ region account queue, Parts t region account queue) ∧
        (parseQueueurl (t ++ 0 :: r) fields).2 = fields) := by
  unfold parseQueueurl
  have hbegins := beginsWith_append (a := []) (r := r) ht queueurlPrefix
  rw [List.nil_append,List.length_nil] at hbegins
  rw [hbegins]
  by_cases hpre : queueurlPrefix.isPrefixOf t = true
  · obtain ⟨u,rfl⟩ := List.isPrefixOf_iff_prefix.mp hpre
    have hu : (0 : UInt8) ∉ u := fun h => ht (List.mem_append_right _ h)
    simp only [hpre,Bool.true_eq_false,if_false]
    rw [List.append_assoc,strempty_append hu]
    by_cases hdot : code '.' ∈ u
    · obtain ⟨region,rest,rfl,hregion⟩ := List.eq_append_cons_of_mem hdot
      have hrest : (0 : UInt8) ∉ rest := fun h => hu (by simp [h])
      have hne' : region ++ code '.' :: rest ≠ [] := by simp
      have hcut : (queueurlPrefix ++ (region ++ code '.' :: rest ++ 0 :: r)).set
          (queueurlPrefix.length+region.length) 0 =
            (queueurlPrefix ++ (region ++ [0])) ++ (rest ++ 0 :: r) := by
        rw [List.append_assoc region,List.cons_append,CString.set_append_append]
        simp
      have hlen : queueurlPrefix.length+region.length+1 = (queueurlPrefix ++ (region ++ [0])).length := by
        simp only [List.length_append,List.length_singleton]
        omega
      simp only [hne',decide_false,Bool.false_eq_true,if_false]
      rw [CString.strchr_append hu hregion]
      simp only
      rw [hcut,hlen]
      rcases parseAccount_spec (a := queueurlPrefix ++ (region ++ [0])) (r := r) fields
        queueurlPrefix.length hrest with ⟨account,queue,hafter,hparse⟩ | ⟨hnot,hparse⟩
      · refine .inl ⟨region,account,queue,⟨⟨rest,rfl,hafter⟩,hregion⟩,?_⟩
        rw [hparse,← hlen]
        simp only [List.append_assoc,List.cons_append,List.nil_append]
      · refine .inr ⟨?_,hparse⟩
        rintro ⟨region',account,queue,⟨t',htext,hafter⟩,hregion'⟩
        obtain ⟨rfl,rfl⟩ := append_cons_inj hregion hregion' (List.append_cancel_left htext)
        exact hnot ⟨account,queue,hafter⟩
    · refine .inr ⟨?_,?_⟩
      · rintro ⟨region,account,queue,⟨t',htext,-⟩,-⟩
        have hu' := List.append_cancel_left htext
        exact hdot (by simp [hu'])
      · rw [CString.strchr_none hu hdot]
        split_ifs <;> rfl
  · have hnot : ¬ ∃ region account queue, Parts t region account queue := by
      rintro ⟨region,account,queue,⟨t',rfl,-⟩,-⟩
      exact hpre (by simp)
    rw [Bool.not_eq_true] at hpre
    exact .inr ⟨hnot,by simp [hpre]⟩

end Parts

/-! ### The URLs that are asked for -/

/-- `https://sqs.R.amazonaws.com/A/Q`, with at most one slash at the end. -/
structure QueueUrl (s region account queue slash : Bytes) : Prop where
  text : s = queueurlPrefix ++ (region ++ code '.' ::
    (queueurlAwsPostfix ++ (account ++ code '/' :: (queue ++ slash))))
  slash : slash = [] ∨ slash = [code '/']
  region : code '.' ∉ region
  account : code '/' ∉ account
  queue : code '/' ∉ queue ∧ queue ≠ []

/-- The members point at these texts. -/
structure Points (mem : Bytes) (fields : QueueFields) (region account queue : Bytes) : Prop where
  region : ∃ pos : ℕ, fields.cloudRegion = some (pos : ℤ) ∧ stringAt mem pos = region
  account : ∃ pos : ℕ, fields.cloudAccountId = some (pos : ℤ) ∧ stringAt mem pos = account
  queue : ∃ pos : ℕ, fields.destinationName = some (pos : ℤ) ∧ stringAt mem pos = queue

/-- A URL that is asked for sets the members to its parts, and any other text leaves them. -/
def Decodes (s r : Bytes) (fields : QueueFields) : Prop :=
  (∀ region account queue slash, QueueUrl s region account queue slash → region ≠ [] → account ≠ [] →
    Points (parseQueueurl (s ++ 0 :: r) fields).1 (parseQueueurl (s ++ 0 :: r) fields).2
      region account queue) ∧
  ((¬ ∃ region account queue slash, QueueUrl s region account queue slash ∧ region ≠ [] ∧ account ≠ []) →
    (parseQueueurl (s ++ 0 :: r) fields).2 = fields)

/-- Without a slash at the end neither the region nor the account is empty; with one, one of them is. -/
def SlashOnlyWhenEmpty (s : Bytes) : Prop :=
  ∀ region account queue slash, QueueUrl s region account queue slash →
    (slash = [] ↔ region ≠ [] ∧ account ≠ [])

section Decoding
variable {s region account queue slash region' account' queue' slash' : Bytes}

lemma QueueUrl.unique (h : QueueUrl s region account queue slash)
    (h' : QueueUrl s region' account' queue' slash') :
    region = region' ∧ account = account' ∧ queue ++ slash = queue' ++ slash' := by
  have htext := h.text.symm.trans h'.text
  obtain ⟨hregion,hrest⟩ := append_cons_inj h.region h'.region (List.append_cancel_left htext)
  obtain ⟨haccount,hqueue⟩ := append_cons_inj h.account h'.account (List.append_cancel_left hrest)
  exact ⟨hregion,haccount,hqueue⟩

/-- The parser takes a URL without a slash at the end, whether its parts are empty or not. -/
theorem parts_iff : Parts s region account queue ↔ QueueUrl s region account queue [] := by
  constructor
  · rintro ⟨⟨t,rfl,⟨rfl,haccount,hqueue⟩⟩,hregion⟩
    exact ⟨by simp,.inl rfl,hregion,haccount,hqueue⟩
  · intro h
    exact ⟨⟨_,h.text,⟨by simp,h.account,h.queue⟩⟩,h.region⟩

lemma QueueUrl.not_parts (h : QueueUrl s region account queue [code '/']) :
    ¬ ∃ region account queue, Parts s region account queue := by
  rintro ⟨region',account',queue',hparts⟩
  have h' := parts_iff.mp hparts
  have hqueue := (h.unique h').2.2
  rw [List.append_nil] at hqueue
  exact h'.queue.1 (by simp [← hqueue])

/-- The members point at the parts after the cuts. -/
theorem points_found (hzero : (0 : UInt8) ∉ region ∧ (0 : UInt8) ∉ account ∧ (0 : UInt8) ∉ queue)
    (r : Bytes) :
    Points (queueurlPrefix ++ (region ++ 0 :: (queueurlAwsPostfix ++ (account ++ 0 :: (queue ++ 0 :: r)))))
      (found queueurlPrefix.length (queueurlPrefix.length+region.length+1+queueurlAwsPostfix.length)
        (queueurlPrefix.length+region.length+1+queueurlAwsPostfix.length+account.length+1))
      region account queue := by
  refine ⟨⟨_,rfl,CString.stringAt_append hzero.1 _ _⟩,⟨_,rfl,?_⟩,⟨_,rfl,?_⟩⟩
  · have hstring := CString.stringAt_append hzero.2.1 (queueurlPrefix ++ (region ++ 0 :: queueurlAwsPostfix))
      (queue ++ 0 :: r)
    have hlen : (queueurlPrefix ++ (region ++ 0 :: queueurlAwsPostfix)).length =
        queueurlPrefix.length+region.length+1+queueurlAwsPostfix.length := by
      simp only [List.length_append,List.length_cons]
      omega
    rw [hlen] at hstring
    simpa only [List.append_assoc,List.cons_append] using hstring
  · have hstring := CString.stringAt_append hzero.2.2
      (queueurlPrefix ++ (region ++ 0 :: (queueurlAwsPostfix ++ (account ++ [0])))) r
    have hlen : (queueurlPrefix ++ (region ++ 0 :: (queueurlAwsPostfix ++ (account ++ [0])))).length =
        queueurlPrefix.length+region.length+1+queueurlAwsPostfix.length+account.length+1 := by
      simp only [List.length_append,List.length_cons,List.length_nil]
      omega
    rw [hlen] at hstring
    simpa only [List.append_assoc,List.cons_append,List.nil_append] using hstring

/-- The parser decodes a text as it should, whatever the members were before, exactly when the text has a
slash at the end only if its region or its account is empty. -/
theorem decodes_iff (hzero : (0 : UInt8) ∉ s) :
    (∀ r fields, Decodes s r fields) ↔ SlashOnlyWhenEmpty s := by
  constructor
  · intro hdecodes region account queue slash h
    obtain ⟨hsets,hleaves⟩ := hdecodes [] ⟨none,none,none⟩
    rcases h.slash with rfl | rfl
    · simp only [true_iff]
      by_contra hempty
      have hno : ¬ ∃ region account queue slash, QueueUrl s region account queue slash ∧
          region ≠ [] ∧ account ≠ [] := by
        rintro ⟨region',account',queue',slash',h',hnonempty⟩
        obtain ⟨rfl,rfl,-⟩ := h.unique h'
        exact hempty hnonempty
      rcases parseQueueurl_spec (r := []) ⟨none,none,none⟩ hzero with
        ⟨region',account',queue',-,hparse⟩ | ⟨hnot,-⟩
      · have hsame := hleaves hno
        rw [hparse] at hsame
        cases hsame
      · exact hnot ⟨region,account,queue,parts_iff.mpr h⟩
    · simp only [List.cons_ne_nil,false_iff]
      rintro ⟨hregion,haccount⟩
      have hpoints := hsets region account queue _ h hregion haccount
      rcases parseQueueurl_spec (r := []) ⟨none,none,none⟩ hzero with
        ⟨region',account',queue',hparts,-⟩ | ⟨-,hparse⟩
      · exact h.not_parts ⟨_,_,_,hparts⟩
      · rw [hparse] at hpoints
        obtain ⟨pos,hpos,-⟩ := hpoints.region
        cases hpos
  · intro hslash r fields
    constructor
    · intro region account queue slash h hregion haccount
      obtain rfl := (hslash region account queue slash h).mpr ⟨hregion,haccount⟩
      rcases parseQueueurl_spec (r := r) fields hzero with
        ⟨region',account',queue',hparts,hparse⟩ | ⟨hnot,-⟩
      · obtain ⟨rfl,rfl,hqueue⟩ := h.unique (parts_iff.mp hparts)
        obtain rfl : queue = queue' := by simpa using hqueue
        rw [hparse]
        refine points_found ?_ r
        have htext := h.text
        rw [htext] at hzero
        simp only [List.mem_append,List.mem_cons,not_or] at hzero
        exact ⟨hzero.2.1,hzero.2.2.2.2.1,hzero.2.2.2.2.2.2.1⟩
      · exact absurd ⟨_,_,_,parts_iff.mpr h⟩ hnot
    · intro hno
      rcases parseQueueurl_spec (r := r) fields hzero with
        ⟨region,account,queue,hparts,-⟩ | ⟨-,hparse⟩
      · have h := parts_iff.mp hparts
        exact absurd ⟨_,_,_,_,h,(hslash _ _ _ _ h).mp rfl⟩ hno
      · exact hparse

end Decoding

def sampleUrl : Bytes := ascii "https://sqs.us.amazonaws.com/1/q"

/-- The members point at the region, the account and the name of the queue. -/
theorem decodes_sample :
    Points (parseQueueurl (sampleUrl ++ [0]) ⟨none,none,none⟩).1
      (parseQueueurl (sampleUrl ++ [0]) ⟨none,none,none⟩).2 (ascii "us") (ascii "1") (ascii "q") := by
  have hurl : QueueUrl sampleUrl (ascii "us") (ascii "1") (ascii "q") [] :=
    ⟨by decide,.inl rfl,by decide,by decide,by decide⟩
  have hslash : SlashOnlyWhenEmpty sampleUrl := by
    intro region account queue slash h
    obtain ⟨rfl,rfl,hqueue⟩ := hurl.unique h
    rcases h.slash with rfl | rfl
    · decide
    · have hlast : some (code 'q') = some (code '/') :=
        (congrArg List.getLast? hqueue).trans List.getLast?_concat
      cases hlast
  exact ((decodes_iff (by decide)).mpr hslash [] ⟨none,none,none⟩).1 _ _ _ _ hurl (by decide) (by decide)

/-- A URL with a slash at the end is not decoded. -/
theorem not_decodes : ¬ ∀ (s r : Bytes) (fields : QueueFields), (0 : UInt8) ∉ s → Decodes s r fields := by
  intro h
  have hurl : QueueUrl (ascii "https://sqs.us.amazonaws.com/1/q/") (ascii "us") (ascii "1") (ascii "q")
      [code '/'] :=
    ⟨by decide,.inr rfl,by decide,by decide,by decide⟩
  have hleft : (parseQueueurl (ascii "https://sqs.us.amazonaws.com/1/q/" ++ 0 :: [])
      ⟨none,none,none⟩).2 = ⟨none,none,none⟩ := by
    decide
  have hpoints := (h (ascii "https://sqs.us.amazonaws.com/1/q/") [] ⟨none,none,none⟩ (by decide)).1
    _ _ _ _ hurl (by decide) (by decide)
  rw [hleft] at hpoints
  obtain ⟨pos,hpos,-⟩ := hpoints.region
  cases hpos

end SqsQueueUrl
end PhpAgent
